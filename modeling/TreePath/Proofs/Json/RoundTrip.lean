/-
**Documents that are read back.**

What is written of a document is read as that document, wherever it stands in a text and whatever
follows it, provided that the keys of its objects are in order, that its numbers are read back, and
that it is nested no deeper than the reader goes.  The first two are properties of the document at
every depth (`Json.Legible`); the last one is exact: a document that is nested deeper is refused.

The induction is on the document.  For each part it gives one form, which the reader finds in front
of any text before which a number ends, with a count of levels that grows with the length of what is
written; and it says of that form what it means within each limit.

Main definitions:

* `Json.depth` — how deep arrays and objects are nested;
* `Json.Legible` — ordered keys, and numbers that are read back;
* `Json.ReadAs` — what is written of a document is read as a form.

Main results:

* `Json.readAs_array`, `Json.readAs_object` — forms of arrays and objects;
* `Json.Legible.exists_readAs` — every legible document is read as some form;
* `Json.Legible.parse?_text` — **the round trip**: the text of a legible document is read as that
  document exactly when it is nested no deeper than the limit.
-/

import Mathlib.Data.List.Forall2
import TreePath.Proofs.Json.Numbers
import TreePath.Proofs.Json.Texts

set_option relaxedAutoImplicit false
set_option autoImplicit false

namespace TreePath

/-! ### Reading the parts of a text -/

namespace Document

/-- A word is read where it stands. -/
theorem word?_append (word : String) (rest : List Char) :
    word? word (word.toList ++ rest) = some rest := by
  simp [word?, String.length]

theorem value?_null (levels : Nat) (rest : List Char) :
    value? (levels + 1) ("null".toList ++ rest) = some (.null, rest) :=
  congrArg (Option.map fun rest => (null, rest)) (word?_append "ull" rest)

theorem value?_true (levels : Nat) (rest : List Char) :
    value? (levels + 1) ("true".toList ++ rest) = some (.bool true, rest) :=
  congrArg (Option.map fun rest => (bool true, rest)) (word?_append "rue" rest)

theorem value?_false (levels : Nat) (rest : List Char) :
    value? (levels + 1) ("false".toList ++ rest) = some (.bool false, rest) :=
  congrArg (Option.map fun rest => (bool false, rest)) (word?_append "alse" rest)

theorem value?_string (levels : Nat) (s : List Char) : value? (levels + 1) ('\x22' :: s) =
    (pieces? s).map fun (pieces, rest) => (.string pieces, rest) := rfl

/-- An array whose first element starts with a character of its own. -/
theorem value?_array (levels : Nat) {c : Char} (hc : isBlank c = false) (hend : c ≠ ']')
    (s : List Char) : value? (levels + 1) ('[' :: c :: s) =
      (items? levels (c :: s)).map fun (items, rest) => (.array items, rest) := by
  have hskip : skipBlank (c :: s) = c :: s := skipBlank_of_stops ((stops_cons _ _ _).2 hc)
  rw [value?, show skipBlank ('[' :: c :: s) = '[' :: c :: s from rfl]
  simp only [hskip]
  split
  · next heq => exact absurd (List.cons.inj heq).1 hend
  · rfl

theorem value?_object (levels : Nat) (s : List Char) :
    value? (levels + 1) ('\x7b' :: '\x22' :: s) =
      (members? levels ('\x22' :: s)).map fun (members, rest) => (.object members, rest) := rfl

variable {levels : Nat} {s t after : List Char} {key : List Piece} {d : Document}

theorem items?_last (h : value? levels s = some (d, ']' :: after)) :
    items? (levels + 1) s = some ([d], after) := by
  rw [items?, h]
  rfl

theorem items?_more (h : value? levels s = some (d, ',' :: t)) :
    items? (levels + 1) s = (items? levels t).map fun (more, rest) => (d :: more, rest) := by
  rw [items?, h]
  rfl

/-- The first member of an object, up to its value. -/
theorem members?_quote (hkey : pieces? s = some (key, ':' :: t)) :
    members? (levels + 1) ('\x22' :: s) =
      match value? levels t with
      | none => none
      | some (v, rest) =>
        match skipBlank rest with
        | ',' :: rest => (members? levels rest).map fun (more, rest) => ((key, v) :: more, rest)
        | '\x7d' :: rest => some ([(key, v)], rest)
        | _ => none := by
  rw [members?, show skipBlank ('\x22' :: s) = '\x22' :: s from rfl]
  split
  · next heq =>
      cases heq
      rw [hkey]
      rfl
  · next hne => exact absurd rfl (hne s)

theorem members?_last (hkey : pieces? s = some (key, ':' :: t))
    (h : value? levels t = some (d, '\x7d' :: after)) :
    members? (levels + 1) ('\x22' :: s) = some ([(key, d)], after) := by
  rw [members?_quote hkey, h]
  rfl

theorem members?_more {u : List Char} (hkey : pieces? s = some (key, ':' :: t))
    (h : value? levels t = some (d, ',' :: u)) : members? (levels + 1) ('\x22' :: s) =
      (members? levels u).map fun (more, rest) => ((key, d) :: more, rest) := by
  rw [members?_quote hkey, h]
  rfl

end Document

namespace Json

/-! ### Depth -/

mutual

/-- How deep arrays and objects are nested. -/
def depth : Json → Nat
  | .array items => depthItems items + 1
  | .object members => depthMembers members + 1
  | .null | .bool _ | .number _ | .string _ => 0

/-- How deep the deepest element is nested. -/
def depthItems : List Json → Nat
  | [] => 0
  | v :: rest => max v.depth (depthItems rest)

/-- How deep the deepest member is nested. -/
def depthMembers : List (String × Json) → Nat
  | [] => 0
  | (_, v) :: rest => max v.depth (depthMembers rest)

end

theorem depthItems_le_iff {items : List Json} {n : Nat} :
    depthItems items ≤ n ↔ ∀ v ∈ items, v.depth ≤ n := by
  induction items with
  | nil => simp [depthItems]
  | cons v rest ih => rw [depthItems, Nat.max_le, ih, List.forall_mem_cons]

theorem depthMembers_le_iff {members : List (String × Json)} {n : Nat} :
    depthMembers members ≤ n ↔ ∀ e ∈ members, e.2.depth ≤ n := by
  induction members with
  | nil => simp [depthMembers]
  | cons e rest ih => rw [depthMembers, Nat.max_le, ih, List.forall_mem_cons]

/-! ### Legible documents -/

/-- At every depth the keys of objects are in order and the numbers are read back. -/
inductive Legible : Json → Prop
  | null : Legible .null
  | bool (b : Bool) : Legible (.bool b)
  | number {n : Number} (reads : n.ReadsBack) : Legible (.number n)
  | string (s : String) : Legible (.string s)
  | array {items : List Json} (h : ∀ v ∈ items, Legible v) : Legible (.array items)
  | object {members : List (String × Json)} (ascending : Entries.Ascending members)
      (h : ∀ e ∈ members, Legible e.2) : Legible (.object members)

/-! ### What is read of what is written -/

/-- What is written of a document is read as a form, which means the document within every limit
that its depth does not exceed, and nothing within any other. -/
structure ReadAs (j : Json) (d : Document) : Prop where
  /-- It starts with a character that is neither a blank nor the end of an array. -/
  starts : ∃ c t, j.write = c :: t ∧ Document.isBlank c = false ∧ c ≠ ']'
  /-- The form is found in front of every text before which a number ends. -/
  reads : ∀ (rest : List Char) (levels : Nat), Document.EndsNumber rest →
    2 * j.write.length ≤ levels → Document.value? levels (j.write ++ rest) = some (d, rest)
  /-- The form means the document. -/
  means : ∀ depth, ofDocument? depth d = if j.depth ≤ depth then some j else none

theorem ReadAs.of_scalar {j : Json} {d : Document}
    (starts : ∃ c t, j.write = c :: t ∧ Document.isBlank c = false ∧ c ≠ ']')
    (reads : ∀ (rest : List Char) (levels : Nat), Document.EndsNumber rest →
      Document.value? (levels + 1) (j.write ++ rest) = some (d, rest))
    (flat : j.depth = 0) (means : ∀ depth, ofDocument? depth d = some j) : ReadAs j d where
  starts := starts
  reads rest levels hrest hlevels := by
    obtain ⟨c, t, hwrite, -⟩ := starts
    obtain ⟨k, rfl⟩ : ∃ k, levels = k + 1 := ⟨levels - 1, by simp [hwrite] at hlevels; omega⟩
    exact reads rest k hrest
  means depth := by rw [means, flat, if_pos (Nat.zero_le _)]

theorem readAs_null : ReadAs .null .null :=
  .of_scalar ⟨_, _, rfl, rfl, by decide⟩ (fun rest levels _ => Document.value?_null levels rest) rfl
    fun _ => by rw [ofDocument?]

theorem readAs_bool (b : Bool) : ReadAs (.bool b) (.bool b) := by
  cases b with
  | true =>
      exact .of_scalar ⟨_, _, rfl, rfl, by decide⟩
        (fun rest levels _ => Document.value?_true levels rest) rfl fun _ => by rw [ofDocument?]
  | false =>
      exact .of_scalar ⟨_, _, rfl, rfl, by decide⟩
        (fun rest levels _ => Document.value?_false levels rest) rfl fun _ => by rw [ofDocument?]

theorem readAs_string (s : String) : ReadAs (.string s) (.string (s.toList.map Piece.ofChar)) := by
  refine .of_scalar ⟨_, _, rfl, rfl, by decide⟩ (fun rest levels _ => ?_) rfl fun _ => ?_
  · have hquote := Document.pieces?_quote s.toList rest
    rw [write, quote, List.append_assoc, List.singleton_append, List.cons_append,
      Document.value?_string, hquote, Option.map_some]
  · rw [ofDocument?, textOfPieces?_map_ofChar, Option.map_some]

theorem exists_readAs_number {n : Number} (h : n.ReadsBack) : ∃ d, ReadAs (.number n) d := by
  obtain ⟨form, hform, hmeans⟩ := Number.readsBack_iff.1 h
  obtain ⟨c, t, hwrite, hc⟩ := Document.exists_cons_of_number? hform
  refine ⟨.number form, .of_scalar ⟨c, t, hwrite, ?_, ?_⟩ (fun rest levels hrest => ?_) rfl
    fun _ => ?_⟩
  · exact Document.isBlank_eq_false_of_isNumberChar
      (n.isNumberChar_write c (hwrite ▸ List.mem_cons_self))
  · rintro rfl
    simp at hc
  · exact Document.value?_of_number? (Document.number?_append hrest hform) levels
  · rw [ofDocument?, hmeans, Option.map_some]

/-! ### Elements and members -/

/-- Within a limit, elements mean what their forms do when all of them stay within it. -/
theorem itemsOfDocuments?_eq {items : List Json} {ds : List Document}
    (h : List.Forall₂ ReadAs items ds) (depth : Nat) :
    itemsOfDocuments? depth ds = if depthItems items ≤ depth then some items else none := by
  induction h with
  | nil => rw [itemsOfDocuments?, depthItems, if_pos (Nat.zero_le _)]
  | @cons v d rest ds hd _ ih =>
      rw [itemsOfDocuments?, hd.means, ih]
      have hboth : depthItems (v :: rest) ≤ depth ↔ v.depth ≤ depth ∧ depthItems rest ≤ depth :=
        Nat.max_le
      by_cases hv : v.depth ≤ depth
      · by_cases hall : depthItems rest ≤ depth
        · simp [hboth, hv, hall]
        · simp [hboth, hv, hall]
      · simp [hboth, hv]

/-- Elements that are read are read as the elements of an array. -/
theorem items?_eq {v : Json} {rest : List Json} {ds : List Document}
    (h : List.Forall₂ ReadAs (v :: rest) ds) (after : List Char) {levels : Nat}
    (hlevels : 2 * (writeItems (v :: rest)).length < levels) :
    Document.items? levels (writeItems (v :: rest) ++ ']' :: after) = some (ds, after) := by
  induction rest generalizing v ds levels with
  | nil =>
      obtain ⟨d, ds, hd, hds, rfl⟩ := List.forall₂_cons_left_iff.1 h
      obtain rfl := List.forall₂_nil_left_iff.1 hds
      obtain ⟨k, rfl⟩ : ∃ k, levels = k + 1 := ⟨levels - 1, by omega⟩
      rw [writeItems] at hlevels ⊢
      exact Document.items?_last (hd.reads _ _ (by simp [Document.EndsNumber]) (by omega))
  | cons w rest ih =>
      obtain ⟨d, ds, hd, hds, rfl⟩ := List.forall₂_cons_left_iff.1 h
      obtain ⟨k, rfl⟩ : ∃ k, levels = k + 1 := ⟨levels - 1, by omega⟩
      rw [writeItems, List.length_append, List.length_cons] at hlevels
      rw [writeItems, List.append_assoc, List.cons_append,
        Document.items?_more (hd.reads _ _ (by simp [Document.EndsNumber]) (by omega)),
        ih hds (by omega), Option.map_some]

/-- A member is read as its key and the form of its value. -/
def MemberReadAs (e : String × Json) (f : List Piece × Document) : Prop :=
  f.1 = e.1.toList.map Piece.ofChar ∧ ReadAs e.2 f.2

/-- Within a limit, members mean what their forms do when all of them stay within it. -/
theorem membersOfDocuments?_eq {members : List (String × Json)} {fs : List (List Piece × Document)}
    (h : List.Forall₂ MemberReadAs members fs) (depth : Nat) :
    membersOfDocuments? depth fs = if depthMembers members ≤ depth then some members else none := by
  induction h with
  | nil => rw [membersOfDocuments?, depthMembers, if_pos (Nat.zero_le _)]
  | @cons e f rest fs hf _ ih =>
      obtain ⟨k, v⟩ := e
      obtain ⟨key, d⟩ := f
      obtain ⟨rfl, hd⟩ : key = k.toList.map Piece.ofChar ∧ ReadAs v d := hf
      rw [membersOfDocuments?, textOfPieces?_map_ofChar, hd.means, ih]
      have hboth : depthMembers ((k, v) :: rest) ≤ depth ↔
          v.depth ≤ depth ∧ depthMembers rest ≤ depth := Nat.max_le
      by_cases hv : v.depth ≤ depth
      · by_cases hall : depthMembers rest ≤ depth
        · simp [hboth, hv, hall]
        · simp [hboth, hv, hall]
      · simp [hboth, hv]

/-- A key and its value, in front of a text, up to the value. -/
theorem pieces?_member (k : String) (v : Json) (after : List Char) :
    ∃ s, quote k ++ ':' :: v.write ++ after = '\x22' :: s ∧
      Document.pieces? s = some (k.toList.map Piece.ofChar, ':' :: (v.write ++ after)) := by
  refine ⟨_, ?_, Document.pieces?_quote k.toList (':' :: (v.write ++ after))⟩
  simp [quote]

/-- Members that are read are read as the members of an object. -/
theorem members?_eq {e : String × Json} {rest : List (String × Json)}
    {fs : List (List Piece × Document)} (h : List.Forall₂ MemberReadAs (e :: rest) fs)
    (after : List Char) {levels : Nat} (hlevels : 2 * (writeMembers (e :: rest)).length < levels) :
    Document.members? levels (writeMembers (e :: rest) ++ '\x7d' :: after) = some (fs, after) := by
  induction rest generalizing e fs levels with
  | nil =>
      obtain ⟨⟨key, d⟩, fs, hf, hfs, rfl⟩ := List.forall₂_cons_left_iff.1 h
      obtain rfl := List.forall₂_nil_left_iff.1 hfs
      obtain ⟨k, v⟩ := e
      obtain ⟨rfl, hd⟩ : key = k.toList.map Piece.ofChar ∧ ReadAs v d := hf
      obtain ⟨n, rfl⟩ : ∃ n, levels = n + 1 := ⟨levels - 1, by omega⟩
      obtain ⟨s, hs, hkey⟩ := pieces?_member k v ('\x7d' :: after)
      rw [writeMembers] at hlevels ⊢
      rw [hs]
      refine Document.members?_last hkey (hd.reads _ _ (by simp [Document.EndsNumber]) ?_)
      simp only [List.length_append, List.length_cons] at hlevels
      omega
  | cons g rest ih =>
      obtain ⟨⟨key, d⟩, fs, hf, hfs, rfl⟩ := List.forall₂_cons_left_iff.1 h
      obtain ⟨k, v⟩ := e
      obtain ⟨rfl, hd⟩ : key = k.toList.map Piece.ofChar ∧ ReadAs v d := hf
      obtain ⟨n, rfl⟩ : ∃ n, levels = n + 1 := ⟨levels - 1, by omega⟩
      obtain ⟨s, hs, hkey⟩ :=
        pieces?_member k v (',' :: (writeMembers (g :: rest) ++ '\x7d' :: after))
      rw [writeMembers] at hlevels ⊢
      simp only [List.length_append, List.length_cons] at hlevels
      rw [List.append_assoc, List.cons_append, hs,
        Document.members?_more hkey (hd.reads _ _ (by simp [Document.EndsNumber]) (by omega)),
        ih hfs (by omega), Option.map_some]

/-! ### Arrays and objects -/

/-- An array means what its elements do, one level further down. -/
theorem ofDocument?_array {items : List Json} {ds : List Document}
    (h : List.Forall₂ ReadAs items ds) (depth : Nat) : ofDocument? depth (.array ds) =
      if (array items).depth ≤ depth then some (.array items) else none := by
  cases depth with
  | zero => simp [ofDocument?, Json.depth]
  | succ depth =>
      rw [ofDocument?, itemsOfDocuments?_eq h, Json.depth]
      by_cases hall : depthItems items ≤ depth
      · simp [hall]
      · simp [hall]

/-- An object whose keys are in order means what its members do, one level further down. -/
theorem ofDocument?_object {members : List (String × Json)}
    (ascending : Entries.Ascending members) {fs : List (List Piece × Document)}
    (h : List.Forall₂ MemberReadAs members fs) (depth : Nat) : ofDocument? depth (.object fs) =
      if (object members).depth ≤ depth then some (.object members) else none := by
  cases depth with
  | zero => simp [ofDocument?, Json.depth]
  | succ depth =>
      rw [ofDocument?, membersOfDocuments?_eq h, Json.depth]
      by_cases hall : depthMembers members ≤ depth
      · simp [hall, ofMembers, Entries.ofList_of_ascending ascending]
      · simp [hall]

/-- **An array is read as the array of the forms** that its elements are read as. -/
theorem readAs_array {items : List Json} {ds : List Document}
    (h : List.Forall₂ ReadAs items ds) : ReadAs (.array items) (.array ds) := by
  refine ⟨⟨_, _, rfl, rfl, by decide⟩, fun after levels _ hlevels => ?_, ofDocument?_array h⟩
  obtain ⟨k, rfl⟩ : ∃ k, levels = k + 1 := ⟨levels - 1, by simp [write] at hlevels; omega⟩
  cases items with
  | nil =>
      obtain rfl := List.forall₂_nil_left_iff.1 h
      rfl
  | cons v rest =>
      obtain ⟨d, -, hd, -, -⟩ := List.forall₂_cons_left_iff.1 h
      obtain ⟨c, t, hwrite, hblank, hend⟩ := hd.starts
      obtain ⟨u, hu⟩ : ∃ u, writeItems (v :: rest) = c :: u := by
        cases rest with
        | nil => exact ⟨t, hwrite⟩
        | cons w rest => exact ⟨_, by rw [writeItems, hwrite]; rfl⟩
      simp only [write, List.length_append, List.length_cons] at hlevels
      have hitems := items?_eq h after (show _ < k by omega)
      rw [hu] at hitems
      rw [write, hu, List.append_assoc, List.singleton_append, List.cons_append, List.cons_append,
        Document.value?_array k hblank hend, ← List.cons_append, hitems, Option.map_some]

/-- **An object whose keys are in order is read as the object of the forms** that its members are
read as. -/
theorem readAs_object {members : List (String × Json)} (ascending : Entries.Ascending members)
    {fs : List (List Piece × Document)} (h : List.Forall₂ MemberReadAs members fs) :
    ReadAs (.object members) (.object fs) := by
  refine ⟨⟨_, _, rfl, rfl, by decide⟩, fun after levels _ hlevels => ?_,
    ofDocument?_object ascending h⟩
  obtain ⟨k, rfl⟩ : ∃ k, levels = k + 1 := ⟨levels - 1, by simp [write] at hlevels; omega⟩
  cases members with
  | nil =>
      obtain rfl := List.forall₂_nil_left_iff.1 h
      rfl
  | cons e rest =>
      obtain ⟨u, hu⟩ : ∃ u, writeMembers (e :: rest) = '\x22' :: u := by
        cases rest with
        | nil => exact ⟨_, rfl⟩
        | cons f rest => exact ⟨_, rfl⟩
      simp only [write, List.length_append, List.length_cons] at hlevels
      have hmembers := members?_eq h after (show _ < k by omega)
      rw [hu] at hmembers
      rw [write, hu, List.append_assoc, List.singleton_append, List.cons_append, List.cons_append,
        Document.value?_object k, ← List.cons_append, hmembers, Option.map_some]

/-! ### The round trip -/

/-- Where each of a list has something, there is a list of such things. -/
theorem exists_forall₂ {α β : Type} {R : α → β → Prop} {as : List α} (h : ∀ a ∈ as, ∃ b, R a b) :
    ∃ bs, List.Forall₂ R as bs := by
  induction as with
  | nil => exact ⟨[], .nil⟩
  | cons a as ih =>
      obtain ⟨b, hb⟩ := h a List.mem_cons_self
      obtain ⟨bs, hbs⟩ := ih fun c hc => h c (List.mem_cons_of_mem a hc)
      exact ⟨b :: bs, .cons hb hbs⟩

/-- **Every legible document is read as some form.** -/
theorem Legible.exists_readAs {j : Json} (h : j.Legible) : ∃ d, ReadAs j d := by
  induction h with
  | null => exact ⟨_, readAs_null⟩
  | bool b => exact ⟨_, readAs_bool b⟩
  | number reads => exact exists_readAs_number reads
  | string s => exact ⟨_, readAs_string s⟩
  | array _ ih =>
      obtain ⟨ds, hds⟩ := exists_forall₂ ih
      exact ⟨_, readAs_array hds⟩
  | @object members ascending _ ih =>
      have hmembers : ∀ e ∈ members, ∃ f, MemberReadAs e f := fun e he => by
        obtain ⟨d, hd⟩ := ih e he
        exact ⟨(_, d), rfl, hd⟩
      obtain ⟨fs, hfs⟩ := exists_forall₂ hmembers
      exact ⟨_, readAs_object ascending hfs⟩

/-- The text of a document is read as a whole. -/
theorem ReadAs.parse?_write {j : Json} {d : Document} (h : ReadAs j d) :
    Document.parse? j.write = some d := by
  refine Document.parse?_eq_some_iff.2 ⟨[], ?_, rfl⟩
  simpa using h.reads [] (Document.levels j.write) (stops_nil _) (Nat.le_add_right _ _)

/-- **The round trip.**  The text of a legible document is read as that document if it is nested no
deeper than the limit, and otherwise it is refused. -/
theorem Legible.parse?_text {j : Json} (h : j.Legible) :
    Json.parse? j.text = if j.depth ≤ nestingLimit then some j else none := by
  obtain ⟨d, hd⟩ := h.exists_readAs
  rw [Json.parse?, text, String.toList_ofList, hd.parse?_write, Option.bind_some, hd.means]

end Json

end TreePath
