/-
**The order of members in a text does not matter.**

An object of a text lists its members in some order, and the document it stands for keeps them in
the order of their keys.  So two texts whose documents differ only in that order, at any depth,
stand for the same documents, and whatever is asked of them has the same answer: a filter run writes
the same text and ends in the same way.

One step of reordering lists the members of one object, which may stand anywhere in a document, in
another order; no key may stand twice among them, since the last member with a key counts.  A
document is reordered by any number of steps (`Document.Reordered`), so the order may change in all
objects at once: this is what the two congruences say.

Main definitions:

* `DistinctKeys` — no key stands twice among members;
* `Document.Reorders`, `Document.Reordered` — one step of reordering, and any number of them.

Main results:

* `Entries.ofList_perm` — entries under different keys may be given in any order;
* `Document.Reordered.array`, `Document.Reordered.object` — the congruences;
* `Document.Reordered.ofDocument?_eq` — **a document means the same after reordering**;
* `StreamQuery.run_reordered` — **a filter run does not depend on the order of members**.
-/

import Mathlib.Data.List.Nodup
import Mathlib.Data.List.Perm.Basic
import Mathlib.Logic.Relation
import TreePath.Proofs.Command.Modes

set_option relaxedAutoImplicit false
set_option autoImplicit false

namespace TreePath

/-! ### Entries in any order -/

namespace Entries

variable {α : Type}

/-- Entries under different keys can be inserted in either order. -/
theorem insert_comm {k l : String} (h : k ≠ l) (a b : α) (es : Entries α) :
    insert l b (insert k a es) = insert k a (insert l b es) := by
  induction es with
  | nil => grind [insert, key_eq_of_not_lt, String.lt_asymm]
  | cons e es ih => grind [insert, key_eq_of_not_lt, String.lt_asymm, String.lt_trans]

/-- **Entries under different keys may be given in any order.** -/
theorem ofList_perm {es fs : List (String × α)} (h : es.Perm fs)
    (distinct : (es.map Prod.fst).Nodup) : ofList es = ofList fs := by
  refine h.foldl_eq' (fun e he f hf acc => ?_) []
  by_cases hkey : e.1 = f.1
  · rw [List.inj_on_of_nodup_map distinct he hf hkey]
  · exact insert_comm hkey e.2 f.2 acc

end Entries

/-! ### Reordering documents -/

/-- No key stands twice among members, however it is written. -/
def DistinctKeys (members : List (List Piece × Document)) : Prop :=
  (members.filterMap fun m => textOfPieces? m.1).Nodup

instance (members : List (List Piece × Document)) : Decidable (DistinctKeys members) :=
  inferInstanceAs (Decidable (List.Nodup _))

namespace Document

/-- **One step of reordering**: the members of one object, at any depth, in another order. -/
inductive Reorders : Document → Document → Prop
  /-- The members of an object, among which no key stands twice, in another order. -/
  | members {ms ms' : List (List Piece × Document)} (h : ms.Perm ms') (distinct : DistinctKeys ms) :
      Reorders (.object ms) (.object ms')
  /-- A step inside of an element of an array. -/
  | item {d e : Document} (before after : List Document) (h : Reorders d e) :
      Reorders (.array (before ++ d :: after)) (.array (before ++ e :: after))
  /-- A step inside of a member of an object. -/
  | member {d e : Document} (key : List Piece) (before after : List (List Piece × Document))
      (h : Reorders d e) :
      Reorders (.object (before ++ (key, d) :: after)) (.object (before ++ (key, e) :: after))

/-- **Documents that differ only in the order in which objects list their members**, at any
depth. -/
def Reordered : Document → Document → Prop := Relation.ReflTransGen Reorders

namespace Reordered

@[refl] theorem refl (d : Document) : Reordered d d := Relation.ReflTransGen.refl

theorem trans {d e f : Document} (h : Reordered d e) (h' : Reordered e f) : Reordered d f :=
  Relation.ReflTransGen.trans h h'

theorem item {d e : Document} (h : Reordered d e) (before after : List Document) :
    Reordered (.array (before ++ d :: after)) (.array (before ++ e :: after)) :=
  Relation.ReflTransGen.lift (fun d => Document.array (before ++ d :: after))
    (fun _ _ h => Reorders.item before after h) _ _ h

theorem member {d e : Document} (h : Reordered d e) (key : List Piece)
    (before after : List (List Piece × Document)) :
    Reordered (.object (before ++ (key, d) :: after)) (.object (before ++ (key, e) :: after)) :=
  Relation.ReflTransGen.lift (fun d => Document.object (before ++ (key, d) :: after))
    (fun _ _ h => Reorders.member key before after h) _ _ h

/-- Arrays are reordered element by element. -/
theorem array {ds es : List Document} (h : List.Forall₂ Reordered ds es) :
    Reordered (.array ds) (.array es) := by
  -- The elements are dealt with one after the other; those in front have been.
  suffices hall : ∀ before, Reordered (.array (before ++ ds)) (.array (before ++ es)) from hall []
  induction h with
  | nil => exact fun before => .refl _
  | @cons d e ds es hd _ ih =>
      intro before
      have hrest := ih (before ++ [e])
      simp only [List.append_assoc, List.singleton_append] at hrest
      exact (hd.item before ds).trans hrest

/-- The values of members are reordered member by member. -/
theorem values {ms ns : List (List Piece × Document)}
    (h : List.Forall₂ (fun m n => m.1 = n.1 ∧ Reordered m.2 n.2) ms ns) :
    Reordered (.object ms) (.object ns) := by
  suffices hall : ∀ before, Reordered (.object (before ++ ms)) (.object (before ++ ns)) from hall []
  induction h with
  | nil => exact fun before => .refl _
  | @cons m n ms ns hm _ ih =>
      obtain ⟨key, d⟩ := m
      obtain ⟨key', e⟩ := n
      obtain ⟨rfl, hd⟩ : key = key' ∧ Reordered d e := hm
      intro before
      have hrest := ih (before ++ [(key, e)])
      simp only [List.append_assoc, List.singleton_append] at hrest
      exact (hd.member key before ms).trans hrest

/-- Objects are reordered member by member and then as a whole. -/
theorem object {ms ns ns' : List (List Piece × Document)}
    (h : List.Forall₂ (fun m n => m.1 = n.1 ∧ Reordered m.2 n.2) ms ns) (hperm : ns.Perm ns')
    (distinct : DistinctKeys ns) : Reordered (.object ms) (.object ns') :=
  (values h).trans (Relation.ReflTransGen.single (.members hperm distinct))

end Reordered

end Document

/-! ### What documents mean after reordering -/

namespace Json

variable {depth : Nat}

theorem itemsOfDocuments?_congr {d e : Document} (h : ofDocument? depth d = ofDocument? depth e)
    (before after : List Document) : itemsOfDocuments? depth (before ++ d :: after) =
      itemsOfDocuments? depth (before ++ e :: after) := by
  induction before with
  | nil => simp only [List.nil_append, itemsOfDocuments?, h]
  | cons b before ih => simp only [List.cons_append, itemsOfDocuments?, ih]

theorem membersOfDocuments?_congr {d e : Document} (h : ofDocument? depth d = ofDocument? depth e)
    (key : List Piece) (before after : List (List Piece × Document)) :
    membersOfDocuments? depth (before ++ (key, d) :: after) =
      membersOfDocuments? depth (before ++ (key, e) :: after) := by
  induction before with
  | nil => simp only [List.nil_append, membersOfDocuments?, h]
  | cons b before ih => simp only [List.cons_append, membersOfDocuments?, ih]

/-- A member means its key and its value. -/
def MemberMeans (depth : Nat) (m : List Piece × Document) (e : String × Json) : Prop :=
  textOfPieces? m.1 = some e.1 ∧ ofDocument? depth m.2 = some e.2

theorem membersOfDocuments?_eq_some_iff {ms : List (List Piece × Document)}
    {members : List (String × Json)} : membersOfDocuments? depth ms = some members ↔
      List.Forall₂ (MemberMeans depth) ms members := by
  induction ms generalizing members with
  | nil => simp [membersOfDocuments?, eq_comm]
  | cons m ms ih =>
      obtain ⟨key, d⟩ := m
      rw [membersOfDocuments?, List.forall₂_cons_left_iff]
      simp only [← ih, MemberMeans]
      cases textOfPieces? key with
      | none => simp
      | some k =>
          cases ofDocument? depth d with
          | none => simp
          | some v =>
              simp only [Option.map_eq_some_iff, Option.some.injEq, Prod.exists]
              constructor
              · rintro ⟨rest, hrest, rfl⟩
                exact ⟨k, v, rest, ⟨rfl, rfl⟩, hrest, rfl⟩
              · rintro ⟨_, _, rest, ⟨rfl, rfl⟩, hrest, rfl⟩
                exact ⟨rest, hrest, rfl⟩

/-- The keys of members that mean something are the texts that they stand for. -/
theorem map_fst_of_memberMeans {ms : List (List Piece × Document)} {members : List (String × Json)}
    (h : List.Forall₂ (MemberMeans depth) ms members) :
    members.map Prod.fst = ms.filterMap fun m => textOfPieces? m.1 := by
  induction h with
  | nil => rfl
  | cons hm _ ih => 
      rw [List.map_cons, ih, List.filterMap_cons]
      simp only [hm.1]

/-- Members in another order mean the same ones in another order. -/
theorem exists_membersOfDocuments?_perm {ms ms' : List (List Piece × Document)} (h : ms.Perm ms')
    {members : List (String × Json)} (hmembers : membersOfDocuments? depth ms = some members) :
    ∃ members', membersOfDocuments? depth ms' = some members' ∧ members.Perm members' := by
  obtain ⟨members', hmeans, hperm⟩ :=
    List.perm_comp_forall₂ h.symm (membersOfDocuments?_eq_some_iff.1 hmembers)
  exact ⟨members', membersOfDocuments?_eq_some_iff.2 hmeans, hperm.symm⟩

/-- **Members among which no key stands twice** make the same object in any order. -/
theorem map_ofMembers_membersOfDocuments?_perm {ms ms' : List (List Piece × Document)}
    (h : ms.Perm ms') (distinct : DistinctKeys ms) :
    (membersOfDocuments? depth ms).map ofMembers =
      (membersOfDocuments? depth ms').map ofMembers := by
  cases hms : membersOfDocuments? depth ms with
  | none =>
      cases hms' : membersOfDocuments? depth ms' with
      | none => rfl
      | some members' =>
          obtain ⟨members, hmembers, -⟩ := exists_membersOfDocuments?_perm h.symm hms'
          rw [hms] at hmembers
          cases hmembers
  | some members =>
      obtain ⟨members', hms', hperm⟩ := exists_membersOfDocuments?_perm h hms
      have hkeys : (members.map Prod.fst).Nodup := by
        rw [map_fst_of_memberMeans (membersOfDocuments?_eq_some_iff.1 hms)]
        exact distinct
      rw [hms', Option.map_some, Option.map_some, ofMembers, ofMembers,
        Entries.ofList_perm hperm hkeys]

end Json

namespace Document

/-- One step of reordering keeps the meaning of a document within every limit. -/
theorem Reorders.ofDocument?_eq {d e : Document} (h : Reorders d e) (depth : Nat) :
    Json.ofDocument? depth d = Json.ofDocument? depth e := by
  induction h generalizing depth with
  | members hperm distinct =>
      cases depth with
      | zero => rfl
      | succ depth => exact Json.map_ofMembers_membersOfDocuments?_perm hperm distinct
  | item before after _ ih =>
      cases depth with
      | zero => rfl
      | succ depth =>
          exact congrArg (Option.map Json.array)
            (Json.itemsOfDocuments?_congr (ih depth) before after)
  | member key before after _ ih =>
      cases depth with
      | zero => rfl
      | succ depth =>
          exact congrArg (Option.map Json.ofMembers)
            (Json.membersOfDocuments?_congr (ih depth) key before after)

/-- **A document means the same after reordering**, within every limit on its depth. -/
theorem Reordered.ofDocument?_eq {d e : Document} (h : Reordered d e) (depth : Nat) :
    Json.ofDocument? depth d = Json.ofDocument? depth e := by
  induction h with
  | refl => rfl
  | tail _ hstep ih => exact ih.trans (hstep.ofDocument?_eq depth)

end Document

/-! ### Streams and runs -/

/-- Texts whose documents have the same meanings hold the same values, and break off alike. -/
theorem StreamOf.exists_values {α : Type} {decode? : Document → Option α} {s t : List Char}
    {ds es : List Document} {complete : Bool} (hs : StreamOf some s ds complete)
    (ht : StreamOf some t es complete)
    (h : List.Forall₂ (fun d e => decode? d = decode? e) ds es) :
    ∃ values whole, StreamOf decode? s values whole ∧ StreamOf decode? t values whole := by
  induction hs generalizing t es with
  | finished hs =>
      obtain rfl := List.forall₂_nil_left_iff.1 h
      cases ht with
      | finished ht => exact ⟨[], true, .finished hs, .finished ht⟩
  | malformed hs hfirst =>
      obtain rfl := List.forall₂_nil_left_iff.1 h
      cases ht with
      | malformed ht hfirst' => exact ⟨[], false, .malformed hs hfirst, .malformed ht hfirst'⟩
      | refused _ hd => cases hd
  | refused _ hd => cases hd
  | @value s rest d a ds complete hfirst hd more ih =>
      cases hd
      obtain ⟨e, es, hde, hrest, rfl⟩ := List.forall₂_cons_left_iff.1 h
      cases ht with
      | value hfirst' he more' =>
          cases he
          cases hmeans : decode? e with
          | none => exact ⟨[], false, .refused hfirst (hde.trans hmeans), .refused hfirst' hmeans⟩
          | some b =>
              obtain ⟨values, whole, hvalues, hvalues'⟩ := ih more' hrest
              exact ⟨b :: values, whole, .value hfirst (hde.trans hmeans) hvalues,
                .value hfirst' hmeans hvalues'⟩

/-- **A filter run does not depend on the order of members.**  Let two inputs be streams of
documents of which each differs from the one at its place in the other input only in the order in
which its objects, at any depth, list their members, and let both inputs be complete or both break
off after these documents.  With every path and in both modes, a run writes the same text for both
and ends in the same way. -/
theorem StreamQuery.run_reordered (query : StreamQuery) {input input' : String}
    {documents documents' : List Document} {complete : Bool}
    (hinput : StreamOf some input.toList documents complete)
    (hinput' : StreamOf some input'.toList documents' complete)
    (h : List.Forall₂ Document.Reordered documents documents') :
    query.run input = query.run input' := by
  have hmeans := h.imp fun _ _ h => h.ofDocument?_eq Json.nestingLimit
  obtain ⟨values, whole, hvalues, hvalues'⟩ := hinput.exists_values hinput' hmeans
  obtain ⟨path, batch⟩ := query
  cases hp : compile commandContext path with
  | error e => rw [run_of_error hp, run_of_error hp]
  | ok p => rw [run_of_streamOf hp hvalues, run_of_streamOf hp hvalues']

/-- Members in another order, two levels deep, and a number after the object. -/
theorem StreamQuery.run_reordered_nested :
    let member (key : Char) (d : Document) : List Piece × Document := ([.char key], d)
    let one : Document := .number ⟨false, ['1'], none, none⟩
    let inside := [member 'y' one, member 'x' .null]
    let inside' := [member 'x' .null, member 'y' one]
    let documents := [.object [member 'b' (.array [.object inside]), member 'a' one], one]
    let documents' := [.object [member 'a' one, member 'b' (.array [.object inside'])], one]
    let input := "\x7b\"b\":[\x7b\"y\":1,\"x\":null\x7d],\"a\":1\x7d\n1\n"
    let input' := "\x7b\"a\":1,\"b\":[\x7b\"x\":null,\"y\":1\x7d]\x7d 1"
    StreamOf some input.toList documents true ∧ StreamOf some input'.toList documents' true ∧
      List.Forall₂ Document.Reordered documents documents' ∧
      StreamQuery.run ⟨"..*", true⟩ input = StreamQuery.run ⟨"..*", true⟩ input' := by
  intro member one inside inside' documents documents' input input'
  have hinput : readAll some input = ⟨documents, true⟩ := by
    simp only [readAll, input, String.reduceToList]
    rfl
  have hinput' : readAll some input' = ⟨documents', true⟩ := by
    simp only [readAll, input', String.reduceToList]
    rfl
  have hinside : Document.Reordered (.object inside) (.object inside') :=
    .single (.members (.swap _ _ _) (by decide))
  have hvalues : List.Forall₂ (fun m n => m.1 = n.1 ∧ Document.Reordered m.2 n.2)
      [member 'b' (.array [.object inside]), member 'a' one]
      [member 'b' (.array [.object inside']), member 'a' one] :=
    .cons ⟨rfl, .array (.cons hinside .nil)⟩ (.cons ⟨rfl, .refl _⟩ .nil)
  have hdocuments : List.Forall₂ Document.Reordered documents documents' :=
    .cons (.object hvalues (.swap _ _ _) (by decide)) (.cons (.refl _) .nil)
  have hs := streamOf_iff_readAll.2 hinput
  have ht := streamOf_iff_readAll.2 hinput'
  exact ⟨hs, ht, hdocuments, StreamQuery.run_reordered _ hs ht hdocuments⟩

end TreePath
