/-
**Values that documents stand for.**

A value that comes from a text of JSON has the keys of its maps in order and holds finite numbers
only (`Value.Expressible`).  Such a value survives the way into a document and back, and so does
every value inside of it, which is what the steps of a path lead to.

The way into a document keeps the nesting, so the depth of a value is that of its document.  A path
of at least one step leads to values strictly inside, which are nested less deep than the value it
starts from.

Main definitions:

* `Value.Expressible` — ordered keys and finite numbers;
* `Value.depth` — how deep lists and maps are nested;
* `Json.numbers`, `Json.NumbersReadBack` — the numbers that are written with a document;
* `Value.Inside` — one value below another.

Main results:

* `Value.Expressible.ofJson_ofValue` — **into a document and back**;
* `Json.expresses_of_ofDocument?` — what is read is expressible and stays within the limit;
* `Value.Expressible.legible` — an expressible value is legible if its numbers are read back;
* `Path.inside_of_mem_select` — a path leads to values strictly inside.
-/

import Mathlib.Logic.Relation
import TreePath.Json.Conversion
import TreePath.Proofs.Json.RoundTrip
import TreePath.Proofs.Evaluation.Refinement

set_option relaxedAutoImplicit false
set_option autoImplicit false

namespace TreePath

/-! ### Numbers of a document -/

namespace Json

mutual

/-- The numbers of a document, in the order in which they are written. -/
def numbers : Json → List Number
  | .number n => [n]
  | .array items => numbersOfItems items
  | .object members => numbersOfMembers members
  | .null | .bool _ | .string _ => []

/-- The numbers of the elements of an array. -/
def numbersOfItems : List Json → List Number
  | [] => []
  | v :: rest => v.numbers ++ numbersOfItems rest

/-- The numbers of the members of an object. -/
def numbersOfMembers : List (String × Json) → List Number
  | [] => []
  | (_, v) :: rest => v.numbers ++ numbersOfMembers rest

end

/-- Every number that is written with a document is read back. -/
def NumbersReadBack (j : Json) : Prop := ∀ n ∈ j.numbers, n.ReadsBack

theorem numbersOfItems_eq_flatMap (items : List Json) :
    numbersOfItems items = items.flatMap numbers := by
  induction items with
  | nil => rfl
  | cons v rest ih => simp [numbersOfItems, ih]

theorem numbersOfMembers_eq_flatMap (members : List (String × Json)) :
    numbersOfMembers members = members.flatMap fun e => e.2.numbers := by
  induction members with
  | nil => rfl
  | cons e rest ih => simp [numbersOfMembers, ih]

theorem numbersReadBack_array {items : List Json} :
    (array items).NumbersReadBack ↔ ∀ v ∈ items, v.NumbersReadBack := by
  rw [NumbersReadBack, numbers, numbersOfItems_eq_flatMap, List.forall_mem_flatMap]
  rfl

theorem numbersReadBack_object {members : List (String × Json)} :
    (object members).NumbersReadBack ↔ ∀ e ∈ members, e.2.NumbersReadBack := by
  rw [NumbersReadBack, numbers, numbersOfMembers_eq_flatMap, List.forall_mem_flatMap]
  rfl

end Json

/-! ### Expressible values -/

namespace Value

/-- At every depth the keys of maps are in order and the floating point numbers are finite. -/
inductive Expressible : Value → Prop
  | null : Expressible .null
  | bool (b : Bool) : Expressible (.bool b)
  | int (n : Int64) : Expressible (.int n)
  | float {x : Binary64} (finite : x.isFinite = true) : Expressible (.float x)
  | string (s : String) : Expressible (.string s)
  | list {items : List Value} (h : ∀ v ∈ items, Expressible v) : Expressible (.list items)
  | map {entries : List (String × Value)} (ascending : Entries.Ascending entries)
      (h : ∀ e ∈ entries, Expressible e.2) : Expressible (.map entries)

/-- What an expressible value holds is expressible. -/
theorem Expressible.of_mem_children {v c : Value} (h : v.Expressible) (hc : c ∈ v.children) :
    c.Expressible := by
  cases h with
  | list h => exact h c hc
  | map _ h =>
      obtain ⟨e, he, rfl⟩ := List.mem_map.1 hc
      exact h e he
  | _ => cases hc

/-- An integer of 64 bits is the integer of its own size. -/
theorem ofInteger_toInt (n : Int64) : ofInteger n.toInt = .int n := by
  have hfits : Numeral.toInt64? n.toInt = some n := by
    rw [Numeral.toInt64?, if_pos ⟨Int64.le_toInt n, Int64.toInt_lt n⟩, Int64.ofInt_toInt]
  rw [ofInteger, hfits]

/-- **An expressible value survives the way into a document and back.** -/
theorem Expressible.ofJson_ofValue {v : Value} (h : v.Expressible) :
    Value.ofJson (Json.ofValue v) = v := by
  induction h with
  | null | bool | string => rfl
  | int n => exact ofInteger_toInt n
  | float finite => simp [Json.ofValue, Json.Number.ofBinary64?, finite, Value.ofJson]
  | @list items _ ih =>
      have hitems : items.map (Value.ofJson ∘ Json.ofValue) = items :=
        (List.map_congr_left (g := id) ih).trans (List.map_id items)
      rw [Json.ofValue, Value.ofJson, itemsOfValues_eq_map, valuesOfItems_eq_map, List.map_map,
        hitems]
  | @map entries _ _ ih =>
      have hentries : entries.map ((fun e => (e.1, Value.ofJson e.2)) ∘
          fun e => (e.1, Json.ofValue e.2)) = entries :=
        (List.map_congr_left (g := id) fun e he => by simp [ih e he]).trans (List.map_id entries)
      rw [Json.ofValue, Value.ofJson, membersOfEntries_eq_map, entriesOfMembers_eq_map,
        List.map_map, hentries]

theorem ascending_membersOfEntries {entries : List (String × Value)}
    (h : Entries.Ascending entries) : Entries.Ascending (membersOfEntries entries) := by
  rw [Entries.Ascending, membersOfEntries_eq_map, List.map_map]
  exact h

/-- An expressible value makes a document that can be read if its numbers can. -/
theorem Expressible.legible {v : Value} (h : v.Expressible)
    (hnumbers : (Json.ofValue v).NumbersReadBack) : (Json.ofValue v).Legible := by
  induction h with
  | null => exact .null
  | bool b => exact .bool b
  | string s => exact .string s
  | int n => exact .number (hnumbers _ List.mem_cons_self)
  | float finite =>
      simp only [Json.ofValue, Json.Number.ofBinary64?, finite] at hnumbers ⊢
      exact .number (hnumbers _ List.mem_cons_self)
  | list _ ih =>
      have hitems := Json.numbersReadBack_array.1 hnumbers
      rw [itemsOfValues_eq_map, List.forall_mem_map] at hitems
      refine .array ?_
      rw [itemsOfValues_eq_map, List.forall_mem_map]
      exact fun v hv => ih v hv (hitems v hv)
  | map ascending _ ih =>
      have hmembers := Json.numbersReadBack_object.1 hnumbers
      rw [membersOfEntries_eq_map, List.forall_mem_map] at hmembers
      refine .object (ascending_membersOfEntries ascending) ?_
      rw [membersOfEntries_eq_map, List.forall_mem_map]
      exact fun e he => ih e he (hmembers e he)

/-! ### Depth -/

/-- How deep lists and maps are nested. -/
def depth (v : Value) : Nat := (Json.ofValue v).depth

theorem depth_list_le_iff {items : List Value} {n : Nat} :
    (Value.list items).depth ≤ n + 1 ↔ ∀ v ∈ items, v.depth ≤ n := by
  rw [depth, Json.ofValue, Json.depth, Nat.add_le_add_iff_right, Json.depthItems_le_iff,
    itemsOfValues_eq_map, List.forall_mem_map]
  rfl

theorem depth_map_le_iff {entries : List (String × Value)} {n : Nat} :
    (Value.map entries).depth ≤ n + 1 ↔ ∀ e ∈ entries, e.2.depth ≤ n := by
  rw [depth, Json.ofValue, Json.depth, Nat.add_le_add_iff_right, Json.depthMembers_le_iff,
    membersOfEntries_eq_map, List.forall_mem_map]
  rfl

/-- A child is nested less deep than its parent. -/
theorem depth_lt_of_mem_children {v c : Value} (h : c ∈ v.children) : c.depth < v.depth := by
  cases v with
  | list items =>
      obtain ⟨n, hn⟩ : ∃ n, (Value.list items).depth = n + 1 := ⟨_, rfl⟩
      have := depth_list_le_iff.1 (Nat.le_of_eq hn) c h
      omega
  | map entries =>
      obtain ⟨n, hn⟩ : ∃ n, (Value.map entries).depth = n + 1 := ⟨_, rfl⟩
      obtain ⟨e, he, rfl⟩ := List.mem_map.1 h
      have := depth_map_le_iff.1 (Nat.le_of_eq hn) e he
      omega
  | _ => cases h

/-! ### What is read -/

/-- An integer that fits 64 bits, with or without sign, is expressible. -/
theorem expressible_ofInteger {n : Int} (least : -0x8000000000000000 ≤ n)
    (greatest : n < 0x10000000000000000) : (ofInteger n).Expressible := by
  rw [ofInteger]
  split
  · exact .int _
  · exact .float (Binary64.isFinite_ofInt (by omega))

theorem depth_ofInteger (n : Int) : (ofInteger n).depth = 0 := by
  rw [ofInteger]
  split
  · rfl
  · simp only [depth, Json.ofValue, Json.Number.ofBinary64?]
    split <;> rfl

theorem expressible_ofJson_number (n : Json.Number) : (Value.ofJson (.number n)).Expressible := by
  cases n with
  | integer n least greatest => exact expressible_ofInteger least greatest
  | float x finite => exact .float finite

theorem depth_ofJson_number (n : Json.Number) : (Value.ofJson (.number n)).depth = 0 := by
  cases n with
  | integer n least greatest => exact depth_ofInteger n
  | float x finite => simp [depth, Value.ofJson, Json.ofValue, Json.Number.ofBinary64?, finite,
      Json.depth]

end Value

namespace Json

/-- What a document within a limit stands for. -/
def Expresses (depth : Nat) (j : Json) : Prop :=
  (Value.ofJson j).Expressible ∧ (Value.ofJson j).depth ≤ depth

theorem expresses_array {depth : Nat} {items : List Json} (h : ∀ v ∈ items, Expresses depth v) :
    Expresses (depth + 1) (.array items) := by
  rw [Expresses, Value.ofJson, valuesOfItems_eq_map]
  constructor
  · exact .list (List.forall_mem_map.2 fun v hv => (h v hv).1)
  · exact Value.depth_list_le_iff.2 (List.forall_mem_map.2 fun v hv => (h v hv).2)

theorem expresses_ofMembers {depth : Nat} {members : List (String × Json)}
    (h : ∀ e ∈ members, Expresses depth e.2) : Expresses (depth + 1) (ofMembers members) := by
  have hmembers : ∀ e ∈ Entries.ofList members, Expresses depth e.2 := fun e he =>
    h e (Entries.mem_of_mem_ofList he)
  rw [Expresses, ofMembers, Value.ofJson, entriesOfMembers_eq_map]
  constructor
  · refine .map ?_ (List.forall_mem_map.2 fun e he => (hmembers e he).1)
    rw [Entries.Ascending, List.map_map]
    exact Entries.ascending_ofList members
  · exact Value.depth_map_le_iff.2 (List.forall_mem_map.2 fun e he => (hmembers e he).2)

mutual

/-- **What is read is expressible** and stays within the limit. -/
theorem expresses_of_ofDocument? {depth : Nat} {j : Json} : ∀ {d : Document},
    ofDocument? depth d = some j → Expresses depth j
  | .null, h => by
      cases h
      exact ⟨.null, Nat.zero_le _⟩
  | .bool b, h => by
      cases h
      exact ⟨.bool b, Nat.zero_le _⟩
  | .number _, h => by
      obtain ⟨n, -, rfl⟩ := Option.map_eq_some_iff.1 h
      exact ⟨Value.expressible_ofJson_number n,
        (Value.depth_ofJson_number n).trans_le (Nat.zero_le _)⟩
  | .string _, h => by
      obtain ⟨s, -, rfl⟩ := Option.map_eq_some_iff.1 h
      exact ⟨.string s, Nat.zero_le _⟩
  | .array ds, h => by
      cases depth with
      | zero => cases h
      | succ depth =>
          obtain ⟨items, hitems, rfl⟩ := Option.map_eq_some_iff.1 h
          exact expresses_array (expresses_of_itemsOfDocuments? hitems)
  | .object ds, h => by
      cases depth with
      | zero => cases h
      | succ depth =>
          obtain ⟨members, hmembers, rfl⟩ := Option.map_eq_some_iff.1 h
          exact expresses_ofMembers (expresses_of_membersOfDocuments? hmembers)

theorem expresses_of_itemsOfDocuments? {depth : Nat} {items : List Json} :
    ∀ {ds : List Document}, itemsOfDocuments? depth ds = some items →
      ∀ v ∈ items, Expresses depth v
  | [], h => by
      cases h
      exact List.forall_mem_nil _
  | d :: ds, h => by
      rw [itemsOfDocuments?] at h
      split at h
      · cases h
      · next hd =>
          obtain ⟨rest, hrest, rfl⟩ := Option.map_eq_some_iff.1 h
          exact List.forall_mem_cons.2
            ⟨expresses_of_ofDocument? hd, expresses_of_itemsOfDocuments? hrest⟩

theorem expresses_of_membersOfDocuments? {depth : Nat} {members : List (String × Json)} :
    ∀ {ds : List (List Piece × Document)}, membersOfDocuments? depth ds = some members →
      ∀ e ∈ members, Expresses depth e.2
  | [], h => by
      cases h
      exact List.forall_mem_nil _
  | (key, d) :: ds, h => by
      rw [membersOfDocuments?] at h
      split at h
      · next hd =>
          obtain ⟨rest, hrest, rfl⟩ := Option.map_eq_some_iff.1 h
          exact List.forall_mem_cons.2
            ⟨expresses_of_ofDocument? hd, expresses_of_membersOfDocuments? hrest⟩
      · cases h

end

end Json

/-! ### Values inside of others -/

/-- One value stands somewhere below another. -/
def Value.Inside (v root : Value) : Prop :=
  Relation.TransGen (fun parent child => child ∈ parent.children) root v

theorem Value.Inside.expressible {v root : Value} (h : v.Inside root)
    (hroot : root.Expressible) : v.Expressible := by
  induction h with
  | single hc => exact hroot.of_mem_children hc
  | tail _ hc ih => exact ih.of_mem_children hc

theorem Value.Inside.depth_lt {v root : Value} (h : v.Inside root) : v.depth < root.depth := by
  induction h with
  | single hc => exact depth_lt_of_mem_children hc
  | tail _ hc ih => exact Nat.lt_trans (depth_lt_of_mem_children hc) ih

theorem Target.pick_subset (t : Target) (v : Value) : t.pick v ⊆ v.children := by
  intro c hc
  rw [show v = (Node.root v).value from rfl, ← t.map_value_select] at hc
  obtain ⟨n, hn, rfl⟩ := List.mem_map.1 hc
  exact Node.value_mem_of_mem_children ((t.select_sublist _).subset hn)

/-- What one step or more lead to stands below the value they start from. -/
theorem inside_of_mem_follow {hops : List Hop} (hne : hops ≠ []) {v m : Value}
    (hm : m ∈ follow hops v) : m.Inside v := by
  induction hops, v using follow.induct with
  | case1 v => exact absurd rfl hne
  | case2 h rest v ihrest ihbelow =>
      rw [follow_cons, List.mem_append] at hm
      rcases hm with hm | hm
      · obtain ⟨c, hc, hm⟩ := List.mem_flatMap.1 hm
        have hchild : c.Inside v :=
          .single (h.target.pick_subset v (List.mem_of_mem_filter hc))
        by_cases hrest : rest = []
        · subst hrest
          rw [follow_nil, List.mem_singleton] at hm
          exact hm ▸ hchild
        · exact hchild.trans (ihrest c hrest hm)
      · split at hm
        · obtain ⟨c, hc, hm⟩ := List.mem_flatMap.1 hm
          exact .head hc (ihbelow ⟨c, hc⟩ hne hm)
        · cases hm

/-- What a path of at least one step leads to stands below the value it starts from. -/
theorem Path.inside_of_mem_select {p : Path} (hp : p.steps ≠ []) {v m : Value}
    (hm : m ∈ p.select v) : m.Inside v := by
  rw [p.select_eq_follow] at hm
  refine inside_of_mem_follow ?_ hm
  rw [p.hops_eq_map]
  exact fun h => hp (List.map_eq_nil_iff.1 h)

end TreePath
