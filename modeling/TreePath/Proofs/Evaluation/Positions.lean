/-
**Positions.**

A position is a list of edges from a root.  Looking it up, edge by edge, is independent of any
search, and this module says what the nodes of a search have to do with it: a node stands in a root
when its value is found at its position, and then its children are the nodes that stand there one
edge further down, each of them once.  This needs maps in which a key occurs once, as it does in
ordered values.

What a step selects from a node is described the same way, by the last edge alone.

Main definitions:

* `Value.along?`, `Value.at?` — the value one edge down and the value at a position;
* `Node.StandsIn` — the value of a node is the one at its position;
* `Selector.Admits` — the edges along which a selector selects.

Main results:

* `Node.mem_children_iff`, `Node.nodup_positions_children` — the children of a node;
* `Node.standsIn_and_position_iff` — the nodes that stand one edge further down;
* `Selector.mem_select_iff`, `Slice.mem_select_iff` — what is selected.
-/

import TreePath.Evaluation.Node

set_option relaxedAutoImplicit false
set_option autoImplicit false

namespace TreePath

/-! ### Looking up positions -/

namespace Value

/-- The value one edge down. -/
def along? : Value → Edge → Option Value
  | .list items, .index i => items[i]?
  | .map entries, .key k => Entries.find? entries k
  | _, _ => none

/-- **The value at a position.** -/
def at? : Value → List Edge → Option Value
  | v, [] => some v
  | v, e :: rest => (v.along? e).bind fun c => c.at? rest

theorem at?_cons (v : Value) (e : Edge) (rest : List Edge) :
    v.at? (e :: rest) = (v.along? e).bind fun c => c.at? rest := rfl

theorem at?_append (v : Value) (a b : List Edge) :
    v.at? (a ++ b) = (v.at? a).bind fun c => c.at? b := by
  induction a generalizing v with
  | nil => rfl
  | cons e a ih =>
      rw [List.cons_append, at?_cons, at?_cons, Option.bind_assoc]
      exact congrArg (Option.bind _) (funext ih)

theorem at?_concat (v : Value) (a : List Edge) (e : Edge) :
    v.at? (a ++ [e]) = (v.at? a).bind fun c => c.along? e := by
  rw [at?_append]
  refine congrArg (Option.bind _) (funext fun c => ?_)
  rw [at?_cons]
  exact Option.bind_fun_some _

/-- Only a list has an element. -/
theorem along?_index_eq_some {v c : Value} {i : Nat} :
    v.along? (.index i) = some c ↔ ∃ items, v = .list items ∧ items[i]? = some c := by
  cases v <;> simp [along?]

theorem Ordered.along? {v c : Value} {e : Edge} (hv : v.Ordered) (h : v.along? e = some c) :
    c.Ordered := by
  cases hv with
  | list items hitems =>
      cases e with
      | key k => cases h
      | index i => exact hitems c (List.mem_of_getElem? h)
  | map entries ascending hentries =>
      cases e with
      | key k => exact hentries _ ((Entries.find?_eq_some_iff ascending).1 h)
      | index i => cases h
  | _ => cases h

/-- What stands in an ordered value is ordered. -/
theorem Ordered.at? {v c : Value} {a : List Edge} (hv : v.Ordered) (h : v.at? a = some c) :
    c.Ordered := by
  induction a generalizing v with
  | nil =>
      cases h
      exact hv
  | cons e a ih =>
      obtain ⟨d, hd, hc⟩ := Option.bind_eq_some_iff.1 h
      exact ih (hv.along? hd) hc

end Value

/-! ### Nodes at their positions -/

namespace Node

@[simp] theorem position_below (n : Node) (e : Edge) (v : Value) :
    (n.below e v).position = n.position ++ [e] := by
  rw [position, below, List.reverse_cons]
  rfl

/-- The value of a node is the one at its position in a root. -/
def StandsIn (root : Value) (n : Node) : Prop := root.at? n.position = some n.value

theorem standsIn_root (v : Value) : (root v).StandsIn v := rfl

theorem StandsIn.isSome_at? {root : Value} {n : Node} (h : n.StandsIn root) :
    (root.at? n.position).isSome = true := by
  rw [h]
  rfl

theorem exists_standsIn {root : Value} {a : List Edge} {v : Value} (h : root.at? a = some v) :
    ∃ n : Node, n.StandsIn root ∧ n.position = a ∧ n.value = v := by
  have hposition : (Node.mk a.reverse v).position = a := List.reverse_reverse a
  refine ⟨⟨a.reverse, v⟩, ?_, hposition, rfl⟩
  rw [StandsIn, hposition]
  exact h

/-- Two nodes of one root that stand at one position are the same. -/
theorem StandsIn.eq_of_position {root : Value} {m n : Node} (hm : m.StandsIn root)
    (hn : n.StandsIn root) (h : m.position = n.position) : m = n := by
  have hvalue : m.value = n.value := by
    rw [StandsIn, h, hn] at hm
    exact (Option.some.inj hm).symm
  have htrail : m.trail = n.trail := List.reverse_inj.1 h
  obtain ⟨_, _⟩ := m
  obtain ⟨_, _⟩ := n
  cases htrail
  cases hvalue
  rfl

theorem StandsIn.below {root : Value} {n : Node} (hn : n.StandsIn root) {e : Edge} {v : Value}
    (h : n.value.along? e = some v) : (n.below e v).StandsIn root := by
  rw [StandsIn, position_below, Value.at?_concat, hn]
  exact h

/-- **The nodes that stand one edge further down.** -/
theorem standsIn_and_position_iff {root : Value} {n m : Node} (hn : n.StandsIn root) {e : Edge} :
    m.StandsIn root ∧ m.position = n.position ++ [e] ↔
      ∃ v, n.value.along? e = some v ∧ m = n.below e v := by
  constructor
  · rintro ⟨hm, hposition⟩
    have halong : n.value.along? e = some m.value := by
      rw [StandsIn, hposition, Value.at?_concat, hn] at hm
      exact hm
    refine ⟨m.value, halong, hm.eq_of_position (hn.below halong) ?_⟩
    rw [hposition, position_below]
  · rintro ⟨v, hv, rfl⟩
    exact ⟨hn.below hv, position_below n e v⟩

/-- **The children of a node** are the nodes one edge below it. -/
theorem mem_children_iff {n : Node} (hn : n.value.Ordered) {c : Node} :
    c ∈ n.children ↔ ∃ e v, n.value.along? e = some v ∧ c = n.below e v := by
  obtain ⟨trail, value⟩ := n
  cases hn with
  | list items _ =>
      simp only [children, List.mem_mapIdx]
      constructor
      · rintro ⟨i, hi, rfl⟩
        exact ⟨.index i, items[i], List.getElem?_eq_getElem hi, rfl⟩
      · rintro ⟨e, v, hv, rfl⟩
        cases e with
        | key k => cases hv
        | index i =>
            obtain ⟨hi, rfl⟩ := List.getElem?_eq_some_iff.1 hv
            exact ⟨i, hi, rfl⟩
  | map entries ascending _ =>
      simp only [children, List.mem_map]
      constructor
      · rintro ⟨⟨k, v⟩, hmem, rfl⟩
        exact ⟨.key k, v, (Entries.find?_eq_some_iff ascending).2 hmem, rfl⟩
      · rintro ⟨e, v, hv, rfl⟩
        cases e with
        | key k => exact ⟨(k, v), (Entries.find?_eq_some_iff ascending).1 hv, rfl⟩
        | index i => cases hv
  | _ =>
      simp only [children, List.not_mem_nil, false_iff]
      rintro ⟨e, v, hv, -⟩
      cases hv

/-- **No two children of a node stand at one position.** -/
theorem nodup_positions_children {n : Node} (hn : n.value.Ordered) :
    (n.children.map position).Nodup := by
  obtain ⟨trail, value⟩ := n
  cases hn with
  | list items _ =>
      refine List.pairwise_iff_getElem.2 ?_
      intro i j hi hj hij heq
      simp only [children, List.getElem_map, List.getElem_mapIdx, position_below] at heq
      have hindex := List.append_inj_right' heq rfl
      simp only [List.cons.injEq, Edge.index.injEq, and_true] at hindex
      omega
  | map entries ascending _ =>
      simp only [children, List.map_map, Entries.Ascending, List.pairwise_map] at ascending ⊢
      refine List.pairwise_map.2 (ascending.imp ?_)
      intro e f hlt heq
      simp only [Function.comp_apply, position_below] at heq
      have hkey := List.append_inj_right' heq rfl
      simp only [List.cons.injEq, Edge.key.injEq, and_true] at hkey
      rw [hkey] at hlt
      exact String.lt_irrefl _ hlt
  | _ => exact List.nodup_nil

end Node

/-! ### What is selected -/

/-- Whether a selector selects along an edge. -/
def Selector.Admits : Selector → Edge → Prop
  | .wildcard, _ => True
  | .name k, e => e = .key k

/-- A selector selects the children along the edges that it admits. -/
theorem Selector.mem_select_iff {n : Node} (hn : n.value.Ordered) (s : Selector) {c : Node} :
    c ∈ s.select n ↔ ∃ e v, s.Admits e ∧ n.value.along? e = some v ∧ c = n.below e v := by
  cases s with
  | wildcard =>
      simp only [select, Admits, true_and]
      exact Node.mem_children_iff hn
  | name k =>
      simp only [select, Admits, Option.mem_toList, Node.child?]
      constructor
      · intro h
        obtain ⟨e, v, hv, rfl⟩ := (Node.mem_children_iff hn).1 (List.mem_of_find?_eq_some h)
        have he := List.find?_some h
        simp only [Node.below, List.head?_cons, beq_iff_eq, Option.some.injEq] at he
        exact ⟨e, v, he, hv, rfl⟩
      · rintro ⟨e, v, rfl, hv, rfl⟩
        have hmem := (Node.mem_children_iff hn).2 ⟨.key k, v, hv, rfl⟩
        cases hfind : n.children.find? fun c => c.trail.head? == some (.key k) with
        | none => simpa [Node.below] using List.find?_eq_none.1 hfind _ hmem
        | some d =>
            obtain ⟨f, w, hw, rfl⟩ :=
              (Node.mem_children_iff hn).1 (List.mem_of_find?_eq_some hfind)
            have hf := List.find?_some hfind
            simp only [Node.below, List.head?_cons, beq_iff_eq, Option.some.injEq] at hf
            rw [hf, hv] at hw
            cases hw
            rw [hf]

/-- A range selects the elements whose indices lie in it. -/
theorem Slice.mem_select_iff {α : Type} (s : Slice) {items : List α} {a : α} :
    a ∈ s.select items ↔ ∃ first last i, s.resolve items.length = some (first, last) ∧
      first ≤ i ∧ i ≤ last ∧ items[i]? = some a := by
  simp only [select]
  cases hresolve : s.resolve items.length with
  | none => simp
  | some bounds =>
      obtain ⟨first, last⟩ := bounds
      obtain ⟨hle, hlt⟩ := resolve_bounds hresolve
      simp only [List.mem_iff_getElem?, List.getElem?_take, List.getElem?_drop]
      constructor
      · rintro ⟨i, hi⟩
        split at hi
        · exact ⟨first, last, first + i, rfl, by omega, by omega, hi⟩
        · cases hi
      · rintro ⟨_, _, i, hbounds, hfirst, hlast, hi⟩
        cases hbounds
        refine ⟨i - first, ?_⟩
        rw [if_pos (by omega), Nat.add_sub_cancel' hfirst]
        exact hi

end TreePath
