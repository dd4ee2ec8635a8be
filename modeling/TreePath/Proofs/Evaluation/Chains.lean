/-
**How often a node is found.**

A search does not remember where it has been, and a path with two descendant steps may come to one
node in several ways.  This module says exactly how often a node is found: as often as there are
chains of positions from the root to it in which every hop is one that its step allows
(`Path.times_eq_encard_chains`).  What a step allows is said by positions alone, with no regard to
the order in which a search goes about it.

For a single step the walk visits every position that is allowed once and no other
(`mem_walk_hop_iff`, `nodup_positions_walk_hop`).  For a list of steps the chains are sorted by
their first position, and the count is the sum of the counts of the rest.

Main definitions:

* `Target.Allows` — the hops from one position to another that a step allows;
* `Chain` — the positions that a list of steps may take one after the other;
* `Path.times` — how often the search along a path finds the node at a position.

Main results:

* `mem_walk_hop_iff`, `nodup_positions_walk_hop` — **a single step**;
* `count_walk_eq_encard` — a list of steps, from any node;
* `compile_descendant` — the text of a single descendant step;
* `Path.times_eq_encard_chains` — **the number of times a node is found** is the number of chains
  that end at it.
-/

import Mathlib.Algebra.BigOperators.Ring.Finset
import Mathlib.Data.Set.Card
import TreePath.Condition.Builtin
import TreePath.Proofs.Evaluation.Positions
import TreePath.Proofs.Evaluation.Refinement
import TreePath.Proofs.Path.Recognition

set_option relaxedAutoImplicit false
set_option autoImplicit false

namespace TreePath

/-! ### Hops and chains -/

/-- **The hops that a step allows** between positions in a root: a child step to a child along an
edge that its selector admits, a descendant step to anything further down whose last edge is such
an edge, and an item step from a list to an element whose index lies in the range.  There is no hop
for an item step without a range. -/
inductive Target.Allows (root : Value) : Target → List Edge → List Edge → Prop
  | child {s : Selector} {a : List Edge} {e : Edge} (admits : s.Admits e)
      (exist : (root.at? (a ++ [e])).isSome = true) : Allows root (.child s) a (a ++ [e])
  | descendant {s : Selector} {a : List Edge} {e : Edge} (below : List Edge) (admits : s.Admits e)
      (exist : (root.at? (a ++ below ++ [e])).isSome = true) :
      Allows root (.descendant s) a (a ++ below ++ [e])
  | item {range : Slice} {a : List Edge} {items : List Value} {first last i : Nat}
      (list : root.at? a = some (.list items))
      (resolved : range.resolve items.length = some (first, last)) (lower : first ≤ i)
      (upper : i ≤ last) : Allows root (.item (some range)) a (a ++ [.index i])

/-- **Chains of hops.**  `Chain root steps a chain c` says that the positions of `chain` lead from
`a` to `c`, one for each step, where every hop is allowed by its step and the value it arrives at
passes the filter of the step. -/
inductive Chain (root : Value) : List Step → List Edge → List (List Edge) → List Edge → Prop
  | nil (a : List Edge) : Chain root [] a [] a
  | cons {s : Step} {steps : List Step} {a b c : List Edge} {chain : List (List Edge)}
      (allowed : s.target.Allows root a b)
      (passes : ∀ f ∈ s.filter, ∀ v ∈ root.at? b, (f.verdict v).passes = true)
      (rest : Chain root steps b chain c) : Chain root (s :: steps) a (b :: chain) c

/-- How often the search along a path finds the node at a position. -/
def Path.times (p : Path) (root : Value) (position : List Edge) : Nat :=
  ((p.evaluate root).drain.1.map Node.position).count position

variable {root : Value}

/-- A hop goes down. -/
theorem Target.Allows.exists_below {t : Target} {a b : List Edge} (h : t.Allows root a b) :
    ∃ r, r ≠ [] ∧ b = a ++ r := by
  cases h with
  | @child _ _ e _ _ => exact ⟨[e], List.cons_ne_nil _ _, rfl⟩
  | @descendant _ _ e below _ _ => exact ⟨below ++ [e], by simp, List.append_assoc _ _ _⟩
  | @item _ _ _ _ _ i _ _ _ _ => exact ⟨[.index i], List.cons_ne_nil _ _, rfl⟩

/-- A hop arrives somewhere. -/
theorem Target.Allows.isSome_at? {t : Target} {a b : List Edge} (h : t.Allows root a b) :
    (root.at? b).isSome = true := by
  cases h with
  | child _ exist => exact exist
  | descendant _ _ exist => exact exist
  | @item _ _ items first last i list resolved _ upper =>
      obtain ⟨-, hlast⟩ := Slice.resolve_bounds resolved
      rw [Value.at?_concat, list, Option.bind_some, Value.along?,
        List.getElem?_eq_getElem (by omega)]
      rfl

/-! ### A single step -/

theorem mem_walk_hop {h : Hop} {n m : Node} :
    m ∈ walk [h] n ↔ (m ∈ h.target.select n ∧ h.passes m.value = true) ∨
      (h.target.isDescendant = true ∧ ∃ c ∈ n.children, m ∈ walk [h] c) := by
  rw [walk_cons, List.mem_append]
  refine or_congr ?_ ?_
  · simp
  · split
    · next hdesc => simp [hdesc]
    · next hdesc => simp [hdesc]

/-- The nodes that a selector selects from a node are those that stand one admitted edge below. -/
theorem Selector.mem_select_iff_standsIn (hroot : root.Ordered) (s : Selector) {n m : Node}
    (hn : n.StandsIn root) :
    m ∈ s.select n ↔ m.StandsIn root ∧ ∃ e, s.Admits e ∧ m.position = n.position ++ [e] := by
  rw [s.mem_select_iff (hroot.at? hn)]
  constructor
  · rintro ⟨e, v, he, hv⟩
    obtain ⟨hm, hposition⟩ := (Node.standsIn_and_position_iff hn).2 ⟨v, hv⟩
    exact ⟨hm, e, he, hposition⟩
  · rintro ⟨hm, e, he, hposition⟩
    obtain ⟨v, hv⟩ := (Node.standsIn_and_position_iff hn).1 ⟨hm, hposition⟩
    exact ⟨e, v, he, hv⟩

theorem Slice.mem_select_elements_iff (range : Slice) {n m : Node} (hn : n.StandsIn root) :
    m ∈ range.select n.elements ↔ m.StandsIn root ∧ ∃ items first last i,
      n.value = .list items ∧ range.resolve items.length = some (first, last) ∧ first ≤ i ∧
        i ≤ last ∧ m.position = n.position ++ [.index i] := by
  rw [range.mem_select_iff]
  constructor
  · rintro ⟨first, last, i, hresolve, hfirst, hlast, hi⟩
    cases hvalue : n.value with
    | list items =>
        simp only [Node.elements, Node.children, hvalue, List.length_mapIdx,
          List.getElem?_mapIdx, Option.map_eq_some_iff] at hresolve hi
        obtain ⟨v, hv, hm⟩ := hi
        have halong : n.value.along? (.index i) = some v :=
          Value.along?_index_eq_some.2 ⟨items, hvalue, hv⟩
        obtain ⟨hstands, hposition⟩ :=
          (Node.standsIn_and_position_iff hn).2 ⟨v, halong, hm.symm⟩
        exact ⟨hstands, items, first, last, i, rfl, hresolve, hfirst, hlast, hposition⟩
    | _ => simp [Node.elements, hvalue] at hi
  · rintro ⟨hm, items, first, last, i, hvalue, hresolve, hfirst, hlast, hposition⟩
    obtain ⟨v, hv, rfl⟩ := (Node.standsIn_and_position_iff hn).1 ⟨hm, hposition⟩
    obtain ⟨others, hothers, hi⟩ := Value.along?_index_eq_some.1 hv
    obtain rfl : items = others := by
      rw [hvalue] at hothers
      exact Value.list.inj hothers
    refine ⟨first, last, i, ?_, hfirst, hlast, ?_⟩
    · simpa [Node.elements, Node.children, hvalue] using hresolve
    · simp [Node.elements, Node.children, hvalue, hi]

/-- Unless a step goes further down, it selects the nodes that it allows. -/
theorem Target.mem_select_iff_allows (hroot : root.Ordered) {t : Target}
    (ht : t.isDescendant = false) {n m : Node} (hn : n.StandsIn root) :
    m ∈ t.select n ↔ m.StandsIn root ∧ t.Allows root n.position m.position := by
  cases t with
  | child s =>
      rw [select, s.mem_select_iff_standsIn hroot hn]
      refine and_congr_right fun hm => ?_
      constructor
      · rintro ⟨e, he, hposition⟩
        have hexist := hm.isSome_at?
        rw [hposition] at hexist ⊢
        exact .child he hexist
      · intro hallows
        generalize m.position = b at hallows ⊢
        cases hallows with
        | @child _ _ e he _ => exact ⟨e, he, rfl⟩
  | descendant s => cases ht
  | item range =>
      cases range with
      | none =>
          constructor
          · intro hmem
            cases hmem
          · rintro ⟨-, hallows⟩
            cases hallows
      | some range =>
          rw [select, range.mem_select_elements_iff hn]
          refine and_congr_right fun hm => ?_
          constructor
          · rintro ⟨items, first, last, i, hvalue, hresolve, hfirst, hlast, hposition⟩
            rw [hposition]
            exact .item (hvalue ▸ hn) hresolve hfirst hlast
          · intro hallows
            generalize m.position = b at hallows ⊢
            cases hallows with
            | @item _ _ items first last i hlist hresolve hfirst hlast =>
                rw [hn] at hlist
                exact ⟨items, first, last, i, Option.some.inj hlist, hresolve, hfirst, hlast, rfl⟩

/-- Where a node stands below another, there is a child of the other on the way. -/
theorem Node.StandsIn.exists_child (hroot : root.Ordered) {n m : Node} (hn : n.StandsIn root)
    (hm : m.StandsIn root) {e : Edge} {rest : List Edge}
    (hposition : m.position = n.position ++ e :: rest) :
    ∃ c ∈ n.children, c.StandsIn root ∧ c.position = n.position ++ [e] := by
  rw [Node.StandsIn, hposition, Value.at?_append, hn, Option.bind_some, Value.at?_cons] at hm
  obtain ⟨v, hv, -⟩ := Option.bind_eq_some_iff.1 hm
  exact ⟨n.below e v, (Node.mem_children_iff (hroot.at? hn)).2 ⟨e, v, hv, rfl⟩, hn.below hv,
    Node.position_below n e v⟩

/-- A descendant step leads to what stands further down, along any edges and then one that the
selector admits. -/
theorem mem_walk_descendant_iff (hroot : root.Ordered) {s : Selector} {passes : Value → Bool}
    {n m : Node} (hn : n.StandsIn root) :
    m ∈ walk [⟨.descendant s, passes⟩] n ↔ (m.StandsIn root ∧
      ∃ below e, s.Admits e ∧ m.position = n.position ++ below ++ [e]) ∧
        passes m.value = true := by
  induction n using Node.induction_children with
  | step n ihn =>
      have hselect := s.mem_select_iff_standsIn (m := m) hroot hn
      rw [mem_walk_hop]
      constructor
      · rintro (⟨hmem, hpasses⟩ | ⟨-, c, hc, hmem⟩)
        · obtain ⟨hm, e, he, hposition⟩ := hselect.1 hmem
          exact ⟨⟨hm, [], e, he, by rw [hposition, List.append_nil]⟩, hpasses⟩
        · obtain ⟨e, v, hv, rfl⟩ := (Node.mem_children_iff (hroot.at? hn)).1 hc
          obtain ⟨⟨hm, below, f, hf, hposition⟩, hpasses⟩ := (ihn _ hc (hn.below hv)).1 hmem
          refine ⟨⟨hm, e :: below, f, hf, ?_⟩, hpasses⟩
          rw [hposition, Node.position_below]
          simp
      · rintro ⟨⟨hm, below, e, he, hposition⟩, hpasses⟩
        cases below with
        | nil =>
            rw [List.append_nil] at hposition
            exact .inl ⟨hselect.2 ⟨hm, e, he, hposition⟩, hpasses⟩
        | cons f below =>
            rw [List.append_assoc, List.cons_append] at hposition
            obtain ⟨c, hc, hstands, hchild⟩ := hn.exists_child hroot hm hposition
            refine .inr ⟨rfl, c, hc, (ihn c hc hstands).2 ⟨⟨hm, below, e, he, ?_⟩, hpasses⟩⟩
            rw [hposition, hchild]
            simp

/-- **A single step leads to the nodes that it allows** and that pass. -/
theorem mem_walk_hop_iff (hroot : root.Ordered) (h : Hop) {n m : Node} (hn : n.StandsIn root) :
    m ∈ walk [h] n ↔ (m.StandsIn root ∧ h.target.Allows root n.position m.position) ∧
      h.passes m.value = true := by
  obtain ⟨target, passes⟩ := h
  cases hdesc : target.isDescendant with
  | false =>
      rw [mem_walk_hop, Target.mem_select_iff_allows hroot hdesc hn]
      simp [hdesc]
  | true =>
      cases target with
      | descendant s =>
          rw [mem_walk_descendant_iff hroot hn]
          refine and_congr_left' (and_congr_right fun hm => ?_)
          constructor
          · rintro ⟨below, e, he, hposition⟩
            have hexist := hm.isSome_at?
            rw [hposition] at hexist ⊢
            exact .descendant below he hexist
          · intro hallows
            generalize m.position = b at hallows ⊢
            cases hallows with
            | @descendant _ _ e below he _ => exact ⟨below, e, he, rfl⟩
      | child s => cases hdesc
      | item range => cases hdesc

theorem Node.StandsIn.child (hroot : root.Ordered) {n c : Node} (hn : n.StandsIn root)
    (hc : c ∈ n.children) : c.StandsIn root ∧ ∃ e, c.position = n.position ++ [e] := by
  obtain ⟨e, v, hv, rfl⟩ := (Node.mem_children_iff (hroot.at? hn)).1 hc
  exact ⟨hn.below hv, e, Node.position_below n e v⟩

/-- A single step leads only further down. -/
theorem exists_below_of_mem_positions (hroot : root.Ordered) {h : Hop} {n : Node}
    (hn : n.StandsIn root) {b : List Edge} (hb : b ∈ (walk [h] n).map Node.position) :
    ∃ r, r ≠ [] ∧ b = n.position ++ r := by
  obtain ⟨m, hm, rfl⟩ := List.mem_map.1 hb
  exact ((mem_walk_hop_iff hroot h hn).1 hm).1.2.exists_below

/-- **A single step leads to no position twice.** -/
theorem nodup_positions_walk_hop (hroot : root.Ordered) (h : Hop) {n : Node}
    (hn : n.StandsIn root) : ((walk [h] n).map Node.position).Nodup := by
  induction n using Node.induction_children with
  | step n ihn =>
      have hchildren := Node.nodup_positions_children (hroot.at? hn)
      have hsublist : ((h.target.select n).filter fun c => h.passes c.value).Sublist n.children :=
        List.filter_sublist.trans (h.target.select_sublist n)
      have hhere : ((h.target.select n).filter fun c => h.passes c.value).flatMap (walk []) =
          (h.target.select n).filter fun c => h.passes c.value := by
        rw [funext walk_nil, List.flatMap_singleton']
      rw [walk_cons, hhere, List.map_append, List.nodup_append']
      refine ⟨(hsublist.map Node.position).nodup hchildren, ?below, ?apart⟩
      case below =>
        split
        · rw [List.map_flatMap, List.nodup_flatMap]
          refine ⟨fun c hc => ihn c hc (hn.child hroot hc).1, ?_⟩
          refine (List.pairwise_map.1 hchildren).imp_of_mem ?_
          -- What stands below two children differs where the positions of the two differ.
          intro c d hc hd hne b hbc hbd
          obtain ⟨hcstands, e, hce⟩ := hn.child hroot hc
          obtain ⟨hdstands, f, hdf⟩ := hn.child hroot hd
          obtain ⟨r, -, rfl⟩ := exists_below_of_mem_positions hroot hcstands hbc
          obtain ⟨r', -, heq⟩ := exists_below_of_mem_positions hroot hdstands hbd
          exact hne (List.append_inj_left heq (by simp [hce, hdf]))
        · exact List.nodup_nil
      case apart =>
        -- What stands below a child is further down than the children.
        intro b hb hb'
        split at hb'
        · rw [List.map_flatMap] at hb'
          obtain ⟨c, hc, hbc⟩ := List.mem_flatMap.1 hb'
          obtain ⟨hcstands, e, hce⟩ := hn.child hroot hc
          obtain ⟨r, hr, rfl⟩ := exists_below_of_mem_positions hroot hcstands hbc
          obtain ⟨m, hm, hposition⟩ := List.mem_map.1 hb
          obtain ⟨-, f, hmf⟩ := hn.child hroot (hsublist.subset hm)
          have hlength := congrArg List.length hposition
          have := List.length_pos_iff.2 hr
          simp only [hce, hmf, List.length_append, List.length_singleton] at hlength
          omega
        · cases hb'

/-! ### Lists of steps -/

theorem Step.passes_hop (s : Step) (v : Value) :
    s.hop.passes v = true ↔ ∀ f ∈ s.filter, (f.verdict v).passes = true := by
  obtain ⟨target, filter⟩ := s
  cases filter with
  | none => simp [Step.hop]
  | some f => simp [Step.hop, f.passes_verdict]

/-- Lists whose first element is one of several are as many as all that may follow them. -/
theorem encard_setOf_cons {α : Type} {firsts : List α} (hfirsts : firsts.Nodup)
    (T : α → Set (List α)) :
    {list | ∃ a ∈ firsts, ∃ tail ∈ T a, list = a :: tail}.encard =
      (firsts.map fun a => (T a).encard).sum := by
  induction firsts with
  | nil => simp
  | cons a others ih =>
      obtain ⟨ha, hothers⟩ := List.nodup_cons.1 hfirsts
      have hsplit : {list | ∃ b ∈ a :: others, ∃ tail ∈ T b, list = b :: tail} =
          List.cons a '' T a ∪ {list | ∃ b ∈ others, ∃ tail ∈ T b, list = b :: tail} := by
        ext list
        simp [eq_comm]
      have hdisjoint : Disjoint (List.cons a '' T a)
          {list | ∃ b ∈ others, ∃ tail ∈ T b, list = b :: tail} := by
        rw [Set.disjoint_left]
        rintro _ ⟨tail, -, rfl⟩ ⟨b, hb, _, -, heq⟩
        cases heq
        exact ha hb
      rw [hsplit, Set.encard_union_eq hdisjoint, ih hothers, List.cons_injective.encard_image,
        List.map_cons, List.sum_cons]

/-- Chains of one step more: the first hop goes to a position that the walk of the step visits. -/
theorem setOf_chain_cons (hroot : root.Ordered) (s : Step) (steps : List Step) {n : Node}
    (hn : n.StandsIn root) (position : List Edge) :
    {chain | Chain root (s :: steps) n.position chain position} =
      {chain | ∃ b ∈ (walk [s.hop] n).map Node.position,
        ∃ tail ∈ {tail | Chain root steps b tail position}, chain = b :: tail} := by
  ext chain
  constructor
  · rintro (_ | @⟨_, _, _, b, _, tail, allowed, passes, rest⟩)
    obtain ⟨v, hv⟩ := Option.isSome_iff_exists.1 allowed.isSome_at?
    obtain ⟨m, hstands, rfl, rfl⟩ := Node.exists_standsIn hv
    have hpasses := (s.passes_hop m.value).2 fun f hf => passes f hf m.value hv
    have hm := (mem_walk_hop_iff hroot s.hop hn).2
      ⟨⟨hstands, (s.hop_target).symm ▸ allowed⟩, hpasses⟩
    exact ⟨m.position, List.mem_map_of_mem hm, tail, rest, rfl⟩
  · rintro ⟨_, hb, tail, rest, rfl⟩
    obtain ⟨m, hm, rfl⟩ := List.mem_map.1 hb
    obtain ⟨⟨hstands, allowed⟩, hpasses⟩ := (mem_walk_hop_iff hroot s.hop hn).1 hm
    rw [s.hop_target] at allowed
    refine .cons allowed ?_ rest
    intro f hf v hv
    rw [hstands] at hv
    cases hv
    exact (s.passes_hop m.value).1 hpasses f hf

/-- The walk along steps leads only to nodes that stand at their positions. -/
theorem standsIn_of_mem_walk (hroot : root.Ordered) (steps : List Step) {n m : Node}
    (hn : n.StandsIn root) (hm : m ∈ walk (steps.map Step.hop) n) : m.StandsIn root := by
  induction steps generalizing n with
  | nil =>
      rw [List.map_nil, walk_nil] at hm
      exact (List.mem_singleton.1 hm) ▸ hn
  | cons s steps ih =>
      rw [List.map_cons, ← List.singleton_append, walk_append] at hm
      obtain ⟨c, hc, hmc⟩ := List.mem_flatMap.1 hm
      exact ih ((mem_walk_hop_iff hroot s.hop hn).1 hc).1.1 hmc

/-- **The walk along steps comes to a position as often as chains do.** -/
theorem count_walk_eq_encard (hroot : root.Ordered) (steps : List Step) {n : Node}
    (hn : n.StandsIn root) (position : List Edge) :
    ((((walk (steps.map Step.hop) n).map Node.position).count position : ℕ) : ℕ∞) =
      {chain | Chain root steps n.position chain position}.encard := by
  induction steps generalizing n with
  | nil =>
      have hchains : {chain | Chain root [] n.position chain position} =
          {chain | n.position = position ∧ chain = []} := by
        ext chain
        constructor
        · rintro (_ | _)
          exact ⟨rfl, rfl⟩
        · rintro ⟨hposition, rfl⟩
          rw [← hposition]
          exact .nil _
      rw [hchains, List.map_nil, walk_nil, List.map_singleton, List.count_singleton]
      by_cases hposition : n.position = position <;> simp [hposition]
  | cons s steps ih =>
      have hwalk : walk ((s :: steps).map Step.hop) n =
          (walk [s.hop] n).flatMap (walk (steps.map Step.hop)) := walk_append [s.hop] _ n
      have hstands : ∀ m ∈ walk [s.hop] n, m.StandsIn root :=
        fun m hm => ((mem_walk_hop_iff hroot s.hop hn).1 hm).1.1
      have hcounts : (walk [s.hop] n).map (fun m =>
          ((((walk (steps.map Step.hop) m).map Node.position).count position : ℕ) : ℕ∞)) =
            (walk [s.hop] n).map fun m =>
              {tail | Chain root steps m.position tail position}.encard :=
        List.map_congr_left fun m hm => ih (hstands m hm)
      rw [setOf_chain_cons hroot s steps hn,
        encard_setOf_cons (nodup_positions_walk_hop hroot s.hop hn), hwalk, List.map_flatMap,
        List.count_flatMap, Nat.cast_list_sum, List.map_map, List.map_map]
      exact congrArg List.sum hcounts

/-! ### Paths -/

theorem Path.times_eq_count (p : Path) (root : Value) (position : List Edge) :
    p.times root position =
      ((walk (p.steps.map Step.hop) (.root root)).map Node.position).count position := by
  rw [Path.times, Search.drain_fst, p.nodes_evaluate, p.hops_eq_map]

/-- A single descendant step finds what stands at the end of an edge that its selector admits,
anywhere below the root and once. -/
theorem Path.times_of_descendant (hroot : root.Ordered) {p : Path} {s : Selector}
    (hp : p.steps = [⟨.descendant s, none⟩]) (position : List Edge) (P : Prop) [Decidable P]
    (hP : P ↔ (∃ below e, s.Admits e ∧ position = below ++ [e]) ∧
      (root.at? position).isSome = true) :
    p.times root position = if P then 1 else 0 := by
  have hstep : ∀ m, m ∈ walk [⟨.descendant s, fun _ => true⟩] (.root root) ↔ _ :=
    fun m => mem_walk_descendant_iff hroot (Node.standsIn_root root)
  have hnodup := nodup_positions_walk_hop hroot ⟨.descendant s, fun _ => true⟩
    (Node.standsIn_root root)
  have hmem : position ∈
      (walk [⟨.descendant s, fun _ => true⟩] (.root root)).map Node.position ↔ P := by
    rw [hP, List.mem_map]
    constructor
    · rintro ⟨m, hm, rfl⟩
      obtain ⟨⟨hstands, below, e, he, hposition⟩, -⟩ := (hstep m).1 hm
      exact ⟨⟨below, e, he, hposition⟩, hstands.isSome_at?⟩
    · rintro ⟨⟨below, e, he, hposition⟩, hexist⟩
      obtain ⟨v, hv⟩ := Option.isSome_iff_exists.1 hexist
      obtain ⟨m, hstands, rfl, -⟩ := Node.exists_standsIn hv
      exact ⟨m, (hstep m).2 ⟨⟨hstands, below, e, he, hposition⟩, rfl⟩, rfl⟩
  rw [p.times_eq_count, hp]
  exact (List.Nodup.count hnodup).trans (if_congr hmem rfl rfl)

/-- The text of a single descendant step compiles where such steps are allowed. -/
theorem compile_descendant {ctx : Context} (hctx : ctx.descendants = true) (text : String)
    {s : Selector} (h : SelectorText text.toList s) :
    ∃ p, compile ctx (".." ++ text) = .ok p ∧ p.steps = [⟨.descendant s, none⟩] := by
  have htext : (".." ++ text).toList = '.' :: '.' :: text.toList ++ [] := by
    rw [String.toList_append, List.append_nil]
    rfl
  have hsteps : StepsText ctx (PathText ctx) (".." ++ text).toList [⟨.descendant s, none⟩] := by
    rw [htext]
    exact .cons (.plain (.descendant hctx h)) .nil
  exact ⟨_, compile_eq_ok_iff.2 (.mk hsteps (List.cons_ne_nil _ _)), rfl⟩

/-- **How often a node is found** in a root whose maps have their keys in order.  The search along
a path finds the node at a position as often as there are chains of hops from the root to it, one
hop for each step, that the steps allow and whose ends pass the filters; and it finds only nodes
that stand at their positions.  So `..*` finds everything below the root once, and `..name` finds
every entry of that key once. -/
theorem Path.times_eq_encard_chains {root : Value} (hroot : root.Ordered) :
    (∀ (p : Path) (position : List Edge), (p.times root position : ℕ∞) =
      {chain | Chain root p.steps [] chain position}.encard) ∧
    (∀ (p : Path), ∀ n ∈ (p.evaluate root).drain.1, root.at? n.position = some n.value) ∧
    ∀ ctx : Context, ctx.descendants = true →
      (∃ p, compile ctx "..*" = .ok p ∧ ∀ position, p.times root position =
        if position ≠ [] ∧ (root.at? position).isSome = true then 1 else 0) ∧
      ∀ name : String, IsName name.toList →
        ∃ p, compile ctx (".." ++ name) = .ok p ∧ ∀ position, p.times root position =
          if position.getLast? = some (.key name) ∧ (root.at? position).isSome = true
            then 1 else 0 := by
  refine ⟨?_, ?_, fun ctx hctx => ⟨?_, ?_⟩⟩
  · intro p position
    rw [p.times_eq_count]
    exact count_walk_eq_encard hroot p.steps (Node.standsIn_root root) position
  · intro p n hn
    rw [Search.drain_fst, p.nodes_evaluate, p.hops_eq_map] at hn
    exact standsIn_of_mem_walk hroot p.steps (Node.standsIn_root root) hn
  · obtain ⟨p, hp, hsteps⟩ := compile_descendant hctx "*" .wildcard
    refine ⟨p, hp, fun position => times_of_descendant hroot hsteps position _ ?_⟩
    refine and_congr_left' ?_
    constructor
    · intro hne
      exact ⟨position.dropLast, position.getLast hne, trivial,
        (List.dropLast_append_getLast hne).symm⟩
    · rintro ⟨below, e, -, rfl⟩
      exact List.append_ne_nil_of_right_ne_nil _ (List.cons_ne_nil _ _)
  · intro name hname
    obtain ⟨p, hp, hsteps⟩ := compile_descendant hctx name (.name hname)
    rw [String.ofList_toList] at hsteps
    refine ⟨p, hp, fun position => times_of_descendant hroot hsteps position _ ?_⟩
    refine and_congr_left' ?_
    rw [List.getLast?_eq_some_iff]
    constructor
    · rintro ⟨below, hposition⟩
      exact ⟨below, .key name, rfl, hposition⟩
    · rintro ⟨below, e, rfl, hposition⟩
      exact ⟨below, hposition⟩

/-- In three maps inside one another the third entry is found twice by `..a..a`, and by `..a`
once. -/
theorem times_in_nested_maps :
    let v := Value.map [("a", .map [("a", .map [("a", .null)])])]
    let s : Step := ⟨.descendant (.name "a"), none⟩
    let position := [Edge.key "a", .key "a", .key "a"]
    v.Ordered ∧ {chain | Chain v [s, s] [] chain position}.encard = 2 ∧
      (Context.standard.withDescendants true).descendants = true ∧ IsName "a".toList ∧
      ∃ p, compile (Context.standard.withDescendants true) (".." ++ "a") = .ok p ∧
        p.times v position = 1 := by
  intro v s position
  have hordered : v.Ordered := by
    refine .map _ (List.pairwise_singleton _ _) (List.forall_mem_singleton.2 ?_)
    refine .map _ (List.pairwise_singleton _ _) (List.forall_mem_singleton.2 ?_)
    exact .map _ (List.pairwise_singleton _ _) (List.forall_mem_singleton.2 .null)
  have hname : IsName "a".toList := by
    refine ⟨List.cons_ne_nil _ _, ?_⟩
    intro c hc
    obtain rfl : c = 'a' := List.mem_singleton.1 hc
    exact .inl rfl
  have htwice : (Path.mk "..a..a" [s, s]).times v position = 2 := by
    rw [Path.times_eq_count]
    simp [v, s, position, walk_cons, Step.hop, Target.select, Selector.select, Target.isDescendant,
      Node.child?, Node.children, Node.below, Node.root, Node.position]
  obtain ⟨hchains, -, htexts⟩ := Path.times_eq_encard_chains hordered
  refine ⟨hordered, ?_, rfl, hname, ?_⟩
  · rw [← hchains ⟨"..a..a", [s, s]⟩ position, htwice]
    rfl
  · obtain ⟨p, hp, htimes⟩ := (htexts (Context.standard.withDescendants true) rfl).2 "a" hname
    refine ⟨p, hp, ?_⟩
    rw [htimes]
    decide

end TreePath
