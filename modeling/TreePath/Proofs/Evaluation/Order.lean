/-
**The order of the matches.**

The matches of a path come in an order that their positions determine.  A step that does not go
further down selects children from left to right, so without descendant steps the positions ascend.
A descendant step deals with all that it selects among the children of a node before it goes down to
any of them: an ancestor comes before what stands below it, and where the ways to two nodes part,
one that ends there comes before one that goes on, and otherwise the one to the left comes first.

No node is found twice by a path with one descendant step, wherever it stands.  A node that is found
is as many levels below the place where the descendant step stopped as there are steps after it, and
that place is so many levels below the place where it started; so both places are known from the
position of the node.

Main definitions:

* `Edge.Before` — the order of the edges that leave a node;
* `Precedes` — the order of positions in which a descendant step finds them;
* `Path.EmitsAt` — the position of a match, counted from zero.

Main results:

* `pairwise_lex_walk`, `pairwise_precedes_walk` — **the order of a walk** without descendant steps,
  and with one at the end;
* `nodup_positions_walk` — a walk with one descendant step anywhere;
* `Path.emission_order` — **the order of the matches of a path**.
-/

import TreePath.Proofs.Evaluation.Chains
import TreePath.Proofs.Text.ByteOrder

set_option relaxedAutoImplicit false
set_option autoImplicit false

namespace TreePath

/-! ### The order of positions -/

/-- **The order of the edges that leave a node**: keys are ordered by their bytes, and indices by
number. -/
inductive Edge.Before : Edge → Edge → Prop
  | key {k l : String} (h : utf8 k < utf8 l) : Before (.key k) (.key l)
  | index {i j : Nat} (h : i < j) : Before (.index i) (.index j)

/-- **The order in which a descendant step finds positions.**  An ancestor precedes what stands
below it.  Where two positions differ first, one that ends with this edge precedes one that goes on,
and if both end or both go on, the one with the smaller edge precedes the other. -/
inductive Precedes : List Edge → List Edge → Prop
  | ancestor {f : Edge} {b : List Edge} : Precedes [] (f :: b)
  | shallower {e f : Edge} {b : List Edge} (hne : e ≠ f) (hb : b ≠ []) : Precedes [e] (f :: b)
  | level {e f : Edge} (h : e.Before f) : Precedes [e] [f]
  | deeper {e f : Edge} {a b : List Edge} (h : e.Before f) (ha : a ≠ []) (hb : b ≠ []) :
      Precedes (e :: a) (f :: b)
  | cons {e : Edge} {a b : List Edge} (h : Precedes a b) : Precedes (e :: a) (e :: b)

/-- The position of a match of a path, where the matches are counted from zero in the order in which
they are found. -/
def Path.EmitsAt (p : Path) (root : Value) (i : Nat) (position : List Edge) : Prop :=
  ((p.evaluate root).after i).next.found.map Node.position = some position

theorem Edge.Before.asymm {e f : Edge} (h : e.Before f) : ¬f.Before e := by
  intro h'
  cases h with
  | key h =>
      cases h' with
      | key h' => exact List.lt_asymm h h'
  | index h =>
      cases h' with
      | index h' => exact Nat.lt_asymm h h'

theorem Edge.Before.ne {e f : Edge} (h : e.Before f) : e ≠ f := by
  rintro rfl
  exact h.asymm h

theorem Precedes.asymm {a b : List Edge} (h : Precedes a b) : ¬Precedes b a := by
  induction h with
  | ancestor => exact fun h' => by cases h'
  | shallower hne hb =>
      intro h'
      cases h' with
      | level => exact hb rfl
      | shallower _ ha => exact ha rfl
      | deeper _ _ ha => exact ha rfl
      | cons => exact hne rfl
  | level h =>
      intro h'
      cases h' with
      | shallower _ ha => exact ha rfl
      | level h' => exact h.asymm h'
      | deeper _ _ ha => exact ha rfl
      | cons => exact h.ne rfl
  | deeper h ha hb =>
      intro h'
      cases h' with
      | shallower => exact hb rfl
      | level => exact hb rfl
      | deeper h' _ _ => exact h.asymm h'
      | cons => exact h.ne rfl
  | cons _ ih =>
      intro h'
      cases h' with
      | shallower hne _ => exact hne rfl
      | level h' => exact h'.ne rfl
      | deeper h' _ _ => exact h'.ne rfl
      | cons h' => exact ih h'

theorem Precedes.append {a b : List Edge} (h : Precedes a b) (c : List Edge) :
    Precedes (c ++ a) (c ++ b) := by
  induction c with
  | nil => exact h
  | cons e c ih => exact .cons ih

/-- What stands below two positions of one level is in the order of these. -/
theorem Precedes.of_lex {a b r r' : List Edge} (h : List.Lex Edge.Before a b)
    (hlength : a.length = b.length) (hr : r ≠ []) (hr' : r' ≠ []) :
    Precedes (a ++ r) (b ++ r') := by
  induction h with
  | nil => cases hlength
  | rel h => exact .deeper h (by simp [hr]) (by simp [hr'])
  | cons _ ih => exact .cons (ih (Nat.succ.inj hlength))

theorem lex_append_left {a b : List Edge} (h : List.Lex Edge.Before a b) (c : List Edge) :
    List.Lex Edge.Before (c ++ a) (c ++ b) := by
  induction c with
  | nil => exact h
  | cons e c ih => exact .cons ih

theorem not_lex_self (a : List Edge) : ¬List.Lex Edge.Before a a := by
  induction a with
  | nil => exact fun h => by cases h
  | cons e a ih =>
      intro h
      cases h with
      | rel h => exact h.ne rfl
      | cons h => exact ih h

/-! ### Where a walk leads -/

theorem Hop.mem_children_of_mem_select {h : Hop} {n c : Node}
    (hc : c ∈ (h.target.select n).filter fun c => h.passes c.value) : c ∈ n.children :=
  (h.target.select_sublist n).subset (List.mem_of_mem_filter hc)

/-- What passes from a node to its children holds of all that steps lead to. -/
theorem forall_mem_walk {P : Node → Prop} (hchild : ∀ n, P n → ∀ c ∈ n.children, P c)
    {hops : List Hop} {n : Node} (hn : P n) : ∀ m ∈ walk hops n, P m := by
  induction hops generalizing n with
  | nil => simpa using hn
  | cons h rest ihrest =>
      induction n using Node.induction_children with
      | step n ihn =>
          intro m hm
          rw [walk_cons, List.mem_append, List.mem_flatMap] at hm
          rcases hm with ⟨c, hc, hm⟩ | hm
          · exact ihrest (hchild n hn c (Hop.mem_children_of_mem_select hc)) m hm
          · split at hm
            · obtain ⟨c, hc, hm⟩ := List.mem_flatMap.1 hm
              exact ihn c hc (hchild n hn c hc) m hm
            · cases hm

/-- A child stands one edge further down. -/
theorem Node.exists_position_of_mem_children {n c : Node} (h : c ∈ n.children) :
    ∃ e, c.position = n.position ++ [e] := by
  obtain ⟨trail, value⟩ := n
  cases value with
  | list items =>
      obtain ⟨i, hi, rfl⟩ := List.mem_mapIdx.1 h
      exact ⟨_, position_below _ _ _⟩
  | map entries =>
      obtain ⟨e, he, rfl⟩ := List.mem_map.1 h
      exact ⟨_, position_below _ _ _⟩
  | _ => cases h

/-- Steps lead further down. -/
theorem exists_position_of_mem_walk {hops : List Hop} {n m : Node} (hm : m ∈ walk hops n) :
    ∃ r, m.position = n.position ++ r := by
  refine forall_mem_walk (P := fun m => ∃ r, m.position = n.position ++ r) ?_
    ⟨[], (List.append_nil _).symm⟩ m hm
  rintro c ⟨r, hr⟩ d hd
  obtain ⟨e, he⟩ := Node.exists_position_of_mem_children hd
  exact ⟨r ++ [e], by rw [he, hr, List.append_assoc]⟩

/-- Steps of which none goes further down than one level lead down as many levels as they are. -/
theorem length_position_of_mem_walk {hops : List Hop}
    (hhops : ∀ h ∈ hops, h.target.isDescendant = false) {n m : Node} (hm : m ∈ walk hops n) :
    m.position.length = n.position.length + hops.length := by
  induction hops generalizing n with
  | nil =>
      obtain rfl : m = n := by simpa using hm
      rfl
  | cons h rest ih =>
      obtain ⟨hh, hrest⟩ := List.forall_mem_cons.1 hhops
      rw [walk_cons, hh, if_neg Bool.false_ne_true, List.append_nil, List.mem_flatMap] at hm
      obtain ⟨c, hc, hm⟩ := hm
      obtain ⟨e, he⟩ := Node.exists_position_of_mem_children (Hop.mem_children_of_mem_select hc)
      rw [ih hrest hm, he]
      simp only [List.length_append, List.length_cons, List.length_nil]
      omega

/-- A step leads to something below. -/
theorem exists_below_of_mem_walk {h : Hop} {rest : List Hop} {n m : Node}
    (hm : m ∈ walk (h :: rest) n) : ∃ r, r ≠ [] ∧ m.position = n.position ++ r := by
  obtain ⟨c, hc, hops, hm⟩ : ∃ c ∈ n.children, ∃ hops, m ∈ walk hops c := by
    rw [walk_cons, List.mem_append, List.mem_flatMap] at hm
    rcases hm with ⟨c, hc, hm⟩ | hm
    · exact ⟨c, Hop.mem_children_of_mem_select hc, rest, hm⟩
    · split at hm
      · obtain ⟨c, hc, hm⟩ := List.mem_flatMap.1 hm
        exact ⟨c, hc, h :: rest, hm⟩
      · cases hm
  obtain ⟨e, he⟩ := Node.exists_position_of_mem_children hc
  obtain ⟨r, hr⟩ := exists_position_of_mem_walk hm
  exact ⟨e :: r, List.cons_ne_nil _ _, by rw [hr, he, List.append_assoc, List.singleton_append]⟩

/-! ### The order of a walk -/

/-- Two nodes one level below a third, the first one to the left of the second. -/
def Node.SideBySide (n c d : Node) : Prop :=
  ∃ e f : Edge, e.Before f ∧ c.position = n.position ++ [e] ∧ d.position = n.position ++ [f]

/-- **The children of a node** stand side by side. -/
theorem Node.pairwise_children {n : Node} (hn : n.value.Ordered) :
    n.children.Pairwise n.SideBySide := by
  obtain ⟨trail, value⟩ := n
  cases hn with
  | list items _ =>
      refine List.pairwise_iff_getElem.2 fun i j hi hj hij => ?_
      simp only [children, List.getElem_mapIdx]
      exact ⟨.index i, .index j, .index hij, position_below _ _ _, position_below _ _ _⟩
  | map entries ascending _ =>
      refine List.pairwise_map.2 ((List.pairwise_map.1 ascending).imp fun {e f} hlt => ?_)
      exact ⟨.key e.1, .key f.1, .key (lt_iff_utf8_lt.1 hlt), position_below _ _ _,
        position_below _ _ _⟩
  | _ => exact .nil

theorem Node.ordered_of_mem_children {n c : Node} (hn : n.value.Ordered) (hc : c ∈ n.children) :
    c.value.Ordered := by
  obtain ⟨e, v, hv, rfl⟩ := (mem_children_iff hn).1 hc
  exact hn.along? hv

/-- What a step selects and lets through stands side by side. -/
theorem Hop.pairwise_select (h : Hop) {n : Node} (hn : n.value.Ordered) :
    ((h.target.select n).filter fun c => h.passes c.value).Pairwise n.SideBySide :=
  (Node.pairwise_children hn).sublist (List.filter_sublist.trans (h.target.select_sublist n))

/-- **Steps of which none goes further down** lead to positions that ascend. -/
theorem pairwise_lex_walk {hops : List Hop} (hhops : ∀ h ∈ hops, h.target.isDescendant = false)
    {n : Node} (hn : n.value.Ordered) :
    ((walk hops n).map Node.position).Pairwise (List.Lex Edge.Before) := by
  induction hops generalizing n with
  | nil => simp
  | cons h rest ih =>
      obtain ⟨hh, hrest⟩ := List.forall_mem_cons.1 hhops
      rw [walk_cons, hh, if_neg Bool.false_ne_true, List.append_nil, List.map_flatMap,
        List.pairwise_flatMap]
      refine ⟨fun c hc => ih hrest (Node.ordered_of_mem_children hn
        (Hop.mem_children_of_mem_select hc)), (h.pairwise_select hn).imp ?_⟩
      rintro c d ⟨e, f, hef, hc, hd⟩ a ha b hb
      obtain ⟨m, hm, rfl⟩ := List.mem_map.1 ha
      obtain ⟨k, hk, rfl⟩ := List.mem_map.1 hb
      obtain ⟨r, hr⟩ := exists_position_of_mem_walk hm
      obtain ⟨r', hr'⟩ := exists_position_of_mem_walk hk
      rw [hr, hr', hc, hd, List.append_assoc, List.append_assoc]
      exact lex_append_left (.rel hef) _

/-- **A single step**, even if it goes further down, leads to one position after the other in the
order of `Precedes`. -/
theorem pairwise_precedes_walk_hop (h : Hop) {n : Node} (hn : n.value.Ordered) :
    ((walk [h] n).map Node.position).Pairwise Precedes := by
  induction n using Node.induction_children with
  | step n ihn =>
      rw [walk_cons, funext walk_nil, List.flatMap_singleton', List.map_append,
        List.pairwise_append]
      refine ⟨?here, ?below, ?between⟩
      case here =>
        refine List.pairwise_map.2 ((h.pairwise_select hn).imp ?_)
        rintro c d ⟨e, f, hef, hc, hd⟩
        rw [hc, hd]
        exact (Precedes.level hef).append _
      case below =>
        split
        · rw [List.map_flatMap, List.pairwise_flatMap]
          refine ⟨fun c hc => ihn c hc (Node.ordered_of_mem_children hn hc),
            (Node.pairwise_children hn).imp ?_⟩
          rintro c d ⟨e, f, hef, hc, hd⟩ a ha b hb
          obtain ⟨m, hm, rfl⟩ := List.mem_map.1 ha
          obtain ⟨k, hk, rfl⟩ := List.mem_map.1 hb
          obtain ⟨r, hr, hmr⟩ := exists_below_of_mem_walk hm
          obtain ⟨r', hr', hkr⟩ := exists_below_of_mem_walk hk
          rw [hmr, hkr, hc, hd, List.append_assoc, List.append_assoc]
          exact (Precedes.deeper hef hr hr').append _
        · exact .nil
      case between =>
        intro a ha b hb
        split at hb
        · rw [List.map_flatMap] at hb
          obtain ⟨d, hd, hb⟩ := List.mem_flatMap.1 hb
          obtain ⟨c, hc, rfl⟩ := List.mem_map.1 ha
          obtain ⟨k, hk, rfl⟩ := List.mem_map.1 hb
          obtain ⟨e, he⟩ :=
            Node.exists_position_of_mem_children (Hop.mem_children_of_mem_select hc)
          obtain ⟨f, hf⟩ := Node.exists_position_of_mem_children hd
          obtain ⟨r, hr, hkr⟩ := exists_below_of_mem_walk hk
          rw [hkr, he, hf, List.append_assoc, List.singleton_append]
          refine Precedes.append ?_ _
          -- Below the selected child itself, or below another one.
          by_cases hef : e = f
          · obtain ⟨g, r, rfl⟩ := List.exists_cons_of_ne_nil hr
            exact hef ▸ .cons .ancestor
          · exact .shallower hef hr
        · cases hb

/-- **Steps of which at most the last goes further down** lead to one position after the other in
the order of `Precedes`. -/
theorem pairwise_precedes_walk {init : List Hop}
    (hinit : ∀ h ∈ init, h.target.isDescendant = false) (last : Hop) {n : Node}
    (hn : n.value.Ordered) :
    ((walk (init ++ [last]) n).map Node.position).Pairwise Precedes := by
  have hordered : ∀ m ∈ walk init n, m.value.Ordered :=
    forall_mem_walk (fun _ hn c hc => Node.ordered_of_mem_children hn hc) hn
  rw [walk_append, List.map_flatMap, List.pairwise_flatMap]
  refine ⟨fun m hm => pairwise_precedes_walk_hop last (hordered m hm), ?_⟩
  refine (List.pairwise_map.1 (pairwise_lex_walk hinit hn)).imp_of_mem ?_
  intro c d hc hd hlex a ha b hb
  obtain ⟨m, hm, rfl⟩ := List.mem_map.1 ha
  obtain ⟨k, hk, rfl⟩ := List.mem_map.1 hb
  obtain ⟨r, hr, hmr⟩ := exists_below_of_mem_walk hm
  obtain ⟨r', hr', hkr⟩ := exists_below_of_mem_walk hk
  have hlength : c.position.length = d.position.length :=
    (length_position_of_mem_walk hinit hc).trans (length_position_of_mem_walk hinit hd).symm
  rw [hmr, hkr]
  exact .of_lex hlex hlength hr hr'

/-! ### No position twice -/

/-- Walks from several nodes lead to no position twice, if each walk does not and where it started
can be told from where it leads. -/
theorem nodup_positions_flatMap {ns : List Node} {g : Node → List Node}
    (start : List Edge → List Edge) (hns : (ns.map Node.position).Nodup)
    (hg : ∀ n ∈ ns, ((g n).map Node.position).Nodup)
    (hstart : ∀ n ∈ ns, ∀ m ∈ g n, start m.position = n.position) :
    ((ns.flatMap g).map Node.position).Nodup := by
  rw [List.map_flatMap, List.nodup_flatMap]
  refine ⟨hg, (List.pairwise_map.1 hns).imp_of_mem ?_⟩
  intro c d hc hd hne a hac had
  obtain ⟨m, hm, rfl⟩ := List.mem_map.1 hac
  obtain ⟨k, hk, heq⟩ := List.mem_map.1 had
  exact hne (by rw [← hstart c hc m hm, ← hstart d hd k hk, heq])

theorem nodup_positions_walk_level {hops : List Hop}
    (hhops : ∀ h ∈ hops, h.target.isDescendant = false) {n : Node} (hn : n.value.Ordered) :
    ((walk hops n).map Node.position).Nodup := by
  refine (pairwise_lex_walk hhops hn).imp ?_
  rintro a _ hlex rfl
  exact not_lex_self a hlex

/-- **Steps of which one goes further down**, wherever it stands, lead to no position twice. -/
theorem nodup_positions_walk {before after : List Hop}
    (hbefore : ∀ h ∈ before, h.target.isDescendant = false)
    (hafter : ∀ h ∈ after, h.target.isDescendant = false) (middle : Hop) {n : Node}
    (hn : n.value.Ordered) :
    ((walk (before ++ middle :: after) n).map Node.position).Nodup := by
  have hordered (hops : List Hop) {n : Node} (hn : n.value.Ordered) :
      ∀ m ∈ walk hops n, m.value.Ordered :=
    forall_mem_walk (fun _ hn c hc => Node.ordered_of_mem_children hn hc) hn
  have hmiddle : ((walk (before ++ [middle]) n).map Node.position).Nodup := by
    refine (pairwise_precedes_walk hbefore middle hn).imp ?_
    rintro a _ h rfl
    exact h.asymm h
  rw [List.append_cons, walk_append]
  -- The steps after the one that goes further down are as many levels.
  refine nodup_positions_flatMap (fun a => a.take (a.length - after.length)) hmiddle
    (fun m hm => nodup_positions_walk_level hafter (hordered _ hn m hm)) fun m _ k hk => ?_
  obtain ⟨r, hr⟩ := exists_position_of_mem_walk hk
  rw [length_position_of_mem_walk hafter hk, Nat.add_sub_cancel, hr, List.take_left]

/-! ### The order of the matches -/

theorem Path.emitsAt_iff (p : Path) (root : Value) (i : Nat) (a : List Edge) :
    p.EmitsAt root i a ↔ ((walk p.hops (.root root)).map Node.position)[i]? = some a := by
  rw [EmitsAt, Search.found_after, p.nodes_evaluate, List.getElem?_map]

/-- What holds of one element of a list and each after it, by their indices. -/
theorem rel_of_pairwise {α : Type} {r : α → α → Prop} {as : List α} (h : as.Pairwise r) {i j : Nat}
    {a b : α} (ha : as[i]? = some a) (hb : as[j]? = some b) (hij : i < j) : r a b := by
  obtain ⟨hi, rfl⟩ := List.getElem?_eq_some_iff.1 ha
  obtain ⟨hj, rfl⟩ := List.getElem?_eq_some_iff.1 hb
  exact List.pairwise_iff_getElem.1 h i j hi hj hij

theorem forall_hops {steps : List Step}
    (h : ∀ s ∈ steps, s.target.isDescendant = false) :
    ∀ k ∈ steps.map Step.hop, k.target.isDescendant = false := by
  refine List.forall_mem_map.2 fun s hs => ?_
  rw [s.hop_target]
  exact h s hs

/-- **At most one of the steps goes further down**: no position is led to twice. -/
theorem nodup_positions_of_countP_le {steps : List Step}
    (hcount : (steps.countP fun s => s.target.isDescendant) ≤ 1) {n : Node} (hn : n.value.Ordered) :
    ((walk (steps.map Step.hop) n).map Node.position).Nodup := by
  by_cases hsteps : ∃ s ∈ steps, s.target.isDescendant = true
  · obtain ⟨s, hs, hdesc⟩ := hsteps
    obtain ⟨before, after, rfl⟩ := List.append_of_mem hs
    have hzero : (before.countP fun s => s.target.isDescendant) = 0 ∧
        (after.countP fun s => s.target.isDescendant) = 0 := by
      rw [List.countP_append, List.countP_cons, if_pos hdesc] at hcount
      omega
    simp only [List.countP_eq_zero, Bool.not_eq_true] at hzero
    rw [List.map_append, List.map_cons]
    exact nodup_positions_walk (forall_hops hzero.1) (forall_hops hzero.2) s.hop hn
  · refine nodup_positions_walk_level (forall_hops fun s hs => ?_) hn
    exact Bool.eq_false_iff.2 fun hdesc => hsteps ⟨s, hs, hdesc⟩

/-- **The matches of a path come in a definite order**, and a node is found once.  Without
descendant steps the positions of the matches ascend: of two matches the first is the one whose
position is less where the two differ first.  With at most one descendant step, wherever it stands
and whatever the filters, no two matches stand at one position.  And if the last step is a
descendant step and no other one is, then of two matches the first is the one that precedes the
other. -/
theorem Path.emission_order (p : Path) {root : Value} (hroot : root.Ordered) :
    ((∀ s ∈ p.steps, s.target.isDescendant = false) → ∀ i j a b,
      p.EmitsAt root i a → p.EmitsAt root j b → i < j → List.Lex Edge.Before a b) ∧
    ((p.steps.countP fun s => s.target.isDescendant) ≤ 1 → ∀ i j a,
      p.EmitsAt root i a → p.EmitsAt root j a → i = j) ∧
    ∀ init last, p.steps = init ++ [last] → last.target.isDescendant = true →
      (∀ s ∈ init, s.target.isDescendant = false) → ∀ i j a b,
        p.EmitsAt root i a → p.EmitsAt root j b → (i < j ↔ Precedes a b) := by
  have hvalue : (Node.root root).value.Ordered := hroot
  simp only [p.emitsAt_iff, p.hops_eq_map]
  refine ⟨fun hsteps i j a b ha hb hij => ?_, fun hcount i j a hi hj => ?_,
    fun init last hp _ hinit i j a b ha hb => ?_⟩
  · exact rel_of_pairwise (pairwise_lex_walk (forall_hops hsteps) hvalue) ha hb hij
  · have hnodup := nodup_positions_of_countP_le hcount hvalue
    by_contra hne
    rcases Nat.lt_or_gt_of_ne hne with hij | hij
    · exact rel_of_pairwise hnodup hi hj hij rfl
    · exact rel_of_pairwise hnodup hj hi hij rfl
  · rw [hp, List.map_append, List.map_singleton] at ha hb
    have hwalk := pairwise_precedes_walk (forall_hops hinit) last.hop hvalue
    refine ⟨rel_of_pairwise hwalk ha hb, fun h => ?_⟩
    rcases Nat.lt_trichotomy i j with hij | rfl | hij
    · exact hij
    · obtain rfl := Option.some.inj (ha.symm.trans hb)
      exact absurd h h.asymm
    · exact absurd h (rel_of_pairwise hwalk hb ha hij).asymm

/-- Below a map with the keys `a` and `b` the entry under `b` comes before what is under `a`. -/
theorem Path.emission_order_maps :
    let root := Value.map [("a", .map [("c", .null)]), ("b", .null)]
    let p := Path.mk "..*" [⟨.descendant .wildcard, none⟩]
    root.Ordered ∧ p.EmitsAt root 1 [.key "b"] ∧ p.EmitsAt root 2 [.key "a", .key "c"] ∧
      ¬p.EmitsAt root 2 [.key "b"] ∧ Precedes [.key "b"] [.key "a", .key "c"] := by
  intro root p
  have hordered : root.Ordered := by
    refine .map _ (List.pairwise_pair.2 (by decide)) (List.forall_mem_cons.2 ⟨?_, ?_⟩)
    · exact .map _ (List.pairwise_singleton _ _) (List.forall_mem_singleton.2 .null)
    · exact List.forall_mem_singleton.2 .null
  obtain ⟨-, honce, horder⟩ := p.emission_order hordered
  have hwalk : (walk p.hops (.root root)).map Node.position =
      [[.key "a"], [.key "b"], [.key "a", .key "c"]] := by
    simp [p, root, Path.hops, hopsOf, Step.hop, walk_cons, Target.select, Selector.select,
      Target.isDescendant, Node.children, Node.below, Node.root, Node.position]
  have hone : p.EmitsAt root 1 [.key "b"] := by
    rw [p.emitsAt_iff, hwalk]
    rfl
  have htwo : p.EmitsAt root 2 [.key "a", .key "c"] := by
    rw [p.emitsAt_iff, hwalk]
    rfl
  refine ⟨hordered, hone, htwo, fun h => ?_, ?_⟩
  · exact absurd (honce (by decide) 1 2 _ hone h) (by decide)
  · exact (horder [] _ rfl rfl (List.forall_mem_nil _) 1 2 _ _ hone htwo).1 (by decide)

end TreePath
