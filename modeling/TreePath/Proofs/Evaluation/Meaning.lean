/-
**What a path means, by recursion.**

`Path.evaluate` runs a path on a stack of pending frames.  This module says what the answer should
be, without a stack and without searches inside of searches: what a list of steps leads to from a
value is the concatenation, over the children that the first step selects and lets through, of what
the remaining steps lead to from there; and a descendant step is then applied to every child once
more.  A filter holds of a value when its condition answers as asked, each path among the arguments
standing for the list of all the values that it leads to from that value.

The same recursion is also written over nodes, that is over values at their places in a tree
(`walk`).  It takes its selection from the definitions that a search uses, while `follow` takes it
from the queries of a single value; `map_value_walk` says that the two recursions agree.

Main definitions:

* `Selector.pick`, `Target.pick` — the children of a value that a step selects, in order;
* `Hop`, `follow`, `walk` — steps as targets with predicates, and what they lead to;
* `Path.hops`, `Step.hop`, `Filter.holds`, `Argument.denote` — paths, steps, filters and arguments
  by recursion;
* `Path.followFrom`, `Path.lets` — what a path leads to from its step of a given index on.

Main results:

* `Target.map_value_select`, `map_value_walk` — nodes and values agree;
* `walk_append`, `follow_append` — **one list of steps after another** leads to what the second
  leads to from all that the first leads to;
* `Path.followFrom_eq` — the recursion, step by step.
-/

import Mathlib.Data.List.Basic
import TreePath.Evaluation.Path

set_option relaxedAutoImplicit false
set_option autoImplicit false

namespace TreePath

/-! ### What a step selects from a value -/

/-- The children of a value that a selector selects, in order. -/
def Selector.pick : Selector → Value → List Value
  | .wildcard, v => v.children
  | .name key, v => (v.get? key).toList

/-- The children of a value that a step selects, in order and before any filter. -/
def Target.pick : Target → Value → List Value
  | .child s, v => s.pick v
  | .descendant s, v => s.pick v
  | .item none, _ => []
  | .item (some range), v => range.select (v.toList?.getD [])

/-- A range of images is the image of the range. -/
theorem Slice.map_select {α β : Type} (f : α → β) (range : Slice) (items : List α) :
    (range.select items).map f = range.select (items.map f) := by
  simp only [Slice.select, List.length_map]
  cases range.resolve items.length with
  | none => rfl
  | some bounds => simp [List.map_take, List.map_drop]

/-- A node has a child under a key when its value has an entry there. -/
theorem Node.map_value_child? (n : Node) (key : String) :
    (n.child? key).map Node.value = n.value.get? key := by
  obtain ⟨trail, v⟩ := n
  cases v with
  | map entries =>
      simp only [Node.child?, Node.children, Value.get?, Entries.find?, List.find?_map,
        Option.map_map]
      congr 1
      refine congrArg (fun p => List.find? p entries) (funext fun e => ?_)
      rw [Bool.eq_iff_iff]
      simp [Node.below]
  | list items =>
      have hnone : (Node.mk trail (.list items)).child? key = none := by
        refine List.find?_eq_none.2 ?_
        intro c hc
        obtain ⟨i, hi, rfl⟩ := List.mem_mapIdx.1 hc
        simp [Node.below]
      rw [hnone]
      rfl
  | _ => rfl

theorem Node.map_value_elements (n : Node) :
    n.elements.map Node.value = n.value.toList?.getD [] := by
  obtain ⟨trail, v⟩ := n
  cases v with
  | list items => exact Node.map_value_children ⟨trail, .list items⟩
  | _ => rfl

theorem Selector.map_value_select (s : Selector) (n : Node) :
    (s.select n).map Node.value = s.pick n.value := by
  cases s with
  | wildcard => exact n.map_value_children
  | name key =>
      rw [Selector.select, Selector.pick, ← n.map_value_child? key]
      cases n.child? key <;> rfl

/-- **What a step selects from a node** are the nodes of the values that it selects from the
node's value. -/
theorem Target.map_value_select (t : Target) (n : Node) :
    (t.select n).map Node.value = t.pick n.value := by
  cases t with
  | child s => exact s.map_value_select n
  | descendant s => exact s.map_value_select n
  | item range =>
      cases range with
      | none => rfl
      | some range =>
          rw [Target.select, Target.pick, Slice.map_select, n.map_value_elements]

/-! ### Following steps -/

/-- A step as the recursion sees it: where it looks, and which values it lets through. -/
structure Hop where
  /-- Which children are selected. -/
  target : Target
  /-- Which of them pass. -/
  passes : Value → Bool

/-- **The values that steps lead to from a value**, in order. -/
def follow : (hops : List Hop) → Value → List Value
  | [], v => [v]
  | h :: rest, v =>
    ((h.target.pick v).filter h.passes).flatMap (fun c => follow rest c) ++
      if h.target.isDescendant then v.children.attach.flatMap (fun c => follow (h :: rest) c.1)
      else []
termination_by hops v => (hops.length, v.size)
decreasing_by
  · exact .left _ _ (Nat.lt_succ_self _)
  · exact .right _ (Value.size_lt_of_mem_children c.2)

@[simp] theorem follow_nil (v : Value) : follow [] v = [v] := by rw [follow]

theorem follow_cons (h : Hop) (rest : List Hop) (v : Value) :
    follow (h :: rest) v = ((h.target.pick v).filter h.passes).flatMap (follow rest) ++
      if h.target.isDescendant then v.children.flatMap (follow (h :: rest)) else [] := by
  rw [follow]
  congr 2
  rw [← List.flatMap_map, List.attach_map_subtype_val]

/-- The nodes that steps lead to from a node, in order. -/
def walk : (hops : List Hop) → Node → List Node
  | [], n => [n]
  | h :: rest, n =>
    ((h.target.select n).filter fun c => h.passes c.value).flatMap (fun c => walk rest c) ++
      if h.target.isDescendant then n.children.attach.flatMap (fun c => walk (h :: rest) c.1)
      else []
termination_by hops n => (hops.length, n.value.size)
decreasing_by
  · exact .left _ _ (Nat.lt_succ_self _)
  · exact .right _ (Value.size_lt_of_mem_children (Node.value_mem_of_mem_children c.2))

@[simp] theorem walk_nil (n : Node) : walk [] n = [n] := by rw [walk]

theorem walk_cons (h : Hop) (rest : List Hop) (n : Node) :
    walk (h :: rest) n =
      ((h.target.select n).filter fun c => h.passes c.value).flatMap (walk rest) ++
        if h.target.isDescendant then n.children.flatMap (walk (h :: rest)) else [] := by
  rw [walk]
  congr 2
  rw [← List.flatMap_map, List.attach_map_subtype_val]

/-- An induction on a node that goes down to its children. -/
theorem Node.induction_children {motive : Node → Prop}
    (step : ∀ n, (∀ c ∈ n.children, motive c) → motive n) (n : Node) : motive n := by
  induction hsize : n.value.size using Nat.strongRecOn generalizing n with
  | ind size ih =>
      refine step n fun c hc => ih c.value.size ?_ c rfl
      rw [← hsize]
      exact Value.size_lt_of_mem_children (Node.value_mem_of_mem_children hc)

/-- **The walk over nodes and the recursion over values agree.** -/
theorem map_value_walk (hops : List Hop) (n : Node) :
    (walk hops n).map Node.value = follow hops n.value := by
  induction hops generalizing n with
  | nil => simp
  | cons h rest ihrest =>
      induction n using Node.induction_children with
      | step n ihn =>
          have hhere : (((h.target.select n).filter fun c => h.passes c.value).flatMap
              (walk rest)).map Node.value =
                ((h.target.pick n.value).filter h.passes).flatMap (follow rest) := by
            rw [List.map_flatMap, ← h.target.map_value_select n, List.filter_map,
              List.flatMap_map]
            exact List.flatMap_congr fun c _ => ihrest c
          have hbelow : (n.children.flatMap (walk (h :: rest))).map Node.value =
              n.value.children.flatMap (follow (h :: rest)) := by
            rw [List.map_flatMap, ← n.map_value_children, List.flatMap_map]
            exact List.flatMap_congr ihn
          rw [walk_cons, follow_cons, List.map_append, hhere]
          congr 1
          split
          · exact hbelow
          · rfl

/-! ### One list of steps after another -/

/-- **Walking two lists of steps in a row** is walking the second from every node that the first
leads to. -/
theorem walk_append (hops more : List Hop) (n : Node) :
    walk (hops ++ more) n = (walk hops n).flatMap (walk more) := by
  induction hops generalizing n with
  | nil => simp
  | cons h rest ihrest =>
      -- A descendant step comes again below, so there is a second induction on the node.
      induction n using Node.induction_children with
      | step n ihn =>
          have hhere : ((h.target.select n).filter fun c => h.passes c.value).flatMap
              (walk (rest ++ more)) =
                (((h.target.select n).filter fun c => h.passes c.value).flatMap
                  (walk rest)).flatMap (walk more) := by
            rw [List.flatMap_assoc]
            exact List.flatMap_congr fun c _ => ihrest c
          have hbelow : n.children.flatMap (walk (h :: (rest ++ more))) =
              (n.children.flatMap (walk (h :: rest))).flatMap (walk more) := by
            rw [List.flatMap_assoc]
            exact List.flatMap_congr ihn
          rw [List.cons_append, walk_cons, walk_cons, List.flatMap_append, hhere]
          congr 1
          split
          · exact hbelow
          · rfl

/-- Following two lists of steps in a row is following the second from every value that the first
leads to. -/
theorem follow_append (hops more : List Hop) (v : Value) :
    follow (hops ++ more) v = (follow hops v).flatMap (follow more) := by
  have hwalk := congrArg (List.map Node.value) (walk_append hops more (.root v))
  rw [map_value_walk, List.map_flatMap] at hwalk
  rw [show v = (Node.root v).value from rfl, hwalk, ← map_value_walk, List.flatMap_map]
  exact List.flatMap_congr fun c _ => map_value_walk more c

/-! ### Paths, steps, filters and arguments -/

mutual

/-- The steps of a path, as the recursion sees them. -/
def Path.hops : Path → List Hop
  | ⟨_, steps⟩ => hopsOf steps

/-- Steps, as the recursion sees them. -/
def hopsOf : List Step → List Hop
  | [] => []
  | s :: rest => s.hop :: hopsOf rest

/-- A step, as the recursion sees it: without a filter every value passes. -/
def Step.hop : Step → Hop
  | ⟨target, none⟩ => ⟨target, fun _ => true⟩
  | ⟨target, some f⟩ => ⟨target, f.holds⟩

/-- Whether a filter holds of a value. -/
def Filter.holds : Filter → Value → Bool
  | ⟨c, negated, arguments⟩, v => c.test (denoteAll arguments v) != negated

/-- What arguments stand for where a value is tested, in order. -/
def denoteAll : List Argument → Value → List Resolved
  | [], _ => []
  | a :: rest, v => a.denote v :: denoteAll rest v

/-- What an argument stands for where a value is tested: a path for all the values that it leads
to from there, and a literal for itself. -/
def Argument.denote : Argument → Value → Resolved
  | .path p, v => .candidates (follow p.hops v)
  | .string s, _ => .string s
  | .integer n, _ => .integer n
  | .float x, _ => .float x

end

theorem hopsOf_eq_map (steps : List Step) : hopsOf steps = steps.map Step.hop := by
  induction steps with
  | nil => rfl
  | cons s rest ih => simp [hopsOf, ih]

theorem Path.hops_eq_map (p : Path) : p.hops = p.steps.map Step.hop := by
  obtain ⟨source, steps⟩ := p
  exact hopsOf_eq_map steps

@[simp] theorem Step.hop_target (s : Step) : s.hop.target = s.target := by
  obtain ⟨target, filter⟩ := s
  cases filter <;> rfl

/-! ### From one step of a path on -/

/-- Whether a value that the step of index `i` of a path has selected may go on: the filter of the
step holds of it, if there is one. -/
def Path.lets (p : Path) (i : Nat) (v : Value) : Bool :=
  match p.steps[i]?.bind Step.filter with
  | none => true
  | some f => f.holds v

/-- **The values that a path leads to** from a value at which its step of index `i` is next. -/
def Path.followFrom (p : Path) (i : Nat) (v : Value) : List Value := follow (p.hops.drop i) v

theorem Path.getElem?_hops (p : Path) (i : Nat) : p.hops[i]? = p.steps[i]?.map Step.hop := by
  rw [p.hops_eq_map, List.getElem?_map]

theorem Path.lets_eq_all_passes (p : Path) (i : Nat) (v : Value) :
    p.lets i v = p.hops[i]?.all fun h => h.passes v := by
  rw [Path.lets, p.getElem?_hops]
  cases p.steps[i]? with
  | none => rfl
  | some s =>
      obtain ⟨target, filter⟩ := s
      cases filter <;> rfl

/-- What a path leads to from one of its steps on, by what it leads to from the next; past the last
step it leads to the value itself. -/
theorem Path.followFrom_eq (p : Path) (i : Nat) (v : Value) :
    p.followFrom i v =
      match p.steps[i]? with
      | none => [v]
      | some s =>
        ((s.target.pick v).filter (p.lets i)).flatMap (p.followFrom (i + 1)) ++
          if s.target.isDescendant then v.children.flatMap (p.followFrom i) else [] := by
  have hget := p.getElem?_hops i
  cases hs : p.steps[i]? with
  | none =>
      have hlen : p.hops.length ≤ i := List.getElem?_eq_none_iff.1 (by rw [hget, hs]; rfl)
      rw [followFrom, List.drop_eq_nil_of_le hlen, follow_nil]
  | some s =>
      rw [hs, Option.map_some] at hget
      have hdrop : p.hops.drop i = s.hop :: p.hops.drop (i + 1) := by
        obtain ⟨hi, hhop⟩ := List.getElem?_eq_some_iff.1 hget
        rw [List.drop_eq_getElem_cons hi, hhop]
      have hfrom : p.followFrom i = follow (s.hop :: p.hops.drop (i + 1)) :=
        funext fun u => by rw [followFrom, hdrop]
      have hlets : p.lets i = s.hop.passes := funext fun u => by
        rw [p.lets_eq_all_passes, hget, Option.all_some]
      rw [hfrom, follow_cons, Step.hop_target, hlets]
      rfl

end TreePath
