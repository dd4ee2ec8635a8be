/-
**A search finds what the recursion says.**

A search works on a stack of pending frames of two kinds, and a frame is replaced by others until a
match is on top.  Every frame stands for a list of nodes: a visit for the walk from its node on, and
a candidate for the walk after its step if it passes, and otherwise for nothing.  The invariant is
that the concatenation of these lists, from the top frame down, is the list of the matches still to
come.  One move of the search keeps it (`Frame.nodes_of_found`, `Frame.nodes_of_frames`), so every
call of `Search.next` takes one match off its front, from any stack at all.

Filters bring searches inside of searches.  The tests of the stages of a path are the predicates of
its hops (`Path.map_hop_stages`), by induction over the nesting of paths in filters.

Main definitions:

* `Search.after` — a search after a number of calls of `Search.next`;
* `Frame.nodes`, `Search.nodes` — what a frame and a search stand for;
* `Frame.values` — what a frame stands for in the search along a path.

Main results:

* `Search.found_after` — **the answers of a search** are the elements of its list, one after the
  other, and then none for ever;
* `Search.drain_fst` — draining a search gives its list;
* `Path.map_hop_stages`, `Path.select_eq_follow` — paths, with everything nested in them;
* `Path.evaluate_refines_follow` — **the search along a path** yields what the recursion says, from
  the root as from any stack.
-/

import TreePath.Proofs.Evaluation.Meaning

set_option relaxedAutoImplicit false
set_option autoImplicit false

namespace TreePath

/-! ### What frames and searches stand for -/

/-- A stage as the recursion sees it. -/
def Stage.hop (s : Stage) : Hop := ⟨s.target, fun v => (s.test v).passes⟩

/-- The matches that a pending frame leads to, in order. -/
def Frame.nodes (hops : List Hop) : Frame → List Node
  | .visit index n => walk (hops.drop index) n
  | .candidate index n =>
    if hops[index]?.all fun h => h.passes n.value then walk (hops.drop (index + 1)) n else []

namespace Search

/-- The matches that a search has still to find, in order. -/
def nodes (m : Search) : List Node := m.pending.flatMap (Frame.nodes (m.stages.map Stage.hop))

/-- A search after a number of calls of `Search.next`. -/
def after (m : Search) : Nat → Search
  | 0 => m
  | calls + 1 => (m.after calls).next.rest

theorem after_succ (m : Search) (calls : Nat) :
    m.after (calls + 1) = (m.after calls).next.rest := rfl

end Search

/-! ### One move of a search -/

theorem Stage.nodes_frames {stages : List Stage} {index : Nat} {s : Stage}
    (hs : stages[index]? = some s) (n : Node) :
    (s.frames index n).flatMap (Frame.nodes (stages.map Stage.hop)) =
      walk ((stages.map Stage.hop).drop index) n := by
  have hget : (stages.map Stage.hop)[index]? = some s.hop := by simp [hs]
  have hdrop : (stages.map Stage.hop).drop index =
      s.hop :: (stages.map Stage.hop).drop (index + 1) := by
    obtain ⟨hindex, hhop⟩ := List.getElem?_eq_some_iff.1 hget
    rw [List.drop_eq_getElem_cons hindex, hhop]
  have hcandidates : ((s.target.select n).map (.candidate index)).flatMap
      (Frame.nodes (stages.map Stage.hop)) =
        ((s.target.select n).filter fun c => s.hop.passes c.value).flatMap
          (walk ((stages.map Stage.hop).drop (index + 1))) := by
    rw [List.flatMap_map]
    induction s.target.select n with
    | nil => rfl
    | cons c rest ih =>
        rw [List.flatMap_cons, ih, Frame.nodes, hget]
        cases h : s.hop.passes c.value <;> simp [h]
  rw [Stage.frames, List.flatMap_append, hcandidates, hdrop, walk_cons]
  congr 1
  by_cases hdesc : s.target.isDescendant = true
  · rw [if_pos hdesc, if_pos (show s.hop.target.isDescendant = true from hdesc), List.flatMap_map]
    refine List.flatMap_congr fun c _ => ?_
    rw [Frame.nodes, hdrop]
  · rw [if_neg hdesc, if_neg (show ¬s.hop.target.isDescendant = true from hdesc)]
    rfl

/-- A frame that is a match stands for that match. -/
theorem Frame.nodes_of_found {stages : List Stage} {f : Frame} {n : Node}
    (h : f.next stages = .found n) : f.nodes (stages.map Stage.hop) = [n] := by
  cases f with
  | visit index c =>
      simp only [Frame.next] at h
      split at h
      · next hnone =>
          cases h
          have hlen : stages.length ≤ index := List.getElem?_eq_none_iff.1 hnone
          rw [Frame.nodes, List.drop_eq_nil_of_le (by simpa using hlen), walk_nil]
      · cases h
  | candidate index c =>
      simp only [Frame.next] at h
      split at h <;> cases h

/-- **The frames that replace another one stand for the same matches**, in the same order. -/
theorem Frame.nodes_of_frames {stages : List Stage} {f : Frame} {next : List Frame}
    {calls : List Call} (h : f.next stages = .frames next calls) :
    next.flatMap (Frame.nodes (stages.map Stage.hop)) = f.nodes (stages.map Stage.hop) := by
  cases f with
  | visit index n =>
      simp only [Frame.next] at h
      split at h
      · cases h
      · next s hs =>
          cases h
          exact s.nodes_frames hs n
  | candidate index n =>
      simp only [Frame.next] at h
      split at h
      · next hnone =>
          cases h
          simp [Frame.nodes, hnone]
      · next s hs =>
          cases h
          have hpasses : s.hop.passes n.value = (s.test n.value).passes := rfl
          cases hp : (s.test n.value).passes <;> simp [Frame.nodes, hs, hpasses, hp]

/-! ### Runs of a search -/

namespace Search

theorem nextFrom_of_found {stages : List Stage} {f : Frame} {n : Node}
    (h : f.next stages = .found n) (calls : List Call) (rest : List Frame) :
    nextFrom stages calls (f :: rest) = ⟨some n, calls.reverse, ⟨stages, rest⟩⟩ := by
  rw [nextFrom]
  split
  · next m hm =>
      obtain rfl : n = m := by simpa [h] using hm
      rfl
  · next hm => simp [h] at hm

theorem nextFrom_of_frames {stages : List Stage} {f : Frame} {next : List Frame}
    {more : List Call} (h : f.next stages = .frames next more) (calls : List Call)
    (rest : List Frame) :
    nextFrom stages calls (f :: rest) = nextFrom stages (more.reverse ++ calls) (next ++ rest) := by
  rw [nextFrom]
  split
  · next hm => simp [h] at hm
  · next next' more' hm =>
      obtain ⟨rfl, rfl⟩ : next = next' ∧ more = more' := by simpa [h] using hm
      rfl

theorem drainFrom_of_found {stages : List Stage} {f : Frame} {n : Node}
    (h : f.next stages = .found n) (found : List Node) (calls : List Call) (rest : List Frame) :
    drainFrom stages found calls (f :: rest) = drainFrom stages (n :: found) calls rest := by
  rw [drainFrom]
  split
  · next m hm =>
      obtain rfl : n = m := by simpa [h] using hm
      rfl
  · next hm => simp [h] at hm

theorem drainFrom_of_frames {stages : List Stage} {f : Frame} {next : List Frame}
    {more : List Call} (h : f.next stages = .frames next more) (found : List Node)
    (calls : List Call) (rest : List Frame) :
    drainFrom stages found calls (f :: rest) =
      drainFrom stages found (more.reverse ++ calls) (next ++ rest) := by
  rw [drainFrom]
  split
  · next hm => simp [h] at hm
  · next next' more' hm =>
      obtain ⟨rfl, rfl⟩ : next = next' ∧ more = more' := by simpa [h] using hm
      rfl

theorem nodes_cons_of_found {stages : List Stage} {f : Frame} {n : Node}
    (h : f.next stages = .found n) (rest : List Frame) :
    nodes ⟨stages, f :: rest⟩ = n :: nodes ⟨stages, rest⟩ := by
  simp [nodes, Frame.nodes_of_found h]

theorem nodes_cons_of_frames {stages : List Stage} {f : Frame} {next : List Frame}
    {calls : List Call} (h : f.next stages = .frames next calls) (rest : List Frame) :
    nodes ⟨stages, f :: rest⟩ = nodes ⟨stages, next ++ rest⟩ := by
  simp [nodes, ← Frame.nodes_of_frames h]

/-- Working on pending frames up to the next match takes the first of their matches and leaves
the others. -/
theorem nodes_nextFrom (stages : List Stage) (calls : List Call) (pending : List Frame) :
    (nextFrom stages calls pending).found = (nodes ⟨stages, pending⟩).head? ∧
      (nextFrom stages calls pending).rest.nodes = (nodes ⟨stages, pending⟩).tail := by
  -- The induction follows the moves of the search: after each of them its stack weighs less.
  induction calls, pending using nextFrom.induct stages with
  | case1 calls => rw [nextFrom]; exact ⟨rfl, rfl⟩
  | case2 calls f rest n h =>
      rw [nextFrom_of_found h, nodes_cons_of_found h]
      exact ⟨rfl, rfl⟩
  | case3 calls f rest next more h ih =>
      rw [nextFrom_of_frames h, nodes_cons_of_frames h]
      exact ih

/-- The next match is the first that is left. -/
theorem found_next (m : Search) : m.next.found = m.nodes.head? :=
  (nodes_nextFrom m.stages [] m.pending).1

/-- After the next match all the others are left. -/
theorem nodes_rest_next (m : Search) : m.next.rest.nodes = m.nodes.tail :=
  (nodes_nextFrom m.stages [] m.pending).2

/-- A number of calls take that many matches. -/
theorem nodes_after (m : Search) (calls : Nat) : (m.after calls).nodes = m.nodes.drop calls := by
  induction calls with
  | zero => rfl
  | succ calls ih => rw [after_succ, nodes_rest_next, ih, List.tail_drop]

/-- **The answers of a search**, call by call. -/
theorem found_after (m : Search) (calls : Nat) : (m.after calls).next.found = m.nodes[calls]? := by
  rw [found_next, nodes_after, List.head?_drop]

theorem fst_drainFrom (stages : List Stage) (found : List Node) (calls : List Call)
    (pending : List Frame) :
    (drainFrom stages found calls pending).1 = found.reverse ++ nodes ⟨stages, pending⟩ := by
  induction found, calls, pending using drainFrom.induct stages with
  | case1 found calls => simp [drainFrom, nodes]
  | case2 found calls f rest n h ih =>
      rw [drainFrom_of_found h, nodes_cons_of_found h, ih, List.reverse_cons, List.append_assoc]
      rfl
  | case3 found calls f rest next more h ih =>
      rw [drainFrom_of_frames h, nodes_cons_of_frames h, ih]

/-- **Draining a search** gives all the matches that are left, in order. -/
theorem drain_fst (m : Search) : m.drain.1 = m.nodes := by
  rw [drain, fst_drainFrom]
  rfl

/-- The search that starts at a node has the walk from there before it. -/
theorem nodes_start (stages : List Stage) (n : Node) :
    (start stages n).nodes = walk (stages.map Stage.hop) n := by
  simp [start, nodes, Frame.nodes]

end Search

/-! ### The stages of a path are its hops -/

theorem Path.select_eq_follow_stages (p : Path) (v : Value) :
    p.select v = follow (p.stages.map Stage.hop) v := by
  rw [Path.select, Path.evaluate, Search.drain_fst, Search.nodes_start, map_value_walk]
  rfl

mutual

/-- **The stages of a path are its hops**, whatever is nested in its filters. -/
theorem Path.map_hop_stages : ∀ p : Path, p.stages.map Stage.hop = p.hops
  | ⟨_, steps⟩ => by
      rw [Path.stages, Path.hops]
      exact map_hop_stagesOf steps

theorem map_hop_stagesOf : ∀ steps : List Step, (stagesOf steps).map Stage.hop = hopsOf steps
  | [] => rfl
  | s :: rest => by
      rw [stagesOf, hopsOf, List.map_cons, s.hop_stage, map_hop_stagesOf rest]

theorem Step.hop_stage : ∀ s : Step, s.stage.hop = s.hop
  | ⟨_, none⟩ => rfl
  | ⟨target, some f⟩ => by
      have htest : (fun v => (f.verdict v).passes) = f.holds := funext fun v => f.passes_verdict v
      rw [Step.stage, Step.hop, Stage.hop, htest]

/-- A value passes the test of a filter exactly when the filter holds of it. -/
theorem Filter.passes_verdict : ∀ (f : Filter) (v : Value), (f.verdict v).passes = f.holds v
  | ⟨c, negated, arguments⟩, v => by
      rw [Filter.verdict, Filter.holds, ← fst_resolveAll arguments v]

theorem fst_resolveAll : ∀ (arguments : List Argument) (v : Value),
    (resolveAll arguments v).1 = denoteAll arguments v
  | [], _ => rfl
  | a :: rest, v => by
      rw [resolveAll, denoteAll, ← a.fst_resolve v, ← fst_resolveAll rest v]

/-- An argument is resolved to what it stands for: a search inside of a search is drained. -/
theorem Argument.fst_resolve : ∀ (a : Argument) (v : Value), (a.resolve v).1 = a.denote v
  | .path p, v => by
      rw [Argument.resolve_path, p.select_eq_follow_stages v, p.map_hop_stages, Argument.denote]
  | .string _, _ => rfl
  | .integer _, _ => rfl
  | .float _, _ => rfl

end

/-! ### Searches along a path -/

theorem Path.nodes_evaluate (p : Path) (v : Value) :
    (p.evaluate v).nodes = walk p.hops (.root v) := by
  rw [Path.evaluate, Search.nodes_start, p.map_hop_stages]

/-- All that a path leads to, by recursion. -/
theorem Path.select_eq_follow (p : Path) (v : Value) : p.select v = follow p.hops v := by
  rw [p.select_eq_follow_stages v, p.map_hop_stages]

/-- **The values that a pending frame stands for** in the search along a path. -/
def Frame.values (p : Path) : Frame → List Value
  | .visit i n => p.followFrom i n.value
  | .candidate i n => if p.lets i n.value then p.followFrom (i + 1) n.value else []

theorem Frame.map_value_nodes (p : Path) (f : Frame) :
    (f.nodes p.hops).map Node.value = f.values p := by
  cases f with
  | visit i n => exact map_value_walk _ n
  | candidate i n =>
      rw [Frame.nodes, Frame.values, p.lets_eq_all_passes]
      split
      · exact map_value_walk _ n
      · rfl

/-- The matches that a stack of frames leads to in the search along a path. -/
theorem Path.map_value_nodes (p : Path) (pending : List Frame) :
    (Search.nodes ⟨p.stages, pending⟩).map Node.value = pending.flatMap (Frame.values p) := by
  rw [Search.nodes, p.map_hop_stages, List.map_flatMap]
  exact List.flatMap_congr fun f _ => f.map_value_nodes p

/-- **The search along a path yields what the recursion says.**  The recursion follows the steps
one by one and a descendant step into every child once more.  The calls of `Search.next` give the
values that the path leads to from the root, one after the other, and then none for ever.  From any
stack of pending frames they give what the frames stand for, from the top frame down, and so does
draining the stack. -/
theorem Path.evaluate_refines_follow (p : Path) :
    (∀ (i : Nat) (v : Value), p.followFrom i v =
      match p.steps[i]? with
      | none => [v]
      | some s =>
        ((s.target.pick v).filter (p.lets i)).flatMap (p.followFrom (i + 1)) ++
          if s.target.isDescendant then v.children.flatMap (p.followFrom i) else []) ∧
    (∀ (root : Value) (calls : Nat),
      ((p.evaluate root).after calls).next.found.map Node.value = (p.followFrom 0 root)[calls]?) ∧
    ∀ pending : List Frame,
      (∀ calls : Nat, ((Search.mk p.stages pending).after calls).next.found.map Node.value =
        (pending.flatMap (Frame.values p))[calls]?) ∧
      (Search.mk p.stages pending).drain.1.map Node.value =
        pending.flatMap (Frame.values p) := by
  have hstack : ∀ (pending : List Frame) (calls : Nat),
      ((Search.mk p.stages pending).after calls).next.found.map Node.value =
        (pending.flatMap (Frame.values p))[calls]? := by
    intro pending calls
    rw [Search.found_after, ← List.getElem?_map, p.map_value_nodes]
  refine ⟨p.followFrom_eq, fun root calls => ?_, fun pending => ⟨hstack pending, ?_⟩⟩
  · have hroot : [Frame.visit 0 (.root root)].flatMap (Frame.values p) = p.followFrom 0 root :=
      List.append_nil _
    rw [← hroot]
    exact hstack _ calls
  · rw [Search.drain_fst, p.map_value_nodes]

end TreePath
