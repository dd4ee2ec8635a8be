/-
**A search does no work before it is asked to.**

A search finds the same matches whether it tests the nodes that a step selects one by one or all of
them at once; what differs is which conditions have been called when a match comes out.  This module
says which.  The plain depth-first traversal of a tree along steps is written as a recursion that
tells everything it does in order: each selected value is tested and, if it passes, traversed along
the remaining steps before the next one is tested, and a descendant step goes further down only
after that.  To test a value, the paths among the arguments of the filter are traversed one after
the other, each to its end, and then the condition is called once.

A search runs along this traversal and stops at each match.  Every pending frame stands for a part
of what the traversal still has to do, and the invariant is that the parts of all frames, from the
top one down, are the rest of the traversal.  One move of the search takes calls off its front
(`Frame.events_of_frames`), and a match is an event of its own (`Frame.events_of_found`).

Main definitions:

* `Event`, `events` — what the traversal along stages does, in order;
* `Path.probes`, `Filter.probe` — paths and filters for the traversal, with the traversals that
  take place inside of a test;
* `Path.trace` — what the traversal along a path does;
* `upTo` — what happens up to a match of given number;
* `Frame.events`, `Search.events` — what frames and searches have still to do.

Main results:

* `Search.events_next` — **one call of `Search.next`** does what comes first, up to a match;
* `Search.callsIn_and_matchesIn` — any number of calls, from any stack of frames;
* `Path.stages_eq_probes` — searches inside of tests are traversals to the end;
* `Path.calls_on_demand` — **the calls of conditions** made so far are those of the traversal up to
  the match that was found last.
-/

import TreePath.Proofs.Evaluation.Refinement

set_option relaxedAutoImplicit false
set_option autoImplicit false

namespace TreePath

/-! ### What happens in a traversal -/

/-- What happens in a traversal. -/
inductive Event where
  /-- A condition is called. -/
  | call (c : Call)
  /-- A match is found. -/
  | found (v : Value)

/-- The calls among events, in order. -/
def callsOf (es : List Event) : List Call :=
  es.filterMap fun
    | .call c => some c
    | .found _ => none

/-- The matches among events, in order. -/
def matchesOf (es : List Event) : List Value :=
  es.filterMap fun
    | .call _ => none
    | .found v => some v

/-- The events up to the match of the given number, or all of them if there are fewer matches. -/
def upTo : Nat → List Event → List Event
  | 0, _ => []
  | _ + 1, [] => []
  | count + 1, .call c :: es => .call c :: upTo (count + 1) es
  | count + 1, .found v :: es => .found v :: upTo count es

@[simp] theorem callsOf_append (es fs : List Event) :
    callsOf (es ++ fs) = callsOf es ++ callsOf fs := List.filterMap_append

@[simp] theorem matchesOf_append (es fs : List Event) :
    matchesOf (es ++ fs) = matchesOf es ++ matchesOf fs := List.filterMap_append

@[simp] theorem callsOf_map_call (cs : List Call) : callsOf (cs.map .call) = cs := by
  simp [callsOf]

@[simp] theorem matchesOf_map_call (cs : List Call) : matchesOf (cs.map .call) = [] := by
  simp [matchesOf]

/-- Calls come before the next match. -/
theorem upTo_map_call_append (count : Nat) (cs : List Call) (es : List Event) :
    upTo (count + 1) (cs.map .call ++ es) = cs.map .call ++ upTo (count + 1) es := by
  induction cs with
  | nil => rfl
  | cons c cs ih => rw [List.map_cons, List.cons_append, upTo, ih, List.cons_append]

@[simp] theorem upTo_nil (count : Nat) : upTo count [] = [] := by cases count <;> rfl

/-- With fewer matches than that, these are all events. -/
theorem upTo_of_lt {count : Nat} {es : List Event} (h : (matchesOf es).length < count) :
    upTo count es = es := by
  induction es generalizing count with
  | nil => exact upTo_nil count
  | cons e es ih =>
      cases count with
      | zero => exact absurd h (Nat.not_lt_zero _)
      | succ count =>
          cases e with
          | call c => rw [upTo, ih h]
          | found v => rw [upTo, ih (Nat.lt_of_succ_lt_succ h)]

/-! ### Traversing along stages -/

/-- **The depth-first traversal of a value along stages**, as the sequence of all that happens.  The
verdict on a selected value and what lies beyond that value come before the next selected value, and
what a descendant stage finds further down comes last. -/
def events : (stages : List Stage) → Value → List Event
  | [], v => [.found v]
  | s :: rest, v =>
    (s.target.pick v).flatMap (fun c =>
      (s.test c).calls.map .call ++ if (s.test c).passes then events rest c else []) ++
        if s.target.isDescendant then v.children.attach.flatMap (fun c => events (s :: rest) c.1)
        else []
termination_by stages v => (stages.length, v.size)
decreasing_by
  · exact .left _ _ (Nat.lt_succ_self _)
  · exact .right _ (Value.size_lt_of_mem_children c.2)

@[simp] theorem events_nil (v : Value) : events [] v = [.found v] := by rw [events]

theorem events_cons (s : Stage) (rest : List Stage) (v : Value) :
    events (s :: rest) v =
      (s.target.pick v).flatMap (fun c =>
        (s.test c).calls.map .call ++ if (s.test c).passes then events rest c else []) ++
          if s.target.isDescendant then v.children.flatMap (events (s :: rest)) else [] := by
  rw [events]
  congr 2
  rw [← List.flatMap_map, List.attach_map_subtype_val]

mutual

/-- The stages of a path, for the traversal. -/
def Path.probes : Path → List Stage
  | ⟨_, steps⟩ => probesOf steps

/-- The stages of steps, for the traversal. -/
def probesOf : List Step → List Stage
  | [] => []
  | s :: rest => s.probe :: probesOf rest

/-- A step as a stage of the traversal: without a filter nothing is called and every value
passes. -/
def Step.probe : Step → Stage
  | ⟨target, none⟩ => ⟨target, fun _ => ⟨true, []⟩⟩
  | ⟨target, some f⟩ => ⟨target, f.probe⟩

/-- How a filter is tested: the arguments are gathered, and then the condition is called once. -/
def Filter.probe : Filter → Value → Verdict
  | ⟨c, negated, arguments⟩, v =>
    let (gathered, calls) := gatherAll arguments v
    ⟨c.test gathered != negated, calls ++ [⟨c, gathered, c.test gathered⟩]⟩

/-- The arguments gathered from left to right, and the calls made in doing so. -/
def gatherAll : List Argument → Value → List Resolved × List Call
  | [], _ => ([], [])
  | a :: rest, v => ((a.gather v).1 :: (gatherAll rest v).1, (a.gather v).2 ++ (gatherAll rest v).2)

/-- An argument gathered: a path is traversed to the end, from the value that is tested. -/
def Argument.gather : Argument → Value → Resolved × List Call
  | .path p, v => (.candidates (matchesOf (events p.probes v)), callsOf (events p.probes v))
  | .string s, _ => (.string s, [])
  | .integer n, _ => (.integer n, [])
  | .float x, _ => (.float x, [])

end

/-- All that happens in the traversal of a value along a path. -/
def Path.trace (p : Path) (v : Value) : List Event := events p.probes v

/-! ### What searches have still to do -/

/-- What a pending frame has still to do. -/
def Frame.events (stages : List Stage) : Frame → List Event
  | .visit index n => TreePath.events (stages.drop index) n.value
  | .candidate index n =>
    match stages[index]? with
    | none => TreePath.events (stages.drop (index + 1)) n.value
    | some s =>
      (s.test n.value).calls.map .call ++
        if (s.test n.value).passes then TreePath.events (stages.drop (index + 1)) n.value else []

/-- What a search has still to do, from the top frame down. -/
def Search.events (m : Search) : List Event := m.pending.flatMap (Frame.events m.stages)

theorem Stage.events_frames {stages : List Stage} {index : Nat} {s : Stage}
    (hs : stages[index]? = some s) (n : Node) :
    (s.frames index n).flatMap (Frame.events stages) = events (stages.drop index) n.value := by
  have hdrop : stages.drop index = s :: stages.drop (index + 1) := by
    obtain ⟨hindex, hstage⟩ := List.getElem?_eq_some_iff.1 hs
    rw [List.drop_eq_getElem_cons hindex, hstage]
  rw [Stage.frames, List.flatMap_append, List.flatMap_map, hdrop, events_cons,
    ← s.target.map_value_select n, List.flatMap_map]
  congr 1
  · refine List.flatMap_congr ?_
    intro c _
    rw [Frame.events, hs]
  · split
    · rw [List.flatMap_map, ← n.map_value_children, List.flatMap_map]
      refine List.flatMap_congr ?_
      intro c _
      rw [Frame.events, hdrop]
    · rfl

/-- A frame that is a match has only that match to give. -/
theorem Frame.events_of_found {stages : List Stage} {f : Frame} {n : Node}
    (h : f.next stages = .found n) : f.events stages = [.found n.value] := by
  cases f with
  | visit index c =>
      simp only [Frame.next] at h
      split at h
      · next hnone =>
          cases h
          rw [Frame.events, List.drop_eq_nil_of_le (List.getElem?_eq_none_iff.1 hnone), events_nil]
      · cases h
  | candidate index c =>
      simp only [Frame.next] at h
      split at h <;> cases h

/-- **One move** makes the calls that come first, and the frames it leaves have the rest to do. -/
theorem Frame.events_of_frames {stages : List Stage} {f : Frame} {next : List Frame}
    {calls : List Call} (h : f.next stages = .frames next calls) :
    f.events stages = calls.map .call ++ next.flatMap (Frame.events stages) := by
  cases f with
  | visit index n =>
      simp only [Frame.next] at h
      split at h
      · cases h
      · next s hs =>
          cases h
          rw [s.events_frames hs n]
          rfl
  | candidate index n =>
      simp only [Frame.next] at h
      split at h
      · next hnone =>
          cases h
          simp [Frame.events, hnone]
      · next s hs =>
          cases h
          simp only [Frame.events, hs]
          split
          · rw [List.flatMap_singleton, Frame.events]
          · rfl

namespace Search

/-! ### Runs of a search -/

/-- Working on pending frames up to the next match does what comes first, up to that match. -/
theorem events_nextFrom (stages : List Stage) (calls : List Call) (pending : List Frame) :
    calls.reverse.map .call ++ events ⟨stages, pending⟩ =
      (nextFrom stages calls pending).calls.map .call ++
        match (nextFrom stages calls pending).found with
        | none => []
        | some n => .found n.value :: (nextFrom stages calls pending).rest.events := by
  induction calls, pending using nextFrom.induct stages with
  | case1 calls => rw [nextFrom]; rfl
  | case2 calls f rest n h =>
      rw [nextFrom_of_found h]
      simp [events, Frame.events_of_found h]
  | case3 calls f rest next more h ih =>
      rw [nextFrom_of_frames h, ← ih]
      simp [events, Frame.events_of_frames h]

/-- **One call of `Search.next`** does what comes first, up to a match or to the end. -/
theorem events_next (m : Search) :
    m.events = m.next.calls.map .call ++
      match m.next.found with
      | none => []
      | some n => .found n.value :: m.next.rest.events :=
  events_nextFrom m.stages [] m.pending

/-- A search that finds no match any more has nothing to do any more. -/
theorem pending_nextFrom_of_none {stages : List Stage} {calls : List Call} {pending : List Frame}
    (h : (nextFrom stages calls pending).found = none) :
    (nextFrom stages calls pending).rest = ⟨stages, []⟩ := by
  induction calls, pending using nextFrom.induct stages with
  | case1 calls => rw [nextFrom]
  | case2 calls f rest n hf =>
      rw [nextFrom_of_found hf] at h
      cases h
  | case3 calls f rest next more hf ih =>
      rw [nextFrom_of_frames hf] at h ⊢
      exact ih h

theorem events_rest_of_none {m : Search} (h : m.next.found = none) : m.next.rest.events = [] := by
  rw [next, pending_nextFrom_of_none h]
  rfl

theorem after_rest_next (m : Search) (count : Nat) :
    m.next.rest.after count = m.after (count + 1) := by
  induction count with
  | zero => rfl
  | succ count ih => rw [after_succ, ih, ← after_succ]

/-- What is read off the answers of a number of calls of `Search.next`, in order. -/
def pulled {α : Type} (read : Pull → List α) (m : Search) (count : Nat) : List α :=
  (List.range count).flatMap fun i => read (m.after i).next

theorem pulled_succ {α : Type} (read : Pull → List α) (m : Search) (count : Nat) :
    m.pulled read (count + 1) = read m.next ++ m.next.rest.pulled read count := by
  rw [pulled, pulled, List.range_succ_eq_map, List.flatMap_cons, List.flatMap_map]
  congr 1
  refine List.flatMap_congr ?_
  intro i _
  rw [after_rest_next]

/-- The calls of conditions made by a number of calls of `Search.next`. -/
def callsIn (m : Search) (count : Nat) : List Call := m.pulled Pull.calls count

/-- The matches found by a number of calls of `Search.next`. -/
def matchesIn (m : Search) (count : Nat) : List Value :=
  m.pulled (fun answer => (answer.found.map Node.value).toList) count

/-- **Any number of calls of `Search.next`**, from any stack of pending frames, make the calls of
conditions and find the matches that come first in what there is to do. -/
theorem callsIn_and_matchesIn (m : Search) (count : Nat) :
    m.callsIn count = callsOf (upTo count m.events) ∧
      m.matchesIn count = matchesOf (upTo count m.events) := by
  induction count generalizing m with
  | zero => simp [callsIn, matchesIn, pulled, upTo, callsOf, matchesOf]
  | succ count ih =>
      obtain ⟨hcalls, hmatches⟩ := ih m.next.rest
      rw [callsIn] at hcalls ⊢
      rw [matchesIn] at hmatches ⊢
      rw [pulled_succ, pulled_succ, hcalls, hmatches, m.events_next, upTo_map_call_append]
      cases hfound : m.next.found with
      | none => simp [events_rest_of_none hfound, callsOf, matchesOf]
      | some n => simp [upTo, callsOf, matchesOf]

/-- A search that has found no match makes no call any more. -/
theorem calls_after_none {m : Search} {count : Nat} (h : (m.after count).next.found = none)
    (more : Nat) : (m.after (count + 1 + more)).next.calls = [] := by
  have hrest : ∀ more, m.after (count + 1 + more) = ⟨(m.after count).stages, []⟩ := by
    intro more
    induction more with
    | zero => exact pending_nextFrom_of_none h
    | succ more ih =>
        rw [← Nat.add_assoc, after_succ, ih, next, nextFrom]
  rw [hrest, next, nextFrom]
  rfl

/-- **Draining a search** does all that there is to do. -/
theorem drainFrom_eq (stages : List Stage) (found : List Node) (calls : List Call)
    (pending : List Frame) :
    (drainFrom stages found calls pending).1.map Node.value =
        found.reverse.map Node.value ++ matchesOf (events ⟨stages, pending⟩) ∧
      (drainFrom stages found calls pending).2 =
        calls.reverse ++ callsOf (events ⟨stages, pending⟩) := by
  induction found, calls, pending using drainFrom.induct stages with
  | case1 found calls => simp [drainFrom, events, callsOf, matchesOf]
  | case2 found calls f rest n h ih =>
      have hevents : events ⟨stages, f :: rest⟩ = .found n.value :: events ⟨stages, rest⟩ := by
        simp [events, Frame.events_of_found h]
      rw [drainFrom_of_found h, hevents, ih.1, ih.2]
      simp [callsOf, matchesOf]
  | case3 found calls f rest next more h ih =>
      have hevents : events ⟨stages, f :: rest⟩ =
          more.map .call ++ events ⟨stages, next ++ rest⟩ := by
        simp [events, Frame.events_of_frames h]
      rw [drainFrom_of_frames h, hevents, ih.1, ih.2]
      simp

/-- The matches that a search has still to find, among all that it has to do. -/
theorem map_value_nodes (m : Search) : m.nodes.map Node.value = matchesOf m.events := by
  rw [← m.drain_fst]
  exact (drainFrom_eq m.stages [] [] m.pending).1

/-- After as many calls of `Search.next` as there are matches, no match is found. -/
theorem found_after_matches (m : Search) (more : Nat) :
    (m.after ((matchesOf m.events).length + more)).next.found = none := by
  rw [found_after, ← m.map_value_nodes, List.length_map]
  exact List.getElem?_eq_none (Nat.le_add_right _ _)

theorem events_start (stages : List Stage) (n : Node) :
    (start stages n).events = TreePath.events stages n.value := by
  simp [start, events, Frame.events]

end Search

/-! ### Searches inside of tests -/

/-- A path among the arguments is searched to the end: this is a traversal. -/
theorem Argument.resolve_path_eq (p : Path) (v : Value) :
    (Argument.path p).resolve v =
      (.candidates (matchesOf (events p.stages v)), callsOf (events p.stages v)) := by
  obtain ⟨hmatches, hcalls⟩ := Search.drainFrom_eq p.stages [] [] [.visit 0 (.root v)]
  have hdrain : (Argument.path p).resolve v =
      (.candidates ((Search.drainFrom p.stages [] [] [.visit 0 (.root v)]).1.map Node.value),
        (Search.drainFrom p.stages [] [] [.visit 0 (.root v)]).2) := rfl
  have hevents : (Search.mk p.stages [.visit 0 (.root v)]).events = events p.stages v :=
    Search.events_start p.stages (.root v)
  rw [hdrain, hmatches, hcalls, hevents]
  rfl

mutual

/-- **The stages of a path are those of the traversal**, whatever is nested in its filters. -/
theorem Path.stages_eq_probes : ∀ p : Path, p.stages = p.probes
  | ⟨_, steps⟩ => by
      rw [Path.stages, Path.probes]
      exact stagesOf_eq_probesOf steps

theorem stagesOf_eq_probesOf : ∀ steps : List Step, stagesOf steps = probesOf steps
  | [] => rfl
  | s :: rest => by rw [stagesOf, probesOf, s.stage_eq_probe, stagesOf_eq_probesOf rest]

theorem Step.stage_eq_probe : ∀ s : Step, s.stage = s.probe
  | ⟨_, none⟩ => rfl
  | ⟨target, some f⟩ => by
      have htest : f.verdict = f.probe := funext fun v => f.verdict_eq_probe v
      rw [Step.stage, Step.probe, htest]

theorem Filter.verdict_eq_probe : ∀ (f : Filter) (v : Value), f.verdict v = f.probe v
  | ⟨c, negated, arguments⟩, v => by
      rw [Filter.verdict, Filter.probe, resolveAll_eq_gatherAll arguments v]

theorem resolveAll_eq_gatherAll : ∀ (arguments : List Argument) (v : Value),
    resolveAll arguments v = gatherAll arguments v
  | [], _ => rfl
  | a :: rest, v => by
      rw [resolveAll, gatherAll, a.resolve_eq_gather v, resolveAll_eq_gatherAll rest v]

theorem Argument.resolve_eq_gather : ∀ (a : Argument) (v : Value), a.resolve v = a.gather v
  | .path p, v => by rw [Argument.resolve_path_eq, Argument.gather, p.stages_eq_probes]
  | .string _, _ => rfl
  | .integer _, _ => rfl
  | .float _, _ => rfl

end

/-! ### Searches along a path -/

theorem Path.events_evaluate (p : Path) (root : Value) :
    (p.evaluate root).events = p.trace root := by
  rw [Path.evaluate, Search.events_start, p.stages_eq_probes, Path.trace]
  rfl

/-- **Conditions are called on demand.**  However often a search along a path has been asked for a
match, the conditions that have been called, with their arguments and answers and in order, are
those that the traversal of the root along the path calls up to the match that was found last; as
long as no match is asked for, these are none.  When there are no matches any more, the search says
so, has made all the calls of the traversal and makes no further one.  The same holds from every
stack of pending frames, with what the frames have still to do in place of the whole traversal. -/
theorem Path.calls_on_demand (p : Path) :
    (∀ (root : Value) (count : Nat),
      (p.evaluate root).callsIn count = callsOf (upTo count (p.trace root)) ∧
      (p.evaluate root).matchesIn count = matchesOf (upTo count (p.trace root))) ∧
    (∀ (root : Value) (more : Nat),
      ((p.evaluate root).after ((matchesOf (p.trace root)).length + more)).next.found = none ∧
      (p.evaluate root).callsIn ((matchesOf (p.trace root)).length + 1 + more) =
        callsOf (p.trace root) ∧
      ((p.evaluate root).after ((matchesOf (p.trace root)).length + 1 + more)).next.calls = []) ∧
    ∀ (pending : List Frame) (count : Nat),
      (Search.mk p.stages pending).callsIn count =
        callsOf (upTo count (pending.flatMap (Frame.events p.probes))) ∧
      (Search.mk p.stages pending).matchesIn count =
        matchesOf (upTo count (pending.flatMap (Frame.events p.probes))) := by
  refine ⟨?_, ?_, ?_⟩
  · intro root count
    rw [← p.events_evaluate]
    exact (p.evaluate root).callsIn_and_matchesIn count
  · intro root more
    rw [← p.events_evaluate]
    have hnone := (p.evaluate root).found_after_matches
    refine ⟨hnone more, ?_, Search.calls_after_none (hnone 0) more⟩
    rw [((p.evaluate root).callsIn_and_matchesIn _).1, upTo_of_lt (by omega)]
  · intro pending count
    have hevents : (Search.mk p.stages pending).events =
        pending.flatMap (Frame.events p.probes) := by
      rw [Search.events, p.stages_eq_probes]
    rw [← hevents]
    exact Search.callsIn_and_matchesIn _ count

end TreePath
