/-
**Searching on demand.**

A search keeps a stack of pending frames and works on the top one only: it replaces a frame by the
frames that follow from it, or finds a match and stops until the next one is asked for.  A frame
either applies a stage to a node, and past the last stage the node is a match; or it holds a node
that a stage has selected and that is still to be tested.  The nodes a stage selects are dealt
with before a descendant stage goes further down.

The search ends: the frames that replace another one weigh less than it (`Frame.weight_next_lt`),
where the weight of a frame bounds the number of frames that can ever follow from it.

Main definitions:

* `Frame`, `Frame.next` — a frame, and what follows from it;
* `Search`, `Search.start`, `Search.next` — a search, and its next match;
* `Search.drain` — all the matches that are left.
-/

import TreePath.Evaluation.Stage

set_option autoImplicit false
set_option relaxedAutoImplicit false

namespace TreePath

/-! ### Frames -/

/-- A pending part of a search. -/
inductive Frame where
  /-- Apply the stage of this index to a node; past the last stage the node is a match. -/
  | visit (index : Nat) (node : Node)
  /-- The stage of this index has selected a node: test it, then go on with the next stage. -/
  | candidate (index : Nat) (node : Node)

/-- What becomes of a frame. -/
inductive Outcome where
  /-- It is a match. -/
  | found (node : Node)
  /-- It is replaced by other frames, after some calls of conditions. -/
  | frames (next : List Frame) (calls : List Call)

/-- The frames that follow from applying a stage to a node. -/
def Stage.frames (s : Stage) (index : Nat) (n : Node) : List Frame :=
  -- What the stage selects here comes before anything further down.
  (s.target.select n).map (.candidate index) ++
    if s.target.isDescendant then n.children.map (.visit index) else []

/-- What becomes of a frame in a search of the given stages. -/
def Frame.next (stages : List Stage) : Frame → Outcome
  | .visit index n =>
    match stages[index]? with
    | none => .found n
    | some s => .frames (s.frames index n) []
  | .candidate index n =>
    match stages[index]? with
    | none => .frames [.visit (index + 1) n] []
    | some s =>
      let verdict := s.test n.value
      .frames (if verdict.passes then [.visit (index + 1) n] else []) verdict.calls

/-! ### Weights -/

/-- A bound on the number of frames that follow from applying the first of `stages` stages to a
node with this value. -/
def weight : (stages : Nat) → Value → Nat
  | 0, _ => 1
  | stages + 1, v =>
    total (fun c => weight stages c.1 + 1 + weight (stages + 1) c.1) v.children.attach + 1
termination_by stages v => (stages, v.size)
decreasing_by
  · exact .left _ _ (Nat.lt_succ_self _)
  · exact .right _ (Value.size_lt_of_mem_children c.2)

theorem weight_zero (v : Value) : weight 0 v = 1 := by rw [weight]

theorem weight_succ (stages : Nat) (v : Value) : weight (stages + 1) v =
    total (fun c => weight stages c + 1 + weight (stages + 1) c) v.children + 1 := by
  have h := total_map (fun c => weight stages c + 1 + weight (stages + 1) c) Subtype.val
    v.children.attach
  rw [List.attach_map_subtype_val] at h
  rw [weight, h]

/-- The weight of a frame in a search of `stages` stages. -/
def Frame.weight (stages : Nat) : Frame → Nat
  | .visit index n => TreePath.weight (stages - index) n.value
  | .candidate index n => TreePath.weight (stages - (index + 1)) n.value + 1

/-- The weight of a stack of frames. -/
def stackWeight (stages : Nat) (pending : List Frame) : Nat := total (Frame.weight stages) pending

theorem stackWeight_append (stages : Nat) (as bs : List Frame) :
    stackWeight stages (as ++ bs) = stackWeight stages as + stackWeight stages bs :=
  total_append _ _ _

theorem stackWeight_cons (stages : Nat) (f : Frame) (pending : List Frame) :
    stackWeight stages (f :: pending) = f.weight stages + stackWeight stages pending := rfl

/-- A frame is never without weight. -/
theorem Frame.weight_pos (stages : Nat) (f : Frame) : 0 < f.weight stages := by
  cases f with
  | visit index n =>
    simp only [weight]
    cases stages - index with
    | zero => rw [weight_zero]; exact Nat.one_pos
    | succ k => rw [weight_succ]; exact Nat.succ_pos _
  | candidate index n => exact Nat.succ_pos _

/-- A stage applied to a node leaves frames of less weight. -/
theorem Stage.weight_frames_lt (s : Stage) (stages index : Nat) (n : Node) (h : index < stages) :
    stackWeight stages (s.frames index n) < (Frame.visit index n).weight stages := by
  obtain ⟨k, hk⟩ : ∃ k, stages - index = k + 1 := ⟨stages - index - 1, by omega⟩
  have hk' : stages - (index + 1) = k := by omega
  have hselect := total_le_of_sublist (fun c => weight k c.value + 1) (s.target.select_sublist n)
  have hweight : (Frame.visit index n).weight stages =
      total (fun c => weight k c.value + 1) n.children +
        total (fun c => weight (k + 1) c.value) n.children + 1 := by
    rw [Frame.weight, hk, weight_succ, ← Node.map_value_children, total_map, total_add]
  have hcandidates : stackWeight stages ((s.target.select n).map (.candidate index)) =
      total (fun c => weight k c.value + 1) (s.target.select n) := by
    simp only [stackWeight, total_map, Frame.weight, hk']
  have hvisits : stackWeight stages (n.children.map (.visit index)) =
      total (fun c => weight (k + 1) c.value) n.children := by
    simp only [stackWeight, total_map, Frame.weight, hk]
  rw [frames, stackWeight_append, hcandidates, hweight]
  split
  · omega
  · simp only [stackWeight, total_nil]
    omega

/-- The frames that replace another one weigh less. -/
theorem Frame.weight_next_lt {stages : List Stage} {f : Frame} {next : List Frame}
    {calls : List Call} (h : f.next stages = .frames next calls) :
    stackWeight stages.length next < f.weight stages.length := by
  have hvisit (index : Nat) (n : Node) : stackWeight stages.length [.visit (index + 1) n] <
      (Frame.candidate index n).weight stages.length := by
    simp [stackWeight, weight]
  cases f with
  | visit index n =>
    simp only [Frame.next] at h
    split at h
    · cases h
    · next s hs =>
      cases h
      exact s.weight_frames_lt _ _ _ (List.getElem?_eq_some_iff.1 hs).1
  | candidate index n =>
    simp only [Frame.next] at h
    split at h
    · cases h
      exact hvisit index n
    · next s hs =>
      cases h
      split
      · exact hvisit index n
      · exact Frame.weight_pos _ _

/-! ### Searches -/

/-- A search under way. -/
structure Search where
  /-- The stages of the path that is followed. -/
  stages : List Stage
  /-- The frames still to be dealt with, the next one first. -/
  pending : List Frame

/-- The answer of a search that was asked for its next match. -/
structure Pull where
  /-- The match, unless there is none any more. -/
  found : Option Node
  /-- The calls of conditions made since the search was last asked, in order. -/
  calls : List Call
  /-- The search from there on. -/
  rest : Search

namespace Search

/-- The search for the nodes that stages lead to from a node. -/
def start (stages : List Stage) (n : Node) : Search := ⟨stages, [.visit 0 n]⟩

/-- Works on the pending frames up to the next match.  The calls made so far are given last one
first. -/
def nextFrom (stages : List Stage) (calls : List Call) (pending : List Frame) : Pull :=
  match pending with
  | [] => ⟨none, calls.reverse, ⟨stages, []⟩⟩
  | f :: rest =>
    match _h : f.next stages with
    | .found n => ⟨some n, calls.reverse, ⟨stages, rest⟩⟩
    | .frames next more => nextFrom stages (more.reverse ++ calls) (next ++ rest)
termination_by stackWeight stages.length pending
decreasing_by
  have := Frame.weight_next_lt _h
  rw [stackWeight_append, stackWeight_cons]
  omega

/-- The next match. -/
def next (m : Search) : Pull := nextFrom m.stages [] m.pending

/-- Works on the pending frames to the end.  The matches found and the calls made so far are given
last one first. -/
def drainFrom (stages : List Stage) (found : List Node) (calls : List Call)
    (pending : List Frame) : List Node × List Call :=
  match pending with
  | [] => (found.reverse, calls.reverse)
  | f :: rest =>
    match _h : f.next stages with
    | .found n => drainFrom stages (n :: found) calls rest
    | .frames next more => drainFrom stages found (more.reverse ++ calls) (next ++ rest)
termination_by stackWeight stages.length pending
decreasing_by
  · have := Frame.weight_pos stages.length f
    rw [stackWeight_cons]
    omega
  · have := Frame.weight_next_lt _h
    rw [stackWeight_append, stackWeight_cons]
    omega

/-- All the matches that are left, and all the calls of conditions that it takes to find them. -/
def drain (m : Search) : List Node × List Call := drainFrom m.stages [] [] m.pending

end Search

end TreePath
