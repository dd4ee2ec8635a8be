/-
**The stack of a search stays small.**

A search replaces the frame on top of its stack by others, many times over for one match.  The stack
has at most two frames for each node, however many matches there are: one to be tested and one from
which a descendant step goes further down.  This alone is not kept from one move to the next.  What
is kept together with it is that no frame further down in the stack stands below the node of a frame
above it: so, when a node comes up, all the frames for what stands below it have been dealt with,
and the frames for its children are the only ones there are.

Main definitions:

* `Frame.node`, `Frame.position` — the node of a frame and where it stands;
* `StrictlyBelow` — a position further down;
* `Search.move`, `Search.afterMoves` — a search after one move, and after some;
* `Kept` — **what every move keeps** of the stack.

Main results:

* `Kept.visit`, `Kept.candidate`, `Kept.move` — one move;
* `Search.exists_after_eq` — what a call of `Search.next` leaves, a number of moves leave;
* `length_walk_everything` — the nodes of a value, as a list;
* `length_select_nested` — descendant steps on a list inside of a list inside of a list;
* `Path.pending_bounded` — **the stack of the search along a path**.
-/

import Mathlib.Data.Nat.Choose.Bounds
import TreePath.Proofs.Evaluation.Calls
import TreePath.Proofs.Evaluation.Order
import TreePath.Proofs.Path.Recognition
import TreePath.Command.Stream

set_option relaxedAutoImplicit false
set_option autoImplicit false

namespace TreePath

/-! ### Frames and moves -/

/-- The node of a frame. -/
def Frame.node : Frame → Node
  | .visit _ n => n
  | .candidate _ n => n

/-- Where the node of a frame stands. -/
def Frame.position (f : Frame) : List Edge := f.node.position

/-- The index of a frame is one that a search of so many stages can have: a visit may come after the
last stage, and a candidate has been selected by one of them. -/
def Frame.InRange (stages : Nat) : Frame → Prop
  | .visit i _ => i ≤ stages
  | .candidate i _ => i < stages

namespace Search

/-- **A search after one move**: the frame on top of the stack is a match and taken off, or it is
replaced by the frames that follow from it. -/
def move (m : Search) : Search :=
  match m.pending with
  | [] => m
  | f :: rest =>
    match f.next m.stages with
    | .found _ => ⟨m.stages, rest⟩
    | .frames next _ => ⟨m.stages, next ++ rest⟩

/-- A search after a number of moves. -/
def afterMoves (m : Search) : Nat → Search
  | 0 => m
  | moves + 1 => (m.afterMoves moves).move

theorem stages_move (m : Search) : m.move.stages = m.stages := by
  obtain ⟨stages, pending⟩ := m
  cases pending with
  | nil => rfl
  | cons f rest =>
      rw [move]
      cases h : f.next stages <;> simp only [h]

theorem stages_afterMoves (m : Search) (moves : Nat) : (m.afterMoves moves).stages = m.stages := by
  induction moves with
  | zero => rfl
  | succ moves ih => rw [afterMoves, stages_move, ih]

theorem afterMoves_add (m : Search) (a b : Nat) :
    m.afterMoves (a + b) = (m.afterMoves a).afterMoves b := by
  induction b with
  | zero => rfl
  | succ b ih => rw [← Nat.add_assoc, afterMoves, afterMoves, ih]

theorem afterMoves_succ (m : Search) (moves : Nat) :
    m.afterMoves (moves + 1) = m.move.afterMoves moves := by
  rw [Nat.add_comm, afterMoves_add]
  rfl

/-- What is left after working on pending frames up to the next match is left after some moves. -/
theorem exists_rest_nextFrom_eq (stages : List Stage) (calls : List Call) (pending : List Frame) :
    ∃ moves, (nextFrom stages calls pending).rest = afterMoves ⟨stages, pending⟩ moves := by
  induction calls, pending using nextFrom.induct stages with
  | case1 calls => exact ⟨0, by rw [nextFrom]; rfl⟩
  | case2 calls f rest n h =>
      refine ⟨1, ?_⟩
      rw [nextFrom_of_found h, afterMoves, afterMoves, move]
      simp only [h]
  | case3 calls f rest next more h ih =>
      obtain ⟨moves, hmoves⟩ := ih
      refine ⟨moves + 1, ?_⟩
      rw [nextFrom_of_frames h, hmoves, afterMoves_succ, move]
      simp only [h]

/-- **What calls of `Search.next` leave, moves leave.** -/
theorem exists_after_eq (m : Search) (calls : Nat) :
    ∃ moves, m.after calls = m.afterMoves moves := by
  induction calls with
  | zero => exact ⟨0, rfl⟩
  | succ calls ih =>
      obtain ⟨before, hbefore⟩ := ih
      obtain ⟨more, hmore⟩ :=
        exists_rest_nextFrom_eq (m.after calls).stages [] (m.after calls).pending
      refine ⟨before + more, ?_⟩
      rw [afterMoves_add, ← hbefore]
      exact hmore

end Search

/-! ### The frames for children -/

namespace Stage

variable {s : Stage} {i : Nat} {n : Node}

theorem map_position_frames (s : Stage) (i : Nat) (n : Node) :
    (s.frames i n).map Frame.position = (s.target.select n).map Node.position ++
      if s.target.isDescendant then n.children.map Node.position else [] := by
  rw [frames, List.map_append, List.map_map]
  congr 1
  split
  · rw [List.map_map]
    rfl
  · rfl

/-- Applying a stage to a node leaves frames for children of the node. -/
theorem inRange_and_mem_children {stages : Nat} (hi : i < stages) {f : Frame}
    (hf : f ∈ s.frames i n) : f.InRange stages ∧ f.node ∈ n.children := by
  rcases List.mem_append.1 hf with hf | hf
  · obtain ⟨c, hc, rfl⟩ := List.mem_map.1 hf
    exact ⟨hi, (s.target.select_sublist n).subset hc⟩
  · split at hf
    · obtain ⟨c, hc, rfl⟩ := List.mem_map.1 hf
      exact ⟨Nat.le_of_lt hi, hc⟩
    · cases hf

/-- They are at most two for each child: one as it was selected, and one to go further down. -/
theorem count_position_frames_le (hn : n.value.Ordered) (a : List Edge) :
    ((s.frames i n).map Frame.position).count a ≤ 2 := by
  have hchildren := Node.nodup_positions_children hn
  have hselected := hchildren.sublist ((s.target.select_sublist n).map Node.position)
  have hbelow :
      (if s.target.isDescendant then n.children.map Node.position else []).count a ≤ 1 := by
    split
    · exact List.nodup_iff_count_le_one.1 hchildren a
    · exact Nat.zero_le 1
  rw [map_position_frames, List.count_append]
  exact Nat.add_le_add (List.nodup_iff_count_le_one.1 hselected a) hbelow

end Stage

/-! ### What every move keeps -/

/-- A position further down than another. -/
def StrictlyBelow (a b : List Edge) : Prop := ∃ e rest, b = a ++ e :: rest

theorem StrictlyBelow.length_lt {a b : List Edge} (h : StrictlyBelow a b) :
    a.length < b.length := by
  obtain ⟨e, rest, rfl⟩ := h
  simp

theorem StrictlyBelow.of_child {a b : List Edge} {e : Edge} (h : StrictlyBelow (a ++ [e]) b) :
    StrictlyBelow a b := by
  obtain ⟨f, rest, rfl⟩ := h
  exact ⟨e, f :: rest, by simp⟩

/-- **What every move keeps** of a stack in a search of so many stages below a root. -/
structure Kept (stages : Nat) (root : Value) (pending : List Frame) : Prop where
  /-- The indices are those of stages. -/
  inRange : ∀ f ∈ pending, f.InRange stages
  /-- Every frame is for a node of the root. -/
  standsIn : ∀ f ∈ pending, f.node.StandsIn root
  /-- No node has more than two frames. -/
  twice : ∀ a, (pending.map Frame.position).count a ≤ 2
  /-- Nothing further down in the stack stands below something above it. -/
  upwards : (pending.map Frame.position).Pairwise fun a b => ¬StrictlyBelow a b

namespace Kept

variable {stages : Nat} {root : Value} {f : Frame} {rest : List Frame}

theorem start (stages : Nat) (root : Value) : Kept stages root [.visit 0 (.root root)] where
  inRange := List.forall_mem_singleton.2 (Nat.zero_le _)
  standsIn := List.forall_mem_singleton.2 (Node.standsIn_root root)
  twice _ := Nat.le_trans List.count_le_length (Nat.le_succ 1)
  upwards := List.pairwise_singleton _ _

theorem tail (h : Kept stages root (f :: rest)) : Kept stages root rest where
  inRange := fun g hg => h.inRange g (List.mem_cons_of_mem f hg)
  standsIn := fun g hg => h.standsIn g (List.mem_cons_of_mem f hg)
  twice a := Nat.le_trans (List.count_le_count_cons) (h.twice a)
  upwards := (List.pairwise_cons.1 h.upwards).2

/-- A candidate that passes is replaced by a visit of the same node. -/
theorem candidate {i : Nat} {n : Node} (h : Kept stages root (.candidate i n :: rest)) :
    Kept stages root (.visit (i + 1) n :: rest) where
  inRange := List.forall_mem_cons.2
    ⟨(List.forall_mem_cons.1 h.inRange).1, (List.forall_mem_cons.1 h.inRange).2⟩
  standsIn := List.forall_mem_cons.2
    ⟨(List.forall_mem_cons.1 h.standsIn).1, (List.forall_mem_cons.1 h.standsIn).2⟩
  twice := h.twice
  upwards := h.upwards

/-- **A visit is replaced by frames for the children of its node**, at most two for each.  No frame
for any of them is left in the stack. -/
theorem visit (hroot : root.Ordered) {i : Nat} {n : Node} (hi : i < stages)
    (h : Kept stages root (.visit i n :: rest)) (s : Stage) :
    Kept stages root (s.frames i n ++ rest) := by
  have hn : n.StandsIn root := (List.forall_mem_cons.1 h.standsIn).1
  obtain ⟨hbelow, hrest⟩ := List.pairwise_cons.1 h.upwards
  have hnew : ∀ a ∈ (s.frames i n).map Frame.position, ∃ e, a = n.position ++ [e] := by
    intro a ha
    obtain ⟨f, hf, rfl⟩ := List.mem_map.1 ha
    exact Node.exists_position_of_mem_children (Stage.inRange_and_mem_children hi hf).2
  have hgone : ∀ a ∈ (s.frames i n).map Frame.position, a ∉ rest.map Frame.position := by
    intro a ha hmem
    obtain ⟨e, rfl⟩ := hnew a ha
    exact hbelow _ hmem ⟨e, [], rfl⟩
  refine ⟨?_, ?_, fun a => ?_, ?_⟩
  · refine List.forall_mem_append.2 ⟨fun f hf => ?_, h.tail.inRange⟩
    exact (Stage.inRange_and_mem_children hi hf).1
  · refine List.forall_mem_append.2 ⟨fun f hf => ?_, h.tail.standsIn⟩
    exact (hn.child hroot (Stage.inRange_and_mem_children hi hf).2).1
  · rw [List.map_append, List.count_append]
    by_cases ha : a ∈ (s.frames i n).map Frame.position
    · rw [List.count_eq_zero.2 (hgone a ha), Nat.add_zero]
      exact Stage.count_position_frames_le (hroot.at? hn) a
    · rw [List.count_eq_zero.2 ha, Nat.zero_add]
      exact h.tail.twice a
  · rw [List.map_append, List.pairwise_append]
    refine ⟨List.pairwise_of_forall_mem_list fun a ha b hb hab => ?_, hrest,
      fun a ha b hb hab => ?_⟩
    · obtain ⟨e, rfl⟩ := hnew a ha
      obtain ⟨f, rfl⟩ := hnew b hb
      simpa using hab.length_lt
    · obtain ⟨e, rfl⟩ := hnew a ha
      exact hbelow b hb hab.of_child

/-- **Every move keeps it.** -/
theorem move (hroot : root.Ordered) {m : Search} (h : Kept m.stages.length root m.pending) :
    Kept m.stages.length root m.move.pending := by
  obtain ⟨stages, pending⟩ := m
  cases pending with
  | nil => exact h
  | cons f rest =>
      rw [Search.move]
      cases f with
      | visit i n =>
          simp only [Frame.next]
          cases hs : stages[i]? with
          | none => exact h.tail
          | some s => exact h.visit hroot (List.getElem?_eq_some_iff.1 hs).1 s
      | candidate i n =>
          simp only [Frame.next]
          cases hs : stages[i]? with
          | none => exact h.candidate
          | some s =>
              simp only
              split
              · exact h.candidate
              · exact h.tail

theorem afterMoves (hroot : root.Ordered) {m : Search} (h : Kept m.stages.length root m.pending)
    (moves : Nat) : Kept m.stages.length root (m.afterMoves moves).pending := by
  induction moves with
  | zero => exact h
  | succ moves ih =>
      rw [← m.stages_afterMoves moves] at ih ⊢
      exact ih.move hroot

end Kept

/-! ### The nodes of a value -/

/-- The step that leads everywhere below. -/
def everything : Hop := ⟨.descendant .wildcard, fun _ => true⟩

theorem walk_everything (rest : List Hop) (n : Node) : walk (everything :: rest) n =
    n.children.flatMap (walk rest) ++ n.children.flatMap (walk (everything :: rest)) := by
  rw [walk_cons]
  simp [everything, Target.select, Selector.select, Target.isDescendant]

theorem length_flatMap_walk_everything {ns : List Node}
    (h : ∀ c ∈ ns, (walk [everything] c).length + 1 = c.value.size) :
    (ns.flatMap (walk [])).length + (ns.flatMap (walk [everything])).length =
      total (fun c => c.value.size) ns := by
  induction ns with
  | nil => rfl
  | cons c ns ih =>
      obtain ⟨hc, hns⟩ := List.forall_mem_cons.1 h
      have hrest := ih hns
      simp only [List.flatMap_cons, List.length_append, walk_nil, List.length_singleton, total_cons]
      omega

/-- **Everything below a node** is one less than the nodes of its value. -/
theorem length_walk_everything (n : Node) : (walk [everything] n).length + 1 = n.value.size := by
  induction n using Node.induction_children with
  | step n ihn =>
      rw [n.value.size_eq, ← n.map_value_children, total_map, ← length_flatMap_walk_everything ihn,
        walk_everything, List.length_append]

/-- What stands in a root is the root or below it. -/
theorem mem_cons_walk_everything {root : Value} (hroot : root.Ordered) {n : Node}
    (hn : n.StandsIn root) : n ∈ Node.root root :: walk [everything] (.root root) := by
  rcases List.eq_nil_or_concat n.position with hnil | ⟨below, e, hposition⟩
  · exact List.mem_cons.2 (.inl (hn.eq_of_position (Node.standsIn_root root) hnil))
  · refine List.mem_cons_of_mem _ ((mem_walk_descendant_iff hroot (Node.standsIn_root root)).2 ?_)
    exact ⟨⟨hn, below, e, trivial, by rw [hposition, List.concat_eq_append]; rfl⟩, rfl⟩

/-- A list that takes nothing more than `k` times is at most `k` times as long as one that holds all
that it takes. -/
theorem length_le_mul_of_count_le {α : Type} [BEq α] [LawfulBEq α] {as bs : List α} {k : Nat}
    (hmem : ∀ a ∈ as, a ∈ bs) (hcount : ∀ a, as.count a ≤ k) : as.length ≤ k * bs.length := by
  induction bs generalizing as with
  | nil => simp [List.eq_nil_iff_forall_not_mem.2 fun a ha => List.not_mem_nil (hmem a ha)]
  | cons b bs ih =>
      have hothers : (as.filter fun a => !a == b).length ≤ k * bs.length := by
        refine ih (fun a ha => ?_) fun a => (List.filter_sublist.count_le a).trans (hcount a)
        have hne : a ≠ b := by simpa using List.of_mem_filter ha
        exact (List.mem_cons.1 (hmem a (List.mem_of_mem_filter ha))).resolve_left hne
      have hsplit := List.length_eq_length_filter_add (l := as) (· == b)
      have hb := hcount b
      rw [List.count_eq_length_filter] at hb
      rw [List.length_cons, Nat.mul_succ]
      omega

/-- **A stack is at most twice as long as the root has nodes.** -/
theorem Kept.length_le {stages : Nat} {root : Value} (hroot : root.Ordered) {pending : List Frame}
    (h : Kept stages root pending) : pending.length ≤ 2 * root.size := by
  let nodes := Node.root root :: walk [everything] (.root root)
  have hmem : ∀ a ∈ pending.map Frame.position, a ∈ nodes.map Node.position := by
    intro a ha
    obtain ⟨f, hf, rfl⟩ := List.mem_map.1 ha
    exact List.mem_map_of_mem (mem_cons_walk_everything hroot (h.standsIn f hf))
  have hnodes : nodes.length = root.size := length_walk_everything (.root root)
  have hle := length_le_mul_of_count_le hmem h.twice
  rwa [List.length_map, List.length_map, hnodes] at hle

/-! ### Many matches -/

/-- A list inside of a list, so many times. -/
def nested : Nat → Value
  | 0 => .null
  | depth + 1 => .list [nested depth]

theorem ordered_nested (depth : Nat) : (nested depth).Ordered := by
  induction depth with
  | zero => exact .null
  | succ depth ih => exact .list _ (List.forall_mem_singleton.2 ih)

theorem size_nested (depth : Nat) : (nested depth).size = depth + 1 := by
  induction depth with
  | zero => rfl
  | succ depth ih => rw [nested, Value.size_eq, Value.children_list, total_cons, total_nil, ih]

/-- So many steps to everywhere below choose as many of the levels. -/
theorem length_follow_nested (steps depth : Nat) :
    (follow (List.replicate steps everything) (nested depth)).length = depth.choose steps := by
  induction steps generalizing depth with
  | zero => simp
  | succ steps ihsteps =>
      induction depth with
      | zero => simp [List.replicate_succ, follow_cons, nested, everything, Target.pick,
          Selector.pick, Value.children]
      | succ depth ih =>
          rw [List.replicate_succ] at ih ⊢
          rw [follow_cons, nested, List.length_append, Nat.choose_succ_succ, ← ihsteps, ← ih]
          simp [everything, Target.pick, Selector.pick, Target.isDescendant]

/-- The text of so many steps to everywhere below compiles. -/
theorem exists_compile_everything (steps : Nat) : ∃ text p,
    compile commandContext text = .ok p ∧ p.hops = List.replicate (steps + 1) everything := by
  have hsteps : ∀ count, ∃ s, StepsText commandContext (PathText commandContext) s
      (List.replicate count ⟨.descendant .wildcard, none⟩) := by
    intro count
    induction count with
    | zero => exact ⟨[], .nil⟩
    | succ count ih =>
        obtain ⟨s, hs⟩ := ih
        exact ⟨_, .cons (.plain (.descendant rfl .wildcard)) hs⟩
  obtain ⟨s, hs⟩ := hsteps (steps + 1)
  rw [← String.toList_ofList (l := s)] at hs
  refine ⟨String.ofList s, _, compile_eq_ok_iff.2 (.mk hs (by simp)), ?_⟩
  rw [Path.hops_eq_map, List.map_replicate]
  rfl

/-- Of enough things one can choose more than any power of their number. -/
theorem exists_pow_le_choose (k : Nat) : ∃ n, (n + 1) ^ k ≤ n.choose (k + 1) := by
  let m := (k + 1).factorial * 2 ^ k + (k + 1)
  refine ⟨m + k, Nat.le_of_mul_le_mul_left ?_ (Nat.factorial_pos (k + 1))⟩
  have hm : (k + 1).factorial * 2 ^ k ≤ m := Nat.le_add_right _ _
  have hdouble : m + k + 1 ≤ 2 * m := by
    have : k + 1 ≤ m := Nat.le_add_left _ _
    omega
  calc (k + 1).factorial * (m + k + 1) ^ k
      ≤ (k + 1).factorial * (2 * m) ^ k :=
        Nat.mul_le_mul_left _ (Nat.pow_le_pow_left hdouble k)
    _ = (k + 1).factorial * 2 ^ k * m ^ k := by rw [Nat.mul_pow, Nat.mul_assoc]
    _ ≤ m * m ^ k := Nat.mul_le_mul_right _ hm
    _ = (m + k + 1 - (k + 1)) ^ (k + 1) := by
        rw [Nat.add_assoc, Nat.add_sub_cancel, Nat.pow_succ, Nat.mul_comm]
    _ ≤ (m + k).descFactorial (k + 1) := Nat.pow_sub_le_descFactorial _ _
    _ = (k + 1).factorial * (m + k).choose (k + 1) :=
        Nat.descFactorial_eq_factorial_mul_choose _ _

/-- **The stack of the search along a path stays small.**  After any number of moves, in the middle
of a call of `Search.next` as well as between two, a visit has the index of a step or comes after
the last one, and a candidate has the index of a step; every frame is for a node of the root, and no
node has more than two; so there are at most twice as many frames as the root has nodes.  But for
every exponent there is a path that has more matches in some value than that power of the number of
its nodes. -/
theorem Path.pending_bounded (p : Path) {root : Value} (hroot : root.Ordered) :
    (∀ moves, let pending := ((p.evaluate root).afterMoves moves).pending
      (∀ i n, Frame.visit i n ∈ pending → i ≤ p.steps.length) ∧
      (∀ i n, Frame.candidate i n ∈ pending → i < p.steps.length) ∧
      (∀ f ∈ pending, f.node.StandsIn root) ∧
      (∀ position, (pending.map Frame.position).count position ≤ 2) ∧
      pending.length ≤ 2 * root.size) ∧
    (∀ calls, ∃ moves, (p.evaluate root).after calls = (p.evaluate root).afterMoves moves) ∧
    ∀ k, ∃ text q v, compile commandContext text = .ok q ∧ v.Ordered ∧
      v.size ^ k ≤ (q.select v).length := by
  refine ⟨fun moves => ?_, Search.exists_after_eq _, fun k => ?_⟩
  · have hstart : Kept (p.evaluate root).stages.length root (p.evaluate root).pending :=
      Kept.start p.stages.length root
    have hstages : (p.evaluate root).stages.length = p.steps.length := by
      rw [Path.evaluate, Search.start, p.stages_eq_map, List.length_map]
    have hkept := hstart.afterMoves hroot moves
    rw [hstages] at hkept
    exact ⟨fun i n h => hkept.inRange _ h, fun i n h => hkept.inRange _ h, hkept.standsIn,
      hkept.twice, hkept.length_le hroot⟩
  · obtain ⟨n, hn⟩ := exists_pow_le_choose k
    obtain ⟨text, q, hq, hhops⟩ := exists_compile_everything k
    refine ⟨text, q, nested n, hq, ordered_nested n, ?_⟩
    rw [q.select_eq_follow, hhops, length_follow_nested, size_nested]
    exact hn

/-- Two steps to everywhere below, in a list and a map inside of a list: after the first move each
child has two frames. -/
theorem Path.pending_bounded_twofold :
    let steps : List Step := List.replicate 2 ⟨.descendant .wildcard, none⟩
    let root : Value := .list [.list [.null], .map [("a", .bool true)]]
    let search := (Path.mk "..*..*" steps).evaluate root
    root.Ordered ∧ root.size = 5 ∧
      (search.afterMoves 1).pending.map Frame.position =
        [[.index 0], [.index 1], [.index 0], [.index 1]] ∧
      ∀ moves, (search.afterMoves moves).pending.length ≤ 10 := by
  intro steps root search
  have hroot : root.Ordered := by
    refine .list _ (List.forall_mem_cons.2 ⟨?_, List.forall_mem_singleton.2 ?_⟩)
    · exact .list _ (List.forall_mem_singleton.2 .null)
    · exact .map _ (List.pairwise_singleton _ _) (List.forall_mem_singleton.2 (.bool true))
  refine ⟨hroot, rfl, rfl, fun moves => ?_⟩
  obtain ⟨-, -, -, -, hlength⟩ := (Path.pending_bounded ⟨"..*..*", steps⟩ hroot).1 moves
  exact hlength

end TreePath
