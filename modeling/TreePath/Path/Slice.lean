/-
**Ranges of elements.**

A range has two bounds, both included.  A negative bound counts back from the end of the sequence,
and a bound outside the sequence is moved to its nearest end.  A range that ends before it starts
selects nothing.

Main definitions:

* `Slice`, with `Slice.full` and `Slice.index`;
* `Slice.resolve` — the first and last index of a range in a sequence of given length;
* `Slice.select` — the elements of a range.

Main results:

* `Slice.resolve_bounds` — the indices lie in the sequence, the first not after the last.
-/

set_option autoImplicit false
set_option relaxedAutoImplicit false

namespace TreePath

/-- A range of elements, both bounds included. -/
structure Slice where
  /-- The first element. -/
  start : Int64
  /-- The last element. -/
  stop : Int64
  deriving DecidableEq

namespace Slice

/-- Every element. -/
def full : Slice := ⟨0, -1⟩

/-- A single element. -/
def index (n : Int64) : Slice := ⟨n, n⟩

/-- The index that a bound stands for in a sequence of `length` elements, which is not empty.  Where
a bound counts from the end, no length counts for more than the greatest bound. -/
def place (bound : Int64) (length : Nat) : Nat :=
  let b := bound.toInt
  let fromStart := if b < 0 then ((min length 0x7fffffffffffffff : Nat) : Int) + b else b
  min fromStart.toNat (length - 1)

/-- The first and the last index of a range, if it selects anything. -/
def resolve (s : Slice) (length : Nat) : Option (Nat × Nat) :=
  if length = 0 then none
  else
    let first := place s.start length
    let last := place s.stop length
    if first ≤ last then some (first, last) else none

/-- The elements of a range. -/
def select {α : Type} (s : Slice) (items : List α) : List α :=
  match s.resolve items.length with
  | none => []
  | some (first, last) => (items.drop first).take (last - first + 1)

/-- A bound is placed inside the sequence. -/
theorem place_lt (bound : Int64) {length : Nat} (h : 0 < length) : place bound length < length := by
  have : place bound length ≤ length - 1 := Nat.min_le_right _ _
  omega

/-- The indices of a range lie in the sequence, the first not after the last. -/
theorem resolve_bounds {s : Slice} {length first last : Nat}
    (h : s.resolve length = some (first, last)) : first ≤ last ∧ last < length := by
  simp only [resolve] at h
  split at h
  · cases h
  · next hlen =>
    split at h
    · next hle =>
      cases h
      exact ⟨hle, place_lt _ (Nat.pos_of_ne_zero hlen)⟩
    · cases h

/-- A range selects part of the sequence, in order. -/
theorem select_sublist {α : Type} (s : Slice) (items : List α) :
    (s.select items).Sublist items := by
  simp only [select]
  split
  · exact List.nil_sublist _
  · exact (List.take_sublist _ _).trans (List.drop_sublist _ _)

end Slice

end TreePath
