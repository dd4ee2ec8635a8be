/-
**Sets of characters given by ranges of code points.**

A character property of the Unicode standard is kept as the ascending list of the ranges of code
points that have it.

Main definitions:

* `CodePoints` — a list of ranges, both ends included;
* `CodePoints.contains` — whether a character lies in one of them.
-/

set_option autoImplicit false
set_option relaxedAutoImplicit false

namespace TreePath

/-- Ranges of code points, each with its first and its last one. -/
abbrev CodePoints := List (Nat × Nat)

/-- Whether a character lies in one of the ranges. -/
def CodePoints.contains (ranges : CodePoints) (c : Char) : Bool :=
  ranges.any fun r => r.1 ≤ c.toNat && c.toNat ≤ r.2

end TreePath
