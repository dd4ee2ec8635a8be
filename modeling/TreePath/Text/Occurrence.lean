/-
**Texts inside texts.**

Main definitions:

* `occursIn` — whether a text occurs in another, at any place.

Main results:

* `occursIn_iff` — occurring is being a contiguous part.
-/

set_option autoImplicit false
set_option relaxedAutoImplicit false

namespace TreePath

/-- Whether `needle` occurs somewhere in a text. -/
def occursIn (needle : List Char) : List Char → Bool
  | [] => needle.isEmpty
  | c :: rest => needle.isPrefixOf (c :: rest) || occursIn needle rest

/-- A text occurs in another exactly when it is a contiguous part of it. -/
theorem occursIn_iff {needle s : List Char} : occursIn needle s = true ↔ needle <:+: s := by
  induction s with
  | nil => simp [occursIn]
  | cons c rest ih => simp [occursIn, ih, List.infix_cons_iff]

end TreePath
