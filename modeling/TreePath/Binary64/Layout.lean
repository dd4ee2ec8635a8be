/-
**Texts of floating point numbers.**

A number is written from its shortest decimal in one of several layouts.  A layout says when the
digits are written positionally and when with an exponent, whether a whole number keeps a fraction
of `.0`, whether a positive exponent has a sign, and how ties between two shortest decimals go.

Main definitions:

* `NumberLayout` — the choices of a format;
* `NumberLayout.plain`, `NumberLayout.debug`, `NumberLayout.json` — the three formats in use;
* `Binary64.text` — a number in a layout.
-/

import TreePath.Binary64.Shortest

set_option autoImplicit false
set_option relaxedAutoImplicit false

namespace TreePath

/-! ### Layouts -/

/-- How the digits of a number are laid out. -/
structure NumberLayout where
  /-- The least and greatest exponents of the leading digit that are written positionally; with no
  range given, all are. -/
  positional : Option (Int × Int)
  /-- Whether a whole number written positionally keeps the fraction `.0`. -/
  keepsFraction : Bool
  /-- Whether a positive exponent is written with a plus sign. -/
  plusSign : Bool
  /-- Which of two equally near shortest decimals is written. -/
  tie : Tie
  deriving DecidableEq

namespace NumberLayout

/-- Text for people: never an exponent, and no fraction on whole numbers. -/
def plain : NumberLayout := ⟨none, false, false, .up⟩

/-- Text that shows the kind of the number: always a fraction or an exponent, the exponent below
`1e-4` and from `1e16` up. -/
def debug : NumberLayout := ⟨some (-4, 15), true, false, .up⟩

/-- Text of a JSON number: always a fraction or an exponent, the exponent below `1e-5` and from
`1e+16` up, where it has a sign. -/
def json : NumberLayout := ⟨some (-5, 15), true, true, .toEven⟩

/-- Whether a leading digit of this exponent is written positionally. -/
def isPositional (layout : NumberLayout) (lead : Int) : Bool :=
  match layout.positional with
  | none => true
  | some (least, greatest) => decide (least ≤ lead ∧ lead ≤ greatest)

/-- The digits `ds` times `10 ^ exponent`, positionally. -/
def positionalText (layout : NumberLayout) (ds : List Char) (exponent : Int) : List Char :=
  let whole := ds.length + exponent
  if 0 ≤ exponent then
    ds ++ List.replicate exponent.toNat '0' ++ if layout.keepsFraction then ['.', '0'] else []
  else if 0 < whole then ds.take whole.toNat ++ '.' :: ds.drop whole.toNat
  else '0' :: '.' :: List.replicate (-whole).toNat '0' ++ ds

/-- The digits `ds` with a point after the first, and the exponent of the leading digit. -/
def exponentText (layout : NumberLayout) (ds : List Char) (lead : Int) : List Char :=
  let fraction := ds.drop 1
  ds.take 1 ++ (if fraction.isEmpty then [] else '.' :: fraction) ++
    'e' :: (if layout.plusSign && decide (0 < lead) then ['+'] else []) ++ Numeral.ofInt lead

/-- A finite number without its sign. -/
def magnitudeText (layout : NumberLayout) (magnitude : Nat) : List Char :=
  if magnitude = 0 then if layout.keepsFraction then ['0', '.', '0'] else ['0']
  else
    let (digits, exponent) := Shortest.decimal layout.tie magnitude
    let ds := Numeral.ofNat digits
    let lead := ds.length - 1 + exponent
    if layout.isPositional lead then layout.positionalText ds exponent
    else layout.exponentText ds lead

end NumberLayout

/-- A number in a layout.  Infinity is `inf`, and a not-a-number has no sign. -/
def Binary64.text (layout : NumberLayout) (x : Binary64) : List Char :=
  if x.isNaN then ['N', 'a', 'N']
  else (if x.isNegative then ['-'] else []) ++
    if x.isFinite then layout.magnitudeText x.magnitude else ['i', 'n', 'f']

end TreePath
