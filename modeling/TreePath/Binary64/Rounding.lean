/-
**Rounding to the nearest number of a format.**

All results are computed exactly, as a fraction of two natural numbers, and rounded once: to the
nearest number of the format, a tie going to the even significand, and to infinity beyond the
largest finite number.  Integers, decimal numerals, products and quotients differ only in the
fraction that they hand to `BinaryFormat.round`.

Main definitions:

* `roundHalfEven` — the nearest natural number to a fraction;
* `BinaryFormat.round` — the nearest magnitude of a format to a fraction of units;
* `Binary64.ofInt`, `Binary64.ofDecimal`, `Binary64.ofSingleDecimal` — conversions;
* `Binary64.mul`, `Binary64.div` — arithmetic on finite numbers.
-/

import TreePath.Binary64.Basic
import TreePath.Text.Numeral

set_option autoImplicit false
set_option relaxedAutoImplicit false

namespace TreePath

/-! ### Rounding a fraction -/

/-- The natural number nearest to `num / den`; of two equally near ones the even one. -/
def roundHalfEven (num den : Nat) : Nat :=
  let q := num / den
  let r := num % den
  if 2 * r < den then q
  else if den < 2 * r then q + 1
  else if q % 2 = 0 then q else q + 1

namespace BinaryFormat

/-- How many powers of two a size of `num / den` units lies above the sizes whose significands fit
the format exactly. -/
def excess (f : BinaryFormat) (num den : Nat) : Nat :=
  Nat.log2 (num / den) - f.fractionBits

/-- The magnitude nearest to the size of `num / den` units.

Writing the size as `m * 2 ^ e` with the significand `m` rounded to the precision of the format, the
magnitude is `e * 2 ^ fractionBits + m`: a significand that rounds up to the next power of two
carries into the exponent field by itself. -/
def round (f : BinaryFormat) (num den : Nat) : Nat :=
  let e := f.excess num den
  min (e * Nat.pow 2 f.fractionBits + roundHalfEven num (den * Nat.pow 2 e)) f.infinity

@[simp] theorem round_zero (f : BinaryFormat) {den : Nat} (h : 0 < den) : f.round 0 den = 0 := by
  simp [round, excess, roundHalfEven, h]

/-- The magnitude nearest to `digits * 10 ^ exponent`.

Powers of ten far outside the range of the double format are not computed: from `10 ^ 310` on the
result is infinite, and below `10 ^ -330` it is zero. -/
def roundDecimal (f : BinaryFormat) (digits : Nat) (exponent : Int) : Nat :=
  let size := exponent + Numeral.length digits
  if digits = 0 then 0
  else if 311 ≤ size then f.infinity
  else if size ≤ -330 then 0
  else if 0 ≤ exponent then
    f.round (digits * Nat.pow 10 exponent.toNat * Nat.pow 2 f.unitExponent) 1
  else f.round (digits * Nat.pow 2 f.unitExponent) (Nat.pow 10 (-exponent).toNat)

@[simp] theorem roundDecimal_zero (f : BinaryFormat) (exponent : Int) :
    f.roundDecimal 0 exponent = 0 := by
  simp [roundDecimal]

end BinaryFormat

namespace Binary64

/-! ### Conversions -/

/-- The number nearest to an integer. -/
def ofInt (n : Int) : Binary64 :=
  ofMagnitude (decide (n < 0)) (BinaryFormat.double.roundDecimal n.natAbs 0)

/-- The number nearest to `digits * 10 ^ exponent`, with the given sign. -/
def ofDecimal (negative : Bool) (digits : Nat) (exponent : Int) : Binary64 :=
  ofMagnitude negative (BinaryFormat.double.roundDecimal digits exponent)

/-- The number in double format equal to the number in single format nearest to
`digits * 10 ^ exponent`. -/
def ofSingleDecimal (negative : Bool) (digits : Nat) (exponent : Int) : Binary64 :=
  let magnitude := BinaryFormat.single.roundDecimal digits exponent
  if BinaryFormat.single.infinity ≤ magnitude then
    ofMagnitude negative BinaryFormat.double.infinity
  else
    let scale := BinaryFormat.double.unitExponent - BinaryFormat.single.unitExponent
    ofMagnitude negative
      (BinaryFormat.double.round (BinaryFormat.single.units magnitude * Nat.pow 2 scale) 1)

/-! ### Arithmetic on finite numbers -/

/-- The number nearest to the product of two finite numbers. -/
def mul (x y : Binary64) : Binary64 :=
  ofMagnitude (x.isNegative != y.isNegative)
    (BinaryFormat.double.round (x.units * y.units) (Nat.pow 2 BinaryFormat.double.unitExponent))

/-- The number nearest to the quotient of a finite number by a finite one that is not zero. -/
def div (x y : Binary64) : Binary64 :=
  ofMagnitude (x.isNegative != y.isNegative)
    (BinaryFormat.double.round (x.units * Nat.pow 2 BinaryFormat.double.unitExponent) y.units)

end Binary64

end TreePath
