/-
**Binary floating point numbers as bit patterns.**

A binary interchange format stores a sign, an exponent field and a fraction field.  Every finite
number of a format is a whole multiple of its smallest positive number, so its size is a natural
number of such *units* (`BinaryFormat.units`), and no rational arithmetic is needed to compare two
numbers or to say what a result must be rounded to.  The *magnitude* of a number is its bit pattern
without the sign, read as a natural number; magnitudes are ordered as the sizes they stand for, and
infinity is the magnitude after the largest finite one.

Main definitions:

* `BinaryFormat`, with the two formats `BinaryFormat.single` and `BinaryFormat.double`;
* `BinaryFormat.units` — the size a magnitude stands for;
* `Binary64` — a number in double format, with its classification and its order
  (`Binary64.numEq`, `Binary64.lt`, `Binary64.le`): not-a-number is unordered, and the two zeros
  are equal.
-/

set_option autoImplicit false
set_option relaxedAutoImplicit false

namespace TreePath

/-! ### Formats -/

/-- A binary interchange format, given by the widths of its fraction and exponent fields. -/
structure BinaryFormat where
  /-- The number of stored fraction bits. -/
  fractionBits : Nat
  /-- The number of exponent bits. -/
  exponentBits : Nat
  deriving DecidableEq

namespace BinaryFormat

/-- The 32-bit format. -/
def single : BinaryFormat := ⟨23, 8⟩

/-- The 64-bit format. -/
def double : BinaryFormat := ⟨52, 11⟩

/-- The smallest positive number of the format is `2 ^ -unitExponent`. -/
def unitExponent (f : BinaryFormat) : Nat :=
  Nat.pow 2 (f.exponentBits - 1) - 2 + f.fractionBits

/-- The magnitude of infinity: all exponent bits set, no fraction. -/
def infinity (f : BinaryFormat) : Nat :=
  (Nat.pow 2 f.exponentBits - 1) * Nat.pow 2 f.fractionBits

/-- The size of a magnitude, in units of the smallest positive number. -/
def units (f : BinaryFormat) (magnitude : Nat) : Nat :=
  let implicitBit := Nat.pow 2 f.fractionBits
  let exponent := magnitude / implicitBit
  let fraction := magnitude % implicitBit
  if exponent = 0 then fraction else (implicitBit + fraction) * Nat.pow 2 (exponent - 1)

@[simp] theorem units_zero (f : BinaryFormat) : f.units 0 = 0 := by simp [units]

end BinaryFormat

/-! ### Numbers in double format -/

/-- A floating point number in double format, kept as its 64 bits.  Equality of the type is
equality of bit patterns: the two zeros differ, and a not-a-number equals itself. -/
structure Binary64 where
  /-- The number with the given bit pattern. -/
  ofBits ::
  /-- Sign, exponent and fraction, from the most significant bit down. -/
  bits : UInt64
  deriving DecidableEq

namespace Binary64

/-- The value of the sign bit. -/
def signBit : Nat := 0x8000000000000000

/-- The number with the given sign and magnitude. -/
def ofMagnitude (negative : Bool) (magnitude : Nat) : Binary64 :=
  ⟨UInt64.ofNat ((if negative then signBit else 0) + magnitude)⟩

/-- Whether the sign bit is set. -/
def isNegative (x : Binary64) : Bool := decide (signBit ≤ x.bits.toNat)

/-- The bit pattern without the sign. -/
def magnitude (x : Binary64) : Nat := x.bits.toNat % signBit

/-- The size of a finite number, in units of `2 ^ -1074`. -/
def units (x : Binary64) : Nat := BinaryFormat.double.units x.magnitude

/-- Zero. -/
def zero : Binary64 := ofMagnitude false 0

/-- Positive infinity. -/
def infinity : Binary64 := ofMagnitude false BinaryFormat.double.infinity

/-- Not a number: only the first bit of the fraction is set. -/
def nan : Binary64 :=
  let firstBit := Nat.pow 2 (BinaryFormat.double.fractionBits - 1)
  ofMagnitude false (BinaryFormat.double.infinity + firstBit)

/-- The number with the opposite sign. -/
def neg (x : Binary64) : Binary64 := ofMagnitude (!x.isNegative) x.magnitude

/-! ### Classification -/

/-- Neither infinite nor a not-a-number. -/
def isFinite (x : Binary64) : Bool := decide (x.magnitude < BinaryFormat.double.infinity)

/-- Not a number. -/
def isNaN (x : Binary64) : Bool := decide (BinaryFormat.double.infinity < x.magnitude)

/-- One of the two zeros. -/
def isZero (x : Binary64) : Bool := x.magnitude == 0

/-- A finite number is a number. -/
theorem isNaN_eq_false_of_isFinite {x : Binary64} (h : x.isFinite = true) : x.isNaN = false := by
  simp only [isFinite, decide_eq_true_eq] at h
  simp only [isNaN, decide_eq_false_iff_not]
  omega

/-! ### Order -/

/-- The place of a number among all numbers: the signed magnitude, in which both zeros are `0`. -/
def rank (x : Binary64) : Int := if x.isNegative then -(x.magnitude : Int) else x.magnitude

/-- Numeric equality: both are numbers, of the same place. -/
def numEq (x y : Binary64) : Bool := !x.isNaN && !y.isNaN && decide (x.rank = y.rank)

/-- Numeric order: both are numbers, the first before the second. -/
def lt (x y : Binary64) : Bool := !x.isNaN && !y.isNaN && decide (x.rank < y.rank)

/-- Before or equal. -/
def le (x y : Binary64) : Bool := !x.isNaN && !y.isNaN && decide (x.rank ≤ y.rank)

/-- Numeric equality does not depend on the order of its arguments. -/
theorem numEq_comm (x y : Binary64) : x.numEq y = y.numEq x := by
  simp only [numEq, Bool.and_comm (!x.isNaN), eq_comm (a := x.rank)]

/-- A number equals itself. -/
theorem numEq_self {x : Binary64} (h : x.isNaN = false) : x.numEq x = true := by
  simp [numEq, h]

/-- At most is less or equal. -/
theorem le_eq_lt_or_numEq (x y : Binary64) : x.le y = (x.lt y || x.numEq y) := by
  simp only [le, lt, numEq, ← Bool.and_or_distrib_left, ← Bool.decide_or, Int.le_iff_lt_or_eq]

end Binary64

end TreePath
