/-
**The shortest decimal that reads back.**

A finite number is written with the fewest decimal digits that `BinaryFormat.roundDecimal` reads
back as the same number.  For each count of digits only the two neighbours of the number on the
decimal grid of that many digits can qualify; the first grid on which one of them reads back is
taken, and of two that do the nearer one.  Both can be equally near, and then the writer says which
one it prefers (`Tie`).

Main definitions:

* `Tie` — what becomes of a tie between two shortest decimals;
* `Shortest.onGrid` — the better neighbour on the grid of a given number of digits, if one reads
  back;
* `Shortest.decimal` — the shortest decimal of a magnitude, without trailing zeros.
-/

import TreePath.Binary64.Rounding

set_option autoImplicit false
set_option relaxedAutoImplicit false

namespace TreePath

/-- The choice between two decimals that are equally near to a number. -/
inductive Tie where
  /-- The larger one. -/
  | up
  /-- The one whose last digit is even. -/
  | toEven
  deriving DecidableEq

namespace Shortest

/-- The exponent of ten of the leading digit of a size of `units`, which is not zero. -/
def leadingExponent (units : Nat) : Int :=
  let scaled := units * Nat.pow 10 400 / Nat.pow 2 BinaryFormat.double.unitExponent
  (Numeral.length scaled : Int) - 401

/-- A size of `units` divided by `10 ^ exponent`, as a fraction. -/
def scaled (units : Nat) (exponent : Int) : Nat × Nat :=
  let one := Nat.pow 2 BinaryFormat.double.unitExponent
  if 0 ≤ exponent then (units, Nat.pow 10 exponent.toNat * one)
  else (units * Nat.pow 10 (-exponent).toNat, one)

/-- Whether a decimal is read as the number of this magnitude. -/
def readsBack (magnitude digits : Nat) (exponent : Int) : Bool :=
  BinaryFormat.double.roundDecimal digits exponent == magnitude

/-- Of the grid points `low` and `low + 1`, the one nearer to a number that lies `rest / den` of a
step above `low`. -/
def nearer (tie : Tie) (low rest den : Nat) : Nat :=
  if 2 * rest < den then low
  else if den < 2 * rest then low + 1
  else match tie with
    | .up => low + 1
    | .toEven => if low % 2 = 0 then low else low + 1

/-- The better of the two neighbours of a number among the multiples of `10 ^ exponent`, if one of
them reads back. -/
def onGrid (tie : Tie) (magnitude : Nat) (exponent : Int) : Option (Nat × Int) :=
  let (num, den) := scaled (BinaryFormat.double.units magnitude) exponent
  let low := num / den
  match readsBack magnitude low exponent, readsBack magnitude (low + 1) exponent with
  | false, false => none
  | true, false => some (low, exponent)
  | false, true => some (low + 1, exponent)
  | true, true => some (nearer tie low (num % den) den, exponent)

/-- All the digits of a size: a power of two below one is a power of five over a power of ten. -/
def allDigits (magnitude : Nat) : Nat × Int :=
  (BinaryFormat.double.units magnitude * Nat.pow 5 BinaryFormat.double.unitExponent,
    -(BinaryFormat.double.unitExponent : Int))

/-- The same decimal without its trailing zeros. -/
def trim (digits : Nat) (exponent : Int) : Nat × Int :=
  if h : digits % 10 = 0 ∧ digits ≠ 0 then trim (digits / 10) (exponent + 1) else (digits, exponent)
termination_by digits
decreasing_by omega

/-- The shortest decimal `digits * 10 ^ exponent` that reads back as a finite magnitude. -/
def decimal (tie : Tie) (magnitude : Nat) : Nat × Int :=
  let lead := leadingExponent (BinaryFormat.double.units magnitude)
  let found := (List.range 17).findSome? fun (n : Nat) => onGrid tie magnitude (lead - n)
  -- Seventeen digits are always enough; the alternative makes no use of that.
  let (digits, exponent) := found.getD (allDigits magnitude)
  trim digits exponent

end Shortest

end TreePath
