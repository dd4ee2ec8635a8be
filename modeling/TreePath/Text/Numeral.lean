/-
**Decimal numerals.**

A numeral is a list of the digits `0` to `9`, most significant first.  Reading one gives a natural
number (`Numeral.value`), writing a number gives its shortest numeral (`Numeral.ofNat`), and a run
of digits at the front of a text is cut off by `Numeral.spanDigits`.  A numeral with an optional
sign denotes a 64-bit integer only when its value lies in range (`Numeral.int64?`).

Main definitions:

* `Numeral.value`, `Numeral.ofNat`, `Numeral.ofInt`;
* `Numeral.spanDigits` — the digits at the front of a text, and what follows them;
* `Numeral.takeSign` — an optional sign at the front of a text;
* `Numeral.int64?` — the 64-bit integer denoted by a sign and a numeral, if there is one.
-/

set_option autoImplicit false
set_option relaxedAutoImplicit false

namespace TreePath.Numeral

/-! ### Digits -/

/-- The number a decimal digit stands for. -/
def digitValue (c : Char) : Nat := c.toNat - 48

/-- The digits at the front of a text, and the text after them. -/
def spanDigits (s : List Char) : List Char × List Char :=
  (s.takeWhile Char.isDigit, s.dropWhile Char.isDigit)

/-- Nothing is lost when the digits are cut off. -/
@[simp] theorem spanDigits_append (s : List Char) : (spanDigits s).1 ++ (spanDigits s).2 = s :=
  List.takeWhile_append_dropWhile

/-! ### Natural numbers -/

/-- The number read so far, extended by the digits that follow. -/
def valueFrom (start : Nat) (ds : List Char) : Nat :=
  ds.foldl (fun acc d => 10 * acc + digitValue d) start

/-- The number a numeral denotes; the empty numeral denotes zero. -/
def value (ds : List Char) : Nat := valueFrom 0 ds

@[simp] theorem value_nil : value [] = 0 := rfl

/-- The numeral of a natural number, without leading zeros. -/
def ofNat (n : Nat) : List Char := Nat.toDigits 10 n

/-- How many digits the numeral of a number has. -/
def length (n : Nat) : Nat := (ofNat n).length

/-! ### Signed numbers -/

/-- The numeral of an integer: a minus sign before the digits of a negative one. -/
def ofInt : Int → List Char
  | .ofNat n => ofNat n
  | .negSucc n => '-' :: ofNat (n + 1)

/-- An optional sign at the front of a text: whether it is a minus, and the text after it. -/
def takeSign : List Char → Bool × List Char
  | '-' :: rest => (true, rest)
  | '+' :: rest => (false, rest)
  | s => (false, s)

/-- The integer with the given sign and absolute value. -/
def signed (negative : Bool) (n : Nat) : Int :=
  if negative then -(n : Int) else n

/-- The 64-bit integer equal to `n`, if `n` is in range. -/
def toInt64? (n : Int) : Option Int64 :=
  if -0x8000000000000000 ≤ n ∧ n < 0x8000000000000000 then some (Int64.ofInt n) else none

/-- The 64-bit integer denoted by a sign and digits.  There is none for an empty list of digits or
a value out of range. -/
def int64? (negative : Bool) (digits : List Char) : Option Int64 :=
  if digits.isEmpty then none else toInt64? (signed negative (value digits))

@[simp] theorem int64?_nil (negative : Bool) : int64? negative [] = none := rfl

end TreePath.Numeral
