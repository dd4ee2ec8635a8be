/-
**Decimal texts of floating point numbers.**

A decimal text is an optional sign, digits with an optional point among them, and an optional
exponent; at least one digit stands before the exponent.  It denotes a sign and a decimal
`digits * 10 ^ exponent`, which is rounded once to the format asked for.  The words `inf`,
`infinity` and `nan` in any case denote the values that no decimal reaches.

Main definitions:

* `DecimalText`, `DecimalText.read?` — the parts of a decimal text;
* `Binary64.ofText?`, `Binary64.ofSingleText?` — the number a text denotes, rounded to double
  format directly or through single format.
-/

import TreePath.Binary64.Rounding

set_option autoImplicit false
set_option relaxedAutoImplicit false

namespace TreePath

/-- A decimal with a sign: `digits * 10 ^ exponent`. -/
structure DecimalText where
  /-- Whether a minus sign stands in front. -/
  negative : Bool
  /-- All the digits, those after the point included. -/
  digits : Nat
  /-- The power of ten that puts the point in its place. -/
  exponent : Int
  deriving DecidableEq

namespace DecimalText

/-- The decimal of digits before and after a point. -/
def ofParts (negative : Bool) (whole fraction : List Char) : DecimalText :=
  ⟨negative, Numeral.value (whole ++ fraction), -(fraction.length : Int)⟩

/-- The exponent that follows the digits, which must be the end of the text. -/
def readExponent? : List Char → Option Int
  | [] => some 0
  | c :: rest =>
    if c = 'e' ∨ c = 'E' then
      let (negative, rest) := Numeral.takeSign rest
      let (ds, rest) := Numeral.spanDigits rest
      if ds.isEmpty || !rest.isEmpty then none
      else some (Numeral.signed negative (Numeral.value ds))
    else none

/-- The decimal that the whole of a text denotes. -/
def read? (s : List Char) : Option DecimalText :=
  let (negative, s) := Numeral.takeSign s
  let (whole, rest) := Numeral.spanDigits s
  let (fraction, rest) := match rest with
    | '.' :: rest => Numeral.spanDigits rest
    | rest => ([], rest)
  if whole.isEmpty && fraction.isEmpty then none
  else
    let d := ofParts negative whole fraction
    (readExponent? rest).map fun e => { d with exponent := d.exponent + e }

/-- The nearest number in double format. -/
def toBinary64 (d : DecimalText) : Binary64 := Binary64.ofDecimal d.negative d.digits d.exponent

/-- The number in double format equal to the nearest number in single format. -/
def toSingle (d : DecimalText) : Binary64 := Binary64.ofSingleDecimal d.negative d.digits d.exponent

end DecimalText

namespace Binary64

/-- The value named by a word instead of written in digits. -/
def ofWord? (s : List Char) : Option Binary64 :=
  let (negative, word) := Numeral.takeSign s
  let word := word.map Char.toLower
  if word = ['i', 'n', 'f'] ∨ word = ['i', 'n', 'f', 'i', 'n', 'i', 't', 'y'] then
    some (if negative then infinity.neg else infinity)
  else if word = ['n', 'a', 'n'] then some (if negative then nan.neg else nan)
  else none

/-- The number in double format that a text denotes. -/
def ofText? (s : List Char) : Option Binary64 :=
  (ofWord? s).or ((DecimalText.read? s).map DecimalText.toBinary64)

/-- The number in double format equal to the number in single format that a text denotes. -/
def ofSingleText? (s : List Char) : Option Binary64 :=
  (ofWord? s).or ((DecimalText.read? s).map DecimalText.toSingle)

end Binary64

end TreePath
