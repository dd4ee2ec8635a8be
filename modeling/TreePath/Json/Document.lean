/-
**The form of JSON texts.**

A JSON text is first read for its form alone: which values stand in it and how they are nested.
Numbers stay the digits they are written with, escapes of code units stay code units, and members
of an object stay in the order and number in which they are written.  What the text means, and
whether it stays within the limits of the reader, is a matter of its own.

Reading recurs with a count that bounds how deep it goes; each second level takes a character of the
text, so twice its length is enough.

Main definitions:

* `Document` — the form of a JSON text;
* `Document.value?` — the form of the value at the front of a text, and the text after it;
* `Document.parse?` — the form of a text that holds one value.
-/

import TreePath.Text.Numeral

set_option autoImplicit false
set_option relaxedAutoImplicit false

namespace TreePath

/-! ### Forms -/

/-- A piece of a text in quotes. -/
inductive Piece where
  /-- A character, plain or escaped. -/
  | char (c : Char)
  /-- An escaped code unit of UTF-16. -/
  | unit (u : Nat)
  deriving DecidableEq

/-- A number as it is written. -/
structure NumberForm where
  /-- Whether a minus sign stands in front. -/
  negative : Bool
  /-- The digits before the point. -/
  whole : List Char
  /-- The digits after the point, if there is one. -/
  fraction : Option (List Char)
  /-- The power of ten, if one is given. -/
  exponent : Option Int
  deriving DecidableEq

/-- The form of a JSON text. -/
inductive Document where
  /-- The word for nothing. -/
  | null
  /-- One of the words for truth values. -/
  | bool (b : Bool)
  /-- A number. -/
  | number (n : NumberForm)
  /-- A text in quotes. -/
  | string (pieces : List Piece)
  /-- Values in brackets. -/
  | array (items : List Document)
  /-- Members in braces, as they are written. -/
  | object (members : List (List Piece × Document))

namespace Document

/-! ### Blanks and words -/

/-- The characters that may stand between the parts of a JSON text. -/
def isBlank (c : Char) : Bool := c == ' ' || c == '\t' || c == '\n' || c == '\r'

/-- The text after the blanks at its front. -/
def skipBlank (s : List Char) : List Char := s.dropWhile isBlank

/-- The text after a word at its front. -/
def word? (word : String) (s : List Char) : Option (List Char) :=
  if word.toList.isPrefixOf s then some (s.drop word.length) else none

/-! ### Numbers -/

/-- The digits after a point, if there is a point; then there must be some. -/
def fraction? : List Char → Option (Option (List Char) × List Char)
  | '.' :: rest =>
    let (ds, rest) := Numeral.spanDigits rest
    if ds.isEmpty then none else some (some ds, rest)
  | s => some (none, s)

/-- The exponent, if there is one; then it must have digits. -/
def exponent? : List Char → Option (Option Int × List Char)
  | [] => some (none, [])
  | c :: s =>
    if c = 'e' ∨ c = 'E' then
      let (negative, rest) := Numeral.takeSign s
      let (ds, rest) := Numeral.spanDigits rest
      if ds.isEmpty then none else some (some (Numeral.signed negative (Numeral.value ds)), rest)
    else some (none, c :: s)

/-- A number at the front of a text.  Its digits start with a zero only if that is the only digit
before the point. -/
def number? (s : List Char) : Option (NumberForm × List Char) := do
  let (negative, unsigned) := match s with
    | '-' :: rest => (true, rest)
    | s => (false, s)
  let (ds, rest) := Numeral.spanDigits unsigned
  if ds.isEmpty || (ds.head? == some '0' && ds.length != 1) then none
  else
    let (fraction, rest) ← fraction? rest
    let (exponent, rest) ← exponent? rest
    return (⟨negative, ds, fraction, exponent⟩, rest)

/-! ### Texts in quotes -/

/-- The value of a hexadecimal digit. -/
def hexValue? (c : Char) : Option Nat :=
  if c.isDigit then some (c.toNat - 48)
  else if 'a' ≤ c ∧ c ≤ 'f' then some (c.toNat - 87)
  else if 'A' ≤ c ∧ c ≤ 'F' then some (c.toNat - 55)
  else none

/-- The number written by four hexadecimal digits. -/
def hexValue4? (a b c d : Char) : Option Nat := do
  return ((← hexValue? a) * 16 + (← hexValue? b)) * 256 + (← hexValue? c) * 16 + (← hexValue? d)

/-- The character that a letter after a backslash stands for. -/
def escaped? (c : Char) : Option Char :=
  match c with
  | '\x22' => some '\x22'
  | '\\' => some '\\'
  | '/' => some '/'
  | 'b' => some '\x08'
  | 'f' => some '\x0c'
  | 'n' => some '\n'
  | 'r' => some '\r'
  | 't' => some '\t'
  | _ => none

/-- The pieces of a text up to the quote that closes it, and what follows. -/
def pieces? : List Char → Option (List Piece × List Char)
  | [] => none
  | '\x22' :: rest => some ([], rest)
  | '\\' :: 'u' :: a :: b :: c :: d :: rest => do
    let u ← hexValue4? a b c d
    let (more, rest) ← pieces? rest
    return (.unit u :: more, rest)
  | '\\' :: e :: rest => do
    let c ← escaped? e
    let (more, rest) ← pieces? rest
    return (.char c :: more, rest)
  | c :: rest => do
    -- A backslash that comes here starts no escape.
    if c.toNat < 32 ∨ c = '\\' then none
    else
      let (more, rest) ← pieces? rest
      return (.char c :: more, rest)

/-! ### Values -/

mutual

/-- The value at the front of a text, and the text after it. -/
def value? : (levels : Nat) → List Char → Option (Document × List Char)
  | 0, _ => none
  | levels + 1, s =>
    match skipBlank s with
    | [] => none
    | '[' :: rest =>
      match skipBlank rest with
      | ']' :: rest => some (.array [], rest)
      | rest => (items? levels rest).map fun (items, rest) => (.array items, rest)
    | '\x7b' :: rest =>
      match skipBlank rest with
      | '\x7d' :: rest => some (.object [], rest)
      | rest => (members? levels rest).map fun (members, rest) => (.object members, rest)
    | '\x22' :: rest => (pieces? rest).map fun (pieces, rest) => (.string pieces, rest)
    | 't' :: rest => (word? "rue" rest).map fun rest => (.bool true, rest)
    | 'f' :: rest => (word? "alse" rest).map fun rest => (.bool false, rest)
    | 'n' :: rest => (word? "ull" rest).map fun rest => (.null, rest)
    | s => (number? s).map fun (n, rest) => (.number n, rest)

/-- Values separated by commas up to the bracket that closes them, at least one. -/
def items? : (levels : Nat) → List Char → Option (List Document × List Char)
  | 0, _ => none
  | levels + 1, s =>
    match value? levels s with
    | none => none
    | some (v, rest) =>
      match skipBlank rest with
      | ',' :: rest => (items? levels rest).map fun (more, rest) => (v :: more, rest)
      | ']' :: rest => some ([v], rest)
      | _ => none

/-- Members separated by commas up to the brace that closes them, at least one. -/
def members? : (levels : Nat) → List Char → Option (List (List Piece × Document) × List Char)
  | 0, _ => none
  | levels + 1, s =>
    match skipBlank s with
    | '\x22' :: rest =>
      match pieces? rest with
      | none => none
      | some (key, rest) =>
        match skipBlank rest with
        | ':' :: rest =>
          match value? levels rest with
          | none => none
          | some (v, rest) =>
            match skipBlank rest with
            | ',' :: rest => (members? levels rest).map fun (more, rest) => ((key, v) :: more, rest)
            | '\x7d' :: rest => some ([(key, v)], rest)
            | _ => none
        | _ => none
    | _ => none

end

/-- How many levels of recursion are enough for a text. -/
def levels (s : List Char) : Nat := 2 * s.length + 2

/-- The form of a text that holds one value and nothing else. -/
def parse? (s : List Char) : Option Document :=
  match value? (levels s) s with
  | some (d, rest) => if (skipBlank rest).isEmpty then some d else none
  | none => none

/-- Whether one can see where a value ends that starts with this character. -/
def isDelimited (c : Char) : Bool := c == '[' || c == '\x7b' || c == '\x22'

/-- Whether a text can follow a value that has no end of its own. -/
def canFollow : List Char → Bool
  | [] => true
  | c :: _ => isBlank c || ['\x22', '[', ']', '\x7b', '\x7d', ',', ':'].contains c

/-- The first of the values that follow one another in a text, and the text after it.  A value
without an end of its own has to be set off from what follows. -/
def first? (s : List Char) : Option (Document × List Char) :=
  let s := skipBlank s
  match value? (levels s) s with
  | some (d, rest) =>
    if (s.head?.map isDelimited).getD false || canFollow rest then some (d, rest) else none
  | none => none

end Document

end TreePath
