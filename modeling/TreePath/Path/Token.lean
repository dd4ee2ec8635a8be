/-
**Reading the parts of a path expression.**

A reader takes the text that is left and gives what it read together with the text after it.  A
reader that fails says why and leaves the text from the fault on, so nothing here depends on where
in an expression a part stands.  This module holds the parts that do not contain one another: names,
spaces, bounds, texts and numbers.

Main definitions:

* `Reading`, `Reading.andThen` — how a reader answers, and how readers follow one another;
* `Reading.char` — one certain character;
* `isNameChar`, `spanName`, `skipSpaces` — the characters of names and of free space;
* `Reading.range`, `Reading.stringLiteral`, `Reading.numberLiteral`.
-/

import TreePath.Path.Basic
import TreePath.Path.SyntaxError
import TreePath.Binary64.Numeral

set_option autoImplicit false
set_option relaxedAutoImplicit false

namespace TreePath

/-! ### Readers -/

/-- How a reader answers. -/
inductive Reading (α : Type) where
  /-- What was read, and the text after it. -/
  | found (a : α) (rest : List Char)
  /-- The text from a fault on, and what is wrong there. -/
  | fault (rest : List Char) (cause : Cause)

namespace Reading

variable {α β : Type}

/-- Reads on after what was found. -/
def andThen (r : Reading α) (next : α → List Char → Reading β) : Reading β :=
  match r with
  | found a rest => next a rest
  | fault rest cause => fault rest cause

@[simp] theorem andThen_found (a : α) (rest : List Char) (next : α → List Char → Reading β) :
    (found a rest).andThen next = next a rest := rfl

@[simp] theorem andThen_fault (rest : List Char) (cause : Cause)
    (next : α → List Char → Reading β) : (fault rest cause).andThen next = fault rest cause := rfl

/-- Two readers in a row find something exactly when the first one does, and then the second. -/
theorem andThen_eq_found_iff {r : Reading α} {next : α → List Char → Reading β} {b : β}
    {t : List Char} :
    r.andThen next = found b t ↔ ∃ a rest, r = found a rest ∧ next a rest = found b t := by
  cases r <;> simp [and_assoc]

/-- Turns what was found into something else. -/
def map (f : α → β) (r : Reading α) : Reading β := r.andThen fun a rest => found (f a) rest

@[simp] theorem map_found (f : α → β) (a : α) (rest : List Char) :
    (found a rest).map f = found (f a) rest := rfl

@[simp] theorem map_fault (f : α → β) (rest : List Char) (cause : Cause) :
    (fault rest cause : Reading α).map f = fault rest cause := rfl

/-- A fault at the front of a text, where something else was expected. -/
def unexpected (s : List Char) (expected : Expected) : Reading α :=
  fault s (.unexpected s.head? expected)

/-- Reads one certain character. -/
def char (c : Char) : List Char → Reading Unit
  | [] => unexpected [] (.char c)
  | d :: rest => if d = c then found () rest else unexpected (d :: rest) (.char c)

end Reading

/-! ### Names and spaces -/

/-- Names consist of ASCII letters and digits, low lines, hyphens, and all characters beyond
ASCII. -/
def isNameChar (c : Char) : Bool := c.isAlphanum || c == '_' || c == '-' || decide (128 ≤ c.toNat)

/-- The name at the front of a text, which may be empty, and the text after it. -/
def spanName (s : List Char) : List Char × List Char :=
  (s.takeWhile isNameChar, s.dropWhile isNameChar)

/-- The text after the spaces at its front. -/
def skipSpaces (s : List Char) : List Char := s.dropWhile (· == ' ')

/-- Nothing is lost when a name is cut off. -/
@[simp] theorem spanName_append (s : List Char) : (spanName s).1 ++ (spanName s).2 = s :=
  List.takeWhile_append_dropWhile

namespace Reading

/-! ### Ranges -/

/-- Reads a bound of a range: an optional sign and digits.  There need be none. -/
def bound (s : List Char) : Reading (Option Int64) :=
  let (negative, unsigned) := Numeral.takeSign s
  let (ds, rest) := Numeral.spanDigits unsigned
  if rest.length = s.length then found none s
  else
    match Numeral.int64? negative ds with
    | some n => found (some n) rest
    | none => fault s .bound

/-- Reads what follows the first bound of a range: a colon and perhaps the last bound. -/
def rangeFrom (start : Option Int64) : List Char → Reading (Option Slice)
  | ':' :: rest => (bound rest).map fun stop =>
    some ⟨start.getD Slice.full.start, stop.getD Slice.full.stop⟩
  | rest => found (start.map Slice.index) rest

/-- Reads what stands between the brackets of an item step. -/
def range : List Char → Reading (Option Slice)
  | '*' :: rest => found (some Slice.full) rest
  | s => (bound s).andThen rangeFrom

/-! ### Selectors -/

/-- Reads the mark for all children, or the key of one. -/
def selector : List Char → Reading Selector
  | '*' :: rest => found .wildcard rest
  | s =>
    let (name, rest) := spanName s
    if name.isEmpty then unexpected s .selector else found (.name (String.ofList name)) rest

/-! ### Literals -/

/-- Reads a text up to the mark that closes it, given the text after the mark that opens it.  There
are no escapes. -/
def stringLiteral (mark : Char) (s : List Char) : Reading String :=
  match s.dropWhile (· != mark) with
  | [] => fault (mark :: s) (.unclosed mark)
  | _ :: rest => found (String.ofList (s.takeWhile (· != mark))) rest

/-- Reads a number: an optional sign and digits, with a point in front of, among or after the digits
of a floating point number. -/
def numberLiteral (s : List Char) : Reading Argument :=
  let (negative, unsigned) := Numeral.takeSign s
  let (whole, rest) := Numeral.spanDigits unsigned
  match rest with
  | '.' :: rest =>
    let (fraction, rest) := Numeral.spanDigits rest
    if whole.isEmpty && fraction.isEmpty then fault s .float
    else found (.float (DecimalText.ofParts negative whole fraction).toBinary64) rest
  | rest =>
    match Numeral.int64? negative whole with
    | some n => found (.integer n) rest
    | none => fault s .integer

end Reading

end TreePath
