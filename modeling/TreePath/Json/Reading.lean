/-
**What JSON texts mean.**

The form of a text is given a meaning within limits.  Values may be nested 127 deep.  Escaped code
units must pair up to characters.  A number without point and exponent that fits 64 bits is an
integer, except that a zero with a minus sign is a floating point number.

Every other number is read quickly rather than to the last bit: its leading digits, as many as fit
64 bits, are taken as an integer, rounded, and multiplied or divided by a power of ten, which
rounds again.  A number that this makes infinite is refused.

Main definitions:

* `Json.Number.ofForm?` — a number;
* `decodePieces?` — a text in quotes;
* `Json.ofDocument?` — a document, nested no deeper than a given limit;
* `Json.parse?` — the meaning of a text that holds one document;
* `nextValue` — what comes next in a text of values that follow one another;
* `readAll` — those values, up to the first that cannot be read.
-/

import TreePath.Json.Basic
import TreePath.Json.Document
import TreePath.Binary64.Rounding

set_option autoImplicit false
set_option relaxedAutoImplicit false

namespace TreePath

/-! ### Numbers -/

namespace Json.Number

/-- Takes digits into a number as long as it fits 64 bits, and leaves the others. -/
def takeDigits (n : Nat) : List Char → Nat × List Char
  | [] => (n, [])
  | d :: ds =>
    let extended := 10 * n + Numeral.digitValue d
    if extended < UInt64.size then takeDigits extended ds else (n, d :: ds)

/-- A number divided by `10 ^ exponent`, by at most `10 ^ 308` at a time. -/
def scaleDown (x : Binary64) (exponent : Nat) : Binary64 :=
  if exponent ≤ 308 then x.div (.ofDecimal false 1 exponent)
  -- Zero stays zero, and any other number becomes zero after a few rounds.
  else if x.isZero then x
  else scaleDown (x.div (.ofDecimal false 1 308)) (exponent - 308)
termination_by exponent

/-- An integer times `10 ^ exponent`, rounded after each operation. -/
def scale (n : Nat) (exponent : Int) : Binary64 :=
  let x := Binary64.ofInt n
  if exponent < 0 then scaleDown x (-exponent).toNat
  else if exponent ≤ 308 then x.mul (.ofDecimal false 1 exponent)
  else if x.isZero then x
  else .infinity

/-- The floating point number that a form stands for, if it is finite. -/
def floatOfForm? (form : NumberForm) : Option Number :=
  let (n, dropped) := takeDigits 0 form.whole
  -- Digits after the point are taken as long as they fit, even where some before it did not.
  let fraction := form.fraction.getD []
  let (n, unused) := takeDigits n fraction
  let places : Int := dropped.length - (fraction.length - unused.length : Nat)
  let x := scale n (places + form.exponent.getD 0)
  ofBinary64? (if form.negative then x.neg else x)

/-- The number that a form stands for. -/
def ofForm? (form : NumberForm) : Option Number :=
  let n := Numeral.value form.whole
  if form.fraction.isNone && form.exponent.isNone && !(form.negative && n == 0) then
    (ofInt? (Numeral.signed form.negative n)).or (floatOfForm? form)
  else floatOfForm? form

end Json.Number

/-! ### Texts -/

/-- Whether a code unit is the first of a pair. -/
def isLeadingUnit (u : Nat) : Bool := decide (0xd800 ≤ u ∧ u < 0xdc00)

/-- Whether a code unit is the second of a pair. -/
def isTrailingUnit (u : Nat) : Bool := decide (0xdc00 ≤ u ∧ u < 0xe000)

/-- The character that two code units stand for together. -/
def pairedChar (u v : Nat) : Char :=
  Char.ofNat (0x10000 + (u - 0xd800) * 0x400 + (v - 0xdc00))

/-- The characters of a text in quotes, if its code units pair up. -/
def decodePieces? : List Piece → Option (List Char)
  | [] => some []
  | .char c :: rest => (decodePieces? rest).map (c :: ·)
  | .unit u :: .unit v :: rest =>
    if isLeadingUnit u then
      if isTrailingUnit v then (decodePieces? rest).map (pairedChar u v :: ·) else none
    else if isTrailingUnit u then none
    else (decodePieces? (.unit v :: rest)).map (Char.ofNat u :: ·)
  | .unit u :: rest =>
    if isLeadingUnit u || isTrailingUnit u then none
    else (decodePieces? rest).map (Char.ofNat u :: ·)

/-- The text in quotes that pieces stand for. -/
def textOfPieces? (pieces : List Piece) : Option String := (decodePieces? pieces).map String.ofList

/-! ### Documents -/

namespace Json

/-- How deep arrays and objects may be nested. -/
def nestingLimit : Nat := 127

mutual

/-- The meaning of a document in which arrays and objects are nested at most `depth` deep. -/
def ofDocument? (depth : Nat) : Document → Option Json
  | .null => some .null
  | .bool b => some (.bool b)
  | .number form => (Number.ofForm? form).map .number
  | .string pieces => (textOfPieces? pieces).map .string
  | .array items =>
    match depth with
    | 0 => none
    | depth + 1 => (itemsOfDocuments? depth items).map .array
  | .object members =>
    match depth with
    | 0 => none
    | depth + 1 => (membersOfDocuments? depth members).map ofMembers

/-- The meanings of the elements of an array. -/
def itemsOfDocuments? (depth : Nat) : List Document → Option (List Json)
  | [] => some []
  | d :: rest =>
    match ofDocument? depth d with
    | none => none
    | some v => (itemsOfDocuments? depth rest).map (v :: ·)

/-- The meanings of the members of an object. -/
def membersOfDocuments? (depth : Nat) :
    List (List Piece × Document) → Option (List (String × Json))
  | [] => some []
  | (key, d) :: rest =>
    match textOfPieces? key, ofDocument? depth d with
    | some k, some v => (membersOfDocuments? depth rest).map ((k, v) :: ·)
    | _, _ => none

end

/-- The meaning of a text that holds one document and nothing else. -/
def parse? (s : String) : Option Json :=
  (Document.parse? s.toList).bind (ofDocument? nestingLimit)

end Json

/-! ### Values that follow one another -/

/-- What comes next in a text of values that follow one another. -/
inductive Next (α : Type) where
  /-- Nothing: the text is at its end. -/
  | finished
  /-- Something that cannot be read. -/
  | unreadable
  /-- A value, and the text behind it. -/
  | value (a : α) (rest : List Char)

/-- Reads the next of the values that follow one another in a text. -/
def nextValue {α : Type} (decode? : Document → Option α) (s : List Char) : Next α :=
  if (Document.skipBlank s).isEmpty then .finished
  else
    match Document.first? s with
    | none => .unreadable
    | some (d, rest) =>
      match decode? d with
      | none => .unreadable
      | some a => .value a rest

/-- What was read of a text, up to the first value that cannot be read. -/
structure Readout (α : Type) where
  /-- The values that were read, in order. -/
  values : List α
  /-- Whether the whole text was read. -/
  complete : Bool

/-- Reads the values that follow one another in a text, at most `count` of them. -/
def readUpTo {α : Type} (decode? : Document → Option α) : (count : Nat) → List Char → Readout α
  | 0, _ => ⟨[], false⟩
  | count + 1, s =>
    match nextValue decode? s with
    | .finished => ⟨[], true⟩
    | .unreadable => ⟨[], false⟩
    | .value a rest =>
      let others := readUpTo decode? count rest
      ⟨a :: others.values, others.complete⟩

/-- Reads the values that follow one another in a text.  Each takes at least one character. -/
def readAll {α : Type} (decode? : Document → Option α) (s : String) : Readout α :=
  readUpTo decode? (s.toList.length + 1) s.toList

end TreePath
