/-
**Writing JSON texts.**

A document is written without blanks, the members of an object in the order in which they are kept.
In texts only the quote, the backslash and the control characters are escaped.

Main definitions:

* `Json.escape`, `Json.quote` — characters and texts;
* `Json.write` — a document;
* `Json.text` — the same as a string.
-/

import TreePath.Json.Basic
import TreePath.Binary64.Layout

set_option autoImplicit false
set_option relaxedAutoImplicit false

namespace TreePath.Json

/-- A hexadecimal digit. -/
def hexDigit (n : Nat) : Char := Nat.digitChar n

/-- A character inside quotes. -/
def escape (c : Char) : List Char :=
  if c = '\x22' ∨ c = '\\' then ['\\', c]
  else if c = '\x08' then ['\\', 'b']
  else if c = '\x0c' then ['\\', 'f']
  else if c = '\n' then ['\\', 'n']
  else if c = '\r' then ['\\', 'r']
  else if c = '\t' then ['\\', 't']
  else if c.toNat < 32 then ['\\', 'u', '0', '0', hexDigit (c.toNat / 16), hexDigit (c.toNat % 16)]
  else [c]

/-- A text in quotes. -/
def quote (s : String) : List Char := '\x22' :: s.toList.flatMap escape ++ ['\x22']

/-- A number. -/
def Number.write : Number → List Char
  | .integer n _ _ => Numeral.ofInt n
  | .float x _ => x.text .json

mutual

/-- A document. -/
def write : Json → List Char
  | .null => "null".toList
  | .bool b => (if b then "true" else "false").toList
  | .number n => n.write
  | .string s => quote s
  | .array items => '[' :: writeItems items ++ [']']
  | .object members => '\x7b' :: writeMembers members ++ ['\x7d']

/-- The elements of an array, separated by commas. -/
def writeItems : List Json → List Char
  | [] => []
  | [v] => v.write
  | v :: w :: rest => v.write ++ ',' :: writeItems (w :: rest)

/-- The members of an object, separated by commas. -/
def writeMembers : List (String × Json) → List Char
  | [] => []
  | [(k, v)] => quote k ++ ':' :: v.write
  | (k, v) :: e :: rest => quote k ++ ':' :: v.write ++ ',' :: writeMembers (e :: rest)

end

/-- A document as a string. -/
def text (j : Json) : String := String.ofList j.write

end TreePath.Json
