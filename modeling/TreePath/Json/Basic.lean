/-
**JSON documents as data.**

A number of a JSON document is an integer that fits 64 bits, with or without sign, or else a
finite floating point number; the two sorts are never equal.  An object keeps its members in
ascending order of their keys, each key once.

Main definitions:

* `Json.Number`, `Json`;
* `Json.same` — equality that compares floating point numbers numerically.
-/

import TreePath.Entries
import TreePath.Binary64.Basic

set_option autoImplicit false
set_option relaxedAutoImplicit false

namespace TreePath

/-- A number of a JSON document. -/
inductive Json.Number where
  /-- An integer that fits 64 bits, with or without sign. -/
  | integer (n : Int) (least : -0x8000000000000000 ≤ n) (greatest : n < 0x10000000000000000)
  /-- Any other number. -/
  | float (x : Binary64) (finite : x.isFinite = true)

/-- A JSON document. -/
inductive Json where
  /-- Nothing. -/
  | null
  /-- A truth value. -/
  | bool (b : Bool)
  /-- A number. -/
  | number (n : Json.Number)
  /-- A text. -/
  | string (s : String)
  /-- A sequence. -/
  | array (items : List Json)
  /-- A keyed collection, its members in ascending order of keys. -/
  | object (members : List (String × Json))

namespace Json

namespace Number

/-- The integer, if it fits 64 bits. -/
def ofInt? (n : Int) : Option Number :=
  if h : -0x8000000000000000 ≤ n ∧ n < 0x10000000000000000 then some (.integer n h.1 h.2)
  else none

/-- The floating point number, if it is finite. -/
def ofBinary64? (x : Binary64) : Option Number :=
  if h : x.isFinite = true then some (.float x h) else none

/-- Whether two numbers are of the same sort and numerically equal. -/
def same : Number → Number → Bool
  | .integer m _ _, .integer n _ _ => m == n
  | .float x _, .float y _ => x.numEq y
  | _, _ => false

end Number

/-- An object of members given in any order; of several with one key the last counts. -/
def ofMembers (members : List (String × Json)) : Json := .object (Entries.ofList members)

mutual

/-- Whether two documents are of the same form and content. -/
def same : Json → Json → Bool
  | .null, .null => true
  | .bool a, .bool b => a == b
  | .number a, .number b => a.same b
  | .string a, .string b => a == b
  | .array a, .array b => sameItems a b
  | .object a, .object b => sameMembers a b
  | _, _ => false

/-- Whether two sequences are the same, element by element. -/
def sameItems : List Json → List Json → Bool
  | [], [] => true
  | a :: as, b :: bs => a.same b && sameItems as bs
  | _, _ => false

/-- Whether two collections of members are the same, member by member. -/
def sameMembers : List (String × Json) → List (String × Json) → Bool
  | [], [] => true
  | (j, a) :: as, (k, b) :: bs => j == k && a.same b && sameMembers as bs
  | _, _ => false

end

end Json

end TreePath
