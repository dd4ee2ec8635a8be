/-
**Conditions.**

A condition is a named test of a list of arguments.  Its signature says how many arguments it takes
and which kinds are accepted at each place; the test itself sees the arguments resolved, a path
having become the list of the nodes it leads to.

Main definitions:

* `Resolved` — an argument as a test sees it;
* `Condition`.
-/

import TreePath.Condition.Kinds
import TreePath.Value.Basic

set_option autoImplicit false
set_option relaxedAutoImplicit false

namespace TreePath

/-! ### Arguments as a test sees them -/

/-- An argument as a test sees it. -/
inductive Resolved where
  /-- All the values that a path leads to, in the order in which they are found. -/
  | candidates (values : List Value)
  /-- A text. -/
  | string (s : String)
  /-- A number without a point. -/
  | integer (n : Int64)
  /-- A number with a point. -/
  | float (x : Binary64)

namespace Resolved

/-- The kind of the argument that was resolved. -/
def kind : Resolved → Kind
  | .candidates _ => .path
  | .string _ => .string
  | .integer _ => .integer
  | .float _ => .float

/-- The values a path leads to; a literal has none. -/
def values : Resolved → List Value
  | .candidates values => values
  | _ => []

/-- The text of a text literal. -/
def toText? : Resolved → Option String
  | .string s => some s
  | _ => none

/-- The number of a number literal; an integer is rounded to the nearest floating point number. -/
def toBinary64? : Resolved → Option Binary64
  | .integer n => some (.ofInt n.toInt)
  | .float x => some x
  | _ => none

end Resolved

/-! ### Conditions -/

/-- A named test of arguments. -/
structure Condition where
  /-- The name by which filters call the condition. -/
  name : String
  /-- The kinds accepted at each place. -/
  signature : List KindSet
  /-- The test. -/
  test : List Resolved → Bool

namespace Condition

/-- How many arguments the condition takes. -/
def arity (c : Condition) : Nat := c.signature.length

end Condition

end TreePath
