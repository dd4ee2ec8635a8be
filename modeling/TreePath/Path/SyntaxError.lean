/-
**Errors in path expressions.**

An expression that is not a path is rejected with the place where it goes wrong, as an offset in
UTF-8 bytes, and the cause.  The cause does not depend on what stands before the place.

Main definitions:

* `Cause`, `Cause.message` — what is wrong, and how it is said;
* `SyntaxError`, `SyntaxError.message` — an error with its expression and place.
-/

import TreePath.Condition.Kinds
import TreePath.Text.Quoted
import TreePath.Text.Numeral

set_option autoImplicit false
set_option relaxedAutoImplicit false

namespace TreePath

/-! ### Causes -/

/-- What could have stood where something else does. -/
inductive Expected where
  /-- The first character of a step, or the end of the expression. -/
  | step
  /-- A path after the mark of a reference. -/
  | reference
  /-- The key of a map, or the mark for all of them. -/
  | selector
  /-- The name of a condition. -/
  | conditionName
  /-- An argument of a condition. -/
  | argument
  /-- A certain character. -/
  | char (c : Char)
  deriving DecidableEq

/-- Why an expression is rejected. -/
inductive Cause where
  /-- There is no expression. -/
  | empty
  /-- The character found, or the end of the expression, is not one that can stand there. -/
  | unexpected (found : Option Char) (expected : Expected)
  /-- A descendant step, where these are not allowed. -/
  | descendantStep
  /-- A bound of a range that is no integer of 64 bits. -/
  | bound
  /-- A number without a point that is no integer of 64 bits. -/
  | integer
  /-- A number with a point and no digits. -/
  | float
  /-- A text that is not closed by the mark that opens it. -/
  | unclosed (mark : Char)
  /-- A name that no condition has, with the names that conditions have. -/
  | unknownCondition (name : String) (known : List String)
  /-- More arguments than the condition takes. -/
  | tooManyArguments (condition : String) (arity : Nat)
  /-- Fewer arguments than the condition takes. -/
  | tooFewArguments (condition : String) (arity given : Nat)
  /-- An argument of a kind that the condition does not accept at its place, counted from one. -/
  | argumentKind (place : Nat) (condition : String) (accepted : KindSet) (given : Kind)
  deriving DecidableEq

/-- What was expected, in words. -/
def Expected.text : Expected → String
  | .step => "'.' or '['"
  | .reference => "a path after '@'"
  | .selector => "a field name or '*'"
  | .conditionName => "a condition name"
  | .argument => "an argument"
  | .char c => quotedChar c

/-- The numeral of a count. -/
def countText (n : Nat) : String := String.ofList (Numeral.ofNat n)

/-- What is wrong, in words. -/
def Cause.message : Cause → String
  | .empty => "empty path"
  | .unexpected (some c) expected => "unexpected " ++ quotedChar c ++ ", expected " ++ expected.text
  | .unexpected none expected => "unexpected end of path, expected " ++ expected.text
  | .descendantStep => "descendant selectors are not enabled"
  | .bound => "failed to parse range bound"
  | .integer => "failed to parse integer literal"
  | .float => "failed to parse float literal"
  | .unclosed mark => "missing closing " ++ quotedChar mark
  | .unknownCondition name known =>
    "unknown condition " ++ quoted name ++ ", expected one of: " ++ String.intercalate ", " known
  | .tooManyArguments condition arity =>
    "too many arguments to " ++ quoted condition ++ ", expected " ++ countText arity
  | .tooFewArguments condition arity given =>
    "too few arguments to " ++ quoted condition ++ ", expected " ++ countText arity ++
      ", found " ++ countText given
  | .argumentKind place condition accepted given =>
    "argument " ++ countText place ++ " to " ++ quoted condition ++ " must be " ++ accepted.text ++
      ", found " ++ given.name

/-! ### Errors -/

/-- An expression that is rejected. -/
structure SyntaxError where
  /-- The whole expression. -/
  expression : String
  /-- The place of the fault, in UTF-8 bytes from the start of the expression. -/
  offset : Nat
  /-- What is wrong. -/
  cause : Cause
  deriving DecidableEq

/-- The error on one line, with its expression and place. -/
def SyntaxError.message (e : SyntaxError) : String :=
  "syntax error in path " ++ quoted e.expression ++ " at character " ++ countText e.offset ++
    ": " ++ e.cause.message

end TreePath
