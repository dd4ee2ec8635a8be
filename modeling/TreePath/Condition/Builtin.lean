/-
**The conditions of the language.**

Every condition of the language tests the values of a path, its first argument, against the
literals that follow.  A value of a kind that the test is not about is passed over.  A test never
fails: called with arguments that its signature does not admit, it treats a missing or unfit
literal as one that no value satisfies.

Main definitions:

* `Builtin.equals`, `Builtin.contains`, `Builtin.containsIgnoringCase`, `Builtin.compares`,
  `Builtin.between`, `Builtin.has`, `Builtin.isEmpty` — the tests;
* `Builtin.conditions` — the ten conditions;
* `Context.standard` — the context that holds them.
-/

import TreePath.Condition.Context
import TreePath.Value.Text
import TreePath.Text.LetterCase
import TreePath.Text.Occurrence

set_option autoImplicit false
set_option relaxedAutoImplicit false

namespace TreePath

namespace Builtin

/-! ### Reading the arguments -/

/-- The values of the path that is tested. -/
def tested (arguments : List Resolved) : List Value :=
  match arguments with
  | [] => []
  | a :: _ => a.values

/-- The text at a place. -/
def textAt? (arguments : List Resolved) (place : Nat) : Option (List Char) :=
  arguments[place]?.bind fun a => a.toText?.map String.toList

/-- The number at a place. -/
def numberAt? (arguments : List Resolved) (place : Nat) : Option Binary64 :=
  arguments[place]?.bind Resolved.toBinary64?

/-! ### Equality and parts of texts -/

/-- Whether a value equals a literal: texts character by character, two integers exactly, and other
numbers as floating point numbers. -/
def sameAsLiteral : Value → Resolved → Bool
  | .string s, .string t => s == t
  -- Rounding could make two different integers equal.
  | .int n, .integer m => n == m
  | .int n, .float x => (Binary64.ofInt n.toInt).numEq x
  | .float x, .integer m => x.numEq (Binary64.ofInt m.toInt)
  | .float x, .float y => x.numEq y
  | _, _ => false

/-- Some value equals the literal. -/
def equals (arguments : List Resolved) : Bool :=
  match arguments[1]? with
  | none => false
  | some literal => (tested arguments).any fun v => sameAsLiteral v literal

/-- The text in which some value's text has to contain the given one, both taken through `fold`. -/
def containsUpTo (fold : List Char → List Char) (arguments : List Resolved) : Bool :=
  match textAt? arguments 1 with
  | none => false
  | some needle =>
    let needle := fold needle
    (tested arguments).any fun v =>
      match v.searchText? with
      | none => false
      | some s => occursIn needle (fold s)

/-- Some value's text contains the given one. -/
def contains (arguments : List Resolved) : Bool := containsUpTo (fun s => s) arguments

/-- Some value's text contains the given one, both in lower case. -/
def containsIgnoringCase (arguments : List Resolved) : Bool := containsUpTo lowercase arguments

/-! ### Comparison of numbers -/

/-- Some number satisfies a comparison with the given one. -/
def compares (compare : Binary64 → Binary64 → Bool) (arguments : List Resolved) : Bool :=
  match numberAt? arguments 1 with
  | none => false
  | some limit => ((tested arguments).filterMap Value.toBinary64?).any fun x => compare x limit

/-- Some number lies strictly between the two given ones. -/
def between (arguments : List Resolved) : Bool :=
  match numberAt? arguments 1, numberAt? arguments 2 with
  | some low, some high =>
    ((tested arguments).filterMap Value.toBinary64?).any fun x => low.lt x && x.lt high
  | _, _ => false

/-! ### Presence -/

/-- There is some value. -/
def has (arguments : List Resolved) : Bool := !(tested arguments).isEmpty

/-- Every value is the empty or zero one of its kind. -/
def isEmpty (arguments : List Resolved) : Bool := (tested arguments).all Value.isZero

/-! ### The conditions -/

/-- The conditions of the language. -/
def conditions : List Condition :=
  let path := KindSet.only .path
  let string := KindSet.only .string
  let number := KindSet.number
  [⟨"eq", [path, KindSet.literal], equals⟩,
    ⟨"contains", [path, string], contains⟩,
    ⟨"cicontains", [path, string], containsIgnoringCase⟩,
    ⟨"gt", [path, number], compares fun x limit => limit.lt x⟩,
    ⟨"lt", [path, number], compares fun x limit => x.lt limit⟩,
    ⟨"gte", [path, number], compares fun x limit => limit.le x⟩,
    ⟨"lte", [path, number], compares fun x limit => x.le limit⟩,
    ⟨"between", [path, number, number], between⟩,
    ⟨"has", [path], has⟩,
    ⟨"empty", [path], isEmpty⟩]

end Builtin

/-- The conditions of the language, without descendant steps. -/
def Context.standard : Context := Builtin.conditions.foldl Context.register Context.empty

end TreePath
