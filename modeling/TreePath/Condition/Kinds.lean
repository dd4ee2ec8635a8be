/-
**Kinds of arguments.**

An argument of a condition is a path, a number with or without a fraction, or a text.  What a
condition accepts at one place is a set of kinds.

Main definitions:

* `Kind` — the four kinds;
* `KindSet` — a set of kinds, with `KindSet.number` and `KindSet.literal`;
* `KindSet.intersects` — whether two sets have a kind in common;
* `KindSet.text` — the kinds in words.
-/

import TreePath.Total

set_option autoImplicit false
set_option relaxedAutoImplicit false

namespace TreePath

/-! ### Kinds -/

/-- What sort of thing an argument is. -/
inductive Kind where
  /-- A reference to other nodes. -/
  | path
  /-- A number with a point. -/
  | float
  /-- A number without a point. -/
  | integer
  /-- A text in quotes. -/
  | string
  deriving DecidableEq

namespace Kind

/-- All kinds, in the order in which they are listed. -/
def all : List Kind := [.path, .float, .integer, .string]

/-- The name of a kind. -/
def name : Kind → String
  | .path => "path"
  | .float => "float"
  | .integer => "integer"
  | .string => "string"

/-- The weight of a kind in the number of a set. -/
def weight : Kind → Nat
  | .path => 1
  | .float => 2
  | .integer => 4
  | .string => 8

@[simp] theorem mem_all (k : Kind) : k ∈ all := by cases k <;> decide

end Kind

/-! ### Sets of kinds -/

/-- A set of kinds. -/
structure KindSet where
  /-- Whether paths are in the set. -/
  path : Bool
  /-- Whether numbers with a point are in the set. -/
  float : Bool
  /-- Whether numbers without a point are in the set. -/
  integer : Bool
  /-- Whether texts are in the set. -/
  string : Bool
  deriving DecidableEq

namespace KindSet

/-- Whether a kind is in the set. -/
def contains (s : KindSet) : Kind → Bool
  | .path => s.path
  | .float => s.float
  | .integer => s.integer
  | .string => s.string

/-- The set of the kinds with a property. -/
def ofPredicate (p : Kind → Bool) : KindSet := ⟨p .path, p .float, p .integer, p .string⟩

@[simp] theorem contains_ofPredicate (p : Kind → Bool) (k : Kind) :
    (ofPredicate p).contains k = p k := by
  cases k <;> rfl

/-- The empty set. -/
def none : KindSet := ofPredicate fun _ => false

/-- The set of one kind. -/
def only (k : Kind) : KindSet := ofPredicate fun j => j == k

/-- The kinds in either set. -/
def union (s t : KindSet) : KindSet := ofPredicate fun k => s.contains k || t.contains k

/-- The numbers. -/
def number : KindSet := union (only .float) (only .integer)

/-- Everything but paths. -/
def literal : KindSet := union (only .string) number

/-- The kinds of the set, in order. -/
def toList (s : KindSet) : List Kind := Kind.all.filter s.contains

/-- Whether two sets have a kind in common. -/
def intersects (s t : KindSet) : Bool := Kind.all.any fun k => s.contains k && t.contains k

/-- Two sets intersect exactly when some kind is in both. -/
theorem intersects_iff {s t : KindSet} :
    s.intersects t = true ↔ ∃ k, s.contains k = true ∧ t.contains k = true := by
  simp [intersects]

/-- A set intersects the set of one kind exactly when it contains that kind. -/
@[simp] theorem intersects_only (s : KindSet) (k : Kind) :
    s.intersects (only k) = s.contains k := by
  rw [Bool.eq_iff_iff, intersects_iff]
  simp [only]

/-- The set as a number: the sum of the weights of its kinds. -/
def code (s : KindSet) : Nat := total Kind.weight s.toList

/-- The names of the kinds. -/
def names (s : KindSet) : List String := s.toList.map Kind.name

/-- The kinds in words. -/
def text (s : KindSet) : String := String.intercalate " or " s.names

end KindSet

end TreePath
