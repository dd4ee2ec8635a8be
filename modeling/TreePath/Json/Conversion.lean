/-
**JSON documents and values.**

A document becomes a value by giving up only the integers that do not fit 64 bits with sign, which
become the nearest floating point numbers.  A value becomes a document by giving up only the
floating point numbers that are not finite, which become null.

Main definitions:

* `Value.ofJson`, `Json.ofValue`.

Main results:

* `valuesOfItems_eq_map`, `entriesOfMembers_eq_map`, `itemsOfValues_eq_map`,
  `membersOfEntries_eq_map` — what lists and maps hold is converted piece by piece.
-/

import TreePath.Json.Basic
import TreePath.Value.Basic

set_option autoImplicit false
set_option relaxedAutoImplicit false

namespace TreePath

/-! ### From documents to values -/

mutual

/-- A document as a value. -/
def Value.ofJson : Json → Value
  | .null => .null
  | .bool b => .bool b
  | .number (.integer n _ _) => .ofInteger n
  | .number (.float x _) => .float x
  | .string s => .string s
  | .array items => .list (valuesOfItems items)
  | .object members => .map (entriesOfMembers members)

/-- The elements of an array as values. -/
def valuesOfItems : List Json → List Value
  | [] => []
  | j :: rest => Value.ofJson j :: valuesOfItems rest

/-- The members of an object as entries of a map. -/
def entriesOfMembers : List (String × Json) → List (String × Value)
  | [] => []
  | (k, j) :: rest => (k, Value.ofJson j) :: entriesOfMembers rest

end

/-! ### From values to documents -/

/-- An integer of 64 bits as a number of a document. -/
def Json.Number.ofInt64 (n : Int64) : Json.Number :=
  .integer n.toInt (Int64.le_toInt n) (Int.lt_trans (Int64.toInt_lt n) (by decide))

mutual

/-- A value as a document. -/
def Json.ofValue : Value → Json
  | .null => .null
  | .bool b => .bool b
  | .int n => .number (.ofInt64 n)
  | .float x =>
    match Json.Number.ofBinary64? x with
    | some n => .number n
    | none => .null
  | .string s => .string s
  | .list items => .array (itemsOfValues items)
  | .map entries => .object (membersOfEntries entries)

/-- The elements of a list as elements of an array. -/
def itemsOfValues : List Value → List Json
  | [] => []
  | v :: rest => Json.ofValue v :: itemsOfValues rest

/-- The entries of a map as members of an object. -/
def membersOfEntries : List (String × Value) → List (String × Json)
  | [] => []
  | (k, v) :: rest => (k, Json.ofValue v) :: membersOfEntries rest

end

/-! ### Piece by piece -/

theorem valuesOfItems_eq_map (items : List Json) : valuesOfItems items = items.map .ofJson := by
  induction items with
  | nil => rfl
  | cons j rest ih => simp [valuesOfItems, ih]

theorem entriesOfMembers_eq_map (members : List (String × Json)) :
    entriesOfMembers members = members.map fun e => (e.1, .ofJson e.2) := by
  induction members with
  | nil => rfl
  | cons e rest ih => simp [entriesOfMembers, ih]

theorem itemsOfValues_eq_map (items : List Value) : itemsOfValues items = items.map .ofValue := by
  induction items with
  | nil => rfl
  | cons v rest ih => simp [itemsOfValues, ih]

theorem membersOfEntries_eq_map (entries : List (String × Value)) :
    membersOfEntries entries = entries.map fun e => (e.1, .ofValue e.2) := by
  induction entries with
  | nil => rfl
  | cons e rest ih => simp [membersOfEntries, ih]

end TreePath
