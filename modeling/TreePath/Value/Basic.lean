/-
**Tree-shaped data.**

A value is a scalar, a list of values or a map from keys to values.  Integers have 64 bits and are
kept apart from floating point numbers, also where the two are numerically equal.  The entries of a
map stand in ascending order of their keys, so visiting them is visiting the keys in order.

Main definitions:

* `Value`, with the constructors-by-content `Value.ofEntries` and `Value.ofInteger`;
* `Value.kindName`, `Value.toBinary64?`, `Value.get?`, `Value.isZero` — queries of one node;
* `Value.children` — the nodes one level down, in order;
* `Value.same` — equality that compares floating point numbers numerically;
* `Value.Ordered` — every map at every depth has its keys in order.

Main results:

* `Value.size_lt_of_mem_children` — a child is smaller than its parent.
-/

import TreePath.Entries
import TreePath.Total
import TreePath.Binary64.Rounding

set_option autoImplicit false
set_option relaxedAutoImplicit false

namespace TreePath

/-- A node of tree-shaped data. -/
inductive Value where
  /-- Nothing. -/
  | null
  /-- A truth value. -/
  | bool (b : Bool)
  /-- An integer of 64 bits. -/
  | int (n : Int64)
  /-- A floating point number. -/
  | float (x : Binary64)
  /-- A text. -/
  | string (s : String)
  /-- A sequence. -/
  | list (items : List Value)
  /-- A keyed collection, its entries in ascending order of keys. -/
  | map (entries : List (String × Value))

namespace Value

instance : Inhabited Value := ⟨.null⟩

/-! ### Making values -/

/-- A map of entries given in any order; of several with one key the last counts. -/
def ofEntries (entries : List (String × Value)) : Value := .map (Entries.ofList entries)

/-- An integer of any size: one of 64 bits as itself, any other as the nearest floating point
number. -/
def ofInteger (n : Int) : Value :=
  match Numeral.toInt64? n with
  | some n => .int n
  | none => .float (.ofInt n)

/-- A value that may be missing, as the value itself or as null. -/
def ofOption (v : Option Value) : Value := v.getD .null

/-! ### Queries of one node -/

/-- The name of a value's kind. -/
def kindName : Value → String
  | .null => "null"
  | .bool _ => "bool"
  | .int _ => "int"
  | .float _ => "float"
  | .string _ => "string"
  | .list _ => "list"
  | .map _ => "map"

/-- A number as a floating point number; an integer is rounded to the nearest. -/
def toBinary64? : Value → Option Binary64
  | .int n => some (.ofInt n.toInt)
  | .float x => some x
  | _ => none

/-- The text of a string. -/
def toText? : Value → Option String
  | .string s => some s
  | _ => none

/-- The elements of a list. -/
def toList? : Value → Option (List Value)
  | .list items => some items
  | _ => none

/-- The value under a key of a map. -/
def get? : Value → String → Option Value
  | .map entries, key => Entries.find? entries key
  | _, _ => none

/-- Whether a value is the empty or zero one of its kind. -/
def isZero : Value → Bool
  | .null => true
  | .bool b => !b
  | .int n => n == 0
  | .float x => x.isZero
  | .string s => s.isEmpty
  | .list items => items.isEmpty
  | .map entries => entries.isEmpty

/-- The nodes one level down: the elements of a list, or the values of a map in order of keys. -/
def children : Value → List Value
  | .list items => items
  | .map entries => entries.map Prod.snd
  | _ => []

@[simp] theorem children_list (items : List Value) : (Value.list items).children = items := rfl

@[simp] theorem children_map (entries : List (String × Value)) :
    (Value.map entries).children = entries.map Prod.snd := rfl

/-! ### Size -/

mutual

/-- The number of nodes of a value, itself included. -/
def size : Value → Nat
  | .list items => sizeItems items + 1
  | .map entries => sizeEntries entries + 1
  | .null | .bool _ | .int _ | .float _ | .string _ => 1

/-- The number of nodes of the elements of a list. -/
def sizeItems : List Value → Nat
  | [] => 0
  | v :: rest => v.size + sizeItems rest

/-- The number of nodes of the values of a map. -/
def sizeEntries : List (String × Value) → Nat
  | [] => 0
  | (_, v) :: rest => v.size + sizeEntries rest

end

theorem sizeItems_eq_total (items : List Value) : sizeItems items = total size items := by
  induction items with
  | nil => rfl
  | cons v rest ih => simp [sizeItems, ih]

theorem sizeEntries_eq_total (entries : List (String × Value)) :
    sizeEntries entries = total size (entries.map Prod.snd) := by
  induction entries with
  | nil => rfl
  | cons e rest ih => obtain ⟨k, v⟩ := e; simp [sizeEntries, ih]

/-- A value has one node more than its children together. -/
theorem size_eq (v : Value) : v.size = total size v.children + 1 := by
  cases v <;> simp [size, children, sizeItems_eq_total, sizeEntries_eq_total]

/-- A child is smaller than its parent. -/
theorem size_lt_of_mem_children {v c : Value} (h : c ∈ v.children) : c.size < v.size := by
  have := le_total_of_mem size h
  have := v.size_eq
  omega

/-! ### Equality -/

mutual

/-- Whether two values are of the same kind and content.  Floating point numbers are compared
numerically, so a not-a-number differs from itself and the two zeros are the same. -/
def same : Value → Value → Bool
  | .null, .null => true
  | .bool a, .bool b => a == b
  | .int a, .int b => a == b
  | .float a, .float b => a.numEq b
  | .string a, .string b => a == b
  | .list a, .list b => sameItems a b
  | .map a, .map b => sameEntries a b
  | _, _ => false

/-- Whether two sequences are the same, element by element. -/
def sameItems : List Value → List Value → Bool
  | [], [] => true
  | a :: as, b :: bs => a.same b && sameItems as bs
  | _, _ => false

/-- Whether two keyed collections are the same, entry by entry. -/
def sameEntries : List (String × Value) → List (String × Value) → Bool
  | [], [] => true
  | (j, a) :: as, (k, b) :: bs => j == k && a.same b && sameEntries as bs
  | _, _ => false

end

/-! ### Order of keys -/

/-- Every map at every depth has its keys in ascending order. -/
inductive Ordered : Value → Prop
  | null : Ordered .null
  | bool (b : Bool) : Ordered (.bool b)
  | int (n : Int64) : Ordered (.int n)
  | float (x : Binary64) : Ordered (.float x)
  | string (s : String) : Ordered (.string s)
  | list (items : List Value) (h : ∀ v ∈ items, Ordered v) : Ordered (.list items)
  | map (entries : List (String × Value)) (ascending : Entries.Ascending entries)
      (h : ∀ e ∈ entries, Ordered e.2) : Ordered (.map entries)

end Value

end TreePath
