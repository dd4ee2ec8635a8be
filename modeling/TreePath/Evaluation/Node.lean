/-
**Nodes of a tree.**

A node is a value together with the place where it stands: the edges that lead to it from the root.
The same value can stand at several places, and a step of a path selects places.  The edges are kept
last one first, so that going down one level puts one edge in front.

Main definitions:

* `Edge`, `Node`, `Node.root`, `Node.position`;
* `Node.children` — the nodes one level down, in order;
* `Target.select` — the nodes that a step selects one level down from a node.

Main results:

* `Target.select_sublist` — a step selects among the children, in their order.
-/

import TreePath.Path.Basic

set_option autoImplicit false
set_option relaxedAutoImplicit false

namespace TreePath

/-- What leads from a node to one of its children. -/
inductive Edge where
  /-- A key of a map. -/
  | key (k : String)
  /-- An index of a list. -/
  | index (i : Nat)
  deriving DecidableEq

/-- A value at its place in a tree. -/
structure Node where
  /-- The edges from the root to the node, the last one first. -/
  trail : List Edge
  /-- The value at that place. -/
  value : Value

namespace Node

/-- A value as the root of its tree. -/
def root (v : Value) : Node := ⟨[], v⟩

/-- The edges from the root to the node. -/
def position (n : Node) : List Edge := n.trail.reverse

/-- A value one edge below a node. -/
def below (n : Node) (e : Edge) (v : Value) : Node := ⟨e :: n.trail, v⟩

/-- The nodes one level down: the elements of a list, or the values of a map in order of keys. -/
def children (n : Node) : List Node :=
  match n.value with
  | .list items => items.mapIdx fun i v => n.below (.index i) v
  | .map entries => entries.map fun e => n.below (.key e.1) e.2
  | _ => []

/-- The child under a key of a map. -/
def child? (n : Node) (key : String) : Option Node := n.children.find? fun c =>
  c.trail.head? == some (.key key)

/-- The children that are elements of a list. -/
def elements (n : Node) : List Node :=
  match n.value with
  | .list _ => n.children
  | _ => []

/-- The values of the children are the children of the value. -/
@[simp] theorem map_value_children (n : Node) : n.children.map value = n.value.children := by
  obtain ⟨trail, v⟩ := n
  cases v with
  | list items => exact List.ext_getElem (by simp [children]) (by simp [children, below])
  | map entries => simp [children, below, Function.comp_def]
  | _ => rfl

/-- A child's value is a child of the value. -/
theorem value_mem_of_mem_children {n c : Node} (h : c ∈ n.children) :
    c.value ∈ n.value.children := by
  rw [← map_value_children]
  exact List.mem_map_of_mem h

theorem elements_sublist (n : Node) : n.elements.Sublist n.children := by
  simp only [elements]
  split
  · exact .refl _
  · exact List.nil_sublist _

end Node

/-! ### What a step selects -/

/-- The nodes that a selector selects one level down. -/
def Selector.select (s : Selector) (n : Node) : List Node :=
  match s with
  | .wildcard => n.children
  | .name key => (n.child? key).toList

/-- The nodes that a step selects one level down from a node, before any filter. -/
def Target.select (t : Target) (n : Node) : List Node :=
  match t with
  | .child s => s.select n
  | .descendant s => s.select n
  | .item none => []
  | .item (some range) => range.select n.elements

theorem Selector.select_sublist (s : Selector) (n : Node) : (s.select n).Sublist n.children := by
  cases s with
  | wildcard => exact .refl _
  | name key =>
    simp only [select, Node.child?]
    cases h : n.children.find? _ with
    | none => exact List.nil_sublist _
    | some c => exact List.singleton_sublist.2 (List.mem_of_find?_eq_some h)

/-- A step selects among the children, in their order. -/
theorem Target.select_sublist (t : Target) (n : Node) : (t.select n).Sublist n.children := by
  cases t with
  | child s => exact s.select_sublist n
  | descendant s => exact s.select_sublist n
  | item range =>
    cases range with
    | none => exact List.nil_sublist _
    | some range => exact (range.select_sublist _).trans n.elements_sublist

end TreePath
