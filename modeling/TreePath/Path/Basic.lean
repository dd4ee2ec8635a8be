/-
**Paths.**

A path is a list of steps.  A step has a target, which selects nodes from the one it starts at, and
perhaps a filter, which the selected nodes have to pass.  A filter calls a condition with arguments,
and an argument can be a path again; so paths, steps, filters and arguments are defined together.  A
compiled path holds the conditions of its filters themselves and not their names.

Main definitions:

* `Selector`, `Target` — what a step selects;
* `Path`, `Step`, `Filter`, `Argument`.
-/

import TreePath.Condition.Basic
import TreePath.Path.Slice

set_option autoImplicit false
set_option relaxedAutoImplicit false

namespace TreePath

/-! ### Targets -/

/-- Which of the nodes below another a step selects. -/
inductive Selector where
  /-- All of them. -/
  | wildcard
  /-- The one under a key of a map. -/
  | name (key : String)
  deriving DecidableEq

/-- Where a step looks for nodes. -/
inductive Target where
  /-- One level down. -/
  | child (selector : Selector)
  /-- One level down from the node or from any node below it. -/
  | descendant (selector : Selector)
  /-- Among the elements of a list; with no range given, nowhere. -/
  | item (range : Option Slice)
  deriving DecidableEq

namespace Target

/-- Whether a step also starts from every node further down. -/
def isDescendant : Target → Bool
  | .descendant _ => true
  | _ => false

end Target

/-! ### Paths -/

mutual

/-- A compiled path. -/
structure Path where
  /-- The text the path was compiled from; for a path inside another, its part of the text. -/
  source : String
  /-- The steps, in the order in which they are taken. -/
  steps : List Step

/-- A step of a path. -/
structure Step where
  /-- Which nodes the step selects. -/
  target : Target
  /-- What a selected node has to pass. -/
  filter : Option Filter

/-- A condition called with arguments. -/
structure Filter where
  /-- The condition. -/
  condition : Condition
  /-- Whether the condition has to fail. -/
  negated : Bool
  /-- The arguments of the call. -/
  arguments : List Argument

/-- An argument of a call. -/
inductive Argument where
  /-- A path, followed from the node that is tested. -/
  | path (p : Path)
  /-- A text. -/
  | string (s : String)
  /-- A number without a point. -/
  | integer (n : Int64)
  /-- A number with a point. -/
  | float (x : Binary64)

end

/-- The kind of an argument, which the signature of the condition must admit. -/
def Argument.kind : Argument → Kind
  | .path _ => .path
  | .string _ => .string
  | .integer _ => .integer
  | .float _ => .float

end TreePath
