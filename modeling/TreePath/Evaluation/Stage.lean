/-
**Steps as stages of a search.**

For a search it is enough to know of each step which nodes it selects and which of them pass its
filter.  A stage is just that: a target and a test of values.  A test also tells which calls of
conditions it took, so that a search can account for the work it did.

Main definitions:

* `Call` — a condition called with arguments, and the result;
* `Verdict` — whether a value passes, and the calls that decided it;
* `Stage` — a target and a test.
-/

import TreePath.Evaluation.Node

set_option autoImplicit false
set_option relaxedAutoImplicit false

namespace TreePath

/-- A condition that was called. -/
structure Call where
  /-- The condition. -/
  condition : Condition
  /-- What it was called with. -/
  arguments : List Resolved
  /-- What it answered. -/
  result : Bool

/-- What a test says of a value. -/
structure Verdict where
  /-- Whether the value passes. -/
  passes : Bool
  /-- The calls of conditions that were made, in order. -/
  calls : List Call

/-- The verdict on a value where there is no filter. -/
def Verdict.unfiltered : Verdict := ⟨true, []⟩

/-- A step as a search sees it. -/
structure Stage where
  /-- Which nodes are selected. -/
  target : Target
  /-- Which of them pass. -/
  test : Value → Verdict

end TreePath
