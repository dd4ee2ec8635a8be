/-
**Following paths.**

A path means a list of stages.  The test of a stage resolves the arguments of the filter against the
value that is tested, from left to right: a path among them is followed from that value to the end,
and the values it leads to are handed to the condition together with the literals.  Then the
condition is called once.

Main definitions:

* `Path.stages`, `Step.stage` — paths and steps as stages;
* `Filter.verdict`, `Argument.resolve` — filters and their arguments on a value;
* `Path.evaluate` — the search for the matches of a path;
* `Path.select` — all the values that a path leads to.
-/

import TreePath.Evaluation.Search

set_option autoImplicit false
set_option relaxedAutoImplicit false

namespace TreePath

/-! ### Meaning of the parts of a path -/

mutual

/-- The stages of a path. -/
def Path.stages : Path → List Stage
  | ⟨_, steps⟩ => stagesOf steps

/-- The stages of steps. -/
def stagesOf : List Step → List Stage
  | [] => []
  | s :: rest => s.stage :: stagesOf rest

/-- A step as a stage: without a filter every value passes. -/
def Step.stage : Step → Stage
  | ⟨target, none⟩ => ⟨target, fun _ => .unfiltered⟩
  | ⟨target, some f⟩ => ⟨target, f.verdict⟩

/-- Whether a value passes a filter. -/
def Filter.verdict : Filter → Value → Verdict
  | ⟨c, negated, arguments⟩, v =>
    let (resolved, calls) := resolveAll arguments v
    let result := c.test resolved
    ⟨result != negated, calls ++ [⟨c, resolved, result⟩]⟩

/-- Arguments resolved against a value, and the calls of conditions that it takes. -/
def resolveAll : List Argument → Value → List Resolved × List Call
  | [], _ => ([], [])
  | a :: rest, v =>
    let (first, calls) := a.resolve v
    let (others, more) := resolveAll rest v
    (first :: others, calls ++ more)

/-- An argument resolved against a value, and the calls of conditions that it takes. -/
def Argument.resolve : Argument → Value → Resolved × List Call
  | .path p, v =>
    let (nodes, calls) := (Search.start p.stages (.root v)).drain
    (.candidates (nodes.map Node.value), calls)
  | .string s, _ => (.string s, [])
  | .integer n, _ => (.integer n, [])
  | .float x, _ => (.float x, [])

end

/-! ### Searches along a path -/

/-- The search for the matches of a path below a value. -/
def Path.evaluate (p : Path) (v : Value) : Search := .start p.stages (.root v)

/-- All the values that a path leads to from a value, in the order in which they are found. -/
def Path.select (p : Path) (v : Value) : List Value := (p.evaluate v).drain.1.map Node.value

/-! ### Small facts -/

/-- Every step is one stage. -/
theorem stagesOf_eq_map (steps : List Step) : stagesOf steps = steps.map Step.stage := by
  induction steps with
  | nil => rfl
  | cons s rest ih => simp [stagesOf, ih]

/-- A path among the arguments is followed from the value that is tested. -/
theorem Argument.resolve_path (p : Path) (v : Value) :
    ((Argument.path p).resolve v).1 = .candidates (p.select v) := rfl

/-- Resolving an argument keeps its kind. -/
theorem Argument.kind_resolve (a : Argument) (v : Value) : (a.resolve v).1.kind = a.kind := by
  cases a <;> rfl

/-- Every argument is resolved, in order. -/
theorem resolveAll_fst (arguments : List Argument) (v : Value) :
    (resolveAll arguments v).1 = arguments.map fun a => (a.resolve v).1 := by
  induction arguments with
  | nil => rfl
  | cons a rest ih => simp [resolveAll, ih]

end TreePath
