/-
**Contexts.**

A context is what an expression is compiled against: the conditions that filters may call, each
under its name, and whether descendant steps are allowed.  The conditions are kept in ascending
order of their names.

Main definitions:

* `Context`, `Context.empty`;
* `Context.register` — one more condition, instead of any earlier one of its name;
* `Context.find?`, `Context.names`.

Main results:

* `Context.find?_register` — registering changes what is found under one name only;
* `Context.names_ascending` — the names ascend strictly.
-/

import TreePath.Condition.Basic

set_option autoImplicit false
set_option relaxedAutoImplicit false

namespace TreePath

/-- The conditions and options an expression is compiled against. -/
structure Context where
  /-- The conditions by name. -/
  conditions : Entries Condition
  /-- Whether descendant steps are allowed. -/
  descendants : Bool
  /-- The names ascend. -/
  ascending : Entries.Ascending conditions
  /-- Every condition stands under its own name. -/
  named : ∀ e ∈ conditions, e.1 = e.2.name

namespace Context

/-- No conditions, and no descendant steps. -/
def empty : Context := ⟨[], false, Entries.ascending_nil, by simp⟩

/-- The context with one more condition, instead of any earlier one of its name. -/
def register (ctx : Context) (c : Condition) : Context where
  conditions := Entries.insert c.name c ctx.conditions
  descendants := ctx.descendants
  ascending := Entries.ascending_insert c.name c ctx.ascending
  named := fun e he => (Entries.eq_or_mem_of_mem_insert he).elim (fun h => h ▸ rfl) (ctx.named e)

/-- The context with descendant steps allowed or not. -/
def withDescendants (ctx : Context) (allowed : Bool) : Context :=
  { ctx with descendants := allowed }

/-- The condition of a name. -/
def find? (ctx : Context) (name : String) : Option Condition := Entries.find? ctx.conditions name

/-- The names of all conditions, in ascending order. -/
def names (ctx : Context) : List String := ctx.conditions.map Prod.fst

/-- A registered condition is found under its name, and nothing changes under any other name. -/
theorem find?_register (ctx : Context) (c : Condition) (name : String) :
    (ctx.register c).find? name = if c.name = name then some c else ctx.find? name :=
  Entries.find?_insert c.name name c ctx.conditions

@[simp] theorem find?_withDescendants (ctx : Context) (allowed : Bool) (name : String) :
    (ctx.withDescendants allowed).find? name = ctx.find? name := rfl

/-- The names ascend strictly. -/
theorem names_ascending (ctx : Context) : ctx.names.Pairwise (· < ·) := ctx.ascending

end Context

end TreePath
