/-
**Histories of contexts and paths.**

A program keeps any number of contexts, paths and searches, and numbers them.  It changes contexts,
copies them, compiles expressions in them, starts searches along the paths it has compiled, and asks
the searches for matches, in any order and as long as it likes.  `Session.after` says what it then
has: a context is changed where it stands, and a copy takes the place of another context; what is
compiled and what is searched is kept for good.

What a context holds is due to the changes in its line of descent: those made to it and, before it
was copied from another context, those made to that one.  `line` finds them in a history, and the
context is what these changes, in their order, make of a new one (`Session.contexts_after`).

Histories are given as lists of actions, the latest first.

Main definitions:

* `Change`, `Action` — changes of a context, and actions of a program;
* `Session`, `Session.act`, `Session.after` — what a program has, after one action and after all;
* `line`, `own` — the changes in the line of descent of a context, and those made to it itself;
* `contextBy` — what changes make of a new context;
* `allowedBy`, `conditionBy` — the flag last set by changes, and the condition last registered.

Main results:

* `Session.contexts_after` — **a context is what its line of descent makes of a new one**;
* `line_append` — as long as a context is not replaced, its line grows by its own changes only;
* `Session.compiled_prefix_after`, `Session.search_after` — what is compiled stays, and so does what
  is searched, up to the matches that it is asked for.
-/

import Mathlib.Data.List.Basic
import TreePath.Condition.Builtin
import TreePath.Path.Compile
import TreePath.Proofs.Condition.Registry
import TreePath.Proofs.Evaluation.Refinement

set_option relaxedAutoImplicit false
set_option autoImplicit false

namespace TreePath

/-! ### Changes of a context -/

/-- A change of a context. -/
inductive Change where
  /-- A condition is registered. -/
  | register (c : Condition)
  /-- Descendant steps are allowed or not. -/
  | allow (allowed : Bool)

namespace Change

/-- The context after a change. -/
def apply : Change → Context → Context
  | .register c, ctx => ctx.register c
  | .allow allowed, ctx => ctx.withDescendants allowed

/-- What a change says of descendant steps. -/
def allows? : Change → Option Bool
  | .register _ => none
  | .allow allowed => some allowed

/-- The condition that a change registers under a name. -/
def registers? (name : String) : Change → Option Condition
  | .register c => if c.name = name then some c else none
  | .allow _ => none

end Change

/-- A context after changes, of which the latest is given first. -/
def changedBy (changes : List Change) (ctx : Context) : Context := changes.foldr Change.apply ctx

/-- What changes make of a new context. -/
def contextBy (changes : List Change) : Context := changedBy changes .standard

/-- The flag that was last set by changes. -/
def allowedBy (changes : List Change) : Bool := (changes.findSome? Change.allows?).getD false

/-- The condition that was last registered under a name, or else the one of the language. -/
def conditionBy (changes : List Change) (name : String) : Option Condition :=
  (changes.findSome? (Change.registers? name)).or (Context.standard.find? name)

theorem descendants_contextBy (changes : List Change) :
    (contextBy changes).descendants = allowedBy changes := by
  induction changes with
  | nil => rfl
  | cons change changes ih =>
      cases change with
      | register c => exact ih
      | allow allowed => rfl

theorem find?_contextBy (changes : List Change) (name : String) :
    (contextBy changes).find? name = conditionBy changes name := by
  induction changes with
  | nil => rfl
  | cons change changes ih =>
      cases change with
      | register c =>
          have hregister : (contextBy (.register c :: changes)).find? name =
              if c.name = name then some c else (contextBy changes).find? name :=
            Context.find?_register _ _ _
          rw [hregister, conditionBy, List.findSome?_cons, Change.registers?]
          split
          · rfl
          · exact ih
      | allow allowed => exact ih

/-- The flag and the conditions are all that changes make of a context. -/
theorem contextBy_congr {changes changes' : List Change}
    (hallowed : allowedBy changes = allowedBy changes')
    (hcondition : ∀ name, conditionBy changes name = conditionBy changes' name) :
    contextBy changes = contextBy changes' := by
  refine Context.eq_of_find?_eq ?_ ?_
  · intro name
    rw [find?_contextBy, find?_contextBy, hcondition]
  · rw [descendants_contextBy, descendants_contextBy, hallowed]

/-! ### Sessions -/

/-- What a program does with its contexts, paths and searches. -/
inductive Action where
  /-- Change a context. -/
  | change (k : Nat) (c : Change)
  /-- Put a clone of a context in the place of another one. -/
  | clone (source copy : Nat)
  /-- Compile an expression in a context. -/
  | compile (k : Nat) (expression : String)
  /-- Start a search below a value along the path that was compiled as the one of that number. -/
  | evaluate (n : Nat) (root : Value)
  /-- Ask a search for its next match. -/
  | pull (m : Nat)

/-- What a program has. -/
structure Session where
  /-- The contexts. -/
  contexts : Nat → Context
  /-- What was compiled, the first expression first. -/
  compiled : List (Except SyntaxError Path)
  /-- The searches, the first one first; there is none along what did not compile. -/
  searches : List (Option Search)

namespace Session

/-- At first all contexts are new, and there is nothing else. -/
def start : Session := ⟨fun _ => .standard, [], []⟩

/-- The session with a context in the place of one. -/
def put (s : Session) (k : Nat) (ctx : Context) : Session :=
  { s with contexts := fun i => if i = k then ctx else s.contexts i }

/-- The search along the path that was compiled as the one of that number. -/
def search? (s : Session) (n : Nat) (root : Value) : Option Search :=
  match s.compiled[n]? with
  | some (.ok p) => some (p.evaluate root)
  | _ => none

/-- What a program has after an action. -/
def act (s : Session) : Action → Session
  | .change k c => s.put k (c.apply (s.contexts k))
  | .clone source copy => s.put copy (s.contexts source)
  | .compile k expression =>
    { s with compiled := s.compiled ++ [TreePath.compile (s.contexts k) expression] }
  | .evaluate n root => { s with searches := s.searches ++ [s.search? n root] }
  | .pull m => { s with searches := s.searches.modify m (Option.map fun r => r.next.rest) }

/-- **What a program has after a history**, of which the latest action is given first. -/
def after : List Action → Session
  | [] => start
  | a :: past => (after past).act a

end Session

/-! ### Lines of descent -/

/-- **The changes in the line of descent of a context**, the latest first. -/
def line : List Action → Nat → List Change
  | [], _ => []
  | .change i c :: past, k => if i = k then c :: line past k else line past k
  | .clone source copy :: past, k => line past (if copy = k then source else k)
  | .compile _ _ :: past, k => line past k
  | .evaluate _ _ :: past, k => line past k
  | .pull _ :: past, k => line past k

/-- The changes that are made to a context itself, the latest first. -/
def own (k : Nat) (actions : List Action) : List Change :=
  actions.filterMap fun
    | .change i c => if i = k then some c else none
    | _ => none

/-- **As long as a context is not replaced, its line grows by its own changes only.** -/
theorem line_append {later : List Action} {k : Nat} (hkept : ∀ source, .clone source k ∉ later)
    (past : List Action) : line (later ++ past) k = own k later ++ line past k := by
  induction later with
  | nil => rfl
  | cons a later ih =>
      have hlater := ih fun source h => hkept source (List.mem_cons_of_mem a h)
      cases a with
      | change i c =>
          rw [List.cons_append, line, hlater]
          by_cases hi : i = k <;> simp [own, hi]
      | clone source copy =>
          have hcopy : copy ≠ k := by
            rintro rfl
            exact hkept source List.mem_cons_self
          rw [List.cons_append, line, if_neg hcopy, hlater]
          rfl
      | compile i expression => exact hlater
      | evaluate n root => exact hlater
      | pull m => exact hlater

namespace Session

/-- **A context is what its line of descent makes of a new one.** -/
theorem contexts_after (past : List Action) (k : Nat) :
    (after past).contexts k = contextBy (line past k) := by
  induction past generalizing k with
  | nil => rfl
  | cons a past ih =>
      cases a with
      | change i c =>
          have hput : (after (.change i c :: past)).contexts k =
              if k = i then c.apply ((after past).contexts i) else (after past).contexts k := rfl
          rw [hput, line, ih, ih]
          by_cases hi : i = k
          · subst hi
            rw [if_pos rfl, if_pos rfl]
            rfl
          · rw [if_neg hi, if_neg (Ne.symm hi)]
      | clone source copy =>
          have hput : (after (.clone source copy :: past)).contexts k =
              if k = copy then (after past).contexts source else (after past).contexts k := rfl
          rw [hput, line, ih, ih]
          by_cases hcopy : copy = k
          · rw [if_pos hcopy, if_pos hcopy.symm]
          · rw [if_neg hcopy, if_neg (Ne.symm hcopy)]
      | compile i expression => exact ih k
      | evaluate n root => exact ih k
      | pull m => exact ih k

/-- A context that is not replaced is changed by its own changes only. -/
theorem contexts_after_append {later : List Action} {k : Nat}
    (hkept : ∀ source, .clone source k ∉ later) (past : List Action) :
    (after (later ++ past)).contexts k = changedBy (own k later) ((after past).contexts k) := by
  rw [contexts_after, contexts_after, line_append hkept, contextBy, contextBy, changedBy, changedBy,
    List.foldr_append]
  rfl

/-! ### What stays -/

/-- **What is compiled stays.** -/
theorem compiled_prefix_after (later past : List Action) :
    (after past).compiled <+: (after (later ++ past)).compiled := by
  induction later with
  | nil => exact List.prefix_rfl
  | cons a later ih =>
      have hact : ∀ s : Session, s.compiled <+: (s.act a).compiled := by
        intro s
        cases a with
        | compile k expression => exact List.prefix_append _ _
        | _ => exact List.prefix_rfl
      exact ih.trans (hact _)

/-- What was compiled as the one of a number. -/
theorem compiled_after_compile (past later : List Action) (k : Nat) (expression : String) :
    (after (later ++ .compile k expression :: past)).compiled[(after past).compiled.length]? =
      some (compile ((after past).contexts k) expression) := by
  obtain ⟨more, hmore⟩ := compiled_prefix_after later (.compile k expression :: past)
  have hcompiled : (after (.compile k expression :: past)).compiled =
      (after past).compiled ++ [compile ((after past).contexts k) expression] := rfl
  rw [← hmore, hcompiled, List.append_assoc, List.getElem?_append_right (Nat.le_refl _),
    Nat.sub_self]
  rfl

/-- How often a search is asked for a match. -/
def pulls (m : Nat) (actions : List Action) : Nat :=
  actions.countP fun
    | .pull i => i == m
    | _ => false

/-- **A search goes on from match to match**, whatever happens between. -/
theorem search_after {past : List Action} {m : Nat} {r : Search}
    (h : (after past).searches[m]? = some (some r)) (later : List Action) :
    (after (later ++ past)).searches[m]? = some (some (r.after (pulls m later))) := by
  induction later with
  | nil => exact h
  | cons a later ih =>
      cases a with
      | evaluate n root =>
          have hlength := (List.getElem?_eq_some_iff.1 ih).1
          exact (List.getElem?_append_left hlength).trans ih
      | pull i =>
          have hmodify : (after (.pull i :: later ++ past)).searches =
              (after (later ++ past)).searches.modify i (Option.map fun r => r.next.rest) := rfl
          have hpulls : pulls m (.pull i :: later) = pulls m later + if i == m then 1 else 0 :=
            List.countP_cons
          rw [hmodify, List.getElem?_modify, ih, hpulls]
          by_cases hi : i = m <;> simp [hi, Search.after_succ]
      | change k c => exact ih
      | clone source copy => exact ih
      | compile k expression => exact ih

end Session

end TreePath
