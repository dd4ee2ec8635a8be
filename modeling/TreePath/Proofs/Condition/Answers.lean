/-
**What the conditions of the language answer.**

The test of a condition is defined for all lists of arguments, and where an argument is missing or
of a wrong kind it falls back to an answer.  This module says what the conditions answer without
that: one rule for each sort of condition, for arguments as its signature says, and no rule for any
other.  Called with arguments that fit its signature a condition of the language answers by its
rule, so none of the fallbacks is ever needed for such a call.

Main definitions:

* `Condition.Fits` — arguments that are as a signature says;
* `Builtin.comparisons` — the comparisons of numbers;
* `Builtin.Answers` — the answers of the conditions, by rules.

Main results:

* `Builtin.answers_of_fits` — **a condition that is called as its signature says** answers by its
  rule.
-/

import Mathlib.Data.List.Forall2
import TreePath.Condition.Builtin

set_option relaxedAutoImplicit false
set_option autoImplicit false

namespace TreePath

/-! ### Arguments that fit -/

/-- The arguments are as many as the signature asks for, and the kind of each is in the set at its
place. -/
def Condition.Fits (signature : List KindSet) (arguments : List Resolved) : Prop :=
  List.Forall₂ (fun accepted a => accepted.intersects (.only a.kind) = true) signature arguments

namespace Resolved

variable {a : Resolved}

theorem exists_candidates (h : (KindSet.only .path).intersects (.only a.kind) = true) :
    ∃ vs, a = .candidates vs := by
  cases a with
  | candidates vs => exact ⟨vs, rfl⟩
  | _ => cases h

theorem exists_string (h : (KindSet.only .string).intersects (.only a.kind) = true) :
    ∃ s, a = .string s := by
  cases a with
  | string s => exact ⟨s, rfl⟩
  | _ => cases h

theorem exists_number (h : KindSet.number.intersects (.only a.kind) = true) :
    ∃ x, a.toBinary64? = some x := by
  cases a with
  | integer n => exact ⟨_, rfl⟩
  | float x => exact ⟨x, rfl⟩
  | _ => cases h

theorem kind_ne_path (h : KindSet.literal.intersects (.only a.kind) = true) : a.kind ≠ .path := by
  cases a with
  | candidates vs => cases h
  | _ => nofun

end Resolved

/-! ### Answers -/

namespace Builtin

/-- The comparisons of a number with a limit, each under the name of its condition. -/
def comparisons : List (String × (Binary64 → Binary64 → Bool)) :=
  [("gt", fun x limit => limit.lt x), ("lt", fun x limit => x.lt limit),
    ("gte", fun x limit => limit.le x), ("lte", fun x limit => x.le limit)]

/-- **What a condition of the language answers**, by its name, when the first argument is what a
path leads to and the others are literals of the right kind.  There is no rule for a missing
argument, nor for one of another kind. -/
inductive Answers : String → List Resolved → Bool → Prop
  | equals (vs : List Value) {literal : Resolved} (h : literal.kind ≠ .path) :
      Answers "eq" [.candidates vs, literal] (vs.any fun v => sameAsLiteral v literal)
  | contains (vs : List Value) (s : String) :
      Answers "contains" [.candidates vs, .string s]
        (vs.any fun v => v.searchText?.any fun text => occursIn s.toList text)
  | containsIgnoringCase (vs : List Value) (s : String) :
      Answers "cicontains" [.candidates vs, .string s]
        (vs.any fun v => v.searchText?.any fun text =>
          occursIn (lowercase s.toList) (lowercase text))
  | compares {name : String} {compare : Binary64 → Binary64 → Bool}
      (hname : (name, compare) ∈ comparisons) (vs : List Value) {limit : Resolved} {y : Binary64}
      (hlimit : limit.toBinary64? = some y) :
      Answers name [.candidates vs, limit]
        ((vs.filterMap Value.toBinary64?).any fun x => compare x y)
  | between (vs : List Value) {low high : Resolved} {y z : Binary64}
      (hlow : low.toBinary64? = some y) (hhigh : high.toBinary64? = some z) :
      Answers "between" [.candidates vs, low, high]
        ((vs.filterMap Value.toBinary64?).any fun x => y.lt x && x.lt z)
  | has (vs : List Value) : Answers "has" [.candidates vs] (!vs.isEmpty)
  | empty (vs : List Value) : Answers "empty" [.candidates vs] (vs.all Value.isZero)

/-- Arguments of a condition that takes a path and something more. -/
theorem exists_of_fits {signature : List KindSet} {arguments : List Resolved}
    (h : Condition.Fits (.only .path :: signature) arguments) :
    ∃ vs literals, arguments = .candidates vs :: literals ∧ Condition.Fits signature literals := by
  obtain ⟨a, literals, ha, hliterals, rfl⟩ := List.forall₂_cons_left_iff.1 h
  obtain ⟨vs, rfl⟩ := Resolved.exists_candidates ha
  exact ⟨vs, literals, rfl, hliterals⟩

/-- Arguments of a condition that takes one thing more. -/
theorem exists_last_of_fits {accepted : KindSet} {arguments : List Resolved}
    (h : Condition.Fits [accepted] arguments) :
    ∃ a, arguments = [a] ∧ accepted.intersects (.only a.kind) = true := by
  obtain ⟨a, rest, ha, hrest, rfl⟩ := List.forall₂_cons_left_iff.1 h
  obtain rfl := List.forall₂_nil_left_iff.1 hrest
  exact ⟨a, rfl, ha⟩

theorem answers_compares {name : String} {compare : Binary64 → Binary64 → Bool}
    (hname : (name, compare) ∈ comparisons) {arguments : List Resolved}
    (h : Condition.Fits [.only .path, .number] arguments) :
    Answers name arguments (compares compare arguments) := by
  obtain ⟨vs, literals, rfl, hliterals⟩ := exists_of_fits h
  obtain ⟨limit, rfl, hlimit⟩ := exists_last_of_fits hliterals
  obtain ⟨y, hy⟩ := Resolved.exists_number hlimit
  have hat : numberAt? [.candidates vs, limit] 1 = some y := hy
  rw [Builtin.compares, hat]
  exact .compares hname vs hy

/-- A search for a text looks at what the path leads to, and at the text. -/
theorem containsUpTo_of_fits (fold : List Char → List Char) {arguments : List Resolved}
    (h : Condition.Fits [.only .path, .only .string] arguments) :
    ∃ vs s, arguments = [.candidates vs, .string s] ∧ containsUpTo fold arguments =
      vs.any fun v => v.searchText?.any fun text => occursIn (fold s.toList) (fold text) := by
  obtain ⟨vs, literals, rfl, hliterals⟩ := exists_of_fits h
  obtain ⟨a, rfl, ha⟩ := exists_last_of_fits hliterals
  obtain ⟨s, rfl⟩ := Resolved.exists_string ha
  refine ⟨vs, s, rfl, congrArg vs.any (funext fun v => ?_)⟩
  cases v.searchText? <;> rfl

theorem answers_contains {arguments : List Resolved}
    (h : Condition.Fits [.only .path, .only .string] arguments) :
    Answers "contains" arguments (contains arguments) := by
  obtain ⟨vs, s, rfl, htest⟩ := containsUpTo_of_fits (fun text => text) h
  rw [Builtin.contains, htest]
  exact .contains vs s

theorem answers_containsIgnoringCase {arguments : List Resolved}
    (h : Condition.Fits [.only .path, .only .string] arguments) :
    Answers "cicontains" arguments (containsIgnoringCase arguments) := by
  obtain ⟨vs, s, rfl, htest⟩ := containsUpTo_of_fits lowercase h
  rw [Builtin.containsIgnoringCase, htest]
  exact .containsIgnoringCase vs s

theorem answers_between {arguments : List Resolved}
    (h : Condition.Fits [.only .path, .number, .number] arguments) :
    Answers "between" arguments (between arguments) := by
  obtain ⟨vs, literals, rfl, hliterals⟩ := exists_of_fits h
  obtain ⟨low, rest, hlow, hrest, rfl⟩ := List.forall₂_cons_left_iff.1 hliterals
  obtain ⟨high, rfl, hhigh⟩ := exists_last_of_fits hrest
  obtain ⟨y, hy⟩ := Resolved.exists_number hlow
  obtain ⟨z, hz⟩ := Resolved.exists_number hhigh
  have hone : numberAt? [.candidates vs, low, high] 1 = some y := hy
  have htwo : numberAt? [.candidates vs, low, high] 2 = some z := hz
  rw [Builtin.between, hone, htwo]
  exact .between vs hy hz

/-- Arguments of a condition that takes a path and nothing more. -/
theorem exists_only_of_fits {arguments : List Resolved}
    (h : Condition.Fits [.only .path] arguments) : ∃ vs, arguments = [.candidates vs] := by
  obtain ⟨vs, literals, rfl, hliterals⟩ := exists_of_fits h
  obtain rfl := List.forall₂_nil_left_iff.1 hliterals
  exact ⟨vs, rfl⟩

/-- **A condition that is called as its signature says answers by its rule.** -/
theorem answers_of_fits {c : Condition} (hc : c ∈ conditions) {arguments : List Resolved}
    (h : Condition.Fits c.signature arguments) : Answers c.name arguments (c.test arguments) := by
  simp only [conditions, List.mem_cons, List.not_mem_nil, or_false] at hc
  -- One case for each condition, in the order in which they are listed.
  rcases hc with rfl | rfl | rfl | rfl | rfl | rfl | rfl | rfl | rfl | rfl
  · obtain ⟨vs, literals, rfl, hliterals⟩ := exists_of_fits h
    obtain ⟨literal, rfl, hliteral⟩ := exists_last_of_fits hliterals
    exact .equals vs (Resolved.kind_ne_path hliteral)
  · exact answers_contains h
  · exact answers_containsIgnoringCase h
  · exact answers_compares (List.mem_of_getElem? (i := 0) rfl) h
  · exact answers_compares (List.mem_of_getElem? (i := 1) rfl) h
  · exact answers_compares (List.mem_of_getElem? (i := 2) rfl) h
  · exact answers_compares (List.mem_of_getElem? (i := 3) rfl) h
  · exact answers_between h
  · obtain ⟨vs, rfl⟩ := exists_only_of_fits h
    exact .has vs
  · obtain ⟨vs, rfl⟩ := exists_only_of_fits h
    exact .empty vs

end Builtin

end TreePath
