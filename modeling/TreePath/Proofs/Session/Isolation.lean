/-
**Compiled paths are isolated from the contexts they were compiled in.**

What an expression compiles to depends on the flag and the conditions that the context has at that
moment, and these on its line of descent only.  A compiled path holds the conditions of its filters
themselves and not their names.  So nothing that happens later to any context, not even that a name
is registered again with another signature, changes what the path leads to or which tests it runs.

Main definitions:

* `CalledIn` — a condition that the text of an expression calls by a name.

Main results:

* `Session.mem_names_after_iff` — the names of a context are those of the language and those that
  are registered in its line of descent;
* `Session.search_of_evaluate` — a search that is started later is the one along the path;
* `Path.HasFilter.calledIn`, `Path.Makes.calledIn` — what is tested is what was registered;
* `Session.isolation` — **contexts and paths after any history**.
-/

import TreePath.Proofs.Evaluation.Calls
import TreePath.Proofs.Session.History
import TreePath.Proofs.Text.ByteOrder

set_option relaxedAutoImplicit false
set_option autoImplicit false

namespace TreePath

/-! ### Names -/

namespace Session

/-- A context has the names of the language, and those registered in its line of descent. -/
theorem mem_names_after_iff {past : List Action} {k : Nat} {name : String} :
    name ∈ ((after past).contexts k).names ↔
      name ∈ Context.standard.names ∨ ∃ c, .register c ∈ line past k ∧ c.name = name := by
  have hregistered : ((line past k).findSome? (Change.registers? name)).isSome = true ↔
      ∃ c, .register c ∈ line past k ∧ c.name = name := by
    rw [List.findSome?_isSome_iff]
    constructor
    · rintro ⟨change, hmem, hsome⟩
      cases change with
      | register c =>
          rw [Change.registers?] at hsome
          split at hsome
          · next hname => exact ⟨c, hmem, hname⟩
          · cases hsome
      | allow allowed => cases hsome
    · rintro ⟨c, hmem, hname⟩
      exact ⟨.register c, hmem, by rw [Change.registers?, if_pos hname]; rfl⟩
  rw [Context.mem_names_iff, Context.mem_names_iff, contexts_after, find?_contextBy,
    ← Option.isSome_iff_exists, ← Option.isSome_iff_exists, ← hregistered, conditionBy,
    Option.isSome_or, Bool.or_eq_true, or_comm]

/-! ### Later searches -/

/-- **A search that is started later is the one along the path that was compiled**, and whatever
happens then, it goes on from match to match. -/
theorem search_of_evaluate {past : List Action} {k : Nat} {expression : String} {p : Path}
    (hp : compile ((after past).contexts k) expression = .ok p) (between later : List Action)
    (root : Value) {m : Nat}
    (hm : m = (after (between ++ .compile k expression :: past)).searches.length) :
    (after (later ++ .evaluate (after past).compiled.length root ::
      (between ++ .compile k expression :: past))).searches[m]? =
      some (some ((p.evaluate root).after (pulls m later))) := by
  refine search_after ?_ later
  have hevaluate : (after (.evaluate (after past).compiled.length root ::
      (between ++ .compile k expression :: past))).searches =
      (after (between ++ .compile k expression :: past)).searches ++
        [(after (between ++ .compile k expression :: past)).search?
          (after past).compiled.length root] := rfl
  rw [hevaluate, hm, List.getElem?_append_right (Nat.le_refl _), Nat.sub_self, search?,
    compiled_after_compile, hp]
  rfl

end Session

/-! ### What is tested -/

/-- The expression calls the condition by a name, under which it was the last one that changes
registered. -/
def CalledIn (expression : String) (changes : List Change) (c : Condition) : Prop :=
  ∃ call name, call <:+: expression.toList ∧ CallText call name ∧
    conditionBy changes (String.ofList name) = some c

section Tested

variable {changes : List Change} {expression : String} {p : Path}
  (hp : compile (contextBy changes) expression = .ok p)

include hp

/-- The condition of a filter, at any depth, is the one that was registered under its name. -/
theorem Path.HasFilter.calledIn {f : Filter} (h : p.HasFilter f) :
    CalledIn expression changes f.condition := by
  obtain ⟨u, hu, hfilter⟩ := h.exists_filterText (compile_eq_ok_iff.1 hp)
  obtain ⟨call, name, before, args, after, rfl, hcall, hfind, -, -⟩ := hfilter.exists_callText
  rw [find?_contextBy] at hfind
  exact ⟨call, name, (List.prefix_append call _).isInfix.trans hu, hcall, hfind⟩

/-- The condition that is called is the one that was registered under its name. -/
theorem Path.Makes.calledIn {c : Call} (h : p.Makes c) :
    CalledIn expression changes c.condition := by
  obtain ⟨f, hf, v, rfl⟩ := h
  exact hf.calledIn hp

end Tested

/-! ### Histories -/

/-- **Compiled paths are isolated from the later life of every context.**  After any history, a
context has the flag that was last set in its line of descent and, under each name, the condition
that was last registered there, and an expression compiles to what these determine.  After a context
is cloned, it and its clone are changed by their own changes only.  The names of a context ascend by
their bytes; they are the ten of the language and those registered in its line of descent.

A path that is compiled is followed in the same way whenever a search along it is started and
whatever happens between the matches.  Each of its filters, at any depth, has the condition that was
registered under its name when the path was compiled, and so has each call that is ever made. -/
theorem Session.isolation (past : List Action) :
    (∀ k, ((after past).contexts k).descendants = allowedBy (line past k) ∧
      ∀ name, ((after past).contexts k).find? name = conditionBy (line past k) name) ∧
    (∀ past' k k', allowedBy (line past k) = allowedBy (line past' k') →
      (∀ name, conditionBy (line past k) name = conditionBy (line past' k') name) →
      ∀ expression, ∃ r,
        (after (.compile k expression :: past)).compiled = (after past).compiled ++ [r] ∧
        (after (.compile k' expression :: past')).compiled = (after past').compiled ++ [r]) ∧
    (∀ later source copy,
      ((∀ i, .clone i source ∉ later) →
        (after (later ++ .clone source copy :: past)).contexts source =
          changedBy (own source later) ((after past).contexts source)) ∧
      ((∀ i, .clone i copy ∉ later) →
        (after (later ++ .clone source copy :: past)).contexts copy =
          changedBy (own copy later) ((after past).contexts source))) ∧
    (∀ k, ((after past).contexts k).names.Pairwise (fun a b => utf8 a < utf8 b) ∧
      ∀ name, name ∈ ((after past).contexts k).names ↔
        name ∈ Context.standard.names ∨ ∃ c, .register c ∈ line past k ∧ c.name = name) ∧
    Context.standard.names = ["between", "cicontains", "contains", "empty", "eq", "gt", "gte",
      "has", "lt", "lte"] ∧
    ∀ k expression p, compile ((after past).contexts k) expression = .ok p →
      (∀ between later root m,
        m = (after (between ++ .compile k expression :: past)).searches.length →
        (after (later ++ .evaluate (after past).compiled.length root ::
          (between ++ .compile k expression :: past))).searches[m]? =
          some (some ((p.evaluate root).after (pulls m later)))) ∧
      (∀ f, p.HasFilter f → CalledIn expression (line past k) f.condition) ∧
      ∀ root c,
        (∃ count, c ∈ ((p.evaluate root).after count).next.calls) ∨ c ∈ (p.evaluate root).drain.2 →
        CalledIn expression (line past k) c.condition ∧
          c.result = c.condition.test c.arguments := by
  refine ⟨?_, ?_, ?_, ?_, rfl, ?_⟩
  · intro k
    rw [contexts_after]
    exact ⟨descendants_contextBy _, find?_contextBy _⟩
  · intro past' k k' hallowed hcondition expression
    have hcontext : (after past).contexts k = (after past').contexts k' := by
      rw [contexts_after, contexts_after, contextBy_congr hallowed hcondition]
    refine ⟨compile ((after past).contexts k) expression, rfl, ?_⟩
    rw [hcontext]
    rfl
  · intro later source copy
    constructor
    · intro hkept
      rw [contexts_after_append hkept]
      congr 1
      rw [contexts_after, contexts_after, line, ite_self]
    · intro hkept
      rw [contexts_after_append hkept]
      congr 1
      rw [contexts_after, contexts_after, line, if_pos rfl]
  · intro k
    exact ⟨(Context.names_ascending _).imp lt_iff_utf8_lt.1, fun name => mem_names_after_iff⟩
  · intro k expression p hp
    refine ⟨fun between later root m hm => search_of_evaluate hp between later root hm, ?_⟩
    rw [contexts_after] at hp
    refine ⟨fun f hf => hf.calledIn hp, ?_⟩
    intro root c hc
    have hmakes : p.Makes c := p.makes_of_madeBy c <| by
      rcases hc with ⟨count, hc⟩ | hc
      · exact Search.madeBy_after _ count c hc
      · exact Search.madeBy_drain _ c hc
    exact ⟨hmakes.calledIn hp, hmakes.result_eq⟩

/-- A condition that takes no arguments, under a name of the language. -/
def Condition.never : Condition := ⟨"has", [], fun _ => false⟩

/-- A name that is registered again with another signature, before a search is started and before it
is asked for a match, while the clone of the context keeps the condition of the language. -/
theorem Session.isolation_registered_again :
    ∃ p, compile Context.standard ".a(has(@.b))" = .ok p ∧
      (after [.pull 0, .change 0 (.register .never), .evaluate 0 .null,
        .change 0 (.register .never), .compile 0 ".a(has(@.b))"]).searches[0]? =
        some (some ((p.evaluate .null).after 1)) ∧
      (after [.change 0 (.register .never), .clone 0 1]).contexts 1 = .standard := by
  obtain ⟨p, hp⟩ : ∃ p, compile Context.standard ".a(has(@.b))" = .ok p := ⟨_, rfl⟩
  obtain ⟨-, -, hclone, -, -, hpaths⟩ := Session.isolation []
  obtain ⟨hsearch, -⟩ := hpaths 0 ".a(has(@.b))" p hp
  have hlater := hsearch [.change 0 (.register .never)] [.pull 0, .change 0 (.register .never)]
    .null 0 rfl
  have hkept := (hclone [.change 0 (.register .never)] 0 1).2 (by simp)
  exact ⟨p, hp, hlater, hkept⟩

end TreePath
