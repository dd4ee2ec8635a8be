/-
**The calls of a search.**

A search calls conditions only through the filters of its path, and a filter inside of an argument
is called while the argument is resolved.  So every call that is ever made in following a path is
the call of one of its filters, at whatever depth, on some value: the condition of the filter with
what the arguments of the filter denote there.

For a compiled path this says what a condition can rely on.  The condition of a filter is the one
that is registered under the name in the text, and it has accepted the arguments when the text was
compiled; resolving an argument keeps its kind.  So the arguments of a call are as many as the
signature asks for, and each is of a kind that the signature admits at its place.

Main definitions:

* `Call.MadeBy` — a call that the test of some stage makes;
* `Filter.call`, `Path.Makes` — the calls of a filter, and of the filters of a path at any depth.

Main results:

* `Search.madeBy_after`, `Search.madeBy_drain` — a search makes the calls of its stages;
* `Path.makes_of_madeBy` — **every call is the call of a filter**, by induction over nesting;
* `calls_fit_signatures` — **conditions are only called as their signatures say**.
-/

import TreePath.Proofs.Condition.Answers
import TreePath.Proofs.Evaluation.Refinement
import TreePath.Proofs.Path.Nesting
import TreePath.Proofs.Path.Recognition

set_option relaxedAutoImplicit false
set_option autoImplicit false

namespace TreePath

/-! ### Calls of stages -/

/-- A call that the test of one of the stages makes on some value. -/
def Call.MadeBy (c : Call) (stages : List Stage) : Prop :=
  ∃ s ∈ stages, ∃ v, c ∈ (s.test v).calls

/-- **One move of a search** makes calls of its stages only. -/
theorem Frame.madeBy_of_frames {stages : List Stage} {f : Frame} {next : List Frame}
    {calls : List Call} (h : f.next stages = .frames next calls) :
    ∀ c ∈ calls, c.MadeBy stages := by
  cases f with
  | visit index n =>
      simp only [Frame.next] at h
      split at h
      · cases h
      · cases h
        exact List.forall_mem_nil _
  | candidate index n =>
      simp only [Frame.next] at h
      split at h
      · cases h
        exact List.forall_mem_nil _
      · next s hs =>
          cases h
          exact fun c hc => ⟨s, List.mem_of_getElem? hs, n.value, hc⟩

namespace Search

variable {stages : List Stage}

theorem madeBy_nextFrom {calls : List Call} {pending : List Frame}
    (hcalls : ∀ c ∈ calls, c.MadeBy stages) :
    ∀ c ∈ (nextFrom stages calls pending).calls, c.MadeBy stages := by
  induction calls, pending using nextFrom.induct stages with
  | case1 calls =>
      rw [nextFrom]
      exact fun c hc => hcalls c (List.mem_reverse.1 hc)
  | case2 calls f rest n h =>
      rw [nextFrom_of_found h]
      exact fun c hc => hcalls c (List.mem_reverse.1 hc)
  | case3 calls f rest next more h ih =>
      rw [nextFrom_of_frames h]
      refine ih fun c hc => (List.mem_append.1 hc).elim (fun hc => ?_) (hcalls c)
      exact Frame.madeBy_of_frames h c (List.mem_reverse.1 hc)

theorem madeBy_drainFrom {found : List Node} {calls : List Call} {pending : List Frame}
    (hcalls : ∀ c ∈ calls, c.MadeBy stages) :
    ∀ c ∈ (drainFrom stages found calls pending).2, c.MadeBy stages := by
  induction found, calls, pending using drainFrom.induct stages with
  | case1 found calls =>
      rw [drainFrom]
      exact fun c hc => hcalls c (List.mem_reverse.1 hc)
  | case2 found calls f rest n h ih =>
      rw [drainFrom_of_found h]
      exact ih hcalls
  | case3 found calls f rest next more h ih =>
      rw [drainFrom_of_frames h]
      refine ih fun c hc => (List.mem_append.1 hc).elim (fun hc => ?_) (hcalls c)
      exact Frame.madeBy_of_frames h c (List.mem_reverse.1 hc)

/-- A search keeps its stages. -/
theorem stages_nextFrom (calls : List Call) (pending : List Frame) :
    (nextFrom stages calls pending).rest.stages = stages := by
  induction calls, pending using nextFrom.induct stages with
  | case1 calls => rw [nextFrom]
  | case2 calls f rest n h => rw [nextFrom_of_found h]
  | case3 calls f rest next more h ih => rw [nextFrom_of_frames h, ih]

theorem stages_after (m : Search) (count : Nat) : (m.after count).stages = m.stages := by
  induction count with
  | zero => rfl
  | succ count ih => rw [after_succ, next, stages_nextFrom, ih]

/-- **A search makes calls of its stages only**, however often it has been asked for a match. -/
theorem madeBy_after (m : Search) (count : Nat) :
    ∀ c ∈ (m.after count).next.calls, c.MadeBy m.stages := by
  have hmade : ∀ c ∈ (m.after count).next.calls, c.MadeBy (m.after count).stages :=
    madeBy_nextFrom (List.forall_mem_nil _)
  rwa [stages_after] at hmade

theorem madeBy_drain (m : Search) : ∀ c ∈ m.drain.2, c.MadeBy m.stages :=
  madeBy_drainFrom (List.forall_mem_nil _)

end Search

/-! ### Calls of filters -/

/-- The call that a filter makes where a value is tested. -/
def Filter.call (f : Filter) (v : Value) : Call :=
  ⟨f.condition, f.arguments.map fun a => (a.resolve v).1,
    f.condition.test (f.arguments.map fun a => (a.resolve v).1)⟩

/-- A call that a filter of a path makes on some value, at whatever depth. -/
def Path.Makes (p : Path) (c : Call) : Prop := ∃ f, p.HasFilter f ∧ ∃ v, c = f.call v

/-- Resolving arguments makes the calls of the paths among them. -/
theorem exists_of_mem_resolveAll {arguments : List Argument} {v : Value} {c : Call}
    (h : c ∈ (resolveAll arguments v).2) :
    ∃ q, .path q ∈ arguments ∧ c ∈ (q.evaluate v).drain.2 := by
  induction arguments with
  | nil => cases h
  | cons a rest ih =>
      rcases List.mem_append.1 h with h | h
      · cases a with
        | path q => exact ⟨q, List.mem_cons_self, h⟩
        | _ => cases h
      · obtain ⟨q, hq, hc⟩ := ih h
        exact ⟨q, List.mem_cons_of_mem a hq, hc⟩

/-- A filter makes the calls of the paths among its arguments, and its own. -/
theorem Filter.eq_or_exists_of_mem_verdict {f : Filter} {v : Value} {c : Call}
    (h : c ∈ (f.verdict v).calls) :
    c = f.call v ∨ ∃ q, .path q ∈ f.arguments ∧ c ∈ (q.evaluate v).drain.2 := by
  obtain ⟨condition, negated, arguments⟩ := f
  rcases List.mem_append.1 h with h | h
  · exact .inr (exists_of_mem_resolveAll h)
  · left
    rw [List.mem_singleton.1 h, Filter.call, resolveAll_fst]

/-- A filter makes its own call. -/
theorem Filter.call_mem_verdict (f : Filter) (v : Value) : f.call v ∈ (f.verdict v).calls := by
  obtain ⟨condition, negated, arguments⟩ := f
  rw [Filter.call, ← resolveAll_fst]
  exact List.mem_append_right _ List.mem_cons_self

theorem Path.stages_eq_map (p : Path) : p.stages = p.steps.map Step.stage := by
  obtain ⟨source, steps⟩ := p
  exact stagesOf_eq_map steps

theorem Step.exists_of_mem_stage {s : Step} {v : Value} {c : Call}
    (h : c ∈ (s.stage.test v).calls) : ∃ f, s.filter = some f ∧ c ∈ (f.verdict v).calls := by
  obtain ⟨target, filter⟩ := s
  cases filter with
  | none => cases h
  | some f => exact ⟨f, rfl, h⟩

/-- **Every call of the stages of a path is the call of one of its filters.** -/
theorem Path.makes_of_madeBy : ∀ (p : Path) (c : Call), c.MadeBy p.stages → p.Makes c := by
  refine Path.induction_nested fun p ih => ?_
  rintro c ⟨stage, hstage, v, hc⟩
  obtain ⟨s, hs, rfl⟩ : ∃ s ∈ p.steps, s.stage = stage := by
    rw [p.stages_eq_map] at hstage
    exact List.mem_map.1 hstage
  obtain ⟨f, hf, hc⟩ := Step.exists_of_mem_stage hc
  rcases Filter.eq_or_exists_of_mem_verdict hc with rfl | ⟨q, hq, hc⟩
  · exact ⟨f, ⟨p, .refl, s, hs, hf⟩, v, rfl⟩
  · -- The call is made while an argument is resolved, so a filter inside the argument makes it.
    obtain ⟨g, hg, hcall⟩ := ih s hs f hf q hq c (Search.madeBy_drain _ c hc)
    exact ⟨g, hg.nested hs hf hq, hcall⟩

/-! ### Calls of compiled paths -/

section Compiled

variable {ctx : Context} {s : List Char} {p : Path} {c : Call}

/-- A call that is made in following a path is the call of a filter in the text, at the start of
which the name of the condition stands. -/
theorem Path.Makes.exists_filterText (h : p.Makes c) (hp : PathText ctx s p) :
    ∃ u f v call name, u <:+: s ∧ FilterText ctx (PathText ctx) u f ∧ c = f.call v ∧
      call <+: u ∧ CallText call name ∧ ctx.find? (String.ofList name) = some c.condition := by
  obtain ⟨f, hf, v, rfl⟩ := h
  obtain ⟨u, hu, hfilter⟩ := hf.exists_filterText hp
  obtain ⟨call, name, before, args, after, heq, hcall, hname, -, -⟩ := hfilter.exists_callText
  exact ⟨u, f, v, call, name, hu, hfilter, rfl, heq ▸ List.prefix_append _ _, hcall, hname⟩

/-- A call that is made in following a path has arguments that fit. -/
theorem Path.Makes.fits (h : p.Makes c) (hp : PathText ctx s p) :
    Condition.Fits c.condition.signature c.arguments := by
  obtain ⟨f, hf, v, rfl⟩ := h
  obtain ⟨u, -, hfilter⟩ := hf.exists_filterText hp
  obtain ⟨-, -, -, -, -, -, -, -, -, haccepts⟩ := hfilter.exists_callText
  refine List.forall₂_map_right_iff.2 (haccepts.imp fun accepted a ha => ?_)
  rw [a.kind_resolve]
  exact ha

/-- The result of a call is what the condition answers. -/
theorem Path.Makes.result_eq (h : p.Makes c) : c.result = c.condition.test c.arguments := by
  obtain ⟨f, -, v, rfl⟩ := h
  rfl

end Compiled

/-- **Conditions are only called as their signatures say.**  Every path in a compiled path, at
whatever depth, has at least one step.  And every call that is ever made in following the path from
any value, be it to some of its matches or to all, is the call of a filter in the text, and its
condition is the one that is registered under the name at the start of the filter.  The call has as
many arguments as the condition takes, each of a kind that the signature admits at its place.  So if
the condition is one of the language, it answers by its rule for arguments that are all there and of
the right kinds. -/
theorem calls_fit_signatures {ctx : Context} {expression : String} {p : Path}
    (hp : compile ctx expression = .ok p) :
    (∀ q : Path, q.Within p → q.steps ≠ []) ∧
    ∀ (root : Value) (c : Call),
      (∃ count, c ∈ ((p.evaluate root).after count).next.calls) ∨ c ∈ (p.evaluate root).drain.2 →
      (∃ u f v call name, u <:+: expression.toList ∧ FilterText ctx (PathText ctx) u f ∧
        c = f.call v ∧ call <+: u ∧ CallText call name ∧
        ctx.find? (String.ofList name) = some c.condition) ∧
      c.arguments.length = c.condition.arity ∧
      List.Forall₂ (fun accepted a => accepted.intersects (.only a.kind) = true)
        c.condition.signature c.arguments ∧
      c.result = c.condition.test c.arguments ∧
      (c.condition ∈ Builtin.conditions →
        Builtin.Answers c.condition.name c.arguments c.result) := by
  have htext := compile_eq_ok_iff.1 hp
  constructor
  · intro q hq
    obtain ⟨t, -, ht⟩ := hq.exists_pathText htext
    exact ht.steps_ne_nil
  · intro root c hc
    have hmakes : p.Makes c := p.makes_of_madeBy c <| by
      rcases hc with ⟨count, hc⟩ | hc
      · exact Search.madeBy_after _ count c hc
      · exact Search.madeBy_drain _ c hc
    have hfits := hmakes.fits htext
    refine ⟨hmakes.exists_filterText htext, hfits.length_eq.symm, hfits, hmakes.result_eq, ?_⟩
    intro hbuiltin
    rw [hmakes.result_eq]
    exact Builtin.answers_of_fits hbuiltin hfits

/-- A condition without arguments that always holds. -/
def Condition.always : Condition := ⟨"yes", [], fun _ => true⟩

/-- A filter with a condition that is called in an argument of another one. -/
def Filter.calling : Filter :=
  ⟨⟨"has", [.only .path], Builtin.has⟩, false,
    [.path ⟨".b(yes())", [⟨.child (.name "b"), some ⟨.always, false, []⟩⟩]⟩]⟩

/-- The path with that filter. -/
def Path.calling : Path := ⟨".a(has(@.b(yes())))", [⟨.child (.name "a"), some Filter.calling⟩]⟩

/-- Where the path inside leads to nothing at one place, the condition around it is called with
that. -/
theorem Filter.call_calling : (Filter.calling.call (.map [("b", .null)])).arguments =
    [.candidates [.null]] := by
  simp [Filter.call, Filter.calling, Argument.resolve_path, Path.select_eq_follow,
    Path.hops_eq_map, Step.hop, follow_cons, Target.pick, Selector.pick, Value.get?,
    Entries.find?_cons, Target.isDescendant, Filter.holds, Condition.always]

/-- The call is made in looking for the first match. -/
theorem Path.calling_calls : Filter.calling.call (.map [("b", .null)]) ∈
    ((Path.calling.evaluate (.map [("a", .map [("b", .null)])])).after 0).next.calls := by
  let v := Value.map [("b", .null)]
  let a : Node := ⟨[.key "a"], v⟩
  have hvisit : (Frame.visit 0 (.root (.map [("a", v)]))).next Path.calling.stages =
      .frames [.candidate 0 a] [] := rfl
  have hpasses : (Filter.calling.verdict v).passes = true := by
    have hverdict : (Filter.calling.verdict v).passes =
        (Builtin.has (resolveAll Filter.calling.arguments v).1 != false) := rfl
    have harguments : (resolveAll Filter.calling.arguments v).1 = [.candidates [.null]] := by
      rw [resolveAll_fst]
      exact Filter.call_calling
    rw [hverdict, harguments]
    rfl
  have htest : (Frame.candidate 0 a).next Path.calling.stages =
      .frames [.visit 1 a] (Filter.calling.verdict v).calls := by
    have hframes : (Frame.candidate 0 a).next Path.calling.stages =
        .frames (if (Filter.calling.verdict v).passes then [.visit 1 a] else [])
          (Filter.calling.verdict v).calls := rfl
    rw [hframes, if_pos hpasses]
  have hfound : (Frame.visit 1 a).next Path.calling.stages = .found a := rfl
  have hnext : (Path.calling.evaluate (.map [("a", v)])).next =
      ⟨some a, ((Filter.calling.verdict v).calls.reverse ++ []).reverse,
        ⟨Path.calling.stages, []⟩⟩ := by
    calc
      (Path.calling.evaluate (.map [("a", v)])).next
      _ = Search.nextFrom Path.calling.stages [] [.candidate 0 a] :=
        Search.nextFrom_of_frames hvisit [] []
      _ = Search.nextFrom Path.calling.stages ((Filter.calling.verdict v).calls.reverse ++ [])
          [.visit 1 a] := Search.nextFrom_of_frames htest [] []
      _ = _ := Search.nextFrom_of_found hfound _ []
  rw [Search.after, hnext]
  simpa using Filter.calling.call_mem_verdict v

/-- **A condition without arguments inside of another one**: what is called, and with what. -/
theorem calls_fit_signatures_calling :
    compile (Context.standard.register .always) ".a(has(@.b(yes())))" = .ok Path.calling ∧
      ∃ c ∈ ((Path.calling.evaluate (.map [("a", .map [("b", .null)])])).after 0).next.calls,
        c.condition.name = "has" ∧ c.arguments = [.candidates [.null]] ∧
        c.arguments.length = c.condition.arity ∧
        Builtin.Answers "has" [.candidates [.null]] c.result := by
  have hp : compile (Context.standard.register .always) ".a(has(@.b(yes())))" = .ok Path.calling :=
    rfl
  obtain ⟨-, hcalls⟩ := calls_fit_signatures hp
  obtain ⟨-, harity, -, -, hanswers⟩ := hcalls _ _ (.inl ⟨0, Path.calling_calls⟩)
  refine ⟨hp, _, Path.calling_calls, rfl, Filter.call_calling, harity, ?_⟩
  have hbuiltin : Filter.calling.condition ∈ Builtin.conditions :=
    List.mem_of_getElem? (i := 8) rfl
  have hanswer := hanswers hbuiltin
  rw [Filter.call_calling] at hanswer
  exact hanswer

end TreePath
