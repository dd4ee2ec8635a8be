/-
**Paths inside of paths.**

An argument of a filter can be a path again.  This module says what holds of a path at every depth
of such nesting because it holds of the text that was compiled: each path inside it is denoted by a
part of the text and has at least one step, and each filter is denoted by a part of the text in
which the name of a registered condition stands.

Main definitions:

* `Path.Within` — one path inside another, at any depth;
* `Path.HasFilter` — a filter of a path or of a path inside it;
* `CallText` — the start of a filter, with the name of a condition.

Main results:

* `Path.induction_nested` — an induction on a path that goes down to the paths inside;
* `Path.Within.exists_pathText`, `Path.HasFilter.exists_filterText` — **what is nested is part of
  the text**;
* `FilterText.exists_callText` — the text of a filter starts with the name of its condition.
-/

import TreePath.Proofs.Path.Grammar

set_option relaxedAutoImplicit false
set_option autoImplicit false

namespace TreePath

/-! ### Nesting -/

/-- One path is another one or stands inside of it, among the arguments of a filter. -/
inductive Path.Within (q : Path) : Path → Prop
  | refl : Within q q
  | nested {p inner : Path} {s : Step} {f : Filter} (hs : s ∈ p.steps) (hf : s.filter = some f)
      (ha : .path inner ∈ f.arguments) (h : Within q inner) : Within q p

/-- A filter of a path, or of a path inside it. -/
def Path.HasFilter (p : Path) (f : Filter) : Prop :=
  ∃ q : Path, q.Within p ∧ ∃ s ∈ q.steps, s.filter = some f

theorem Path.HasFilter.nested {p inner : Path} {s : Step} {f g : Filter} (hs : s ∈ p.steps)
    (hf : s.filter = some f) (ha : .path inner ∈ f.arguments) (h : inner.HasFilter g) :
    p.HasFilter g := by
  obtain ⟨q, hq, hg⟩ := h
  exact ⟨q, .nested hs hf ha hq, hg⟩

/-- What a property of paths takes: it holds of a path if it holds of the paths inside. -/
def Path.Hereditary (motive : Path → Prop) : Prop :=
  ∀ p : Path, (∀ s ∈ p.steps, ∀ f, s.filter = some f → ∀ q, .path q ∈ f.arguments → motive q) →
    motive p

mutual

/-- **An induction on a path that goes down to the paths inside**, one level at a time. -/
theorem Path.induction_nested {motive : Path → Prop} (step : Path.Hereditary motive) :
    ∀ p : Path, motive p
  | ⟨_, steps⟩ => step _ (Path.induction_nested_steps step steps)

theorem Path.induction_nested_steps {motive : Path → Prop} (step : Path.Hereditary motive) :
    ∀ steps : List Step, ∀ s ∈ steps, ∀ f, s.filter = some f → ∀ q, .path q ∈ f.arguments → motive q
  | [] => List.forall_mem_nil _
  | ⟨_, none⟩ :: rest => by
      refine List.forall_mem_cons.2 ⟨fun f hf => ?_, Path.induction_nested_steps step rest⟩
      cases hf
  | ⟨_, some ⟨_, _, arguments⟩⟩ :: rest => by
      refine List.forall_mem_cons.2 ⟨fun f hf => ?_, Path.induction_nested_steps step rest⟩
      cases hf
      exact Path.induction_nested_arguments step arguments

theorem Path.induction_nested_arguments {motive : Path → Prop} (step : Path.Hereditary motive) :
    ∀ arguments : List Argument, ∀ q, .path q ∈ arguments → motive q
  | [], _, hq => by cases hq
  | .path p :: rest, q, hq => by
      rcases List.mem_cons.1 hq with heq | hq
      · rw [Argument.path.inj heq]
        exact Path.induction_nested step p
      · exact Path.induction_nested_arguments step rest q hq
  | .string _ :: rest, q, hq =>
      Path.induction_nested_arguments step rest q ((List.mem_cons.1 hq).resolve_left nofun)
  | .integer _ :: rest, q, hq =>
      Path.induction_nested_arguments step rest q ((List.mem_cons.1 hq).resolve_left nofun)
  | .float _ :: rest, q, hq =>
      Path.induction_nested_arguments step rest q ((List.mem_cons.1 hq).resolve_left nofun)

end

/-! ### Parts of a text -/

variable {ctx : Context} {R : List Char → Path → Prop}

/-- Every step of a text of steps is denoted by a part of it. -/
theorem StepsText.exists_stepText {s : List Char} {sts : List Step} (h : StepsText ctx R s sts) :
    ∀ st ∈ sts, ∃ u, u <:+: s ∧ StepText ctx R u st := by
  induction h with
  | nil => exact List.forall_mem_nil _
  | @cons u t st sts hst _ ih =>
      refine List.forall_mem_cons.2 ⟨⟨u, (List.prefix_append u t).isInfix, hst⟩, fun st' hst' => ?_⟩
      obtain ⟨v, hv, hst'⟩ := ih st' hst'
      exact ⟨v, hv.trans (List.suffix_append u t).isInfix, hst'⟩

theorem StepText.exists_filterText {s : List Char} {st : Step} {f : Filter}
    (h : StepText ctx R s st) (hf : st.filter = some f) : ∃ u, u <:+: s ∧ FilterText ctx R u f := by
  cases h with
  | plain => cases hf
  | @filtered t u _ _ _ hfilter =>
      cases hf
      exact ⟨u, (List.suffix_append t u).isInfix, hfilter⟩

/-- A path among arguments is denoted by a part of their text. -/
theorem ArgumentsText.exists_path {s : List Char} {as : List Argument} (h : ArgumentsText R s as)
    {q : Path} (hq : .path q ∈ as) : ∃ t, t <:+: s ∧ R t q := by
  have hargument {s : List Char} {a : Argument} (h : ArgumentText R s a) (hq : .path q = a) :
      ∃ t, t <:+: s ∧ R t q := by
    cases h with
    | @path t p hp =>
        rw [Argument.path.inj hq]
        exact ⟨t, (List.suffix_cons '@' t).isInfix, hp⟩
    | _ => cases hq
  induction h with
  | @last s after a h _ =>
      obtain ⟨t, ht, hR⟩ := hargument h (List.mem_singleton.1 hq)
      exact ⟨t, ht.trans (List.prefix_append s after).isInfix, hR⟩
  | @cons s after before rest a as h _ _ _ ih =>
      rcases List.mem_cons.1 hq with hq | hq
      · obtain ⟨t, ht, hR⟩ := hargument h hq
        exact ⟨t, ht.trans (List.prefix_append s _).isInfix, hR⟩
      · obtain ⟨t, ht, hR⟩ := ih hq
        have hrest : rest <:+ s ++ (after ++ ',' :: (before ++ rest)) := by
          refine ⟨s ++ (after ++ ',' :: before), ?_⟩
          simp
        exact ⟨t, ht.trans hrest.isInfix, hR⟩

/-- The start of a filter: the name of a condition, up to the arguments that it is called with. -/
inductive CallText : List Char → (name : List Char) → Prop
  | mk {sp₁ sp₂ sp₃ mark name : List Char} {negated : Bool} (hsp₁ : IsSpaces sp₁)
      (hmark : NegationText mark negated) (hsp₂ : IsSpaces sp₂) (hname : IsName name)
      (hsp₃ : IsSpaces sp₃) :
      CallText ('(' :: (sp₁ ++ (mark ++ (sp₂ ++ (name ++ (sp₃ ++ ['('])))))) name

/-- **What a filter is made of**: the call of a registered condition, then its arguments, which the
condition accepts. -/
theorem FilterText.exists_callText {u : List Char} {f : Filter} (h : FilterText ctx R u f) :
    ∃ call name before args after, u = call ++ (before ++ (args ++ after)) ∧ CallText call name ∧
      ctx.find? (String.ofList name) = some f.condition ∧ ArgumentListText R args f.arguments ∧
      Accepts f.condition.signature f.arguments := by
  cases h with
  | @mk sp₁ sp₂ sp₃ sp₄ sp₅ mark name args negated c as hsp₁ hmark hsp₂ hname hsp₃ _ hargs _
      registered accepts =>
      refine ⟨_, name, sp₄, args, ')' :: (sp₅ ++ [')']), ?_, .mk hsp₁ hmark hsp₂ hname hsp₃,
        registered, hargs, accepts⟩
      simp

/-- A path among the arguments of a filter is denoted by a part of the text of the filter. -/
theorem FilterText.exists_path {u : List Char} {f : Filter} (h : FilterText ctx R u f) {q : Path}
    (hq : .path q ∈ f.arguments) : ∃ t, t <:+: u ∧ R t q := by
  obtain ⟨call, _, before, args, after, rfl, -, -, hargs, -⟩ := h.exists_callText
  generalize f.arguments = as at hargs hq
  cases hargs with
  | empty => cases hq
  | given hargs =>
      obtain ⟨t, ht, hR⟩ := hargs.exists_path hq
      exact ⟨t, ht.trans ⟨call ++ before, after, by simp⟩, hR⟩

/-! ### What is nested is part of the text -/

theorem PathText.exists_filterText {s : List Char} {p : Path} (h : PathText ctx s p) {st : Step}
    (hst : st ∈ p.steps) {f : Filter} (hf : st.filter = some f) :
    ∃ u, u <:+: s ∧ FilterText ctx (PathText ctx) u f := by
  obtain ⟨hsteps, -⟩ := h
  obtain ⟨t, ht, hstep⟩ := hsteps.exists_stepText st hst
  obtain ⟨u, hu, hfilter⟩ := hstep.exists_filterText hf
  exact ⟨u, hu.trans ht, hfilter⟩

/-- **A path inside another** is denoted by a part of the text of the other. -/
theorem Path.Within.exists_pathText {p q : Path} (h : q.Within p) :
    ∀ {s : List Char}, PathText ctx s p → ∃ t, t <:+: s ∧ PathText ctx t q := by
  induction h with
  | refl => exact fun hp => ⟨_, List.infix_rfl, hp⟩
  | nested hst hf ha _ ih =>
      intro s hp
      obtain ⟨u, hu, hfilter⟩ := hp.exists_filterText hst hf
      obtain ⟨t, ht, hinner⟩ := hfilter.exists_path ha
      obtain ⟨v, hv, hq⟩ := ih hinner
      exact ⟨v, hv.trans (ht.trans hu), hq⟩

/-- **A filter of a path**, at any depth, is denoted by a part of the text of the path. -/
theorem Path.HasFilter.exists_filterText {p : Path} {f : Filter} (h : p.HasFilter f)
    {s : List Char} (hp : PathText ctx s p) :
    ∃ u, u <:+: s ∧ FilterText ctx (PathText ctx) u f := by
  obtain ⟨q, hq, st, hst, hf⟩ := h
  obtain ⟨t, ht, htext⟩ := hq.exists_pathText hp
  obtain ⟨u, hu, hfilter⟩ := htext.exists_filterText hst hf
  exact ⟨u, hu.trans ht, hfilter⟩

end TreePath
