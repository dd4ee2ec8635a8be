/-
**What allowing descendant steps changes.**

Two contexts that find the same conditions differ for a text only if a step of it starts with two
points.  Where no step does, both give the same.  Otherwise the context that does not allow
descendant steps fails at the first such step, whatever the other one makes of the text: that one
may succeed, or fail before or after that place for another cause.

A place where a step starts with two points need not be one for the context without descendant
steps, for the text before it may have descendant steps of its own.  But then one of these comes
first, and before it both contexts read the same.

Main definitions:

* `DescendsAt`, `DescendsFirst` — the steps of a text that start with two points, and the first.

Main results:

* `DescendsAt.whole_eq_fault` — without descendant steps, reading stops at such a step;
* `StepPlace.withoutDescendants` — a place is one without descendant steps, or a step before it
  starts with two points;
* `descendsFirst_iff` — the first such step is the one that is a place without descendant steps;
* `compile_without_descendants` — **the comparison of two contexts**.
-/

import TreePath.Condition.Builtin
import TreePath.Proofs.Condition.Registry
import TreePath.Proofs.Path.Parting

set_option relaxedAutoImplicit false
set_option autoImplicit false

namespace TreePath

/-! ### Steps that start with two points -/

/-- In the text a step starts with two points after its part `a`. -/
def DescendsAt (ctx : Context) (s a : List Char) : Prop :=
  StepPlace ctx a ∧ a ++ ['.', '.'] <+: s

/-- The first step of the text that starts with two points does so after its part `a`. -/
def DescendsFirst (ctx : Context) (s a : List Char) : Prop :=
  DescendsAt ctx s a ∧ ∀ a', DescendsAt ctx s a' → a.length ≤ a'.length

theorem descendsAt_of_eq {ctx : Context} {s a b : List Char} (ha : StepPlace ctx a)
    (hs : s = a ++ '.' :: '.' :: b) : DescendsAt ctx s a := by
  refine ⟨ha, b, ?_⟩
  rw [hs, List.append_assoc]
  rfl

theorem DescendsAt.isPrefix {ctx : Context} {s a : List Char} (h : DescendsAt ctx s a) : a <+: s :=
  (List.prefix_append a _).trans h.2

theorem DescendsAt.append {ctx : Context} {s a : List Char} (h : DescendsAt ctx s a)
    (t : List Char) : DescendsAt ctx (s ++ t) a :=
  ⟨h.1, h.2.trans (List.prefix_append s t)⟩

variable {off : Context}

/-- **Without descendant steps, reading stops at a step that starts with two points.** -/
theorem DescendsAt.whole_eq_fault {s a : List Char} (h : DescendsAt off s a)
    (hoff : off.descendants = false) :
    ∃ b, s = a ++ '.' :: '.' :: b ∧
      Reading.whole off s = .fault ('.' :: '.' :: b) .descendantStep := by
  obtain ⟨ha, b, rfl⟩ := h
  rw [List.append_assoc]
  refine ⟨b, rfl, ha.whole_eq_fault rfl fun depth _ => ?_⟩
  rw [Reading.step, List.cons_append, List.singleton_append, Reading.target, hoff,
    if_neg Bool.false_ne_true]
  rfl

/-- Without descendant steps, compiling fails there. -/
theorem DescendsAt.compile_eq_error {expression : String} {a : List Char}
    (h : DescendsAt off expression.toList a) (hoff : off.descendants = false) :
    compile off expression = .error ⟨expression, byteLength a, .descendantStep⟩ := by
  obtain ⟨b, hs, hfault⟩ := h.whole_eq_fault hoff
  have hne : expression.toList ≠ [] := by simp [hs]
  rw [TreePath.compile_eq_error hne hfault, hs, byteLength_append_sub]

/-- Without descendant steps, a text has at most one place before two points: where it fails. -/
theorem DescendsAt.eq {s a a' : List Char} (h : DescendsAt off s a) (h' : DescendsAt off s a')
    (hoff : off.descendants = false) : a = a' := by
  obtain ⟨b, hs, hfault⟩ := h.whole_eq_fault hoff
  obtain ⟨b', hs', hfault'⟩ := h'.whole_eq_fault hoff
  rw [hfault] at hfault'
  obtain rfl : b = b' := by
    injection hfault' with hrest
    simpa using hrest
  exact List.append_cancel_right (hs.symm.trans hs')

/-! ### From one context to the other -/

/-- What derives without descendant steps derives with them, and denotes the same. -/
theorem PathText.withDescendants {s : List Char} {p : Path} (h : PathText off s p) :
    PathText (off.withDescendants true) s p := by
  rw [pathText_iff_compile] at h ⊢
  rcases compile_parting off (String.ofList s) with hsame | ⟨a, b, -, -, herror, -⟩
  · rw [← hsame, h]
  · rw [herror] at h
    cases h

theorem StepsText.withDescendants {s : List Char} {sts : List Step}
    (h : StepsText off (PathText off) s sts) :
    StepsText (off.withDescendants true) (PathText (off.withDescendants true)) s sts := by
  cases h with
  | nil => exact .nil
  | cons hst hrest =>
      obtain ⟨hsteps, -⟩ := (PathText.mk (.cons hst hrest) (List.cons_ne_nil _ _)).withDescendants
      exact hsteps

theorem TargetText.withDescendants {s : List Char} {t : Target} (h : TargetText off s t) :
    TargetText (off.withDescendants true) s t := by
  cases h with
  | child h => exact .child h
  | descendant _ h => exact .descendant rfl h
  | item h => exact .item h

/-- Every place is one with descendant steps, too. -/
theorem StepPlace.withDescendants {s : List Char} (h : StepPlace off s) :
    StepPlace (off.withDescendants true) s := by
  induction h with
  | next h => exact .next h.withDescendants
  | nested hsteps htarget hcall registered hargs _ ih =>
      exact .nested hsteps.withDescendants htarget.withDescendants hcall registered
        (hargs.imp (fun _ _ _ hp => hp.withDescendants) (Nat.le_refl _)) ih

/-- What derives with descendant steps derives without them, or has a step that starts with two
points. -/
theorem PathText.withoutDescendants {s : List Char} {p : Path}
    (h : PathText (off.withDescendants true) s p) :
    PathText off s p ∨ ∃ a, DescendsAt off s a := by
  rw [pathText_iff_compile] at h ⊢
  rcases compile_parting off (String.ofList s) with hsame | ⟨a, b, hs, ha, -, -⟩
  · exact .inl (hsame.trans h)
  · rw [String.toList_ofList] at hs
    exact .inr ⟨a, descendsAt_of_eq ha hs⟩

theorem StepsText.withoutDescendants {s : List Char} {sts : List Step}
    (h : StepsText (off.withDescendants true) (PathText (off.withDescendants true)) s sts) :
    StepsText off (PathText off) s sts ∨ ∃ a, DescendsAt off s a := by
  cases h with
  | nil => exact .inl .nil
  | cons hst hrest =>
      refine (PathText.mk (.cons hst hrest)
        (List.cons_ne_nil _ _)).withoutDescendants.imp_left fun h => ?_
      obtain ⟨hsteps, -⟩ := h
      exact hsteps

theorem TargetText.withoutDescendants {s : List Char} {t : Target}
    (h : TargetText (off.withDescendants true) s t) :
    TargetText off s t ∨ ['.', '.'] <+: s := by
  cases h with
  | child h => exact .inl (.child h)
  | descendant _ _ => exact .inr ⟨_, rfl⟩
  | item h => exact .inl (.item h)

theorem ArgumentText.withoutDescendants {s : List Char} {a : Argument}
    (h : ArgumentText (PathText (off.withDescendants true)) s a) :
    ArgumentText (PathText off) s a ∨ ∃ t, s = '@' :: t ∧ ∃ b, DescendsAt off t b := by
  cases h with
  | path h =>
      rcases h.withoutDescendants with h | h
      · exact .inl (.path h)
      · exact .inr ⟨_, rfl, h⟩
  | string hmark closed => exact .inl (.string hmark closed)
  | integer h => exact .inl (.integer h)
  | float h => exact .inl (.float h)

/-- Arguments that have been read with descendant steps have been read without them, or a step among
them starts with two points. -/
theorem ArgumentsFront.withoutDescendants {signature rest : List KindSet} {s : List Char}
    (h : ArgumentsFront (PathText (off.withDescendants true)) signature rest s) :
    ArgumentsFront (PathText off) signature rest s ∨
      ∃ a, ArgumentPlace off signature a ∧ a ++ ['.', '.'] <+: s := by
  induction h with
  | spaces hsp => exact .inl (.spaces hsp)
  | @cons accepted signature rest sp s after t a hsp h hkind hafter _ ih =>
      rcases h.withoutDescendants with h | ⟨u, rfl, b, hb, hstarts⟩
      · rcases ih with hrest | ⟨b, hb, hstarts⟩
        · exact .inl (.cons hsp h hkind hafter hrest)
        · refine .inr ⟨_, hb.cons hsp h hkind hafter, ?_⟩
          simpa using hstarts
      · refine .inr ⟨sp ++ '@' :: b, ⟨sp, b, accepted, signature, rfl, .spaces hsp, hb⟩, ?_⟩
        rw [List.append_assoc]
        refine (List.prefix_append_right_inj sp).2 ?_
        exact (List.cons_prefix_cons.2 ⟨rfl, hstarts⟩).trans (List.prefix_append _ _)

/-- **A place is one without descendant steps**, or a step before it starts with two points at one
that is. -/
theorem StepPlace.withoutDescendants {s : List Char}
    (h : StepPlace (off.withDescendants true) s) :
    StepPlace off s ∨ ∃ a, DescendsAt off s a := by
  induction h with
  | next h => exact h.withoutDescendants.imp_left .next
  | @nested s u call name args inner sts t c accepted rest hsteps htarget hcall registered hargs
      _ ih =>
      rcases hsteps.withoutDescendants with hsteps | ⟨a, ha⟩
      · rcases htarget.withoutDescendants with htarget | hpoints
        · rcases hargs.withoutDescendants with hargs | ⟨a, ha, hstarts⟩
          · rcases ih with hinner | ⟨a, ha, hstarts⟩
            · exact .inl (.nested hsteps htarget hcall registered hargs hinner)
            · refine .inr ⟨_, .nested hsteps htarget hcall registered hargs ha, ?_⟩
              simpa using hstarts
          · obtain ⟨args', inner', _, _, rfl, hargs, hinner⟩ := ha
            refine .inr ⟨_, .nested hsteps htarget hcall registered hargs hinner, ?_⟩
            have := hstarts.trans (List.prefix_append args ('@' :: inner))
            simpa using this
        · refine .inr ⟨s, .next hsteps, ?_⟩
          exact (List.prefix_append_right_inj s).2 (hpoints.trans (List.prefix_append u _))
      · exact .inr ⟨a, ha.append _⟩

/-! ### The first step that starts with two points -/

/-- Before or at every step that starts with two points there is one that is a place without
descendant steps. -/
theorem DescendsAt.exists_off {s a : List Char} (h : DescendsAt (off.withDescendants true) s a) :
    ∃ a', DescendsAt off s a' ∧ a'.length ≤ a.length := by
  obtain ⟨ha, hs⟩ := h
  rcases ha.withoutDescendants with ha | ⟨a', ha', hstarts⟩
  · exact ⟨a, ⟨ha, hs⟩, Nat.le_refl _⟩
  · refine ⟨a', ⟨ha', (hstarts.trans (List.prefix_append a _)).trans hs⟩, ?_⟩
    have := hstarts.length_le
    rw [List.length_append] at this
    omega

/-- **The first step that starts with two points** is the one that does so at a place without
descendant steps. -/
theorem descendsFirst_iff (hoff : off.descendants = false) {s a : List Char} :
    DescendsFirst (off.withDescendants true) s a ↔ DescendsAt off s a := by
  constructor
  · rintro ⟨ha, hfirst⟩
    obtain ⟨a', ha', hle⟩ := ha.exists_off
    have hge := hfirst a' ⟨ha'.1.withDescendants, ha'.2⟩
    have hlength : a'.length = a.length := Nat.le_antisymm hle hge
    have hstarts := List.prefix_of_prefix_length_le ha'.isPrefix ha.isPrefix hle
    rwa [← hstarts.eq_of_length hlength]
  · intro ha
    refine ⟨⟨ha.1.withDescendants, ha.2⟩, ?_⟩
    intro b hb
    obtain ⟨a', ha', hle⟩ := hb.exists_off
    rwa [ha.eq ha' hoff]

/-! ### Two contexts -/

/-- Without descendant steps, no path has a descendant step. -/
theorem PathText.not_descends {s : List Char} {p : Path} (h : PathText off s p)
    (hoff : off.descendants = false) : ¬p.Descends := by
  rintro ⟨q, hq, st, hst, hdescends⟩
  obtain ⟨t, -, hsteps, -⟩ := hq.exists_pathText h
  obtain ⟨u, -, hstep⟩ := hsteps.exists_stepText st hst
  have htarget : ∃ v, TargetText off v st.target := by
    cases hstep with
    | plain h => exact ⟨_, h⟩
    | filtered h _ => exact ⟨_, h⟩
  obtain ⟨v, htarget⟩ := htarget
  generalize st.target = t at hdescends htarget
  cases htarget with
  | child => cases hdescends
  | descendant allowed =>
      rw [hoff] at allowed
      cases allowed
  | item => cases hdescends

/-- Contexts that find the same conditions differ only in descendant steps. -/
theorem Context.eq_withDescendants {on off : Context}
    (hsame : ∀ name, on.find? name = off.find? name) (hon : on.descendants = true) :
    on = off.withDescendants true :=
  Context.eq_of_find?_eq hsame hon

/-- **What allowing descendant steps changes.**  Of two contexts that find the same conditions, let
one allow descendant steps and the other not.  If the one gives a path without descendant steps, the
other gives the same path, and no step of the text starts with two points, whatever literals it has.
If the one gives a path with descendant steps, the other fails, since they are not enabled, where
the first of them starts.  If the one fails, the other fails with the same error, or else where the
first step of the text starts that has two points.  So what the other gives, the one gives as well.
None of these places is inside of a text in quotes. -/
theorem compile_without_descendants {on off : Context}
    (hsame : ∀ name, on.find? name = off.find? name) (hon : on.descendants = true)
    (hoff : off.descendants = false) (expression : String) :
    (∀ p, compile on expression = .ok p → ¬p.Descends →
      compile off expression = .ok p ∧ ∀ a, ¬DescendsAt on expression.toList a) ∧
    (∀ p, compile on expression = .ok p → p.Descends →
      ∃ a, DescendsFirst on expression.toList a ∧
        compile off expression = .error ⟨expression, byteLength a, .descendantStep⟩) ∧
    (∀ e, compile on expression = .error e →
      compile off expression = .error e ∨ ∃ a, DescendsFirst on expression.toList a ∧
        compile off expression = .error ⟨expression, byteLength a, .descendantStep⟩) ∧
    (∀ p, compile off expression = .ok p → compile on expression = .ok p) ∧
    (∀ a, DescendsAt on expression.toList a → openMark none a = none) ∧
    Cause.descendantStep.message = "descendant selectors are not enabled" := by
  obtain rfl := Context.eq_withDescendants hsame hon
  have houtside : ∀ a, DescendsAt (off.withDescendants true) expression.toList a →
      openMark none a = none := fun a ha => ha.1.openMark_eq_none
  rcases compile_parting off expression with heq | ⟨a, b, hs, ha, herror, hdescends⟩
  · refine ⟨?_, ?_, fun e he => .inl (heq.trans he), fun p hp => heq.symm.trans hp, houtside, rfl⟩
    · intro p hp _
      refine ⟨heq.trans hp, fun a ha => ?_⟩
      obtain ⟨a', ha', -⟩ := ha.exists_off
      have herror := ha'.compile_eq_error hoff
      rw [heq, hp] at herror
      cases herror
    · intro p hp hdescends
      exact absurd hdescends ((compile_eq_ok_iff.1 (heq.trans hp)).not_descends hoff)
  · have hfirst : DescendsFirst (off.withDescendants true) expression.toList a :=
      (descendsFirst_iff hoff).2 (descendsAt_of_eq ha hs)
    refine ⟨fun p hp hnot => absurd (hdescends p hp) hnot, fun _ _ _ => ⟨a, hfirst, herror⟩,
      fun _ _ => .inr ⟨a, hfirst, herror⟩, ?_, houtside, rfl⟩
    intro p hp
    rw [herror] at hp
    cases hp

/-- A descendant step after a literal with two points: the place is that of the step. -/
theorem compile_without_descendants_literal :
    ∃ a, DescendsFirst (Context.standard.withDescendants true)
        ".a(eq(@.b, 'x..y'))..c".toList a ∧ byteLength a = 19 ∧
      compile Context.standard ".a(eq(@.b, 'x..y'))..c" =
        .error ⟨".a(eq(@.b, 'x..y'))..c", byteLength a, .descendantStep⟩ := by
  obtain ⟨p, hp, hstep⟩ :
      ∃ p, compile (Context.standard.withDescendants true) ".a(eq(@.b, 'x..y'))..c" = .ok p ∧
        p.steps[1]? = some ⟨.descendant (.name "c"), none⟩ := ⟨_, rfl, rfl⟩
  have hdescends : p.Descends := ⟨p, .refl, _, List.mem_of_getElem? hstep, rfl⟩
  have hoff : compile Context.standard ".a(eq(@.b, 'x..y'))..c" =
      .error ⟨".a(eq(@.b, 'x..y'))..c", 19, .descendantStep⟩ := rfl
  obtain ⟨-, hfails, -⟩ := @compile_without_descendants (Context.standard.withDescendants true)
    Context.standard (fun _ => rfl) rfl rfl ".a(eq(@.b, 'x..y'))..c"
  obtain ⟨a, hfirst, herror⟩ := hfails p hp hdescends
  rw [hoff] at herror
  injection herror with herror
  injection herror with _ hoffset
  exact ⟨a, hfirst, hoffset.symm, hoffset ▸ hoff⟩

end TreePath
