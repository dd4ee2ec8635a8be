/-
**Compiling recognises the grammar.**

`compile` accepts a text exactly when it derives from the grammar of paths, and the path it gives is
the tree of the derivation.  The readers of targets, steps and lists of steps are sound and complete
whenever the reader of paths after `@` is.  The readers of references are so by induction on their
depth: a path after `@` holds fewer marks `@` than the text that it is part of, so as many levels as
there are marks in a text are enough for it.

That steps are read one by one has a consequence of its own: after the steps of a text, reading goes
on with whatever follows, in the way in which it would start there (`Reading.steps_append`).

Main results:

* `Reading.step_sound`, `Reading.step_complete`, `Reading.steps_sound` — steps;
* `Reading.steps_append` — **reading goes on** after the steps of a text;
* `Reading.reference_sound`, `Reading.reference_complete` — references;
* `compile_eq_ok_iff` — compiling is derivation;
* `compile_recognises_grammar` — **a text compiles exactly when it derives**, which it does in one
  way only, and it then compiles to the tree of its derivation.
-/

import TreePath.Proofs.Path.Filters

set_option relaxedAutoImplicit false
set_option autoImplicit false

namespace TreePath

namespace Reading

section Steps

variable {ctx : Context} {reference : List Char → Reading Path} {R : List Char → Path → Prop}

/-! ### Targets -/

theorem target_sound {s rest : List Char} {t : Target} (hstarts : startsStep s = true)
    (h : target ctx s = found t rest) : ∃ u, s = u ++ rest ∧ TargetText ctx u t := by
  rw [target.eq_def] at h
  split at h
  · obtain ⟨items, mid, hrange, hitem⟩ := andThen_eq_found_iff.1 h
    obtain ⟨_, hclose, rfl⟩ := map_eq_found_iff.1 hitem
    obtain ⟨u, rfl, hu⟩ := exists_of_range hrange
    rw [char_eq_found_iff] at hclose
    refine ⟨'[' :: (u ++ [']']), ?_, .item hu⟩
    rw [hclose]
    simp
  · split at h
    · next hallowed =>
        obtain ⟨sel, hsel, rfl⟩ := map_eq_found_iff.1 h
        obtain ⟨u, rfl, hu⟩ := exists_of_selector hsel
        exact ⟨'.' :: '.' :: u, rfl, .descendant hallowed hu⟩
    · cases h
  · next hitem _ =>
      obtain ⟨sel, hread, rfl⟩ := map_eq_found_iff.1 h
      obtain ⟨u, hu, hsel⟩ := exists_of_selector hread
      cases s with
      | nil => simp [startsStep] at hstarts
      | cons c s =>
          rcases (by simpa [startsStep] using hstarts : c = '.' ∨ c = '[') with rfl | rfl
          · refine ⟨'.' :: u, ?_, .child hsel⟩
            rw [List.cons_append, ← hu]
            rfl
          · exact absurd rfl (hitem s)

theorem target_complete {s rest : List Char} {t : Target} (h : TargetText ctx s t)
    (hrest : Stops isNameChar rest) : target ctx (s ++ rest) = found t rest := by
  cases h with
  | @child s sel hsel =>
      have hpoint : Stops (· == '.') (s ++ rest) := by
        cases hsel with
        | wildcard => simp
        | name hname =>
            refine stops_append_of_ne_nil hname.1 hname.isNameChar fun c hc => ?_
            refine beq_eq_false_iff_ne.2 ?_
            rintro rfl
            exact absurd hc (by decide)
      rw [List.cons_append, target.eq_def]
      split
      · next hitem => cases hitem
      · next hdesc =>
          obtain ⟨-, hs⟩ := List.cons.inj hdesc
          simp [hs] at hpoint
      · rw [List.drop_one, List.tail_cons, selector_eq_found hsel hrest, map_found]
  | descendant allowed hsel =>
      rw [List.cons_append, List.cons_append, target, if_pos allowed,
        selector_eq_found hsel hrest, map_found]
  | item hr =>
      rw [List.cons_append, List.append_assoc, List.singleton_append, target,
        range_eq_found hr, andThen_found, char, if_pos rfl, map_found]

/-! ### Steps -/

theorem step_sound (hsound : Sound reference R) {s rest : List Char} {st : Step}
    (hstarts : startsStep s = true) (h : step ctx reference s = found st rest) :
    ∃ t, s = t ++ rest ∧ StepText ctx R t st := by
  obtain ⟨t, mid, ht, hf⟩ := andThen_eq_found_iff.1 h
  obtain ⟨o, ho, rfl⟩ := map_eq_found_iff.1 hf
  obtain ⟨u, rfl, htarget⟩ := target_sound hstarts ht
  rcases filter_sound hsound ho with ⟨rfl, rfl⟩ | ⟨v, f, rfl, rfl, hfilter⟩
  · exact ⟨u, rfl, .plain htarget⟩
  · exact ⟨u ++ v, (List.append_assoc _ _ _).symm, .filtered htarget hfilter⟩

theorem step_complete (hcomplete : Complete reference R PathEnd) :
    Complete (step ctx reference) (StepText ctx R) StepEnd := by
  intro s rest st h hrest
  cases h with
  | plain ht =>
      rw [step, target_complete ht hrest.stops_name, andThen_found,
        filter_of_stops hrest.stops_filter, map_found]
  | @filtered s u t f ht hf =>
      have hname : Stops isNameChar (u ++ rest) := by
        cases hf
        rw [List.cons_append, stops_cons]
        decide
      rw [List.append_assoc, step, target_complete ht hname, andThen_found,
        filter_complete hcomplete hf, map_found]

end Steps

end Reading

theorem TargetText.startsStep_append {ctx : Context} {s : List Char} {t : Target}
    (h : TargetText ctx s t) (rest : List Char) : Reading.startsStep (s ++ rest) = true := by
  cases h <;> rfl

/-- A step starts with a point or a bracket. -/
theorem StepText.startsStep_append {ctx : Context} {R : List Char → Path → Prop} {s : List Char}
    {st : Step} (h : StepText ctx R s st) (rest : List Char) :
    Reading.startsStep (s ++ rest) = true := by
  cases h with
  | plain ht => exact ht.startsStep_append rest
  | filtered ht _ =>
      rw [List.append_assoc]
      exact ht.startsStep_append _

theorem stepEnd_of_startsStep {s : List Char} (h : Reading.startsStep s = true) : StepEnd s := by
  cases s with
  | nil => exact stops_nil _
  | cons c s =>
      rcases (by simpa [Reading.startsStep] using h : c = '.' ∨ c = '[') with rfl | rfl <;>
        exact (stops_cons _ _ _).2 (by decide)

theorem PathEnd.startsStep_eq_false {rest : List Char} (h : PathEnd rest) :
    Reading.startsStep rest = false := by
  cases rest with
  | nil => rfl
  | cons c rest =>
      have hc := (stops_cons _ c rest).1 h
      simp only [goesOnPath, Bool.or_eq_false_iff] at hc
      simp [Reading.startsStep, beq_eq_false_iff_ne.1 hc.1.2, beq_eq_false_iff_ne.1 hc.2]

/-- Before more steps, a step ends. -/
theorem StepsText.stepEnd_append {ctx : Context} {R : List Char → Path → Prop} {s rest : List Char}
    {sts : List Step} (h : StepsText ctx R s sts) (hrest : StepEnd rest) : StepEnd (s ++ rest) := by
  cases h with
  | nil => exact hrest
  | cons h _ =>
      rw [List.append_assoc]
      exact stepEnd_of_startsStep (h.startsStep_append _)

namespace Reading

section Steps

variable {ctx : Context} {reference : List Char → Reading Path} {R : List Char → Path → Prop}

/-- Steps that are read are steps of the grammar, however many may be read. -/
theorem steps_sound (hsound : Sound reference R) (count : Nat) :
    Sound (steps ctx reference count) (StepsText ctx R) := by
  induction count with
  | zero =>
      intro s rest sts h
      cases h
      exact ⟨[], rfl, .nil⟩
  | succ count ih =>
      intro s rest sts h
      rw [steps] at h
      split at h
      · next hstarts =>
          obtain ⟨st, mid, hst, hmore⟩ := andThen_eq_found_iff.1 h
          obtain ⟨sts, hsts, rfl⟩ := map_eq_found_iff.1 hmore
          obtain ⟨t, rfl, ht⟩ := step_sound hsound hstarts hst
          obtain ⟨u, rfl, hu⟩ := ih hsts
          exact ⟨t ++ u, (List.append_assoc _ _ _).symm, .cons ht hu⟩
      · cases h
        exact ⟨[], rfl, .nil⟩

theorem length_pos_of_startsStep {s : List Char} (h : startsStep s = true) : 0 < s.length := by
  cases s with
  | nil => cases h
  | cons _ _ => exact Nat.succ_pos _

theorem steps_of_startsStep_eq_false {s : List Char} (h : startsStep s = false) (count : Nat) :
    steps ctx reference count s = found [] s := by
  cases count with
  | zero => rfl
  | succ count => rw [steps, if_neg (by simp [h])]

/-- **Reading goes on after the steps of a text**: in front of any rest before which steps end, they
are read first, and then what is read from the rest. -/
theorem steps_append (hcomplete : Complete reference R PathEnd) {s rest : List Char}
    {sts : List Step} (h : StepsText ctx R s sts) (hrest : StepEnd rest) (count : Nat) :
    steps ctx reference (sts.length + count) (s ++ rest) =
      (steps ctx reference count rest).map (sts ++ ·) := by
  induction h with
  | nil =>
      rw [List.length_nil, Nat.zero_add, List.nil_append]
      cases steps ctx reference count rest <;> rfl
  | @cons s t st sts hst hsts ih =>
      have hcount : (st :: sts).length + count = sts.length + count + 1 := by
        rw [List.length_cons]
        omega
      rw [hcount, List.append_assoc, steps, if_pos (hst.startsStep_append _),
        step_complete hcomplete hst (hsts.stepEnd_append hrest), andThen_found, ih, map_map]
      rfl

/-- All the steps of a text are read, if as many may be read. -/
theorem steps_complete (hcomplete : Complete reference R PathEnd) {s rest : List Char}
    {sts : List Step} (h : StepsText ctx R s sts) (hrest : PathEnd rest) {count : Nat}
    (hcount : sts.length ≤ count) : steps ctx reference count (s ++ rest) = found sts rest := by
  obtain ⟨more, rfl⟩ := Nat.exists_eq_add_of_le hcount
  rw [steps_append hcomplete h hrest.stepEnd,
    steps_of_startsStep_eq_false hrest.startsStep_eq_false, map_found, List.append_nil]

end Steps

/-! ### References -/

section References

variable {ctx : Context}

/-- A reference that is read is a path of the grammar, whatever the depth. -/
theorem reference_sound (depth : Nat) : Sound (reference ctx depth) (PathText ctx) := by
  induction depth with
  | zero =>
      intro s rest p h
      cases h
  | succ depth ih =>
      intro s rest p h
      obtain ⟨sts, mid, hsts, hp⟩ := andThen_eq_found_iff.1 h
      obtain ⟨t, rfl, ht⟩ := steps_sound ih _ hsts
      split at hp
      · cases hp
      · next hne =>
          cases hp
          rw [consumed_append]
          exact ⟨t, rfl, .mk ht (by simpa using hne)⟩

/-- **A path after `@` is read** by the reader of references of any depth greater than the number
of marks `@` in it. -/
theorem reference_complete (depth : Nat) :
    Complete (reference ctx depth) (fun s p => PathText ctx s p ∧ s.count '@' < depth) PathEnd := by
  induction depth with
  | zero =>
      intro s rest p h _
      exact absurd h.2 (Nat.not_lt_zero _)
  | succ depth ih =>
      rintro s rest p ⟨⟨hsteps, nonempty⟩, hcount⟩ hrest
      have hnested := hsteps.nested_count_lt (Nat.le_of_lt_succ hcount)
      have hlen := hsteps.length_le.trans (Nat.le_add_right s.length rest.length)
      rw [← List.length_append] at hlen
      rw [reference, steps_complete ih hnested hrest hlen, andThen_found,
        if_neg (by simpa using nonempty), consumed_append]

/-! ### Whole texts -/

theorem whole_sound {s rest : List Char} {p : Path} (h : whole ctx s = found p rest) :
    PathText ctx s p ∨ s = [] := by
  obtain ⟨sts, mid, hsts, hp⟩ := andThen_eq_found_iff.1 h
  obtain ⟨t, rfl, ht⟩ := steps_sound (reference_sound _) _ hsts
  split at hp
  · next hmid =>
      cases hp
      obtain rfl := List.isEmpty_iff.1 hmid
      rw [List.append_nil]
      cases ht with
      | nil => exact Or.inr rfl
      | cons hst hmore => exact Or.inl (.mk (.cons hst hmore) (List.cons_ne_nil _ _))
  · cases hp

theorem whole_complete {s : List Char} {p : Path} (h : PathText ctx s p) :
    whole ctx s = found p [] := by
  obtain ⟨hsteps, nonempty⟩ := h
  have hread := steps_complete (reference_complete (s.count '@'))
    (hsteps.nested_count_lt (Nat.le_refl _)) pathEnd_nil hsteps.length_le
  rw [List.append_nil] at hread
  rw [whole, hread, andThen_found]
  rfl

end References

end Reading

theorem PathText.ne_nil {ctx : Context} {s : List Char} {p : Path} (h : PathText ctx s p) :
    s ≠ [] := by
  obtain ⟨hsteps, nonempty⟩ := h
  cases hsteps with
  | nil => exact absurd rfl nonempty
  | cons hst _ => simp [hst.ne_nil]

/-- A path has at least one step. -/
theorem PathText.steps_ne_nil {ctx : Context} {s : List Char} {p : Path} (h : PathText ctx s p) :
    p.steps ≠ [] := by
  obtain ⟨-, nonempty⟩ := h
  exact nonempty

/-! ### Compiling -/

/-- Compiling is derivation. -/
theorem compile_eq_ok_iff {ctx : Context} {expression : String} {p : Path} :
    compile ctx expression = .ok p ↔ PathText ctx expression.toList p := by
  simp only [compile, List.isEmpty_iff]
  constructor
  · intro h
    split at h
    · cases h
    · next hne =>
        split at h
        · next q rest hwhole =>
            cases h
            exact (Reading.whole_sound hwhole).resolve_right hne
        · cases h
  · intro h
    rw [if_neg h.ne_nil, Reading.whole_complete h]

theorem pathText_iff_compile {ctx : Context} {s : List Char} {p : Path} :
    PathText ctx s p ↔ compile ctx (String.ofList s) = .ok p := by
  rw [compile_eq_ok_iff, String.toList_ofList]

/-- **A text compiles exactly when it derives from the grammar**, which it does in one way only, and
it then compiles to the tree of its derivation. -/
theorem compile_recognises_grammar (ctx : Context) (expression : String) :
    ((∃ p, compile ctx expression = .ok p) ↔ ∃! p, PathText ctx expression.toList p) ∧
      ∀ p, compile ctx expression = .ok p ↔ PathText ctx expression.toList p := by
  refine ⟨⟨?_, ?_⟩, fun p => compile_eq_ok_iff⟩
  · rintro ⟨p, hp⟩
    refine ⟨p, compile_eq_ok_iff.1 hp, ?_⟩
    intro q hq
    have hcompile := compile_eq_ok_iff.2 hq
    rw [hp] at hcompile
    exact (Except.ok.inj hcompile).symm
  · rintro ⟨p, hp, -⟩
    exact ⟨p, compile_eq_ok_iff.2 hp⟩

end TreePath
