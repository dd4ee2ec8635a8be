/-
**An error does not depend on where a path stands.**

A text that starts with a step is read alike at the beginning of an expression, after the steps of
another path, and after the mark `@` of a path in a filter.  If it is not a path, then it faults at
the same character and for the same cause everywhere, and the offset grows by the length of what
stands before it.  The one exception is what may come after the last step: an expression has to end
there, and a path in a filter need not.

The reader of paths after `@` is told how deep references may be nested, and the reader of steps how
many it may read.  Neither number matters as long as it is great enough: this is the special case of
two texts that are read alike to their end.

Main definitions:

* `OpensReference` — a text that ends with the mark of a path in a filter.

Main results:

* `Reading.steps_reference_eq` — the bounds on depth and number do not matter;
* `Reading.whole_append` — what comes after a path is read as it is alone;
* `OpensReference.stepPlace` — a step can come after such a mark;
* `compile_error_shifts` — **an error is the same wherever a path stands**.
-/

import TreePath.Proofs.Path.Lookahead
import TreePath.Proofs.Path.References

set_option relaxedAutoImplicit false
set_option autoImplicit false

namespace TreePath

namespace Reading

/-! ### Bounds that do not matter -/

/-- Readings that are alike to the end of a text are the same. -/
theorem Alike.eq_of_nil {α : Type} {r r' : Reading α} (h : Alike [] [] r r') : r = r' := by
  cases r with
  | found a rest => exact (by simpa using h.found a rest (by simp) : r' = _).symm
  | fault rest cause => exact (by simpa using h.fault rest cause (by simp) (.inl rfl) : r' = _).symm

variable {ctx : Context}

/-- **The steps of a text are the same** for all bounds that are great enough. -/
theorem steps_reference_eq {s : List Char} {depth depth' count count' : Nat}
    (hdepth : s.count '@' ≤ depth) (hdepth' : s.count '@' ≤ depth') (hcount : s.length ≤ count)
    (hcount' : s.length ≤ count') :
    steps ctx (reference ctx depth) count s = steps ctx (reference ctx depth') count' s := by
  have halike : Alike [] [] (steps ctx (reference ctx depth) count (s ++ []))
      (steps ctx (reference ctx depth') count' (s ++ [])) := by
    refine alike_steps .nil (P := fun v => v.count '@' ≤ depth ∧ v.count '@' ≤ depth')
      (endsIn_reference ctx depth) ?_ ?_ s ⟨hdepth, hdepth'⟩ (by simpa using hcount)
      (by simpa using hcount')
    · rintro v ⟨hv, hv'⟩
      rw [List.count_cons_self] at hv hv'
      exact alike_reference .nil v (by rw [List.append_nil]; omega) (by rw [List.append_nil]; omega)
    · rintro v w ⟨x, rfl⟩ ⟨hv, hv'⟩
      simp only [List.count_append] at hv hv' ⊢
      omega
  simpa using halike.eq_of_nil

/-! ### After a path -/

/-- **What comes after a path is read as it is alone**, if it starts with a step. -/
theorem whole_append {s t rest : List Char} {p : Path} {cause : Cause} (hs : PathText ctx s p)
    (hstarts : startsStep t = true) (h : whole ctx t = fault rest cause) :
    whole ctx (s ++ t) = fault rest cause := by
  obtain @⟨_, sts, hsteps, -⟩ := hs
  have hlength := hsteps.length_le
  have hmarks : (s ++ t).count '@' = s.count '@' + t.count '@' := List.count_append
  obtain ⟨more, hmore, hle⟩ : ∃ more, (s ++ t).length = sts.length + more ∧ t.length ≤ more :=
    ⟨(s ++ t).length - sts.length, by rw [List.length_append]; omega,
      by rw [List.length_append]; omega⟩
  have hread : steps ctx (reference ctx ((s ++ t).count '@')) (s ++ t).length (s ++ t) =
      (steps ctx (reference ctx (t.count '@')) t.length t).map (sts ++ ·) := by
    rw [hmore, steps_append (reference_complete _) (hsteps.nested_count_lt (by omega))
      (stepEnd_of_startsStep hstarts), steps_reference_eq (by omega) (Nat.le_refl _) hle
      (Nat.le_refl _)]
  rw [whole] at h ⊢
  rw [hread]
  cases hsecond : steps ctx (reference ctx (t.count '@')) t.length t with
  | fault rest' cause' => rwa [hsecond] at h
  | found more rest' =>
      rw [hsecond, andThen_found] at h
      rw [map_found, andThen_found]
      split at h
      · cases h
      · next hleft => rwa [if_neg hleft]

/-- A fault of a whole text is a fault of its steps, unless something is left over after them. -/
theorem steps_of_whole_eq_fault {s rest : List Char} {cause : Cause}
    (h : whole ctx s = fault rest cause) (hcause : ∀ c, cause ≠ .unexpected c .step) :
    steps ctx (reference ctx (s.count '@')) s.length s = fault rest cause := by
  rw [whole] at h
  cases hsteps : steps ctx (reference ctx (s.count '@')) s.length s with
  | fault rest' cause' =>
      rw [hsteps, andThen_fault] at h
      cases h
      rfl
  | found sts rest' =>
      rw [hsteps, andThen_found] at h
      split at h
      · cases h
      · cases h
        exact absurd rfl (hcause _)

end Reading

/-! ### After a mark -/

/-- The text ends with the mark of a path in a filter: before some path and some rest it compiles,
and the path that stands after as many marks in the result has this text. -/
def OpensReference (ctx : Context) (h : String) : Prop :=
  ∃ (A N B : String) (p r : Path) (k : Nat), h = A ++ "@" ∧ compile ctx (h ++ N ++ B) = .ok p ∧
    HasMarks A.toList k ∧ p.references[k]? = some r ∧ r.source = N

/-- **A step can come after the mark of a path in a filter.** -/
theorem OpensReference.stepPlace {ctx : Context} {h : String} (hopens : OpensReference ctx h) :
    StepPlace ctx h.toList := by
  obtain ⟨A, N, B, p, r, k, rfl, hp, hA, hr, rfl⟩ := hopens
  obtain ⟨around, before, after, t, hat, hs, -, -⟩ :=
    (compile_eq_ok_iff.1 hp).exists_surroundedAt hr
  have hs' : A.toList ++ '@' :: (r.source.toList ++ B.toList) = before ++ '@' :: (t ++ after) := by
    simpa using hs
  have hplace := hat.place [] (.next .nil)
  rw [← hA.eq_of_append_eq hat.marks hs'] at hplace
  simpa using hplace

/-! ### Compiling -/

/-- A fault in the end of a text is an error as far into the text as what stands before it is long,
and then as far into its end. -/
theorem compile_append_eq_error {ctx : Context} {s q : String} {front rest : List Char}
    {cause : Cause} (hq : q.toList = front ++ rest) (hne : q.toList ≠ [])
    (h : Reading.whole ctx (s.toList ++ q.toList) = .fault rest cause) :
    compile ctx (s ++ q) =
      .error ⟨s ++ q, byteLength s.toList + byteLength front, cause⟩ := by
  rw [← String.toList_append] at h
  rw [compile_eq_error (by simp [hne]) h, String.toList_append, hq, ← List.append_assoc,
    byteLength_append_sub, byteLength, total_append]
  rfl

/-- **An error is the same wherever a path stands.**  Let a text start with a point or a bracket and
fail to compile.  After any text that compiles, it fails for the same cause, and the offset grows by
the length of that text.  After any text that ends with the mark of a path in a filter it does so,
too, if the error is not that something is left over after the last step. -/
theorem compile_error_shifts {ctx : Context} {q : String} {e : SyntaxError}
    (he : compile ctx q = .error e)
    (hstarts : q.toList.head? = some '.' ∨ q.toList.head? = some '[') :
    (∀ (s : String) (p : Path), compile ctx s = .ok p →
      compile ctx (s ++ q) = .error ⟨s ++ q, byteLength s.toList + e.offset, e.cause⟩) ∧
    ((∀ c, e.cause ≠ .unexpected c .step) → ∀ h : String, OpensReference ctx h →
      compile ctx (h ++ q) = .error ⟨h ++ q, byteLength h.toList + e.offset, e.cause⟩) := by
  have hstep : Reading.startsStep q.toList = true := by
    rcases hstarts with h | h <;> simp [Reading.startsStep, h]
  have hne : q.toList ≠ [] := fun hnil => by rw [hnil] at hstep; cases hstep
  rcases exists_fault_of_compile he with ⟨hnil, -, -⟩ | ⟨front, rest, hq, hoffset, hwhole⟩
  · exact absurd hnil hne
  rw [← hq] at hwhole
  rw [hoffset]
  refine ⟨fun s p hp => ?_, fun hinside h hopens => ?_⟩
  · exact compile_append_eq_error hq hne
      (Reading.whole_append (compile_eq_ok_iff.1 hp) hstep hwhole)
  · have hsteps := Reading.steps_of_whole_eq_fault hwhole hinside
    refine compile_append_eq_error hq hne
      (hopens.stepPlace.whole_eq_fault_of_steps hstep fun depth count hdepth hcount => ?_)
    rw [Reading.steps_reference_eq hdepth (Nat.le_refl _) hcount (Nat.le_refl _), hsteps]

/-- A descendant step inside of a filter: alone, after a path, and after a mark two levels down. -/
theorem compile_error_shifts_nested :
    compile Context.standard ".a(has(@..b))" = .error ⟨".a(has(@..b))", 8, .descendantStep⟩ ∧
      compile Context.standard ("[0].x" ++ ".a(has(@..b))") =
        .error ⟨"[0].x" ++ ".a(has(@..b))", 13, .descendantStep⟩ ∧
      compile Context.standard (".a(has(@.b(eq(@" ++ ".a(has(@..b))") =
        .error ⟨".a(has(@.b(eq(@" ++ ".a(has(@..b))", 23, .descendantStep⟩ := by
  have herror : compile Context.standard ".a(has(@..b))" =
      .error ⟨".a(has(@..b))", 8, .descendantStep⟩ := rfl
  obtain ⟨hpath, hmark⟩ := compile_error_shifts herror (.inl rfl)
  obtain ⟨p, hp⟩ : ∃ p, compile Context.standard "[0].x" = .ok p := ⟨_, rfl⟩
  have hopens : OpensReference Context.standard ".a(has(@.b(eq(@" :=
    ⟨".a(has(@.b(eq(", ".c", ", '@'))))", .twofold, .ofKeyC, 1, by decide, rfl, ⟨rfl, rfl⟩, rfl,
      rfl⟩
  have hfirst : byteLength "[0].x".toList = 5 := by decide
  have hsecond : byteLength ".a(has(@.b(eq(@".toList = 15 := by decide
  refine ⟨herror, ?_, ?_⟩
  · rw [hpath _ p hp, hfirst]
    rfl
  · rw [hmark nofun _ hopens, hsecond]
    rfl

end TreePath
