/-
**Paths one after another.**

The text of a path followed by the text of a path is the text of a path: its steps are the steps of
the first and then those of the second, and it leads to all that the second leads to from anything
that the first leads to.  On the side of texts this rests on the grammar, where lists of steps may
be put together; on the side of values, on the recursion over steps.

The converse needs the readers.  A text that starts with a point or a bracket is one before which
steps end, so what is read from it after a path is what would be read from it alone.

Main results:

* `Path.select_of_steps_append` — what the two lists of steps in a row lead to;
* `Reading.exists_steps_of_append` — after a path, the rest is read as steps of its own;
* `compile_append` — **two paths in a row** compile to their steps in a row, and a text compiles
  if it does after a path.
-/

import TreePath.Condition.Builtin
import TreePath.Proofs.Path.Recognition
import TreePath.Proofs.Evaluation.Refinement

set_option relaxedAutoImplicit false
set_option autoImplicit false

namespace TreePath

/-- A path that takes the steps of two others in a row leads to all that the second leads to from
anything that the first leads to, in order. -/
theorem Path.select_of_steps_append {p q r : Path} (h : r.steps = p.steps ++ q.steps) (v : Value) :
    r.select v = (p.select v).flatMap q.select := by
  have hhops : r.hops = p.hops ++ q.hops := by
    rw [Path.hops_eq_map, Path.hops_eq_map, Path.hops_eq_map, h, List.map_append]
  rw [r.select_eq_follow, p.select_eq_follow, hhops, follow_append]
  exact List.flatMap_congr fun c _ => (q.select_eq_follow c).symm

/-- The texts of two paths in a row are the text of the path of their steps in a row. -/
theorem PathText.append {ctx : Context} {s t : List Char} {p q : Path} (hp : PathText ctx s p)
    (hq : PathText ctx t q) :
    PathText ctx (s ++ t) ⟨String.ofList (s ++ t), p.steps ++ q.steps⟩ := by
  obtain ⟨hsteps, nonempty⟩ := hp
  obtain ⟨hmore, -⟩ := hq
  exact .mk (hsteps.append hmore) (by simp [nonempty])

/-- **After a path the rest is read as steps of its own.** -/
theorem Reading.exists_steps_of_append {ctx : Context} {s t : List Char} {p r : Path}
    (hp : PathText ctx s p) (ht : StepEnd t) (hr : PathText ctx (s ++ t) r) :
    ∃ sts, StepsText ctx (PathText ctx) t sts ∧ r.steps = p.steps ++ sts := by
  cases hp with
  | @mk _ sts hsteps _ =>
      cases hr with
      | @mk _ all hall _ =>
          have hcomplete := @reference_complete ctx ((s ++ t).count '@')
          have hcount : s.count '@' ≤ (s ++ t).count '@' := by
            rw [List.count_append]
            exact Nat.le_add_right _ _
          have hnested := hsteps.nested_count_lt hcount
          -- All the steps are read from the whole text, and so are those of the first path.
          have hwhole := steps_complete hcomplete (hall.nested_count_lt (Nat.le_refl _)) pathEnd_nil
            (Nat.le_add_left all.length sts.length)
          rw [List.append_nil, steps_append hcomplete hnested ht] at hwhole
          obtain ⟨more, hmore, rfl⟩ := map_eq_found_iff.1 hwhole
          obtain ⟨u, hu, htext⟩ := steps_sound (reference_sound _) _ hmore
          rw [List.append_nil] at hu
          exact ⟨more, hu ▸ htext, rfl⟩

/-- **Two paths in a row.**  After a text that compiles, another text that compiles makes both
compile to the steps of the one and then those of the other, which lead from every value to all that
the other leads to from anything that the one leads to, in order.  Conversely a text that starts
with a point or a bracket compiles if it does so after a text that compiles. -/
theorem compile_append {ctx : Context} {s : String} {p : Path} (hp : compile ctx s = .ok p)
    (t : String) :
    (∀ q, compile ctx t = .ok q → ∃ r, compile ctx (s ++ t) = .ok r ∧
      r.steps = p.steps ++ q.steps ∧ ∀ v, r.select v = (p.select v).flatMap q.select) ∧
    (t.toList.head? = some '.' ∨ t.toList.head? = some '[' →
      (∃ r, compile ctx (s ++ t) = .ok r) → ∃ q, compile ctx t = .ok q) := by
  have hs := compile_eq_ok_iff.1 hp
  constructor
  · intro q hq
    have hr := hs.append (compile_eq_ok_iff.1 hq)
    rw [← String.toList_append] at hr
    exact ⟨_, compile_eq_ok_iff.2 hr, rfl, Path.select_of_steps_append rfl⟩
  · rintro hstarts ⟨r, hr⟩
    have hstep : Reading.startsStep t.toList = true := by
      rcases hstarts with h | h <;> simp [Reading.startsStep, h]
    have htext := compile_eq_ok_iff.1 hr
    rw [String.toList_append] at htext
    obtain ⟨sts, hsts, -⟩ :=
      Reading.exists_steps_of_append hs (stepEnd_of_startsStep hstep) htext
    refine ⟨_, compile_eq_ok_iff.2 (.mk hsts ?_)⟩
    rintro rfl
    rw [hsts.eq_nil rfl] at hstep
    cases hstep

/-- A step with a filter before a step with a range, and what follows the filter by itself. -/
theorem compile_append_filtered :
    (∃ r, compile Context.standard (".a(has(@.b))" ++ "[0].c") = .ok r ∧ r.steps.length = 3) ∧
      ∃ q, compile Context.standard "[0].c" = .ok q := by
  obtain ⟨p, hp, hsteps⟩ : ∃ p, compile Context.standard ".a(has(@.b))" = .ok p ∧
      p.steps.length = 1 := ⟨_, rfl, rfl⟩
  obtain ⟨q, hq, hmore⟩ : ∃ q, compile Context.standard "[0].c" = .ok q ∧ q.steps.length = 2 :=
    ⟨_, rfl, rfl⟩
  obtain ⟨hforward, hbackward⟩ := compile_append hp "[0].c"
  obtain ⟨r, hr, happend, -⟩ := hforward q hq
  refine ⟨⟨r, hr, ?_⟩, hbackward (.inr rfl) ⟨r, hr⟩⟩
  rw [happend, List.length_append, hsteps, hmore]

end TreePath
