/-
**Reading with and without descendant steps.**

Two contexts with the same conditions, of which one allows descendant steps and the other does not,
are two ways to read one text.  They do the same thing until a step starts with two points.  There
the reading without descendant steps stops, and the other one goes on; whatever it reads in the end
has a descendant step.  `Parting` says this of two readings, and this module proves it for each of
the readers, from arguments up to whole texts.

Main definitions:

* `Path.Descends` — a path with a descendant step, at any depth;
* `Parting` — two readings of a text that part at most where a step starts with two points.

Main results:

* `Parting.andThen` — readings one after another;
* `Reading.steps_parting`, `Reading.reference_parting` — the readers of steps and references;
* `compile_parting` — **two compilations part at most at a descendant step**.
-/

import TreePath.Proofs.Path.Places

set_option relaxedAutoImplicit false
set_option autoImplicit false

namespace TreePath

/-! ### Descendant steps -/

/-- A descendant step stands in the path, or in a path inside it. -/
def Path.Descends (p : Path) : Prop :=
  ∃ q : Path, q.Within p ∧ ∃ st ∈ q.steps, st.target.isDescendant = true

/-- The argument is a path with a descendant step. -/
def Argument.Descends (a : Argument) : Prop := ∃ p : Path, a = .path p ∧ p.Descends

/-- The step is a descendant step, or one stands among the arguments of its filter. -/
def Step.Descends (st : Step) : Prop :=
  st.target.isDescendant = true ∨ ∃ f, st.filter = some f ∧ ∃ a ∈ f.arguments, a.Descends

theorem Path.descends_of_mem {p : Path} {st : Step} (hst : st ∈ p.steps) (h : st.Descends) :
    p.Descends := by
  rcases h with h | ⟨f, hf, a, ha, q, rfl, r, hr, hdescends⟩
  · exact ⟨p, .refl, st, hst, h⟩
  · exact ⟨r, .nested hst hf ha hr, hdescends⟩

/-! ### Two readings of one text -/

/-- **Two readings of a text, with descendant steps and without**, are the same, or the second stops
where a step starts with two points.  What stands before them is a text with the property `P`, and
what the first reading finds then has the property `D`. -/
inductive Parting {α : Type} (P : List Char → Prop) (D : α → Prop) (s : List Char)
    (on : Reading α) : Reading α → Prop
  | same : Parting P D s on on
  | apart {a b : List Char} (hs : s = a ++ '.' :: '.' :: b) (ha : P a)
      (hfound : ∀ x rest, on = .found x rest → D x) :
      Parting P D s on (.fault ('.' :: '.' :: b) .descendantStep)

namespace Parting

variable {α β : Type} {P Q : List Char → Prop} {D : α → Prop} {E : β → Prop} {s : List Char}
  {on off : Reading α}

theorem imp (h : Parting P D s on off) (hPQ : ∀ a, P a → Q a) : Parting Q D s on off := by
  cases h with
  | same => exact .same
  | apart hs ha hfound => exact .apart hs (hPQ _ ha) hfound

/-- More text in front moves the place. -/
theorem append (u : List Char) (h : Parting (fun a => Q (u ++ a)) D s on off) :
    Parting Q D (u ++ s) on off := by
  cases h with
  | same => exact .same
  | apart hs ha hfound =>
      refine .apart ?_ ha hfound
      rw [hs, List.append_assoc]

/-- **Readings one after another** part if the first do, or else where the second do. -/
theorem andThen (h : Parting P D s on off) {f g : α → List Char → Reading β}
    (hfound : ∀ x rest y rest', D x → f x rest = .found y rest' → E y)
    (hnext : ∀ x rest, off = .found x rest → Parting P E s (f x rest) (g x rest)) :
    Parting P E s (on.andThen f) (off.andThen g) := by
  cases h with
  | same =>
      cases on with
      | found x rest => exact hnext x rest rfl
      | fault rest cause => exact .same
  | apart hs ha hon =>
      refine .apart hs ha ?_
      intro y rest' hy
      obtain ⟨x, rest, hx, hy⟩ := Reading.andThen_eq_found_iff.1 hy
      exact hfound x rest y rest' (hon x rest hx) hy

theorem map (h : Parting P D s on off) {f : α → β} (hfound : ∀ x, D x → E (f x)) :
    Parting P E s (on.map f) (off.map f) := by
  refine h.andThen ?_ fun _ _ _ => .same
  intro x rest y rest' hx hy
  cases hy
  exact hfound x hx

/-- After what is read alike, only what follows can part. -/
theorem after {first : Reading α} {f g : α → List Char → Reading β}
    (hnext : ∀ x rest, first = .found x rest → Parting P E s (f x rest) (g x rest)) :
    Parting P E s (first.andThen f) (first.andThen g) :=
  (Parting.same (D := fun _ => False)).andThen nofun hnext

end Parting

/-! ### The readers of a filter -/

namespace Reading

section Filters

variable {off : Context} {onReference offReference : List Char → Reading Path}
  (hreference : ∀ s, Parting (StepPlace off) Path.Descends s (onReference s) (offReference s))
  (hsound : Sound offReference (PathText off))

include hreference

theorem argument_parting (s : List Char) :
    Parting (fun a => ∃ inner, a = '@' :: inner ∧ StepPlace off inner) Argument.Descends s
      (argument onReference s) (argument offReference s) := by
  cases s with
  | nil => exact .same
  | cons c rest =>
      by_cases hc : c = '@'
      · subst hc
        rw [argument_mark, argument_mark]
        refine .append ['@'] (((hreference rest).map fun p hp => ⟨p, rfl, hp⟩).imp ?_)
        intro a ha
        exact ⟨a, rfl, ha⟩
      · simp only [argument, if_neg hc]
        exact .same

include hsound

theorem arguments_parting (c : Condition) (place : Nat) (signature : List KindSet)
    (s : List Char) :
    Parting (ArgumentPlace off signature) (fun as => ∃ a ∈ as, a.Descends) s
      (arguments onReference c place signature s)
      (arguments offReference c place signature s) := by
  induction signature generalizing place s with
  | nil => exact .same
  | cons accepted signature ih =>
      obtain ⟨sp, hsp, hs⟩ := exists_skipSpaces s
      have hfirst : Parting (ArgumentPlace off (accepted :: signature)) Argument.Descends s
          (argument onReference (skipSpaces s)) (argument offReference (skipSpaces s)) := by
        have hargument := argument_parting hreference (skipSpaces s)
        generalize skipSpaces s = skipped at hs hargument
        subst hs
        refine .append sp (hargument.imp ?_)
        rintro _ ⟨inner, rfl, hinner⟩
        exact ⟨sp, inner, accepted, signature, rfl, .spaces hsp, hinner⟩
      rw [arguments, arguments]
      refine hfirst.andThen ?_ ?_
      · intro a rest as rest' ha has
        refine ⟨a, ?_, ha⟩
        split at has
        · split at has
          · obtain ⟨more, -, rfl⟩ := map_eq_found_iff.1 has
            exact List.mem_cons_self
          · cases has
            exact List.mem_cons_self
        · cases has
      · intro a rest ha
        obtain ⟨t, ht, htext⟩ := argument_sound hsound ha
        obtain ⟨after, hafter, hrest⟩ := exists_skipSpaces rest
        split
        · next hkind =>
            split
            · next more hmore =>
                have hs' : s = sp ++ (t ++ (after ++ [','])) ++ more := by
                  rw [hs, ht, hrest, hmore]
                  simp
                rw [hs']
                refine .append _ (((ih (place + 1) more).map ?_).imp ?_)
                · rintro as ⟨b, hb, hdescends⟩
                  exact ⟨b, List.mem_cons_of_mem a hb, hdescends⟩
                · intro front hfront
                  simpa using hfront.cons hsp htext hkind hafter
            · exact .same
        · exact .same

theorem argumentList_parting (c : Condition) (s : List Char) :
    Parting (ArgumentPlace off c.signature) (fun as => ∃ a ∈ as, a.Descends) s
      (argumentList onReference c s) (argumentList offReference c s) := by
  rw [argumentList, argumentList]
  split
  · exact .same
  · refine (arguments_parting hreference hsound c 0 c.signature s).andThen ?_ fun _ _ _ => .same
    intro as rest bs rest' has hbs
    split at hbs
    · cases hbs
    · cases hbs
      exact has

theorem filter_parting (s : List Char) :
    Parting (FilterPlace off) (fun f => ∃ g, f = some g ∧ ∃ a ∈ g.arguments, a.Descends) s
      (filter (off.withDescendants true) onReference s) (filter off offReference s) := by
  rw [filter.eq_def, filter.eq_def]
  split
  · next s =>
      refine Parting.map (D := fun g : Filter => ∃ a ∈ g.arguments, a.Descends) ?_
        fun g hg => ⟨g, rfl, hg⟩
      refine Parting.after fun c r₁ hcondition => Parting.after fun u r₂ hopen => ?_
      obtain ⟨call, name, hs, hcall, hfind⟩ := exists_callText hcondition hopen
      rw [hs]
      refine .append call (((argumentList_parting hreference hsound c r₂).imp ?_).andThen ?_
        fun _ _ _ => .same)
      · intro args hargs
        exact ⟨call, name, c, args, rfl, hcall, hfind, hargs⟩
      · intro as r₃ f rest has hf
        obtain ⟨_, r₄, -, hf⟩ := andThen_eq_found_iff.1 hf
        obtain ⟨_, -, rfl⟩ := map_eq_found_iff.1 hf
        exact has
  · exact .same

/-! ### The readers of steps -/

omit hreference hsound in
theorem target_parting (s : List Char) :
    Parting (· = []) (fun t => t.isDescendant = true) s (target (off.withDescendants true) s)
      (target off s) := by
  rw [target.eq_def, target.eq_def]
  split
  · exact .same
  · by_cases hoff : off.descendants = true
    · rw [if_pos hoff]
      exact .same
    · rw [if_neg hoff]
      refine .apart (a := []) rfl rfl ?_
      intro t rest ht
      obtain ⟨sel, -, rfl⟩ := map_eq_found_iff.1 ht
      rfl
  · exact .same

theorem step_parting {s : List Char} (hstarts : startsStep s = true) :
    Parting (StepPlace off) Step.Descends s (step (off.withDescendants true) onReference s)
      (step off offReference s) := by
  refine ((target_parting s).imp ?_).andThen ?_ ?_
  · rintro _ rfl
    exact .next .nil
  · intro t rest st rest' ht hst
    obtain ⟨f, -, rfl⟩ := map_eq_found_iff.1 hst
    exact .inl ht
  · intro t rest ht
    obtain ⟨u, rfl, htext⟩ := target_sound hstarts ht
    refine .append u (((filter_parting hreference hsound rest).map ?_).imp ?_)
    · rintro f ⟨g, rfl, hg⟩
      exact .inr ⟨g, rfl, hg⟩
    · intro a ha
      exact ha.stepPlace htext

theorem steps_parting (count : Nat) (s : List Char) :
    Parting (StepPlace off) (fun sts => ∃ st ∈ sts, st.Descends) s
      (steps (off.withDescendants true) onReference count s) (steps off offReference count s) := by
  induction count generalizing s with
  | zero => exact .same
  | succ count ih =>
      rw [steps, steps]
      split
      · next hstarts =>
          refine (step_parting hreference hsound hstarts).andThen ?_ ?_
          · intro st rest sts rest' hst hsts
            obtain ⟨more, -, rfl⟩ := map_eq_found_iff.1 hsts
            exact ⟨st, List.mem_cons_self, hst⟩
          · intro st rest hst
            obtain ⟨u, rfl, htext⟩ := step_sound hsound hstarts hst
            refine .append u (((ih rest).map ?_).imp ?_)
            · rintro sts ⟨st', hst', hdescends⟩
              exact ⟨st', List.mem_cons_of_mem st hst', hdescends⟩
            · intro a ha
              exact ha.cons htext
      · exact .same

end Filters

/-! ### The readers of paths -/

/-- References part like the steps of which they consist, by induction on their depth. -/
theorem reference_parting {off : Context} (depth : Nat) (s : List Char) :
    Parting (StepPlace off) Path.Descends s (reference (off.withDescendants true) depth s)
      (reference off depth s) := by
  induction depth generalizing s with
  | zero => exact .same
  | succ depth ih =>
      rw [reference, reference]
      refine (steps_parting ih (reference_sound depth) s.length s).andThen ?_ fun _ _ _ => .same
      rintro sts rest p rest' ⟨st, hst, hdescends⟩ hp
      split at hp
      · cases hp
      · cases hp
        exact Path.descends_of_mem hst hdescends

theorem whole_parting (off : Context) (s : List Char) :
    Parting (StepPlace off) Path.Descends s (whole (off.withDescendants true) s)
      (whole off s) := by
  rw [whole, whole]
  refine (steps_parting (reference_parting _) (reference_sound _) s.length s).andThen ?_
    fun _ _ _ => .same
  rintro sts rest p rest' ⟨st, hst, hdescends⟩ hp
  split at hp
  · cases hp
    exact Path.descends_of_mem hst hdescends
  · cases hp

end Reading

/-! ### Compiling -/

/-- **Two compilations part at most at a descendant step**: they give the same, or the one without
descendant steps fails where a step starts with two points, and what the other one gives has a
descendant step. -/
theorem compile_parting (off : Context) (expression : String) :
    compile off expression = compile (off.withDescendants true) expression ∨
      ∃ a b, expression.toList = a ++ '.' :: '.' :: b ∧ StepPlace off a ∧
        compile off expression = .error ⟨expression, byteLength a, .descendantStep⟩ ∧
        ∀ p, compile (off.withDescendants true) expression = .ok p → p.Descends := by
  rw [compile, compile]
  have hparting := Reading.whole_parting off expression.toList
  generalize expression.toList = s at hparting ⊢
  generalize Reading.whole off s = offRead at hparting ⊢
  generalize Reading.whole (off.withDescendants true) s = onRead at hparting ⊢
  by_cases hs : s.isEmpty = true
  · exact .inl (by rw [if_pos hs, if_pos hs])
  · rw [if_neg hs, if_neg hs]
    cases hparting with
    | same => exact .inl rfl
    | @apart a b hs ha hfound =>
        refine .inr ⟨a, b, hs, ha, ?_, ?_⟩
        · simp only [hs, byteLength_append_sub]
        · intro p hp
          split at hp
          · cases hp
            exact hfound _ _ rfl
          · cases hp

end TreePath
