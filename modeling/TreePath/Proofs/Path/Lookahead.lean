/-
**No reader looks beyond the first character of what it leaves.**

Two texts that agree up to a character are read alike as long as no more than this character is
looked at.  A reader of paths has to be told how deep references may be nested and how many steps
there may be.  Both bounds grow with the text, and for another ending of a text they are other ones;
but as long as they are large enough they do not matter.

So if a text is rejected because of a character that was not expected, then it is rejected for the
same reason with anything else after this character.

Main results:

* `Reading.alike_filter`, `Reading.alike_step`, `Reading.alike_steps`, `Reading.alike_reference` —
  **reading two texts that agree up to a character**;
* `exists_fault_of_compile` — an error is a fault somewhere in the expression;
* `compile_of_unexpected` — **a character that was not expected** is not expected whatever follows.
-/

import TreePath.Proofs.Path.Forks
import TreePath.Proofs.Path.Places

set_option relaxedAutoImplicit false
set_option autoImplicit false

namespace TreePath

namespace Reading

/-! ### Spaces and targets -/

/-- After one point only, a step is to a child. -/
theorem target_of_stops {ctx : Context} {s : List Char} (h : Stops (· == '.') s) :
    target ctx ('.' :: s) = (selector s).map .child := by
  rw [target.eq_def]
  split
  · next heq => cases heq
  · next heq =>
      cases heq
      simp at h
  · rfl

section Words

variable {α : Type} {s t u : List Char} (fork : Fork s t)

include fork

/-- Reading on after spaces. -/
theorem alike_skipSpaces {read read' : List Char → Reading α} (hleaves : ∀ s, (read s).Leaves s)
    (hread : ∀ v, v <:+ u → Alike s t (read (v ++ s)) (read' (v ++ t))) :
    Alike s t (read (skipSpaces (u ++ s))) (read' (skipSpaces (u ++ t))) :=
  (alike_run fork (· == ' ') u).andThen_suffix (endsIn_found _ (skipSpaces_suffix _))
    (fun _ rest => hleaves rest) fun _ v hv => hread v hv

theorem alike_takeNegation (u : List Char) :
    Alike s t (found (takeNegation (u ++ s)).1 (takeNegation (u ++ s)).2)
      (found (takeNegation (u ++ t)).1 (takeNegation (u ++ t)).2) := by
  have hnone {w : List Char} (h : Stops (· == '!') w) : takeNegation w = (false, w) := by
    rw [takeNegation.eq_def]
    split
    · simp at h
    · rfl
  rcases stops_or_exists_cons (· == '!') (u ++ s) with h | ⟨c, rest, hs, hc⟩
  · rw [hnone h, hnone (fork.stops h)]
    exact alike_found _ u
  · obtain rfl : c = '!' := by simpa using hc
    rw [hs]
    refine alike_of_leaves hs (leaves_found _ List.suffix_rfl) ?_
    rintro w rfl rfl
    exact alike_found _ w

theorem alike_conditionName (ctx : Context) (u : List Char) :
    Alike s t (conditionName ctx (u ++ s)) (conditionName ctx (u ++ t)) := by
  rw [conditionName_eq, conditionName_eq]
  refine (alike_named fork .conditionName u).andThen (fun name rest _ => ?_) fun name v _ => ?_
  · split
    · exact leaves_found _ List.suffix_rfl
    · exact leaves_fault not_false
  · split
    · exact alike_found _ v
    · exact alike_fault not_false fork fun hs => by rw [hs, fork.eq_nil hs]

/-- The target of a step, at a mark that starts it. -/
theorem alike_target (ctx : Context) {u : List Char} (hstarts : startsStep (u ++ s) = true) :
    Alike s t (target ctx (u ++ s)) (target ctx (u ++ t)) := by
  obtain ⟨c, rest, hs, hc⟩ : ∃ c rest, u ++ s = c :: rest ∧ (c = '.' ∨ c = '[') := by
    cases hs : u ++ s with
    | nil =>
        rw [hs] at hstarts
        cases hstarts
    | cons c rest => exact ⟨c, rest, rfl, by simpa [startsStep, hs] using hstarts⟩
  rcases hc with rfl | rfl
  · rcases stops_or_exists_cons (· == '.') rest with h | ⟨d, rest, rfl, hd⟩
    · rw [hs, target_of_stops h]
      refine alike_of_leaves hs ((endsIn_selector rest).map _).leaves ?_
      rintro w rfl rfl
      rw [List.cons_append, target_of_stops (fork.stops h)]
      exact (alike_selector fork w).map _
    · obtain rfl : d = '.' := by simpa using hd
      rw [hs, target]
      split
      · next hallowed =>
          refine alike_of_leaves hs
            (((endsIn_selector rest).mono (List.suffix_cons _ _)).map _).leaves ?_
          rintro w rfl hrest
          refine alike_of_leaves hrest.symm ((endsIn_selector rest).map _).leaves ?_
          rintro w rfl rfl
          rw [List.cons_append, List.cons_append, target, if_pos hallowed]
          exact (alike_selector fork w).map _
      · next hforbidden =>
          refine alike_fault not_false fork fun hnil => ?_
          rw [fork.eq_nil hnil, ← hnil, hs, target, if_neg hforbidden]
  · rw [hs, target]
    refine alike_of_leaves hs ?_ ?_
    · exact (endsIn_range rest).leaves.andThen fun items rest => ((endsIn_char _ rest).map _).leaves
    · rintro w rfl rfl
      rw [List.cons_append, target]
      exact (alike_range fork w).andThen (fun items rest _ => ((endsIn_char _ rest).map _).leaves)
        fun items v _ => (alike_char fork _ v).map _

end Words

/-! ### Arguments and filters -/

section Reference

variable {ctx : Context} {s t : List Char} (fork : Fork s t)
  {reference reference' : List Char → Reading Path} {P : List Char → Prop}
  (hends : ∀ s, (reference s).EndsIn s)
  (hreference : ∀ u, P ('@' :: u) → Alike s t (reference (u ++ s)) (reference' (u ++ t)))

include fork hends hreference

/-- An argument, if paths after a mark `@` are read alike. -/
theorem alike_argument (u : List Char) (hu : P u) :
    Alike s t (argument reference (u ++ s)) (argument reference' (u ++ t)) := by
  cases hs : u ++ s with
  | nil =>
      obtain ⟨rfl, rfl⟩ := List.append_eq_nil_iff.1 hs
      obtain rfl := fork.eq_nil rfl
      exact alike_unexpected fork [] _
  | cons c rest =>
      have hhead := fork.head?_append u
      rw [hs, List.head?_cons] at hhead
      obtain ⟨rest', ht⟩ := List.head?_eq_some_iff.1 hhead.symm
      simp only [ht, argument]
      split
      · next hc =>
          refine alike_of_leaves hs ((hends rest).map _).leaves ?_
          rintro w rfl rfl
          injection ht with _ hrest
          rw [← hrest]
          exact (hreference w (hc ▸ hu)).map _
      · split
        · refine alike_of_leaves hs ((leaves_stringLiteral c rest).map _) ?_
          rintro w rfl rfl
          injection ht with _ hrest
          rw [← hrest]
          exact (alike_stringLiteral fork c w).map _
        · rw [← hs, ← ht]
          split
          · exact alike_numberLiteral fork u
          · exact alike_unexpected fork u _

omit fork hreference in
/-- An argument of another kind is a fault before the argument, but one that does not matter. -/
theorem leaves_argumentsFrom (c : Condition) (place : Nat) (accepted : KindSet)
    (signature : List KindSet) (s : List Char) (a : Argument) (rest : List Char) :
    (argumentsFrom reference c place accepted signature s a rest).Leaves rest := by
  rw [argumentsFrom]
  split
  · exact ((endsIn_argumentsAfter hends c _ signature a _).mono (skipSpaces_suffix rest)).leaves
  · exact leaves_fault not_false

omit hreference in
/-- What follows an argument, if more arguments are read alike. -/
theorem alike_argumentsAfter (c : Condition) (place : Nat) (signature : List KindSet)
    (a : Argument) (u : List Char)
    (harguments : ∀ v, v <:+ u → Alike s t (arguments reference c place signature (v ++ s))
      (arguments reference' c place signature (v ++ t))) :
    Alike s t (argumentsAfter reference c place signature a (u ++ s))
      (argumentsAfter reference' c place signature a (u ++ t)) := by
  rcases stops_or_exists_cons (· == ',') (u ++ s) with h | ⟨d, rest, hs, hd⟩
  · rw [argumentsAfter_of_stops h, argumentsAfter_of_stops (fork.stops h)]
    exact alike_found _ u
  · obtain rfl : d = ',' := by simpa using hd
    rw [hs, argumentsAfter]
    refine alike_of_leaves hs ((endsIn_arguments hends c place signature rest).map _).leaves ?_
    rintro v rfl rfl
    exact (harguments v (List.suffix_cons _ v)).map _

variable (hP : ∀ u v, v <:+ u → P u → P v)

include hP

theorem alike_arguments (c : Condition) (place : Nat) (signature : List KindSet) (u : List Char)
    (hu : P u) : Alike s t (arguments reference c place signature (u ++ s))
      (arguments reference' c place signature (u ++ t)) := by
  induction signature generalizing place u with
  | nil =>
      refine alike_fault not_false fork fun hs => ?_
      rw [fork.eq_nil hs, hs]
      rfl
  | cons accepted signature ih =>
      have hfrom := leaves_argumentsFrom hends c (place + 1) accepted signature
      rw [arguments_cons, arguments_cons]
      refine alike_skipSpaces fork (fun r => (endsIn_argument hends r).leaves.andThen (hfrom r))
        fun v hv => ?_
      refine (alike_argument fork hends hreference v (hP u v hv hu)).andThen_suffix
        (endsIn_argument hends _) (hfrom _) fun a w hw => ?_
      rw [argumentsFrom, argumentsFrom]
      split
      · refine alike_skipSpaces fork
          (fun r => (endsIn_argumentsAfter hends c _ signature a r).leaves) fun x hx => ?_
        refine alike_argumentsAfter fork hends c _ signature a x fun y hy => ih _ y ?_
        exact hP u y (hy.trans (hx.trans (hw.trans hv))) hu
      · exact alike_fault not_false fork fun hs => by rw [hs, fork.eq_nil hs]

theorem alike_argumentList (c : Condition) (u : List Char) (hu : P u) :
    Alike s t (argumentList reference c (u ++ s)) (argumentList reference' c (u ++ t)) := by
  have henough (as : List Argument) (rest : List Char) : (enoughArguments c as rest).Leaves rest :=
    (endsIn_enoughArguments c as rest).leaves
  rw [argumentList_eq, argumentList_eq]
  refine .andThen ?_ (fun as rest _ => henough as rest) fun as v _ => ?_
  · refine alike_skipSpaces fork (fun r => (endsIn_givenArguments hends c r).leaves) fun v hv => ?_
    rw [givenArguments, givenArguments, fork.head?_append]
    split
    · exact alike_found _ v
    · exact alike_arguments fork hends hreference hP c 0 c.signature v (hP u v hv hu)
  · rw [enoughArguments, enoughArguments]
    split
    · exact alike_fault not_false fork fun hs => by rw [hs, fork.eq_nil hs]
    · exact alike_found _ v

omit hends hreference hP in
theorem alike_callEnd (negated : Bool) (c : Condition) (as : List Argument) (u : List Char) :
    Alike s t (callEnd negated c as (u ++ s)) (callEnd negated c as (u ++ t)) := by
  refine (alike_char fork _ u).andThen (fun _ rest _ => ?_) fun _ v _ => ?_
  · exact ((endsIn_filterEnd negated c as _).mono (skipSpaces_suffix rest)).leaves
  · exact alike_skipSpaces fork (fun r => (endsIn_filterEnd negated c as r).leaves)
      fun w _ => (alike_char fork _ w).map _

theorem alike_callArguments (negated : Bool) (c : Condition) (u : List Char) (hu : P u) :
    Alike s t (callArguments reference negated c (u ++ s))
      (callArguments reference' negated c (u ++ t)) :=
  (alike_argumentList fork hends hreference hP c u hu).andThen
    (fun as rest _ => (endsIn_callEnd negated c as rest).leaves)
    fun as v _ => alike_callEnd fork negated c as v

theorem alike_callFrom (negated : Bool) (c : Condition) (u : List Char) (hu : P u) :
    Alike s t (callFrom reference negated c (u ++ s)) (callFrom reference' negated c (u ++ t)) := by
  refine (alike_skipSpaces fork (endsIn_char '('  · |>.leaves)
    fun v _ => alike_char fork '(' v).andThen_suffix ((endsIn_char _ _).mono (skipSpaces_suffix _))
    (fun _ rest => (endsIn_callArguments hends negated c rest).leaves) fun _ v hv => ?_
  exact alike_callArguments fork hends hreference hP negated c v (hP u v hv hu)

theorem alike_callNamed (negated : Bool) (u : List Char) (hu : P u) :
    Alike s t (callNamed ctx reference negated (u ++ s))
      (callNamed ctx reference' negated (u ++ t)) := by
  refine (alike_skipSpaces fork (endsIn_conditionName ctx · |>.leaves)
    fun v _ => alike_conditionName fork ctx v).andThen_suffix
    ((endsIn_conditionName ctx _).mono (skipSpaces_suffix _))
    (fun c rest => (endsIn_callFrom hends negated c rest).leaves) fun c v hv => ?_
  exact alike_callFrom fork hends hreference hP negated c v (hP u v hv hu)

theorem alike_call (u : List Char) (hu : P u) :
    Alike s t (call ctx reference (u ++ s)) (call ctx reference' (u ++ t)) := by
  rw [call_eq, call_eq]
  refine alike_skipSpaces fork (fun r => (endsIn_callAt hends r).leaves) fun v hv => ?_
  refine (alike_takeNegation fork v).andThen_suffix (endsIn_found _ (takeNegation_suffix _))
    (fun negated rest => (endsIn_callNamed hends negated rest).leaves) fun negated w hw => ?_
  exact alike_callNamed fork hends hreference hP negated w (hP u w (hw.trans hv) hu)

/-! ### Filters and steps -/

theorem alike_filter (u : List Char) (hu : P u) :
    Alike s t (filter ctx reference (u ++ s)) (filter ctx reference' (u ++ t)) := by
  rcases stops_or_exists_cons (· == '(') (u ++ s) with h | ⟨c, rest, hs, hc⟩
  · rw [filter_of_stops h, filter_of_stops (fork.stops h)]
    exact alike_found _ u
  · obtain rfl : c = '(' := by simpa using hc
    rw [hs, filter]
    refine alike_of_leaves hs ((endsIn_call hends rest).map _).leaves ?_
    rintro w rfl rfl
    exact (alike_call fork hends hreference hP w (hP _ w (List.suffix_cons _ w) hu)).map _

/-- A step, at a mark that starts it. -/
theorem alike_step (u : List Char) (hu : P u) (hstarts : startsStep (u ++ s) = true) :
    Alike s t (step ctx reference (u ++ s)) (step ctx reference' (u ++ t)) :=
  (alike_target fork ctx hstarts).andThen_suffix (endsIn_target ctx _)
    (fun _ rest => ((endsIn_filter hends rest).map _).leaves)
    fun _ v hv => (alike_filter fork hends hreference hP v (hP u v hv hu)).map _

/-- **Steps are read alike**, if as many may be read as there are characters. -/
theorem alike_steps (u : List Char) (hu : P u) {count count' : Nat}
    (hcount : (u ++ s).length ≤ count) (hcount' : (u ++ t).length ≤ count') :
    Alike s t (steps ctx reference count (u ++ s)) (steps ctx reference' count' (u ++ t)) := by
  induction count generalizing u count' with
  | zero =>
      have hnil := List.length_eq_zero_iff.1 (Nat.le_zero.1 hcount)
      obtain ⟨rfl, rfl⟩ := List.append_eq_nil_iff.1 hnil
      obtain rfl := fork.eq_nil rfl
      rw [List.append_nil, steps_of_startsStep_eq_false rfl, steps_of_startsStep_eq_false rfl]
      exact alike_found [] []
  | succ count ih =>
      have hmarks : startsStep (u ++ t) = startsStep (u ++ s) := by
        rw [startsStep, startsStep, fork.head?_append]
      cases hstarts : startsStep (u ++ s) with
      | false =>
          rw [steps_of_startsStep_eq_false hstarts,
            steps_of_startsStep_eq_false (hmarks.trans hstarts)]
          exact alike_found [] u
      | true =>
          have hpositive := length_pos_of_startsStep (hmarks.trans hstarts)
          obtain ⟨count', rfl⟩ : ∃ k, count' = k + 1 := ⟨count' - 1, by omega⟩
          rw [steps, steps, if_pos hstarts, if_pos (hmarks.trans hstarts)]
          refine (alike_step fork hends hreference hP u hu hstarts).andThen
            (fun st rest _ => ((endsIn_steps hends count rest).map _).leaves) fun st v hv => ?_
          have hshorter := length_lt_of_step hends hstarts hv
          have hsuffix : (step ctx reference (u ++ s)).left <:+ u ++ s :=
            (endsIn_step hends _).left_suffix
          rw [hv, left_found, List.suffix_append_self_iff] at hsuffix
          simp only [List.length_append] at hshorter hcount hcount' ⊢
          exact (ih v (hP u v hsuffix hu) (by simp; omega) (by simp; omega)).map _

end Reference

/-! ### Paths -/

section Paths

variable {ctx : Context} {s t : List Char} (fork : Fork s t)

include fork

/-- The steps of a path are read alike, if the paths inside of it are. -/
theorem alike_steps_reference {depth depth' : Nat} (u : List Char)
    (hreference : ∀ v, (v ++ s).count '@' < depth → (v ++ t).count '@' < depth' →
      Alike s t (reference ctx depth (v ++ s)) (reference ctx depth' (v ++ t)))
    (hdepth : (u ++ s).count '@' ≤ depth) (hdepth' : (u ++ t).count '@' ≤ depth') :
    Alike s t (steps ctx (reference ctx depth) (u ++ s).length (u ++ s))
      (steps ctx (reference ctx depth') (u ++ t).length (u ++ t)) := by
  -- The invariant: in what is left of either text there are not more marks than levels.
  refine alike_steps fork (P := fun v => (v ++ s).count '@' ≤ depth ∧ (v ++ t).count '@' ≤ depth')
    (endsIn_reference ctx depth) ?_ ?_ u ⟨hdepth, hdepth'⟩ (Nat.le_refl _) (Nat.le_refl _)
  · rintro v ⟨hv, hv'⟩
    rw [List.cons_append, List.count_cons_self] at hv hv'
    exact hreference v hv hv'
  · rintro v w ⟨x, rfl⟩ ⟨hv, hv'⟩
    simp only [List.count_append] at hv hv' ⊢
    omega

/-- **Paths after a mark `@` are read alike**, by readers that go deeper than there are marks. -/
theorem alike_reference (u : List Char) {depth depth' : Nat} (hdepth : (u ++ s).count '@' < depth)
    (hdepth' : (u ++ t).count '@' < depth') :
    Alike s t (reference ctx depth (u ++ s)) (reference ctx depth' (u ++ t)) := by
  induction depth generalizing u depth' with
  | zero => exact absurd hdepth (Nat.not_lt_zero _)
  | succ depth ih =>
      obtain ⟨depth', rfl⟩ : ∃ d, depth' = d + 1 := ⟨depth' - 1, by omega⟩
      have hsteps := alike_steps_reference fork u (fun v => ih v) (Nat.le_of_lt_succ hdepth)
        (Nat.le_of_lt_succ hdepth')
      refine hsteps.andThen_suffix (endsIn_steps (endsIn_reference ctx depth) _ _) ?_ ?_
      · intro sts rest
        split
        · exact leaves_unexpected rest _
        · exact leaves_found _ List.suffix_rfl
      · rintro sts v ⟨w, rfl⟩
        rw [List.append_assoc, List.append_assoc, consumed_append, consumed_append]
        split
        · exact alike_unexpected fork v _
        · exact alike_found _ v

omit fork in
/-- **A character that was not expected is not expected whatever follows it.** -/
theorem whole_of_unexpected {u rest : List Char} {c : Char} {expected : Expected}
    (h : whole ctx (u ++ c :: rest) = fault (c :: rest) (.unexpected (some c) expected))
    (rest' : List Char) :
    whole ctx (u ++ c :: rest') = fault (c :: rest') (.unexpected (some c) expected) := by
  have fork := Fork.cons c rest rest'
  have hsteps := @alike_steps_reference ctx _ _ fork _ _ u (fun v => alike_reference fork v)
    (Nat.le_refl _) (Nat.le_refl _)
  have hwhole : Alike (c :: rest) (c :: rest') (whole ctx (u ++ c :: rest))
      (whole ctx (u ++ c :: rest')) := by
    refine hsteps.andThen (fun sts rest _ => ?_) fun sts v _ => ?_
    · split
      · exact leaves_found _ List.nil_suffix
      · exact leaves_unexpected rest _
    · rw [if_neg (by simp), if_neg (by simp)]
      exact alike_unexpected fork v _
  exact hwhole.fault [] _ h (.inr trivial)

end Paths

end Reading

/-! ### Expressions -/

/-- An error is that of the empty expression, or a fault somewhere in the expression. -/
theorem exists_fault_of_compile {ctx : Context} {expression : String} {e : SyntaxError}
    (h : compile ctx expression = .error e) :
    (expression.toList = [] ∧ e.offset = 0 ∧ e.cause = .empty) ∨
      ∃ front rest, expression.toList = front ++ rest ∧ e.offset = byteLength front ∧
        Reading.whole ctx (front ++ rest) = .fault rest e.cause := by
  simp only [compile, List.isEmpty_iff] at h
  split at h
  · next hnil =>
      cases h
      exact .inl ⟨hnil, rfl, rfl⟩
  · split at h
    · cases h
    · next rest cause hwhole =>
        cases h
        obtain ⟨front, hfront⟩ := (Reading.endsIn_whole ctx expression.toList).left_suffix
        rw [hwhole, Reading.left_fault] at hfront
        rw [← hfront] at hwhole ⊢
        exact .inr ⟨front, rest, rfl, byteLength_append_sub front rest, hwhole⟩

/-- **An error at a character that was not expected** is the error of every expression that agrees
with this one up to and including the character. -/
theorem compile_of_unexpected {ctx : Context} {front rest : List Char} {c : Char}
    {expected : Expected}
    (h : Reading.whole ctx (front ++ c :: rest) =
      .fault (c :: rest) (.unexpected (some c) expected)) (other : List Char) :
    compile ctx (String.ofList (front ++ c :: other)) =
      .error ⟨String.ofList (front ++ c :: other), byteLength front,
        .unexpected (some c) expected⟩ := by
  have hwhole := Reading.whole_of_unexpected h other
  rw [← String.toList_ofList (l := front ++ c :: other)] at hwhole
  rw [compile_eq_error (by simp) hwhole, String.toList_ofList, byteLength_append_sub]

end TreePath
