/-
**An error stands at the first place where a text goes wrong.**

What stands before a fault can be completed to a path: an open target is closed, arguments that are
missing are given, and open filters are closed one after the other, from the inside to the outside.
The arguments that are given need not be of accepted kinds, so the completed text is a path in the
wider context, where all kinds are accepted.  There is one cause of which this is not true: if there
are too many arguments, what stands before the fault is wrong already.

Main results:

* `Reading.faultsIn_argumentList`, `Reading.faultsIn_filter`, `Reading.faultsIn_step`,
  `Reading.faultsIn_reference`, `Reading.faultsIn_whole` — **what stands before a fault can be
  completed**;
* `compile_error_is_first_fault` — **an error points at the first place where a text goes wrong**.
-/

import TreePath.Proofs.Path.Fronts
import TreePath.Proofs.Path.Lookahead
import TreePath.Proofs.Session.History

set_option relaxedAutoImplicit false
set_option autoImplicit false

namespace TreePath

namespace Reading

variable {ctx : Context} {reference : List Char → Reading Path}
  {R R' : List Char → Path → Prop} (hsound : Sound reference R)
  (hR : ∀ s p, R s p → ∃ q, R' s q)
  (hfaults : ∀ s, (reference s).FaultsIn (fun u => ∃ q, R' u q) s)

include hfaults

theorem faultsIn_argument (s : List Char) :
    (argument reference s).FaultsIn (fun u => ∃ a, ArgumentText R' u a) s := by
  have hzero : IsFront (fun u => ∃ a, ArgumentText R' u a) [] := ⟨['0'], _, argumentText_zero⟩
  cases s with
  | nil => exact (faultsIn_here _).after (t := []) hzero
  | cons c s =>
      rw [argument]
      split
      · next hc =>
          subst hc
          refine ((hfaults s).map Argument.path).behind (t := ['@']) ?_
          rintro u ⟨q, hq⟩
          exact isFront_of ⟨_, .path hq⟩
      · split
        · exact ((faultsIn_stringLiteral c s).after (t := []) hzero).map _
        · split
          · exact (faultsIn_numberLiteral _).after (t := []) hzero
          · exact (faultsIn_here _).after (t := []) hzero

include hsound hR

theorem faultsIn_arguments (c : Condition) (place : Nat) (signature : List KindSet)
    (s : List Char) :
    (arguments reference c place signature s).FaultsIn
      (Spaced (IsArguments R' signature.length)) s := by
  -- Behind an argument as many are missing as there are kinds left in the signature.
  induction signature generalizing place s with
  | nil => exact faultsIn_surplus trivial
  | cons accepted signature ih =>
      have hmore {u : List Char} {a : Argument} (ha : ArgumentText R' u a) :
          IsFront (IsArguments R' (signature.length + 1)) u := by
        rw [Nat.add_comm]
        exact IsArguments.isFront ⟨_, ha.singleton, rfl⟩ _
      rw [arguments_cons]
      refine FaultsIn.spaced ?_
      generalize skipSpaces s = s
      refine ((faultsIn_argument hfaults s).imp fun u ⟨a, ha⟩ => hmore ha).andThen
        fun a rest ha => ?_
      obtain ⟨t, rfl, ht⟩ := argument_sound hsound ha
      obtain ⟨b, hb⟩ := ht.widen hR
      rw [argumentsFrom]
      split
      · obtain ⟨after, hafter, hs⟩ := exists_skipSpaces rest
        rw [argumentsAfter.eq_def]
        split
        · next more hcomma =>
            rw [hs, hcomma, List.append_cons after, ← List.append_assoc]
            refine ((ih (place + 1) more).map _).behind ?_
            rintro _ ⟨sp, v, rfl, hsp, bs, hbs, hlength⟩
            refine isFront_of ⟨b :: bs, ?_, congrArg (· + 1) hlength⟩
            simpa using ArgumentsText.cons hb hafter hsp hbs
        · exact faultsIn_found _
      · exact (faultsIn_here _).after (t := []) (hmore hb).of_append

omit hfaults in
/-- The arguments that are given, be they enough or not. -/
theorem exists_of_givenArguments {c : Condition} {s rest : List Char} {as : List Argument}
    (h : givenArguments reference c (skipSpaces s) = found as rest) :
    ∃ sp t, s = sp ++ t ++ rest ∧ IsSpaces sp ∧ IsArgumentList R' as.length t := by
  rw [givenArguments, arguments_skipSpaces] at h
  split at h
  · cases h
    obtain ⟨sp, hsp, hs⟩ := exists_skipSpaces s
    exact ⟨sp, [], by rwa [List.append_nil], hsp, [], .empty, rfl⟩
  · obtain ⟨sp, t, hs, hsp, ht, -⟩ := arguments_sound hsound h
    obtain ⟨bs, hbs, hlength⟩ := ht.widen hR
    exact ⟨sp, t, by rwa [List.append_assoc], hsp, bs, .given hbs, hlength⟩

theorem faultsIn_argumentList (c : Condition) (s : List Char) :
    (argumentList reference c s).FaultsIn (Spaced (IsArgumentList R' c.arity)) s := by
  rw [argumentList_eq]
  refine FaultsIn.andThen ?_ fun as rest has => ?_
  · rw [givenArguments, arguments_skipSpaces]
    split
    · exact faultsIn_found []
    · refine (faultsIn_arguments hsound hR hfaults c 0 c.signature s).imp ?_
      rintro _ ⟨sp, u, rfl, hsp, as, has, hlength⟩
      exact isFront_of ⟨sp, u, rfl, hsp, as, .given has, hlength⟩
  · rw [enoughArguments]
    split
    · next hfew =>
        obtain ⟨sp, t, rfl, hsp, ht⟩ := exists_of_givenArguments hsound hR has
        obtain ⟨u, hu⟩ := ht.isFront (Nat.le_of_lt hfew)
        exact (faultsIn_here _).after ⟨u, sp, t ++ u, List.append_assoc _ _ _, hsp, hu⟩
    · exact faultsIn_found as

/-! ### Calls -/

omit hsound hR hfaults in
theorem faultsIn_callEnd (negated : Bool) (c : Condition) (as : List Argument) (s : List Char) :
    (callEnd negated c as s).FaultsIn IsCallEnd s := by
  refine ((faultsIn_char ')' s).after (t := []) exists_isCallEnd).andThen fun _ rest hclose => ?_
  rw [char_eq_found_iff] at hclose
  have hend := ((faultsIn_char ')' (skipSpaces rest)).map fun _ => Filter.mk c negated as).after
    (t := []) (L := (· = [')'])) ⟨[')'], rfl⟩
  rw [hclose]
  exact hend.spaced.behind (t := [')']) fun u hu => isFront_of ⟨u, rfl, hu⟩

theorem faultsIn_callArguments (negated : Bool) (c : Condition) (s : List Char) :
    (callArguments reference negated c s).FaultsIn (IsCallArguments R' c.arity) s := by
  refine ((faultsIn_argumentList hsound hR hfaults c s).imp ?_).andThen fun as rest has => ?_
  · rintro _ ⟨sp, u, rfl, hsp, hu⟩
    obtain ⟨v, hv⟩ := exists_isCallEnd
    exact ⟨v, sp, u ++ v, List.append_assoc _ _ _, hsp, u, v, rfl, hu, hv⟩
  · obtain ⟨sp, t, rfl, hsp, ht, haccepts⟩ := argumentList_sound hsound has
    obtain ⟨bs, hbs, hlength⟩ := ht.widen hR
    rw [← List.append_assoc]
    refine (faultsIn_callEnd negated c as rest).behind fun u hu => isFront_of ?_
    refine ⟨sp, t ++ u, List.append_assoc _ _ _, hsp, t, u, rfl, ⟨bs, hbs, ?_⟩, hu⟩
    rw [hlength, Condition.arity, List.Forall₂.length_eq haccepts]

theorem faultsIn_callFrom (negated : Bool) (c : Condition) (s : List Char) :
    (callFrom reference negated c s).FaultsIn (Spaced (IsCallFrom R' c.arity)) s := by
  rw [callFrom]
  refine FaultsIn.spaced ?_
  generalize skipSpaces s = s
  refine ((faultsIn_char '(' s).after (t := []) (exists_isCallFrom c.arity)).andThen
    fun _ rest hopen => ?_
  rw [char_eq_found_iff] at hopen
  rw [hopen]
  exact (faultsIn_callArguments hsound hR hfaults negated c rest).behind (t := ['('])
    fun u hu => isFront_of ⟨u, rfl, hu⟩

variable (hcan : ctx.CanCall)

include hcan

theorem faultsIn_callNamed (negated : Bool) (s : List Char) :
    (callNamed ctx reference negated s).FaultsIn (Spaced (IsCallNamed ctx.widened R')) s := by
  have hnamed {name : List Char} {c : Condition} (hname : IsName name)
      (hc : ctx.find? (String.ofList name) = some c) {t : List Char}
      (ht : Spaced (IsCallFrom R' c.arity) t) : IsCallNamed ctx.widened R' (name ++ t) := by
    refine ⟨name, c.widened, t, rfl, hname, ?_, ?_⟩
    · rw [Context.find?_widened, hc, Option.map_some]
    · rwa [Condition.arity_widened]
  rw [callNamed]
  refine FaultsIn.spaced ?_
  generalize skipSpaces s = s
  refine ((faultsIn_conditionName ctx s).after (t := []) ?_).andThen fun c rest hc => ?_
  · obtain ⟨name, c, hname, hc⟩ := hcan
    obtain ⟨t, ht⟩ := exists_isCallFrom (R := R') c.arity
    exact ⟨_, hnamed hname hc ⟨[], t, rfl, isSpaces_nil, ht⟩⟩
  · obtain ⟨hname, hfind, rfl⟩ := conditionName_eq_found_iff.1 hc
    have hrest := faultsIn_callFrom hsound hR hfaults negated c (spanName s).2
    have hs := hrest.behind fun u hu => isFront_of (hnamed (isName_spanName hname) hfind hu)
    rwa [spanName_append] at hs

theorem faultsIn_callAt (s : List Char) :
    (callAt ctx reference s).FaultsIn (IsCall ctx.widened R') s := by
  obtain ⟨mark, hmark, hs⟩ := exists_takeNegation s
  have hrest := faultsIn_callNamed hsound hR hfaults hcan (takeNegation s).1 (takeNegation s).2
  have hcall : (callAt ctx reference s).FaultsIn (IsCall ctx.widened R')
      (mark ++ (takeNegation s).2) :=
    hrest.behind fun u hu => isFront_of ⟨mark, _, u, rfl, hmark, hu⟩
  rwa [← hs] at hcall

theorem faultsIn_filter (s : List Char) :
    (filter ctx reference s).FaultsIn (fun u => ∃ f, FilterText ctx.widened R' u f) s := by
  rw [filter.eq_def]
  split
  · next rest =>
      have hcall := (faultsIn_callAt hsound hR hfaults hcan (skipSpaces rest)).spaced
      refine (hcall.map some).behind (t := ['(']) ?_
      rintro _ ⟨sp, u, rfl, hsp, hu⟩
      exact isFront_of (hu.filterText hsp)
  · exact faultsIn_found none

/-! ### Steps and paths -/

/-- A step, at a mark that starts it. -/
theorem faultsIn_step {s : List Char} (hstarts : startsStep s = true) :
    (step ctx reference s).FaultsIn (fun u => ∃ st, StepText ctx.widened R' u st) s := by
  refine ((faultsIn_target ctx hstarts).imp ?_).andThen fun t rest ht => ?_
  · rintro u ⟨t, ht⟩
    exact isFront_of ⟨_, .plain ht.widen⟩
  · obtain ⟨u, rfl, hu⟩ := target_sound hstarts ht
    refine ((faultsIn_filter hsound hR hfaults hcan rest).behind ?_).map _
    rintro v ⟨f, hf⟩
    exact isFront_of ⟨_, .filtered hu.widen hf⟩

theorem faultsIn_steps (count : Nat) (s : List Char) :
    (steps ctx reference count s).FaultsIn
      (fun u => ∃ st sts, StepsText ctx.widened R' u (st :: sts)) s := by
  induction count generalizing s with
  | zero => exact faultsIn_found []
  | succ count ih =>
      rw [steps]
      split
      · next hstarts =>
          refine ((faultsIn_step hsound hR hfaults hcan hstarts).imp ?_).andThen
            fun st rest hst => ?_
          · rintro u ⟨st, hst⟩
            rw [← List.append_nil u]
            exact isFront_of ⟨st, [], .cons hst .nil⟩
          · obtain ⟨t, rfl, ht⟩ := step_sound hsound hstarts hst
            obtain ⟨st', hst'⟩ := ht.widen hR
            refine ((ih rest).map _).behind ?_
            rintro u ⟨next, sts, hsts⟩
            exact isFront_of ⟨st', next :: sts, .cons hst' hsts⟩
      · exact faultsIn_found []

end Reading

/-- Steps can be completed to a path, by one more step. -/
theorem StepsText.isFront {ctx : Context} {s : List Char} {sts : List Step}
    (h : StepsText ctx (PathText ctx) s sts) : IsFront (fun u => ∃ p, PathText ctx u p) s := by
  have hmore : StepText ctx (PathText ctx) ['.', '*'] ⟨.child .wildcard, none⟩ :=
    .plain (.child .wildcard)
  exact ⟨['.', '*'] ++ [], _, .mk (h.append (.cons hmore .nil)) (by simp)⟩

namespace Reading

section Paths

variable {ctx : Context} (hcan : ctx.CanCall)

include hcan

/-- The steps of a path, if it is so for the paths inside of it. -/
theorem faultsIn_steps_reference {depth : Nat} (hfaults : ∀ s,
      (reference ctx depth s).FaultsIn (fun u => ∃ p, PathText ctx.widened u p) s)
    (count : Nat) (s : List Char) :
    (steps ctx (reference ctx depth) count s).FaultsIn
      (fun u => ∃ p, PathText ctx.widened u p) s := by
  refine (faultsIn_steps (reference_sound depth) (fun _ _ h => h.widen) hfaults hcan
    count s).imp ?_
  rintro u ⟨st, sts, hsts⟩
  exact isFront_of ⟨_, .mk hsts (List.cons_ne_nil st sts)⟩

omit hcan in
/-- Where steps end, there is the end of a front. -/
theorem isFront_of_steps {depth count : Nat} {s rest : List Char} {sts : List Step}
    (h : steps ctx (reference ctx depth) count s = found sts rest) :
    ∃ t, s = t ++ rest ∧ IsFront (fun u => ∃ p, PathText ctx.widened u p) t := by
  obtain ⟨t, hs, ht⟩ := steps_sound (reference_sound depth) count h
  obtain ⟨sts', hsts, -⟩ := ht.widen fun _ _ h => h.widen
  exact ⟨t, hs, hsts.isFront⟩

theorem faultsIn_reference (depth : Nat) (s : List Char) :
    (reference ctx depth s).FaultsIn (fun u => ∃ p, PathText ctx.widened u p) s := by
  induction depth generalizing s with
  | zero => exact (faultsIn_here _).after (t := []) StepsText.nil.isFront
  | succ depth ih =>
      refine (faultsIn_steps_reference hcan ih _ s).andThen fun sts rest hsts => ?_
      obtain ⟨t, rfl, ht⟩ := isFront_of_steps hsts
      split
      · exact (faultsIn_here _).after ht
      · exact faultsIn_found _

/-- **What stands before a fault can be completed**, in the wider context. -/
theorem faultsIn_whole (s : List Char) :
    (whole ctx s).FaultsIn (fun u => ∃ p, PathText ctx.widened u p) s := by
  refine (faultsIn_steps_reference hcan (faultsIn_reference hcan _) _ s).andThen
    fun sts rest hsts => ?_
  obtain ⟨t, rfl, ht⟩ := isFront_of_steps hsts
  split
  · exact faultsIn_found _
  · exact (faultsIn_here _).after ht

end Paths

end Reading

/-! ### Errors -/

/-- In all contexts of a program there is a condition that a filter can call. -/
theorem canCall_contextBy (changes : List Change) : (contextBy changes).CanCall := by
  have hstandard : (Context.standard.find? (String.ofList ['e', 'q'])).isSome = true := rfl
  have hfound : (conditionBy changes (String.ofList ['e', 'q'])).isSome = true := by
    rw [conditionBy, Option.isSome_or, hstandard, Bool.or_true]
  have hname : IsName ['e', 'q'] :=
    ⟨List.cons_ne_nil _ _,
      List.forall_mem_cons.2 ⟨.inl rfl, List.forall_mem_singleton.2 (.inl rfl)⟩⟩
  obtain ⟨c, hc⟩ := Option.isSome_iff_exists.1 hfound
  exact ⟨_, c, hname, (find?_contextBy changes _).trans hc⟩

/-- A front of a path can be completed to an expression that compiles. -/
theorem IsFront.exists_compile {ctx : Context} {front : List Char}
    (h : IsFront (fun u => ∃ p, PathText ctx u p) front) :
    ∃ more p, compile ctx (String.ofList (front ++ more)) = .ok p := by
  obtain ⟨more, p, hp⟩ := h
  exact ⟨more, p, pathText_iff_compile.1 hp⟩

/-- **An error points at the first place where a text goes wrong**, whatever conditions a program
has registered.  Unless there are too many arguments, what stands before the place can be completed
to a text that compiles in the wider context, where the conditions accept arguments of all kinds.
If the end of a text was not expected, then the whole of it can be completed.  If a character was
not expected, then every other text that agrees with this one up to and including the character is
rejected at the same place and for the same cause. -/
theorem compile_error_is_first_fault (changes : List Change) (expression : String)
    (e : SyntaxError) (h : compile (contextBy changes) expression = .error e) :
    ∃ front rest : List Char, expression.toList = front ++ rest ∧ e.offset = byteLength front ∧
      ((∀ condition arity, e.cause ≠ .tooManyArguments condition arity) → ∃ more p,
        compile (contextBy changes).widened (String.ofList (front ++ more)) = .ok p) ∧
      (∀ expected, e.cause = .unexpected none expected → rest = []) ∧
      ∀ c expected, e.cause = .unexpected (some c) expected → ∃ tail, rest = c :: tail ∧
        ∀ other, compile (contextBy changes) (String.ofList (front ++ c :: other)) =
          .error ⟨String.ofList (front ++ c :: other), e.offset, e.cause⟩ := by
  rcases exists_fault_of_compile h with ⟨hnil, hoffset, hcause⟩ | ⟨front, rest, hs, hoffset, hwhole⟩
  · rw [hcause]
    refine ⟨[], [], hnil, hoffset, fun _ => StepsText.nil.isFront.exists_compile, ?_, ?_⟩
    · intro expected hunexpected
      cases hunexpected
    · intro c expected hunexpected
      cases hunexpected
  · have hhead := (Reading.endsIn_whole (contextBy changes) (front ++ rest)).eq_head? rest
    refine ⟨front, rest, hs, hoffset, fun hcause => ?_, fun expected hcause => ?_,
      fun c expected hcause => ?_⟩
    · have hfew : ¬e.cause.IsSurplus := by
        intro hsurplus
        cases hc : e.cause with
        | tooManyArguments condition arity => exact hcause condition arity hc
        | _ =>
            rw [hc] at hsurplus
            exact hsurplus
      obtain ⟨front', heq, hfront⟩ := Reading.faultsIn_whole (canCall_contextBy changes)
        (front ++ rest) rest e.cause hwhole hfew
      rw [List.append_cancel_right heq]
      exact hfront.exists_compile
    · rw [hcause] at hwhole
      exact List.head?_eq_none_iff.1 (hhead none expected hwhole).symm
    · rw [hcause] at hwhole
      obtain ⟨tail, rfl⟩ := List.head?_eq_some_iff.1 (hhead (some c) expected hwhole).symm
      refine ⟨tail, rfl, fun other => ?_⟩
      rw [hoffset, hcause]
      exact compile_of_unexpected hwhole other

/-- A letter where the outer one of two filters has to be closed. -/
theorem compile_error_is_first_fault_nested :
    compile (contextBy [.allow true]) ".a(has(@.b(eq(@.c, 1) x" =
        .error ⟨".a(has(@.b(eq(@.c, 1) x", 22, .unexpected (some 'x') (.char ')')⟩ ∧
      ∃ front tail : List Char, ".a(has(@.b(eq(@.c, 1) x".toList = front ++ 'x' :: tail ∧
        (∃ more p, compile (contextBy [.allow true]).widened (String.ofList (front ++ more)) =
          .ok p) ∧
        ∀ other, compile (contextBy [.allow true]) (String.ofList (front ++ 'x' :: other)) =
          .error ⟨String.ofList (front ++ 'x' :: other), 22,
            .unexpected (some 'x') (.char ')')⟩ := by
  have herror : compile (contextBy [.allow true]) ".a(has(@.b(eq(@.c, 1) x" =
      .error ⟨".a(has(@.b(eq(@.c, 1) x", 22, .unexpected (some 'x') (.char ')')⟩ := rfl
  obtain ⟨front, rest, hs, -, hcomplete, -, hunexpected⟩ :=
    compile_error_is_first_fault _ _ _ herror
  have hfront := hcomplete fun condition arity h => nomatch h
  obtain ⟨tail, rfl, hother⟩ := hunexpected 'x' _ rfl
  exact ⟨herror, front, tail, hs, hfront, hother⟩

end TreePath
