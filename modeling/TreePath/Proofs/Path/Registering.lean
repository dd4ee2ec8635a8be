/-
**What a context has to do with a text.**

Of the conditions of a context, compiling looks up those whose names stand in the text, and it lists
the names of all where it finds none.  So two contexts that find the same conditions under the names
in a text, and agree on descendant steps, compile it to the same path, or it has the same error in
both but for the list.  Registering one more condition changes nothing for a text in which its name
does not occur.

Main definitions:

* `Cause.withKnown`, `SyntaxError.withKnown`, `Reading.withKnown` — the same with another list of
  known names;
* `Context.AgreeOn` — two contexts that find the same conditions under the names in a text.

Main results:

* `Reading.andThen_withKnown` — readings one after another;
* `compile_of_agreeOn` — **compiling depends on the names in the text**;
* `known_of_compile` — the names that an error lists are all names of the context;
* `compile_register` — **registering a condition** changes nothing for a text without its name.
-/

import TreePath.Condition.Builtin
import TreePath.Proofs.Condition.Registry
import TreePath.Proofs.Path.Remainders
import TreePath.Text.Occurrence

set_option relaxedAutoImplicit false
set_option autoImplicit false

namespace TreePath

/-! ### Other lists of known names -/

/-- The cause with another list of known names, if it has one. -/
def Cause.withKnown (known : List String) : Cause → Cause
  | .unknownCondition name _ => .unknownCondition name known
  | cause => cause

theorem Cause.withKnown_eq_self {cause : Cause} (known : List String)
    (h : ∀ name listed, cause ≠ .unknownCondition name listed) : cause.withKnown known = cause := by
  cases cause with
  | unknownCondition name listed => exact absurd rfl (h name listed)
  | _ => rfl

/-- The error with another list of known names, if it has one. -/
def SyntaxError.withKnown (known : List String) (e : SyntaxError) : SyntaxError :=
  { e with cause := e.cause.withKnown known }

/-- The contexts find the same conditions under the names that occur in a text, and agree on
descendant steps. -/
structure Context.AgreeOn (ctx ctx' : Context) (s : List Char) : Prop where
  /-- Descendant steps. -/
  descendants : ctx'.descendants = ctx.descendants
  /-- Conditions. -/
  find? : ∀ name : String, name.toList <:+: s → ctx'.find? name = ctx.find? name

theorem Context.agreeOn_self (ctx : Context) (s : List Char) : ctx.AgreeOn ctx s :=
  ⟨rfl, fun _ _ => rfl⟩

theorem Context.AgreeOn.mono {ctx ctx' : Context} {s t : List Char} (h : ctx.AgreeOn ctx' s)
    (ht : t <:+ s) : ctx.AgreeOn ctx' t :=
  ⟨h.descendants, fun name hname => h.find? name (hname.trans ht.isInfix)⟩

namespace Reading

section Readings

variable {α β : Type} {known : List String} {s : List Char} {r r' : Reading α}

/-- The reading with another list of known names, if it has one. -/
def withKnown (known : List String) : Reading α → Reading α
  | found a rest => found a rest
  | fault rest cause => fault rest (cause.withKnown known)

@[simp] theorem withKnown_found (a : α) (rest : List Char) :
    (found a rest).withKnown known = found a rest := rfl

@[simp] theorem withKnown_unexpected (s : List Char) (expected : Expected) :
    (unexpected s expected : Reading α).withKnown known = unexpected s expected := rfl

/-- **Readings one after another** are the same but for the list, if each is. -/
theorem andThen_withKnown {next next' : α → List Char → Reading β} (hends : r.EndsIn s)
    (h : r' = r.withKnown known)
    (hnext : ∀ a rest, rest <:+ s → next' a rest = (next a rest).withKnown known) :
    r'.andThen next' = (r.andThen next).withKnown known := by
  subst h
  cases r with
  | found a rest => exact hnext a rest hends.left_suffix
  | fault rest cause => rfl

@[simp] theorem withKnown_map (f : α → β) (r : Reading α) :
    (r.map f).withKnown known = (r.withKnown known).map f := by
  cases r <;> rfl

/-! ### Words list no names -/

@[simp] theorem withKnown_char (c : Char) (s : List Char) :
    (char c s).withKnown known = char c s := by
  rw [char.eq_def]
  split
  · rfl
  · split <;> rfl

@[simp] theorem withKnown_bound (s : List Char) : (bound s).withKnown known = bound s := by
  simp only [bound]
  split
  · rfl
  · split <;> rfl

@[simp] theorem withKnown_rangeFrom (start : Option Int64) (s : List Char) :
    (rangeFrom start s).withKnown known = rangeFrom start s := by
  rw [rangeFrom.eq_def]
  split <;> simp

@[simp] theorem withKnown_range (s : List Char) : (range s).withKnown known = range s := by
  rw [range.eq_def]
  split
  · rfl
  · exact (andThen_withKnown (endsIn_bound _) (by simp) (by simp)).symm

@[simp] theorem withKnown_selector (s : List Char) :
    (selector s).withKnown known = selector s := by
  rw [selector.eq_def]
  split
  · rfl
  · dsimp only
    split <;> rfl

@[simp] theorem withKnown_stringLiteral (mark : Char) (s : List Char) :
    (stringLiteral mark s).withKnown known = stringLiteral mark s := by
  rw [stringLiteral]
  split <;> rfl

@[simp] theorem withKnown_numberLiteral (s : List Char) :
    (numberLiteral s).withKnown known = numberLiteral s := by
  simp only [numberLiteral]
  split
  · split <;> rfl
  · split <;> rfl

@[simp] theorem withKnown_enoughArguments (c : Condition) (as : List Argument) (s : List Char) :
    (enoughArguments c as s).withKnown known = enoughArguments c as s := by
  rw [enoughArguments]
  split <;> rfl

end Readings

/-! ### Filters -/

section Reference

variable {ctx ctx' : Context} {reference reference' : List Char → Reading Path}

theorem target_of_agreeOn {s : List Char} (hs : ctx.AgreeOn ctx' s) :
    target ctx' s = (target ctx s).withKnown ctx'.names := by
  rw [target.eq_def, target.eq_def]
  split
  · exact andThen_withKnown (endsIn_range _) (by simp) (by simp)
  · rw [hs.descendants]
    split
    · simp
    · rfl
  · simp

theorem conditionName_of_agreeOn {s : List Char} (hs : ctx.AgreeOn ctx' s) :
    conditionName ctx' s = (conditionName ctx s).withKnown ctx'.names := by
  have hname : (String.ofList (spanName s).1).toList <:+: s := by
    rw [String.toList_ofList]
    exact (List.takeWhile_prefix _).isInfix
  simp only [conditionName, hs.find? _ hname]
  split
  · rfl
  · split <;> rfl

variable (hends : ∀ s, (reference s).EndsIn s)
  (hreference : ∀ s, ctx.AgreeOn ctx' s → reference' s = (reference s).withKnown ctx'.names)

include hreference

theorem argument_of_agreeOn {s : List Char} (hs : ctx.AgreeOn ctx' s) :
    argument reference' s = (argument reference s).withKnown ctx'.names := by
  cases s with
  | nil => rfl
  | cons c rest =>
      rw [argument, argument]
      split
      · rw [hreference rest (hs.mono (List.suffix_cons c rest)), withKnown_map]
      · split
        · simp
        · split <;> simp

include hends

theorem arguments_of_agreeOn (c : Condition) (place : Nat) (signature : List KindSet)
    {s : List Char} (hs : ctx.AgreeOn ctx' s) :
    arguments reference' c place signature s =
      (arguments reference c place signature s).withKnown ctx'.names := by
  induction signature generalizing place s with
  | nil => rfl
  | cons accepted signature ih =>
      rw [arguments_cons, arguments_cons]
      have hskip := hs.mono (skipSpaces_suffix s)
      refine andThen_withKnown (endsIn_argument hends _) (argument_of_agreeOn hreference hskip)
        fun a rest hrest => ?_
      rw [argumentsFrom, argumentsFrom]
      split
      · rw [argumentsAfter.eq_def, argumentsAfter.eq_def]
        split
        · next more hmore =>
            have hmore' : more <:+ skipSpaces rest := by
              rw [hmore]
              exact List.suffix_cons ',' more
            rw [ih _ (hskip.mono ((hmore'.trans (skipSpaces_suffix rest)).trans hrest)),
              withKnown_map]
        · rfl
      · rfl

theorem argumentList_of_agreeOn (c : Condition) {s : List Char} (hs : ctx.AgreeOn ctx' s) :
    argumentList reference' c s = (argumentList reference c s).withKnown ctx'.names := by
  rw [argumentList_eq, argumentList_eq]
  refine andThen_withKnown (endsIn_givenArguments hends c _) ?_ (by simp)
  rw [givenArguments, givenArguments]
  split
  · rfl
  · exact arguments_of_agreeOn hends hreference c 0 _ (hs.mono (skipSpaces_suffix s))

theorem call_of_agreeOn {s : List Char} (hs : ctx.AgreeOn ctx' s) :
    call ctx' reference' s = (call ctx reference s).withKnown ctx'.names := by
  have hname := (skipSpaces_suffix (takeNegation (skipSpaces s)).2).trans
    ((takeNegation_suffix _).trans (skipSpaces_suffix s))
  refine andThen_withKnown (endsIn_conditionName ctx _) (conditionName_of_agreeOn (hs.mono hname))
    fun c r₁ h₁ => ?_
  have hopen := (skipSpaces_suffix r₁).trans (h₁.trans hname)
  refine andThen_withKnown (endsIn_char _ _) (by simp) fun _ r₂ h₂ => ?_
  refine andThen_withKnown (endsIn_argumentList hends c r₂)
    (argumentList_of_agreeOn hends hreference c (hs.mono (h₂.trans hopen))) fun as r₃ _ => ?_
  exact andThen_withKnown (endsIn_char _ r₃) (by simp) (by simp)

theorem filter_of_agreeOn {s : List Char} (hs : ctx.AgreeOn ctx' s) :
    filter ctx' reference' s = (filter ctx reference s).withKnown ctx'.names := by
  rw [filter.eq_def, filter.eq_def]
  split
  · rw [call_of_agreeOn hends hreference (hs.mono (List.suffix_cons _ _)), withKnown_map]
  · rfl

/-! ### Steps -/

theorem step_of_agreeOn {s : List Char} (hs : ctx.AgreeOn ctx' s) :
    step ctx' reference' s = (step ctx reference s).withKnown ctx'.names := by
  refine andThen_withKnown (endsIn_target ctx s) (target_of_agreeOn hs) fun t rest hrest => ?_
  rw [filter_of_agreeOn hends hreference (hs.mono hrest), withKnown_map]

theorem steps_of_agreeOn (count : Nat) {s : List Char} (hs : ctx.AgreeOn ctx' s) :
    steps ctx' reference' count s = (steps ctx reference count s).withKnown ctx'.names := by
  induction count generalizing s with
  | zero => rfl
  | succ count ih =>
      rw [steps, steps]
      split
      · refine andThen_withKnown (endsIn_step hends s) (step_of_agreeOn hends hreference hs)
          fun st rest hrest => ?_
        rw [ih (hs.mono hrest), withKnown_map]
      · rfl

end Reference

/-! ### Paths -/

/-- Paths after a mark `@`, by induction on how deep they are nested. -/
theorem reference_of_agreeOn {ctx ctx' : Context} (depth : Nat) {s : List Char}
    (hs : ctx.AgreeOn ctx' s) :
    reference ctx' depth s = (reference ctx depth s).withKnown ctx'.names := by
  induction depth generalizing s with
  | zero => rfl
  | succ depth ih =>
      refine andThen_withKnown (endsIn_steps (endsIn_reference ctx depth) _ s)
        (steps_of_agreeOn (endsIn_reference ctx depth) (fun _ => ih) _ hs) fun sts rest _ => ?_
      split <;> rfl

theorem whole_of_agreeOn {ctx ctx' : Context} {s : List Char} (hs : ctx.AgreeOn ctx' s) :
    whole ctx' s = (whole ctx s).withKnown ctx'.names := by
  refine andThen_withKnown (endsIn_steps (endsIn_reference ctx _) _ s)
    (steps_of_agreeOn (endsIn_reference ctx _) (fun _ => reference_of_agreeOn _) _ hs)
    fun sts rest _ => ?_
  split <;> rfl

end Reading

/-! ### Compiling -/

/-- **Compiling depends on the names in the text**, and an error on the list of all names only in
that it may list them. -/
theorem compile_of_agreeOn {ctx ctx' : Context} {expression : String}
    (h : ctx.AgreeOn ctx' expression.toList) :
    compile ctx' expression =
      (compile ctx expression).mapError (SyntaxError.withKnown ctx'.names) := by
  simp only [compile, Reading.whole_of_agreeOn h]
  split
  · rfl
  · cases Reading.whole ctx expression.toList <;> rfl

theorem expression_of_compile {ctx : Context} {expression : String} {e : SyntaxError}
    (h : compile ctx expression = .error e) : e.expression = expression := by
  simp only [compile] at h
  split at h
  · cases h
    rfl
  · split at h
    · cases h
    · cases h
      rfl

/-- An error that lists known names lists those of the context. -/
theorem known_of_compile {ctx : Context} {expression : String} {e : SyntaxError} {name : String}
    {known : List String} (h : compile ctx expression = .error e)
    (hcause : e.cause = .unknownCondition name known) : known = ctx.names := by
  have hself := compile_of_agreeOn (ctx.agreeOn_self expression.toList)
  rw [h] at hself
  have hlist := congrArg SyntaxError.cause (Except.error.inj hself)
  simp only [SyntaxError.withKnown, hcause, Cause.withKnown] at hlist
  exact (Cause.unknownCondition.inj hlist).2

/-- One more condition is not found under the names in a text without its own. -/
theorem Context.agreeOn_register (ctx : Context) {c : Condition} {s : List Char}
    (habsent : ¬c.name.toList <:+: s) : ctx.AgreeOn (ctx.register c) s := by
  refine ⟨rfl, fun name hname => ?_⟩
  rw [find?_register, if_neg]
  rintro rfl
  exact habsent hname

/-- **Registering a condition changes nothing for a text without its name.**  The text compiles to
the same path before and after, or it has the same error, or else a name in it is unknown both times
and the error lists the names, to which the one that is registered has been added in its place. -/
theorem compile_register {ctx : Context} {c : Condition} {expression : String}
    (habsent : ¬c.name.toList <:+: expression.toList) :
    ((∃ p, compile ctx expression = .ok p ∧ compile (ctx.register c) expression = .ok p) ∨
      (∃ e, (∀ name known, e.cause ≠ .unknownCondition name known) ∧
        compile ctx expression = .error e ∧ compile (ctx.register c) expression = .error e) ∨
      ∃ offset name,
        compile ctx expression = .error ⟨expression, offset, .unknownCondition name ctx.names⟩ ∧
        compile (ctx.register c) expression =
          .error ⟨expression, offset, .unknownCondition name (ctx.register c).names⟩) ∧
    (c.name ∈ ctx.names → (ctx.register c).names = ctx.names) ∧
    (c.name ∉ ctx.names → ∃ before after, ctx.names = before ++ after ∧
      (ctx.register c).names = before ++ c.name :: after ∧
      (∀ name ∈ before, name < c.name) ∧ ∀ name ∈ after, c.name < name) := by
  refine ⟨?_, ctx.names_register c⟩
  have hregister := compile_of_agreeOn (ctx.agreeOn_register habsent)
  cases hcompile : compile ctx expression with
  | ok p =>
      rw [hcompile] at hregister
      exact .inl ⟨p, rfl, hregister⟩
  | error e =>
      rw [hcompile] at hregister
      have hexpression := expression_of_compile hcompile
      obtain ⟨_, offset, cause⟩ := e
      obtain rfl := hexpression
      by_cases hunknown : ∃ name known, cause = .unknownCondition name known
      · obtain ⟨name, known, rfl⟩ := hunknown
        obtain rfl := known_of_compile hcompile rfl
        exact .inr (.inr ⟨offset, name, rfl, hregister⟩)
      · have hother : ∀ name known, cause ≠ .unknownCondition name known :=
          fun name known h => hunknown ⟨name, known, h⟩
        refine .inr (.inl ⟨_, hother, rfl, hregister.trans ?_⟩)
        rw [Except.mapError, SyntaxError.withKnown, Cause.withKnown_eq_self _ hother]

/-- A condition that takes one path. -/
def Condition.ends : Condition := ⟨"ends", [.only .path], fun _ => true⟩

/-- A name that is unknown before and after a condition of another name is registered, which stands
between two conditions of the language then. -/
theorem compile_register_unknown :
    compile Context.standard ".a(starts(@.b))" = .error ⟨".a(starts(@.b))", 3,
        .unknownCondition "starts" ["between", "cicontains", "contains", "empty", "eq", "gt", "gte",
          "has", "lt", "lte"]⟩ ∧
      compile (Context.standard.register .ends) ".a(starts(@.b))" = .error ⟨".a(starts(@.b))", 3,
        .unknownCondition "starts" ["between", "cicontains", "contains", "empty", "ends", "eq",
          "gt", "gte", "has", "lt", "lte"]⟩ := by
  have herror : compile Context.standard ".a(starts(@.b))" =
      .error ⟨".a(starts(@.b))", 3, .unknownCondition "starts" Context.standard.names⟩ := rfl
  have habsent : ¬Condition.ends.name.toList <:+: ".a(starts(@.b))".toList :=
    occursIn_iff.not.1 (by decide +kernel)
  refine ⟨herror, ?_⟩
  rcases (@compile_register .standard _ _ habsent).1 with
    ⟨p, hp, -⟩ | ⟨e, he, hsame, -⟩ | ⟨offset, name, hbefore, hafter⟩
  · rw [herror] at hp
    cases hp
  · rw [herror] at hsame
    cases hsame
    exact absurd rfl (he "starts" _)
  · rw [herror] at hbefore
    cases hbefore
    exact hafter

end TreePath
