/-
**What readers leave.**

A reader reads from left to right: what it leaves, after what it found or from a fault on, is the
end of the text that it was given.  Where it faults because another character was expected, it tells
the first character of what it leaves.  And a step takes at least one character.

The reader of arguments and the reader of calls are rows of smaller readers, which are named here.

Main definitions:

* `Reading.left` — the text that is left;
* `Reading.EndsIn` — a reading that leaves the end of a text;
* `Reading.argumentsAt`, `Reading.argumentsFrom`, `Reading.argumentsAfter` — reading arguments, from
  the first character of one on, and after one;
* `Reading.givenArguments`, `Reading.enoughArguments` — the arguments of a call, and their number;
* `Reading.callAt`, `Reading.callNamed`, `Reading.callFrom`, `Reading.callArguments`,
  `Reading.callEnd`, `Reading.filterEnd` — reading a call, from each of its parts on.

Main results:

* `Reading.endsIn_argument`, `Reading.endsIn_filter`, `Reading.endsIn_step`,
  `Reading.endsIn_reference`, `Reading.endsIn_whole` — **what is left is the end of the text**;
* `Reading.length_lt_of_step` — a step takes at least one character.
-/

import TreePath.Proofs.Path.Recognition

set_option relaxedAutoImplicit false
set_option autoImplicit false

namespace TreePath

/-- A fault where another character was expected. -/
def Cause.IsUnexpected : Cause → Prop
  | .unexpected _ _ => True
  | _ => False

namespace Reading

section Readings

variable {α β : Type} {s rest : List Char} {r : Reading α}

/-- The text that is left, after what was found or from a fault on. -/
def left : Reading α → List Char
  | found _ rest => rest
  | fault rest _ => rest

@[simp] theorem left_found (a : α) (rest : List Char) : (found a rest).left = rest := rfl

@[simp] theorem left_fault (rest : List Char) (cause : Cause) :
    (fault rest cause : Reading α).left = rest := rfl

/-- **A reading that leaves the end of a text**, and tells the first character of it where it did
not expect this character. -/
structure EndsIn (s : List Char) (r : Reading α) : Prop where
  /-- The text that is left. -/
  left_suffix : r.left <:+ s
  /-- The character that is told. -/
  eq_head? : ∀ rest c expected, r = fault rest (.unexpected c expected) → c = rest.head?

theorem EndsIn.mono (h : r.EndsIn rest) (hrest : rest <:+ s) : r.EndsIn s :=
  ⟨h.left_suffix.trans hrest, h.eq_head?⟩

theorem endsIn_found (a : α) (h : rest <:+ s) : (found a rest).EndsIn s :=
  ⟨h, fun _ _ _ hfault => by cases hfault⟩

theorem endsIn_unexpected (expected : Expected) (h : rest <:+ s) :
    (unexpected rest expected : Reading α).EndsIn s := by
  refine ⟨h, fun rest' c expected' hfault => ?_⟩
  cases hfault
  rfl

theorem endsIn_fault {cause : Cause} (hcause : ¬cause.IsUnexpected) (h : rest <:+ s) :
    (fault rest cause : Reading α).EndsIn s := by
  refine ⟨h, fun rest' c expected hfault => ?_⟩
  cases hfault
  exact absurd trivial hcause

/-- Reading on after what was found leaves the end of a text, if both readers do. -/
theorem EndsIn.andThen {next : α → List Char → Reading β} (h : r.EndsIn s)
    (hnext : ∀ a rest, rest <:+ s → (next a rest).EndsIn s) : (r.andThen next).EndsIn s := by
  cases r with
  | found a rest => exact hnext a rest h.left_suffix
  | fault rest cause =>
      refine ⟨h.left_suffix, fun rest' c expected hfault => ?_⟩
      cases hfault
      exact h.eq_head? _ c expected rfl

theorem EndsIn.map (h : r.EndsIn s) (f : α → β) : (r.map f).EndsIn s :=
  h.andThen fun a _ hrest => endsIn_found (f a) hrest

end Readings

/-! ### Words -/

theorem skipSpaces_suffix (s : List Char) : skipSpaces s <:+ s := List.dropWhile_suffix _

theorem endsIn_char (c : Char) (s : List Char) : (char c s).EndsIn s := by
  cases s with
  | nil => exact endsIn_unexpected _ List.suffix_rfl
  | cons d s =>
      rw [char]
      split
      · exact endsIn_found _ (List.suffix_cons d s)
      · exact endsIn_unexpected _ List.suffix_rfl

theorem endsIn_bound (s : List Char) : (bound s).EndsIn s := by
  simp only [bound]
  split
  · exact endsIn_found _ List.suffix_rfl
  · split
    · exact endsIn_found _ ((Numeral.spanDigits_suffix _).trans (Numeral.takeSign_suffix s))
    · exact endsIn_fault not_false List.suffix_rfl

theorem endsIn_rangeFrom (start : Option Int64) (s : List Char) : (rangeFrom start s).EndsIn s := by
  rw [rangeFrom.eq_def]
  split
  · exact ((endsIn_bound _).mono (List.suffix_cons _ _)).map _
  · exact endsIn_found _ List.suffix_rfl

theorem endsIn_range (s : List Char) : (range s).EndsIn s := by
  rw [range.eq_def]
  split
  · exact endsIn_found _ (List.suffix_cons _ _)
  · exact (endsIn_bound s).andThen fun start rest hrest => (endsIn_rangeFrom start rest).mono hrest

theorem endsIn_selector (s : List Char) : (selector s).EndsIn s := by
  rw [selector.eq_def]
  split
  · exact endsIn_found _ (List.suffix_cons _ _)
  · dsimp only
    split
    · exact endsIn_unexpected _ List.suffix_rfl
    · exact endsIn_found _ (List.dropWhile_suffix _)

/-- A text that is not closed is a fault where it was opened. -/
theorem endsIn_stringLiteral (mark : Char) (s : List Char) :
    (stringLiteral mark s).EndsIn (mark :: s) := by
  rw [stringLiteral]
  split
  · exact endsIn_fault not_false List.suffix_rfl
  · next c rest hrest =>
      refine endsIn_found _ (((List.suffix_cons c rest).trans ?_).trans (List.suffix_cons mark s))
      rw [← hrest]
      exact List.dropWhile_suffix _

theorem endsIn_numberLiteral (s : List Char) : (numberLiteral s).EndsIn s := by
  have hwhole : (Numeral.spanDigits (Numeral.takeSign s).2).2 <:+ s :=
    (Numeral.spanDigits_suffix _).trans (Numeral.takeSign_suffix s)
  simp only [numberLiteral]
  split
  · next rest hpoint =>
      rw [hpoint] at hwhole
      split
      · exact endsIn_fault not_false List.suffix_rfl
      · exact endsIn_found _
          (((Numeral.spanDigits_suffix _).trans (List.suffix_cons _ _)).trans hwhole)
  · split
    · exact endsIn_found _ hwhole
    · exact endsIn_fault not_false List.suffix_rfl

theorem takeNegation_suffix (s : List Char) : (takeNegation s).2 <:+ s := by
  obtain ⟨mark, -, hs⟩ := exists_takeNegation s
  exact ⟨mark, hs.symm⟩

theorem endsIn_conditionName (ctx : Context) (s : List Char) : (conditionName ctx s).EndsIn s := by
  simp only [conditionName]
  split
  · exact endsIn_unexpected _ List.suffix_rfl
  · split
    · exact endsIn_found _ (List.dropWhile_suffix _)
    · exact endsIn_fault not_false List.suffix_rfl

theorem endsIn_target (ctx : Context) (s : List Char) : (target ctx s).EndsIn s := by
  rw [target.eq_def]
  split
  · exact ((endsIn_range _).mono (List.suffix_cons _ _)).andThen fun items rest hrest =>
      ((endsIn_char _ rest).mono hrest).map _
  · split
    · exact ((endsIn_selector _).mono ((List.suffix_cons _ _).trans (List.suffix_cons _ _))).map _
    · exact endsIn_fault not_false List.suffix_rfl
  · exact ((endsIn_selector _).mono (List.drop_suffix 1 _)).map _

/-! ### Arguments and calls, part by part -/

/-- What follows an argument and spaces: after a comma, more of them. -/
def argumentsAfter (reference : List Char → Reading Path) (c : Condition) (place : Nat)
    (signature : List KindSet) (a : Argument) : List Char → Reading (List Argument)
  | ',' :: rest => (arguments reference c place signature rest).map (a :: ·)
  | rest => found [a] rest

/-- What follows an argument, which stands at `s` and has to be of an accepted kind. -/
def argumentsFrom (reference : List Char → Reading Path) (c : Condition) (place : Nat)
    (accepted : KindSet) (signature : List KindSet) (s : List Char) (a : Argument)
    (rest : List Char) : Reading (List Argument) :=
  if accepted.intersects (.only a.kind) then
    argumentsAfter reference c place signature a (skipSpaces rest)
  else fault s (.argumentKind place c.name accepted a.kind)

/-- Arguments, the first of which starts the text. -/
def argumentsAt (reference : List Char → Reading Path) (c : Condition) (place : Nat)
    (accepted : KindSet) (signature : List KindSet) (s : List Char) : Reading (List Argument) :=
  (argument reference s).andThen (argumentsFrom reference c place accepted signature s)

theorem arguments_cons (reference : List Char → Reading Path) (c : Condition) (place : Nat)
    (accepted : KindSet) (signature : List KindSet) (s : List Char) :
    arguments reference c place (accepted :: signature) s =
      argumentsAt reference c (place + 1) accepted signature (skipSpaces s) := by
  rw [arguments, argumentsAt]
  rfl

theorem argumentsAfter_of_stops {reference : List Char → Reading Path} {c : Condition} {place : Nat}
    {signature : List KindSet} {a : Argument} {s : List Char} (h : Stops (· == ',') s) :
    argumentsAfter reference c place signature a s = found [a] s := by
  rw [argumentsAfter.eq_def]
  split
  · simp at h
  · rfl

theorem skipSpaces_skipSpaces (s : List Char) : skipSpaces (skipSpaces s) = skipSpaces s := by
  obtain ⟨sp, hsp, hs⟩ := exists_skipSpaces s
  have hskip := hsp.skipSpaces_append (skipSpaces s)
  rw [← hs] at hskip
  exact hskip.symm

/-- Spaces before arguments are skipped. -/
theorem arguments_skipSpaces (reference : List Char → Reading Path) (c : Condition) (place : Nat)
    (signature : List KindSet) (s : List Char) :
    arguments reference c place signature (skipSpaces s) =
      arguments reference c place signature s := by
  cases signature <;> simp only [arguments, skipSpaces_skipSpaces]

/-- The arguments of a call, of which there are none before a closing parenthesis. -/
def givenArguments (reference : List Char → Reading Path) (c : Condition) (s : List Char) :
    Reading (List Argument) :=
  if s.head? = some ')' then found [] s else arguments reference c 0 c.signature s

/-- There have to be as many arguments as the condition takes. -/
def enoughArguments (c : Condition) (as : List Argument) (rest : List Char) :
    Reading (List Argument) :=
  if as.length < c.arity then fault rest (.tooFewArguments c.name c.arity as.length)
  else found as rest

theorem argumentList_eq (reference : List Char → Reading Path) (c : Condition) (s : List Char) :
    argumentList reference c s =
      (givenArguments reference c (skipSpaces s)).andThen (enoughArguments c) := by
  rw [argumentList, givenArguments, arguments_skipSpaces]
  rfl

/-- The parenthesis that closes a filter. -/
def filterEnd (negated : Bool) (c : Condition) (as : List Argument) (s : List Char) :
    Reading Filter :=
  (char ')' s).map fun _ => ⟨c, negated, as⟩

/-- The parentheses that close a call and its filter. -/
def callEnd (negated : Bool) (c : Condition) (as : List Argument) (s : List Char) :
    Reading Filter :=
  (char ')' s).andThen fun _ rest => filterEnd negated c as (skipSpaces rest)

/-- The arguments of a call, and what follows them. -/
def callArguments (reference : List Char → Reading Path) (negated : Bool) (c : Condition)
    (s : List Char) : Reading Filter :=
  (argumentList reference c s).andThen (callEnd negated c)

/-- What follows the name of a condition. -/
def callFrom (reference : List Char → Reading Path) (negated : Bool) (c : Condition)
    (s : List Char) : Reading Filter :=
  (char '(' (skipSpaces s)).andThen fun _ rest => callArguments reference negated c rest

/-- A call from its name on. -/
def callNamed (ctx : Context) (reference : List Char → Reading Path) (negated : Bool)
    (s : List Char) : Reading Filter :=
  (conditionName ctx (skipSpaces s)).andThen (callFrom reference negated)

/-- A call from its first character on. -/
def callAt (ctx : Context) (reference : List Char → Reading Path) (s : List Char) :
    Reading Filter :=
  (found (takeNegation s).1 (takeNegation s).2).andThen (callNamed ctx reference)

theorem call_eq (ctx : Context) (reference : List Char → Reading Path) (s : List Char) :
    call ctx reference s = callAt ctx reference (skipSpaces s) := rfl

/-! ### Filters and steps -/

section Steps

variable {ctx : Context} {reference : List Char → Reading Path}
  (hends : ∀ s, (reference s).EndsIn s)

include hends

theorem endsIn_argument (s : List Char) : (argument reference s).EndsIn s := by
  cases s with
  | nil => exact endsIn_unexpected _ List.suffix_rfl
  | cons c s =>
      rw [argument]
      split
      · exact ((hends s).mono (List.suffix_cons c s)).map _
      · split
        · exact (endsIn_stringLiteral c s).map _
        · split
          · exact endsIn_numberLiteral _
          · exact endsIn_unexpected _ List.suffix_rfl

theorem endsIn_arguments (c : Condition) (place : Nat) (signature : List KindSet) (s : List Char) :
    (arguments reference c place signature s).EndsIn s := by
  induction signature generalizing place s with
  | nil => exact endsIn_fault not_false (skipSpaces_suffix s)
  | cons accepted signature ih =>
      rw [arguments_cons, argumentsAt]
      have hargument := (endsIn_argument hends _).mono (skipSpaces_suffix s)
      refine hargument.andThen fun a rest hrest => ?_
      have hskip := (skipSpaces_suffix rest).trans hrest
      rw [argumentsFrom, argumentsAfter.eq_def]
      split
      · split
        · next more hcomma =>
            rw [hcomma] at hskip
            exact ((ih _ more).mono ((List.suffix_cons _ _).trans hskip)).map _
        · exact endsIn_found _ hskip
      · exact endsIn_fault not_false (skipSpaces_suffix s)

theorem endsIn_argumentsAfter (c : Condition) (place : Nat) (signature : List KindSet)
    (a : Argument) (s : List Char) :
    (argumentsAfter reference c place signature a s).EndsIn s := by
  rw [argumentsAfter.eq_def]
  split
  · exact ((endsIn_arguments hends c place signature _).mono (List.suffix_cons _ _)).map _
  · exact endsIn_found _ List.suffix_rfl

theorem endsIn_givenArguments (c : Condition) (s : List Char) :
    (givenArguments reference c s).EndsIn s := by
  rw [givenArguments]
  split
  · exact endsIn_found _ List.suffix_rfl
  · exact endsIn_arguments hends c 0 c.signature s

omit hends in
theorem endsIn_enoughArguments (c : Condition) (as : List Argument) (s : List Char) :
    (enoughArguments c as s).EndsIn s := by
  rw [enoughArguments]
  split
  · exact endsIn_fault not_false List.suffix_rfl
  · exact endsIn_found _ List.suffix_rfl

theorem endsIn_argumentList (c : Condition) (s : List Char) :
    (argumentList reference c s).EndsIn s := by
  rw [argumentList_eq]
  exact ((endsIn_givenArguments hends c _).mono (skipSpaces_suffix s)).andThen fun as rest hrest =>
    (endsIn_enoughArguments c as rest).mono hrest

omit hends in
theorem endsIn_filterEnd (negated : Bool) (c : Condition) (as : List Argument) (s : List Char) :
    (filterEnd negated c as s).EndsIn s :=
  (endsIn_char _ s).map _

omit hends in
theorem endsIn_callEnd (negated : Bool) (c : Condition) (as : List Argument) (s : List Char) :
    (callEnd negated c as s).EndsIn s :=
  (endsIn_char _ s).andThen fun _ rest hrest =>
    (endsIn_filterEnd negated c as _).mono ((skipSpaces_suffix rest).trans hrest)

theorem endsIn_callArguments (negated : Bool) (c : Condition) (s : List Char) :
    (callArguments reference negated c s).EndsIn s :=
  (endsIn_argumentList hends c s).andThen fun as rest hrest =>
    (endsIn_callEnd negated c as rest).mono hrest

theorem endsIn_callFrom (negated : Bool) (c : Condition) (s : List Char) :
    (callFrom reference negated c s).EndsIn s :=
  ((endsIn_char _ _).mono (skipSpaces_suffix s)).andThen fun _ rest hrest =>
    (endsIn_callArguments hends negated c rest).mono hrest

theorem endsIn_callNamed (negated : Bool) (s : List Char) :
    (callNamed ctx reference negated s).EndsIn s :=
  ((endsIn_conditionName ctx _).mono (skipSpaces_suffix s)).andThen fun c rest hrest =>
    (endsIn_callFrom hends negated c rest).mono hrest

theorem endsIn_callAt (s : List Char) : (callAt ctx reference s).EndsIn s :=
  (endsIn_found _ (takeNegation_suffix s)).andThen fun negated rest hrest =>
    (endsIn_callNamed hends negated rest).mono hrest

theorem endsIn_call (s : List Char) : (call ctx reference s).EndsIn s := by
  rw [call_eq]
  exact (endsIn_callAt hends _).mono (skipSpaces_suffix s)

theorem endsIn_filter (s : List Char) : (filter ctx reference s).EndsIn s := by
  rw [filter.eq_def]
  split
  · exact ((endsIn_call hends _).mono (List.suffix_cons _ _)).map _
  · exact endsIn_found _ List.suffix_rfl

theorem endsIn_step (s : List Char) : (step ctx reference s).EndsIn s :=
  (endsIn_target ctx s).andThen fun _ rest hrest => ((endsIn_filter hends rest).mono hrest).map _

theorem endsIn_steps (count : Nat) (s : List Char) :
    (steps ctx reference count s).EndsIn s := by
  induction count generalizing s with
  | zero => exact endsIn_found _ List.suffix_rfl
  | succ count ih =>
      rw [steps]
      split
      · exact (endsIn_step hends s).andThen fun st rest hrest => ((ih rest).mono hrest).map _
      · exact endsIn_found _ List.suffix_rfl

/-- **A step takes at least one character.** -/
theorem length_lt_of_step {s rest : List Char} {st : Step} (hstarts : startsStep s = true)
    (h : step ctx reference s = found st rest) : rest.length < s.length := by
  have hsound : Sound reference fun _ _ => True := by
    intro s rest p hp
    obtain ⟨t, ht⟩ := (hends s).left_suffix
    rw [hp, left_found] at ht
    exact ⟨t, ht.symm, trivial⟩
  obtain ⟨t, rfl, ht⟩ := step_sound hsound hstarts h
  have hpos := List.length_pos_iff.2 ht.ne_nil
  rw [List.length_append]
  omega

end Steps

/-! ### Paths -/

theorem endsIn_reference (ctx : Context) (depth : Nat) (s : List Char) :
    (reference ctx depth s).EndsIn s := by
  induction depth generalizing s with
  | zero => exact endsIn_unexpected _ List.suffix_rfl
  | succ depth ih =>
      refine (endsIn_steps ih _ s).andThen fun sts rest hrest => ?_
      split
      · exact endsIn_unexpected _ hrest
      · exact endsIn_found _ hrest

/-- **What is left of a whole text is its end.** -/
theorem endsIn_whole (ctx : Context) (s : List Char) : (whole ctx s).EndsIn s := by
  refine (endsIn_steps (endsIn_reference ctx _) _ s).andThen fun sts rest hrest => ?_
  split
  · exact endsIn_found _ List.nil_suffix
  · exact endsIn_unexpected _ hrest

end Reading

end TreePath
