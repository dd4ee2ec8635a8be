/-
**Reading filters.**

The readers of arguments and filters, given a reader of the paths after `@`, against the grammar.  A
reader is *sound* when what it finds is denoted by the text in front of the text that is left.  It
is *complete* when it finds everything that a text denotes, in front of every rest before which such
texts end.  An argument ends before a space, a comma or a parenthesis, a step before anything that
is neither part of a name nor an opening parenthesis, and a path before anything that, besides,
starts no step.  A filter is closed by a parenthesis of its own and ends before everything.

Main definitions:

* `Reading.Sound`, `Reading.Complete` — readers and relations;
* `ArgumentEnd`, `StepEnd`, `PathEnd` — where arguments, steps and paths end.

Main results, each for a reader of paths with the same property:

* `Reading.argument_sound`, `Reading.argument_complete` — one argument;
* `Reading.argumentList_sound`, `Reading.argumentList_complete` — the arguments of a call, as many
  and of such kinds as the condition accepts;
* `Reading.filter_sound`, `Reading.filter_complete` — filters.
-/

import TreePath.Proofs.Path.Words

set_option relaxedAutoImplicit false
set_option autoImplicit false

namespace TreePath

/-! ### Readers and relations -/

/-- What a reader finds is denoted by the text in front of the text that is left. -/
def Reading.Sound {α : Type} (read : List Char → Reading α) (D : List Char → α → Prop) : Prop :=
  ∀ ⦃s rest : List Char⦄ ⦃a : α⦄, read s = .found a rest → ∃ t, s = t ++ rest ∧ D t a

/-- A reader finds what a text denotes, in front of every rest before which such texts end. -/
def Reading.Complete {α : Type} (read : List Char → Reading α) (D : List Char → α → Prop)
    (ends : List Char → Prop) : Prop :=
  ∀ ⦃s rest : List Char⦄ ⦃a : α⦄, D s a → ends rest → read (s ++ rest) = .found a rest

/-- Whether a step could go on with this character. -/
def goesOnStep (c : Char) : Bool := isNameChar c || c == '('

/-- Whether a path could go on with this character. -/
def goesOnPath (c : Char) : Bool := goesOnStep c || c == '.' || c == '['

/-- A rest before which steps end. -/
def StepEnd (rest : List Char) : Prop := Stops goesOnStep rest

/-- A rest before which paths end. -/
def PathEnd (rest : List Char) : Prop := Stops goesOnPath rest

/-- A rest before which arguments end. -/
def ArgumentEnd (rest : List Char) : Prop :=
  ∃ c t, rest = c :: t ∧ (c = ' ' ∨ c = ',' ∨ c = ')')

theorem Stops.imp {p q : Char → Bool} {s : List Char} (h : Stops p s)
    (hpq : ∀ c, q c = true → p c = true) : Stops q s := by
  intro c hc
  rw [Bool.eq_false_iff]
  intro hq
  exact absurd (hpq c hq) (by simp [h c hc])

theorem StepEnd.stops_name {rest : List Char} (h : StepEnd rest) : Stops isNameChar rest :=
  Stops.imp h fun c hc => by simp [goesOnStep, hc]

theorem StepEnd.stops_filter {rest : List Char} (h : StepEnd rest) : Stops (· == '(') rest :=
  Stops.imp h fun c hc => by simp [goesOnStep, show (c == '(') = true from hc]

theorem PathEnd.stepEnd {rest : List Char} (h : PathEnd rest) : StepEnd rest :=
  Stops.imp h fun c hc => by simp [goesOnPath, hc]

theorem pathEnd_nil : PathEnd [] := stops_nil _

/-- What no argument ends before does not follow an argument. -/
theorem ArgumentEnd.stops {rest : List Char} (h : ArgumentEnd rest) {p : Char → Bool}
    (hspace : p ' ' = false) (hcomma : p ',' = false) (hclose : p ')' = false) : Stops p rest := by
  obtain ⟨c, t, rfl, rfl | rfl | rfl⟩ := h
  · exact (stops_cons p _ t).2 hspace
  · exact (stops_cons p _ t).2 hcomma
  · exact (stops_cons p _ t).2 hclose

theorem ArgumentEnd.pathEnd {rest : List Char} (h : ArgumentEnd rest) : PathEnd rest :=
  h.stops (by decide) (by decide) (by decide)

theorem IsSpaces.stops_append {sp t : List Char} (h : IsSpaces sp) {p : Char → Bool}
    (hspace : p ' ' = false) (ht : Stops p t) : Stops p (sp ++ t) := by
  cases sp with
  | nil => exact ht
  | cons c sp => exact (stops_cons p c _).2 (h c List.mem_cons_self ▸ hspace)

theorem IsSpaces.argumentEnd_append {sp t : List Char} (h : IsSpaces sp) (ht : ArgumentEnd t) :
    ArgumentEnd (sp ++ t) := by
  cases sp with
  | nil => exact ht
  | cons c sp => exact ⟨c, _, rfl, Or.inl (h c List.mem_cons_self)⟩

namespace Reading

variable {ctx : Context} {reference : List Char → Reading Path} {R : List Char → Path → Prop}

theorem char_eq_found_iff {c : Char} {s rest : List Char} {u : Unit} :
    char c s = found u rest ↔ s = c :: rest := by
  cases s with
  | nil => simp [char, unexpected]
  | cons d s =>
      by_cases h : d = c <;> simp [char, unexpected, h]

/-! ### Arguments -/

theorem argument_sound (hsound : Sound reference R) :
    Sound (argument reference) (ArgumentText R) := by
  intro s rest a h
  cases s with
  | nil => simp [argument, unexpected] at h
  | cons c s =>
      rw [argument] at h
      split at h
      · next hc =>
          obtain ⟨p, hp, rfl⟩ := map_eq_found_iff.1 h
          obtain ⟨t, rfl, ht⟩ := hsound hp
          exact ⟨'@' :: t, by rw [hc]; rfl, .path ht⟩
      · split at h
        · next hmark =>
            obtain ⟨x, hx, rfl⟩ := map_eq_found_iff.1 h
            obtain ⟨t, rfl, closed, rfl⟩ := exists_of_stringLiteral hx
            exact ⟨c :: (t ++ [c]), by simp, .string hmark closed⟩
        · split at h
          · obtain ⟨t, ht, ⟨n, rfl, hn⟩ | ⟨x, rfl, hx⟩⟩ := exists_of_numberLiteral h
            · exact ⟨t, ht, .integer hn⟩
            · exact ⟨t, ht, .float hx⟩
          · cases h

/-- A text that starts with a sign, a point or a digit is read as a number. -/
theorem argument_of_startsNumber {c : Char} {s : List Char} (h : startsNumber c = true) :
    argument reference (c :: s) = numberLiteral (c :: s) := by
  have hat : c ≠ '@' := ne_of_startsNumber h rfl
  have hmark : ¬(c = '\x22' ∨ c = '\'' ∨ c = '\x60') := by
    rintro (rfl | rfl | rfl) <;> cases h
  rw [argument, if_neg hat, if_neg hmark, if_pos (startsNumber_iff.1 h)]

theorem argument_complete (hcomplete : Complete reference R PathEnd) :
    Complete (argument reference) (ArgumentText R) ArgumentEnd := by
  intro s rest a h hrest
  have hdigit : Stops Char.isDigit rest := hrest.stops (by decide) (by decide) (by decide)
  have hpoint : Stops (· == '.') rest := hrest.stops (by decide) (by decide) (by decide)
  cases h with
  | path hp =>
      rw [List.cons_append, argument, if_pos rfl, hcomplete hp hrest.pathEnd, map_found]
  | @string mark t hmark closed =>
      have hat : mark ≠ '@' := by rcases hmark with rfl | rfl | rfl <;> decide
      rw [List.cons_append, List.append_assoc, argument, if_neg hat, if_pos hmark,
        List.singleton_append, stringLiteral_eq_found closed, map_found]
  | integer hn =>
      have hread := numberLiteral_integer hn hdigit hpoint
      obtain ⟨c, t, rfl, hc⟩ := hn.exists_cons
      rw [List.cons_append] at hread ⊢
      rw [argument_of_startsNumber hc, hread]
  | float hx =>
      have hread := numberLiteral_float hx hdigit
      obtain ⟨c, t, rfl, hc⟩ := hx.exists_cons
      rw [List.cons_append] at hread ⊢
      rw [argument_of_startsNumber hc, hread]

end Reading

/-- No argument starts with a space or a parenthesis. -/
theorem ArgumentText.stops {R : List Char → Path → Prop} {s : List Char} {a : Argument}
    (h : ArgumentText R s a) (rest : List Char) :
    Stops (fun c => c == ' ' || c == ')') (s ++ rest) := by
  have hnumber : ∀ c t, startsNumber c = true →
      Stops (fun c => c == ' ' || c == ')') (c :: t ++ rest) := by
    intro c t hc
    have hspace : c ≠ ' ' := ne_of_startsNumber hc rfl
    have hclose : c ≠ ')' := ne_of_startsNumber hc rfl
    exact (stops_cons _ c _).2 (by simp [hspace, hclose])
  cases h with
  | path h => simp
  | string hmark closed => rcases hmark with rfl | rfl | rfl <;> simp
  | integer hn =>
      obtain ⟨c, t, rfl, hc⟩ := hn.exists_cons
      exact hnumber c t hc
  | float hx =>
      obtain ⟨c, t, rfl, hc⟩ := hx.exists_cons
      exact hnumber c t hc

theorem ArgumentText.stops_space {R : List Char → Path → Prop} {s : List Char} {a : Argument}
    (h : ArgumentText R s a) (rest : List Char) : Stops (· == ' ') (s ++ rest) :=
  Stops.imp (h.stops rest) fun c hc => by simp [show (c == ' ') = true from hc]

theorem ArgumentsText.stops {R : List Char → Path → Prop} {s : List Char} {as : List Argument}
    (h : ArgumentsText R s as) (rest : List Char) :
    Stops (fun c => c == ' ' || c == ')') (s ++ rest) := by
  cases h with
  | last h _ => rw [List.append_assoc]; exact h.stops _
  | cons h _ _ _ => rw [List.append_assoc]; exact h.stops _

namespace Reading

variable {ctx : Context} {reference : List Char → Reading Path} {R : List Char → Path → Prop}

/-! ### Lists of arguments -/

theorem arguments_sound (hsound : Sound reference R) {c : Condition} {place : Nat}
    {signature : List KindSet} {s rest : List Char} {as : List Argument}
    (h : arguments reference c place signature s = found as rest) :
    ∃ sp t, s = sp ++ (t ++ rest) ∧ IsSpaces sp ∧ ArgumentsText R t as ∧
      as.length ≤ signature.length ∧ Accepts (signature.take as.length) as := by
  induction signature generalizing place s as with
  | nil => simp [arguments] at h
  | cons accepted signature ih =>
      obtain ⟨a, mid, ha, hmore⟩ := andThen_eq_found_iff.1 h
      obtain ⟨sp, hsp, hs⟩ := exists_skipSpaces s
      obtain ⟨t, ht, htext⟩ := argument_sound hsound ha
      obtain ⟨after, hafter, hmid⟩ := exists_skipSpaces mid
      split at hmore
      · next hkind =>
          split at hmore
          · next more hcomma =>
              obtain ⟨as', has', rfl⟩ := map_eq_found_iff.1 hmore
              obtain ⟨before, u, rfl, hbefore, hu, hlen, haccepts⟩ := ih has'
              refine ⟨sp, t ++ (after ++ ',' :: (before ++ u)), ?_, hsp,
                .cons htext hafter hbefore hu, Nat.succ_le_succ hlen, .cons hkind haccepts⟩
              rw [hs, ht, hmid, hcomma]
              simp
          · cases hmore
            refine ⟨sp, t ++ after, ?_, hsp, .last htext hafter, by simp, .cons hkind .nil⟩
            rw [List.append_assoc, ← hmid, ← ht, ← hs]
      · cases hmore

theorem arguments_complete (hcomplete : Complete reference R PathEnd) {c : Condition}
    {signature : List KindSet} {t : List Char} {as : List Argument} (h : ArgumentsText R t as)
    (haccepts : Accepts signature as) {sp : List Char} (hsp : IsSpaces sp) (place : Nat)
    (rest : List Char) :
    arguments reference c place signature (sp ++ (t ++ ')' :: rest)) = found as (')' :: rest) := by
  have hclose : skipSpaces (')' :: rest) = ')' :: rest := skipSpaces_of_stops (by simp)
  induction h generalizing signature sp place with
  | @last s after a ha hafter =>
      cases haccepts with
      | cons hkind hnil =>
          cases hnil
          have hend : ArgumentEnd (after ++ ')' :: rest) :=
            hafter.argumentEnd_append ⟨_, _, rfl, Or.inr (Or.inr rfl)⟩
          rw [arguments, hsp.skipSpaces_append, List.append_assoc,
            skipSpaces_of_stops (ha.stops_space _), argument_complete hcomplete ha hend,
            andThen_found, if_pos hkind, hafter.skipSpaces_append, hclose]
          rfl
  | @cons s after before u a as ha hafter hbefore _ ih =>
      cases haccepts with
      | cons hkind haccepts =>
          have hend : ArgumentEnd (after ++ ',' :: (before ++ (u ++ ')' :: rest))) :=
            hafter.argumentEnd_append ⟨_, _, rfl, Or.inr (Or.inl rfl)⟩
          have hcomma : skipSpaces (',' :: (before ++ (u ++ ')' :: rest))) =
              ',' :: (before ++ (u ++ ')' :: rest)) := skipSpaces_of_stops (by simp)
          simp only [List.append_assoc, List.cons_append]
          rw [arguments, hsp.skipSpaces_append, skipSpaces_of_stops (ha.stops_space _),
            argument_complete hcomplete ha hend, andThen_found, if_pos hkind,
            hafter.skipSpaces_append, hcomma]
          simp only [ih haccepts hbefore (place + 1), map_found]

theorem argumentList_sound (hsound : Sound reference R) {c : Condition} {s rest : List Char}
    {as : List Argument} (h : argumentList reference c s = found as rest) :
    ∃ sp t, s = sp ++ (t ++ rest) ∧ IsSpaces sp ∧ ArgumentListText R t as ∧
      Accepts c.signature as := by
  obtain ⟨bs, mid, hgiven, harity⟩ := andThen_eq_found_iff.1 h
  split at harity
  · cases harity
  · next hlen =>
      cases harity
      split at hgiven
      · cases hgiven
        obtain ⟨sp, hsp, hs⟩ := exists_skipSpaces s
        refine ⟨sp, [], hs, hsp, .empty, ?_⟩
        have hnil : c.signature = [] :=
          List.length_eq_zero_iff.1 (by simpa [Condition.arity] using hlen)
        rw [hnil]
        exact .nil
      · obtain ⟨sp, t, hs, hsp, ht, hle, haccepts⟩ := arguments_sound hsound hgiven
        refine ⟨sp, t, hs, hsp, .given ht, ?_⟩
        rwa [List.take_of_length_le (by simpa [Condition.arity] using hlen)] at haccepts

theorem argumentList_complete (hcomplete : Complete reference R PathEnd) {c : Condition}
    {t : List Char} {as : List Argument} (h : ArgumentListText R t as)
    (haccepts : Accepts c.signature as) {sp : List Char} (hsp : IsSpaces sp) (rest : List Char) :
    argumentList reference c (sp ++ (t ++ ')' :: rest)) = found as (')' :: rest) := by
  have hlen : ¬as.length < c.arity := by
    have := List.Forall₂.length_eq haccepts
    simp only [Condition.arity]
    omega
  cases h with
  | empty =>
      have hskip : skipSpaces (sp ++ ([] ++ ')' :: rest)) = ')' :: rest := by
        rw [hsp.skipSpaces_append]
        exact skipSpaces_of_stops (by simp)
      rw [argumentList, hskip, List.head?_cons, if_pos rfl, andThen_found, if_neg hlen]
  | given h =>
      have hstops := h.stops (')' :: rest)
      have hskip : skipSpaces (sp ++ (t ++ ')' :: rest)) = t ++ ')' :: rest := by
        rw [hsp.skipSpaces_append]
        exact skipSpaces_of_stops
          (Stops.imp hstops fun c hc => by simp [show (c == ' ') = true from hc])
      have hhead : (t ++ ')' :: rest).head? ≠ some ')' := by
        intro hsome
        simpa using hstops ')' hsome
      rw [argumentList, hskip, if_neg hhead, arguments_complete hcomplete h haccepts hsp 0 rest,
        andThen_found, if_neg hlen]

/-! ### Filters -/

theorem conditionName_eq_found_iff {s rest : List Char} {c : Condition} :
    conditionName ctx s = found c rest ↔ (spanName s).1 ≠ [] ∧
      ctx.find? (String.ofList (spanName s).1) = some c ∧ (spanName s).2 = rest := by
  simp only [conditionName, unexpected, List.isEmpty_iff]
  split
  · next hnil => simp [hnil]
  · next hne =>
      split
      · next d hd => simp [hd, hne]
      · next hd => simp [hd]

theorem exists_takeNegation (s : List Char) :
    ∃ mark, NegationText mark (takeNegation s).1 ∧ s = mark ++ (takeNegation s).2 := by
  rw [takeNegation.eq_def]
  split
  · exact ⟨['!'], .given, rfl⟩
  · exact ⟨[], .missing, rfl⟩

/-- The front of a filter is read: spaces, perhaps an exclamation mark, and spaces. -/
theorem takeNegation_append {mark : List Char} {negated : Bool} (h : NegationText mark negated)
    {sp₁ sp₂ t : List Char} (hsp₁ : IsSpaces sp₁) (hsp₂ : IsSpaces sp₂)
    (ht : Stops (fun c => c == ' ' || c == '!') t) :
    (takeNegation (skipSpaces (sp₁ ++ (mark ++ (sp₂ ++ t))))).1 = negated ∧
      skipSpaces (takeNegation (skipSpaces (sp₁ ++ (mark ++ (sp₂ ++ t))))).2 = t := by
  have hspace : skipSpaces t = t :=
    skipSpaces_of_stops (Stops.imp ht fun c hc => by simp [show (c == ' ') = true from hc])
  cases h with
  | missing =>
      have hmark : takeNegation t = (false, t) := by
        rw [takeNegation.eq_def]
        split
        · simp at ht
        · rfl
      rw [hsp₁.skipSpaces_append, List.nil_append, hsp₂.skipSpaces_append, hspace, hmark]
      exact ⟨rfl, hspace⟩
  | given =>
      have hmark : skipSpaces ('!' :: (sp₂ ++ t)) = '!' :: (sp₂ ++ t) :=
        skipSpaces_of_stops (by simp)
      rw [hsp₁.skipSpaces_append, List.singleton_append, hmark, takeNegation,
        hsp₂.skipSpaces_append]
      exact ⟨rfl, hspace⟩

theorem filter_sound (hsound : Sound reference R) {s rest : List Char} {o : Option Filter}
    (h : filter ctx reference s = found o rest) :
    (o = none ∧ s = rest) ∨ ∃ t f, o = some f ∧ s = t ++ rest ∧ FilterText ctx R t f := by
  rw [filter.eq_def] at h
  split at h
  · next s =>
      obtain ⟨f, hf, rfl⟩ := map_eq_found_iff.1 h
      obtain ⟨sp₁, hsp₁, hs⟩ := exists_skipSpaces s
      obtain ⟨mark, hmark, hs₁⟩ := exists_takeNegation (skipSpaces s)
      rw [call] at hf
      generalize takeNegation (skipSpaces s) = taken at hf hmark hs₁
      obtain ⟨negated, r₂⟩ := taken
      obtain ⟨sp₂, hsp₂, hs₂⟩ := exists_skipSpaces r₂
      obtain ⟨c, r₃, hc, hf⟩ := andThen_eq_found_iff.1 hf
      obtain ⟨hname, hfind, hs₃⟩ := conditionName_eq_found_iff.1 hc
      have hspan := spanName_append (skipSpaces r₂)
      obtain ⟨sp₃, hsp₃, hs₄⟩ := exists_skipSpaces r₃
      obtain ⟨_, r₄, hopen, hf⟩ := andThen_eq_found_iff.1 hf
      obtain ⟨as, r₅, hargs, hf⟩ := andThen_eq_found_iff.1 hf
      obtain ⟨sp₄, args, hs₅, hsp₄, htext, haccepts⟩ := argumentList_sound hsound hargs
      obtain ⟨_, r₆, hclose, hf⟩ := andThen_eq_found_iff.1 hf
      obtain ⟨sp₅, hsp₅, hs₆⟩ := exists_skipSpaces r₆
      obtain ⟨_, hend, rfl⟩ := map_eq_found_iff.1 hf
      rw [char_eq_found_iff] at hopen hclose hend
      refine Or.inr ⟨_, _, rfl, ?_, .mk hsp₁ hmark hsp₂ (isName_spanName hname) hsp₃ hsp₄ htext
        hsp₅ hfind haccepts⟩
      -- The text, put together again from its parts in the order in which they were read.
      have htail : r₃ = sp₃ ++ '(' :: (sp₄ ++ (args ++ ')' :: (sp₅ ++ ')' :: rest))) := by
        rw [hs₄, hopen, hs₅, hclose, hs₆, hend]
      rw [hs₃, htail] at hspan
      rw [← hspan] at hs₂
      rw [hs₂] at hs₁
      rw [hs₁] at hs
      simpa using congrArg ('(' :: ·) hs
  · cases h
    exact Or.inl ⟨rfl, rfl⟩

theorem filter_of_stops {rest : List Char} (h : Stops (· == '(') rest) :
    filter ctx reference rest = found none rest := by
  rw [filter.eq_def]
  split
  · simp at h
  · rfl

theorem filter_complete (hcomplete : Complete reference R PathEnd) {t : List Char} {f : Filter}
    (h : FilterText ctx R t f) (rest : List Char) :
    filter ctx reference (t ++ rest) = found (some f) rest := by
  cases h with
  | @mk sp₁ sp₂ sp₃ sp₄ sp₅ mark name args negated c as hsp₁ hmark hsp₂ hname hsp₃ hsp₄ hargs hsp₅
      registered accepts =>
      have hclose : skipSpaces (sp₅ ++ ')' :: rest) = ')' :: rest := by
        rw [hsp₅.skipSpaces_append]
        exact skipSpaces_of_stops (by simp)
      have hopen : ∀ u, skipSpaces (sp₃ ++ '(' :: u) = '(' :: u := by
        intro u
        rw [hsp₃.skipSpaces_append]
        exact skipSpaces_of_stops (by simp)
      have hfront : ∀ u, Stops (fun c => c == ' ' || c == '!') (name ++ u) := by
        intro u
        refine stops_append_of_ne_nil hname.1 hname.isNameChar fun d hd => ?_
        rw [Bool.eq_false_iff]
        intro hd'
        rcases (by simpa using hd' : d = ' ' ∨ d = '!') with rfl | rfl <;>
          exact absurd hd (by decide)
      have hspan : ∀ u, spanName (name ++ (sp₃ ++ '(' :: u)) = (name, sp₃ ++ '(' :: u) := by
        intro u
        exact hname.spanName_append (hsp₃.stops_append (by decide) (by simp; decide))
      have hcondition : ∀ u, conditionName ctx (name ++ (sp₃ ++ '(' :: u)) =
          found c (sp₃ ++ '(' :: u) := by
        intro u
        rw [conditionName_eq_found_iff, hspan]
        exact ⟨hname.1, registered, rfl⟩
      simp only [List.cons_append, List.append_assoc, List.nil_append]
      rw [filter, call]
      obtain ⟨hnegated, hskip⟩ := takeNegation_append hmark hsp₁ hsp₂
        (hfront (sp₃ ++ '(' :: (sp₄ ++ (args ++ ')' :: (sp₅ ++ ')' :: rest)))))
      simp only [hnegated, hskip, hcondition, andThen_found, hopen, char, if_true,
        argumentList_complete hcomplete hargs accepts hsp₄, hclose, map_found]

end Reading

end TreePath
