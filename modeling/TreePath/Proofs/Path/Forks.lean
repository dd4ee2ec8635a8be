/-
**Reading two texts that agree up to a character.**

What a reader finds, it finds by the text that it takes and by the first character after it; so does
it fault where another character was expected.  So two texts that agree up to some character are
read alike as long as no more than this character is looked at, whatever follows it.

This module says so of the words of a path.  Each reader is written as a row of smaller ones, which
take a run of characters of a kind or a single character.

Main definitions:

* `Fork` — two endings of a text with the same first character, or both empty;
* `Reading.Alike` — two readings that are the same, as long as they end before the fork.

Main results:

* `Reading.Alike.andThen` — **reading on**;
* `Reading.alike_run`, `Reading.alike_char` — runs of characters, and single ones;
* `Reading.alike_range`, `Reading.alike_selector`, `Reading.alike_stringLiteral`,
  `Reading.alike_numberLiteral` — the words of a path.
-/

import TreePath.Proofs.Path.Remainders

set_option relaxedAutoImplicit false
set_option autoImplicit false

namespace TreePath

/-! ### Two endings -/

/-- Two endings of a text that start with the same character or are both empty. -/
inductive Fork : List Char → List Char → Prop
  | nil : Fork [] []
  | cons (c : Char) (s t : List Char) : Fork (c :: s) (c :: t)

theorem Fork.head?_append {s t : List Char} (fork : Fork s t) (u : List Char) :
    (u ++ s).head? = (u ++ t).head? := by
  cases u with
  | nil => cases fork <;> rfl
  | cons c u => rfl

theorem Fork.stops {s t : List Char} (fork : Fork s t) {p : Char → Bool} {u : List Char}
    (h : Stops p (u ++ s)) : Stops p (u ++ t) := by
  rw [Stops, ← fork.head?_append]
  exact h

theorem Fork.eq_nil {s t : List Char} (fork : Fork s t) (hs : s = []) : t = [] := by
  cases fork with
  | nil => rfl
  | cons => cases hs

theorem stops_dropWhile (p : Char → Bool) (s : List Char) : Stops p (s.dropWhile p) := by
  intro c hc
  have hnot := List.head?_dropWhile_not p s
  rw [Option.mem_def.1 hc] at hnot
  exact hnot

/-- A text does not start with a character of a kind, or it does. -/
theorem stops_or_exists_cons (p : Char → Bool) (s : List Char) :
    Stops p s ∨ ∃ c rest, s = c :: rest ∧ p c = true := by
  cases s with
  | nil => exact .inl (stops_nil p)
  | cons c s =>
      cases hc : p c with
      | false => exact .inl ((stops_cons p c s).2 hc)
      | true => exact .inr ⟨c, s, rfl, hc⟩

namespace Reading

/-! ### Readings that are alike -/

/-- **Readings that are alike up to a fork**: what the first finds before the fork, the second
finds, and it faults where the first does, if that is before the fork and another character was
expected.  Where there is nothing after the fork, it faults wherever the first does. -/
structure Alike {α : Type} (s t : List Char) (r r' : Reading α) : Prop where
  /-- What is found. -/
  found : ∀ a v, r = found a (v ++ s) → r' = found a (v ++ t)
  /-- Where there is a fault. -/
  fault : ∀ v cause, r = fault (v ++ s) cause → s = [] ∨ cause.IsUnexpected →
    r' = fault (v ++ t) cause

/-- What is found, or was not expected, leaves the end of a text. -/
structure Leaves {α : Type} (s : List Char) (r : Reading α) : Prop where
  /-- What is found. -/
  found : ∀ a rest, r = found a rest → rest <:+ s
  /-- What is not expected. -/
  fault : ∀ rest cause, r = fault rest cause → cause.IsUnexpected → rest <:+ s

section Readings

variable {α β : Type} {s t u : List Char} {r r' : Reading α}

theorem EndsIn.leaves (h : r.EndsIn u) : r.Leaves u := by
  constructor
  · rintro a rest rfl
    exact h.left_suffix
  · rintro rest cause rfl -
    exact h.left_suffix

theorem leaves_found (a : α) {rest : List Char} (h : rest <:+ s) :
    (Reading.found a rest).Leaves s :=
  (endsIn_found a h).leaves

theorem leaves_unexpected (s : List Char) (expected : Expected) :
    (unexpected s expected : Reading α).Leaves s :=
  (endsIn_unexpected expected List.suffix_rfl).leaves

theorem leaves_fault {rest : List Char} {cause : Cause} (hcause : ¬cause.IsUnexpected) :
    (Reading.fault rest cause : Reading α).Leaves s := by
  constructor
  · intro a rest h
    cases h
  · intro rest cause' h hcause'
    injection h with _ hcauses
    exact absurd (hcauses ▸ hcause') hcause

/-- Reading on leaves the end of a text, if both readers do. -/
theorem Leaves.andThen {next : α → List Char → Reading β} (h : r.Leaves s)
    (hnext : ∀ a rest, (next a rest).Leaves rest) : (r.andThen next).Leaves s := by
  cases r with
  | fault rest cause =>
      constructor
      · intro b rest' hb
        cases hb
      · intro rest' cause' hfault
        cases hfault
        exact h.fault rest cause rfl
  | found a rest =>
      have hrest := h.found a rest rfl
      constructor
      · intro b rest' hb
        exact ((hnext a rest).found b rest' hb).trans hrest
      · intro rest' cause hfault hcause
        exact ((hnext a rest).fault rest' cause hfault hcause).trans hrest

theorem Leaves.map (h : r.Leaves s) (f : α → β) : (r.map f).Leaves s :=
  h.andThen fun a _ => leaves_found (f a) List.suffix_rfl

theorem alike_found (a : α) (u : List Char) :
    Alike s t (found a (u ++ s)) (found a (u ++ t)) := by
  constructor
  · intro b v h
    injection h with hb hv
    rw [hb, List.append_cancel_right hv]
  · intro v cause h
    cases h

/-- Where another character is expected before a fork, it is the same character. -/
theorem alike_unexpected (fork : Fork s t) (u : List Char) (expected : Expected) :
    Alike s t (unexpected (u ++ s) expected : Reading α) (unexpected (u ++ t) expected) := by
  constructor
  · intro b v h
    cases h
  · intro v cause h _
    injection h with hv hcause
    rw [← hcause, unexpected, fork.head?_append, List.append_cancel_right hv]

/-- A fault of another kind does not matter, if there is something after the fork. -/
theorem alike_fault {rest : List Char} {cause : Cause} (hcause : ¬cause.IsUnexpected)
    (fork : Fork s t) (h : s = [] → r' = Reading.fault rest cause) :
    Alike s t (Reading.fault rest cause) r' := by
  constructor
  · intro b v hfound
    cases hfound
  · intro v cause' hfault hs
    cases hfault
    obtain rfl := hs.resolve_right hcause
    rw [fork.eq_nil rfl]
    exact h rfl

/-- A reading that ends beyond the fork is like any other. -/
theorem alike_of_leaves {c : Char} {rest : List Char} (hs : u ++ s = c :: rest)
    (hleaves : r.Leaves rest) (hnext : ∀ w, u = c :: w → rest = w ++ s → Alike s t r r') :
    Alike s t r r' := by
  cases u with
  | cons d w =>
      injection hs with hd hw
      exact hnext w (by rw [hd]) hw.symm
  | nil =>
      have hs' : s = c :: rest := hs
      have hlong : ∀ v, ¬v ++ s <:+ rest := by
        intro v hv
        have hlength := hv.length_le
        rw [List.length_append, hs', List.length_cons] at hlength
        omega
      constructor
      · intro a v h
        exact absurd (hleaves.found a _ h) (hlong v)
      · intro v cause h hcause
        have hunexpected := hcause.resolve_left (by rw [hs']; exact List.cons_ne_nil _ _)
        exact absurd (hleaves.fault _ cause h hunexpected) (hlong v)

/-- **Reading on** after what was found. -/
theorem Alike.andThen {next next' : α → List Char → Reading β} (h : Alike s t r r')
    (hleaves : ∀ a rest, r = .found a rest → (next a rest).Leaves rest)
    (hnext : ∀ a v, r = .found a (v ++ s) → Alike s t (next a (v ++ s)) (next' a (v ++ t))) :
    Alike s t (r.andThen next) (r'.andThen next') := by
  cases r with
  | fault rest cause =>
      constructor
      · intro b v hb
        cases hb
      · intro v cause' hfault hcause
        injection hfault with hrest hcause'
        rw [h.fault v cause' (by rw [hrest, hcause']) hcause]
        rfl
  | found a rest =>
      -- If the second reading ends before the fork, then so does the first.
      have hfirst {v : List Char} (hv : v ++ s <:+ rest) :
          ∃ w, rest = w ++ s ∧ r' = .found a (w ++ t) := by
        obtain ⟨w, hw⟩ := hv
        rw [← List.append_assoc] at hw
        exact ⟨w ++ v, hw.symm, h.found a _ (by rw [hw])⟩
      constructor
      · intro b v hb
        obtain ⟨w, rfl, rfl⟩ := hfirst ((hleaves a rest rfl).found b _ hb)
        exact (hnext a w rfl).found b v hb
      · intro v cause hfault hcause
        have hv : ∃ w, rest = w ++ s ∧ r' = .found a (w ++ t) := by
          rcases hcause with rfl | hunexpected
          · exact ⟨rest, (List.append_nil _).symm, h.found a rest (by rw [List.append_nil])⟩
          · exact hfirst ((hleaves a rest rfl).fault _ cause hfault hunexpected)
        obtain ⟨w, rfl, rfl⟩ := hv
        exact (hnext a w rfl).fault v cause hfault hcause

/-- Reading on, where it matters that what is left is the end of the text. -/
theorem Alike.andThen_suffix {next next' : α → List Char → Reading β} (h : Alike s t r r')
    (hr : r.EndsIn (u ++ s)) (hleaves : ∀ a rest, (next a rest).Leaves rest)
    (hnext : ∀ a v, v <:+ u → Alike s t (next a (v ++ s)) (next' a (v ++ t))) :
    Alike s t (r.andThen next) (r'.andThen next') := by
  refine h.andThen (fun a rest _ => hleaves a rest) ?_
  rintro a v rfl
  exact hnext a v (List.suffix_append_self_iff.1 hr.left_suffix)

theorem Alike.map (h : Alike s t r r') (f : α → β) : Alike s t (r.map f) (r'.map f) :=
  h.andThen (fun a _ _ => leaves_found (f a) List.suffix_rfl) fun a v _ => alike_found (f a) v

end Readings

/-! ### Words -/

/-- Reads a name. -/
def named (expected : Expected) (s : List Char) : Reading String :=
  if (spanName s).1.isEmpty then unexpected s expected
  else found (String.ofList (spanName s).1) (spanName s).2

/-- A selector that is not the mark for all children is a name. -/
theorem selector_of_stops {s : List Char} (h : Stops (· == '*') s) :
    selector s = (named .selector s).map .name := by
  rw [selector.eq_def]
  split
  · simp at h
  · simp only [named]
    split <;> rfl

/-- What a sign and digits are as a bound of a range; there may be no digits. -/
def boundOf (s : List Char) (negative : Bool) (ds rest : List Char) : Reading (Option Int64) :=
  if rest.length = s.length then found none rest
  else
    match Numeral.int64? negative ds with
    | some n => found (some n) rest
    | none => fault s .bound

theorem bound_eq (s : List Char) : bound s =
    (found (Numeral.takeSign s).1 (Numeral.takeSign s).2).andThen fun negative r =>
      (found (Numeral.spanDigits r).1 (Numeral.spanDigits r).2).andThen (boundOf s negative) := by
  have hsuffix : (Numeral.spanDigits (Numeral.takeSign s).2).2 <:+ s :=
    (Numeral.spanDigits_suffix _).trans (Numeral.takeSign_suffix s)
  simp only [bound, boundOf, andThen_found]
  split
  · next h => rw [hsuffix.eq_of_length h]
  · rfl

/-- What digits on both sides of a point are as a number. -/
def floatOf (s : List Char) (negative : Bool) (whole fraction rest : List Char) :
    Reading Argument :=
  if whole.isEmpty && fraction.isEmpty then fault s .float
  else found (.float (DecimalText.ofParts negative whole fraction).toBinary64) rest

/-- What digits and what follows them are as a number: the number goes on after a point. -/
def numberOf (s : List Char) (negative : Bool) (whole : List Char) : List Char → Reading Argument
  | '.' :: rest =>
    (found (Numeral.spanDigits rest).1 (Numeral.spanDigits rest).2).andThen
      (floatOf s negative whole)
  | rest =>
    match Numeral.int64? negative whole with
    | some n => found (.integer n) rest
    | none => fault s .integer

theorem numberLiteral_eq (s : List Char) : numberLiteral s =
    (found (Numeral.takeSign s).1 (Numeral.takeSign s).2).andThen fun negative r =>
      (found (Numeral.spanDigits r).1 (Numeral.spanDigits r).2).andThen (numberOf s negative) := by
  simp only [numberLiteral, andThen_found]
  rw [numberOf.eq_def]
  rfl

theorem numberOf_of_stops {s : List Char} {negative : Bool} {whole rest : List Char}
    (h : Stops (· == '.') rest) : numberOf s negative whole rest =
      match Numeral.int64? negative whole with
      | some n => found (.integer n) rest
      | none => fault s .integer := by
  rw [numberOf.eq_def]
  split
  · simp at h
  · rfl

/-- What characters and what follows them are as a text, which has to be closed. -/
def textOf (mark : Char) (s text : List Char) : List Char → Reading String
  | [] => fault (mark :: s) (.unclosed mark)
  | _ :: rest => found (String.ofList text) rest

theorem stringLiteral_eq (mark : Char) (s : List Char) : stringLiteral mark s =
    (found (s.takeWhile (· != mark)) (s.dropWhile (· != mark))).andThen (textOf mark s) := rfl

theorem rangeFrom_of_stops {start : Option Int64} {s : List Char} (h : Stops (· == ':') s) :
    rangeFrom start s = found (start.map Slice.index) s := by
  rw [rangeFrom.eq_def]
  split
  · simp at h
  · rfl

theorem conditionName_eq (ctx : Context) (s : List Char) : conditionName ctx s =
    (named .conditionName s).andThen fun name rest =>
      match ctx.find? name with
      | some c => found c rest
      | none => fault s (.unknownCondition name ctx.names) := by
  simp only [conditionName, named]
  split <;> rfl

section Words

variable {s t : List Char} (fork : Fork s t)

include fork

/-- A run of characters of a kind. -/
theorem alike_run (p : Char → Bool) (u : List Char) :
    Alike s t (found ((u ++ s).takeWhile p) ((u ++ s).dropWhile p))
      (found ((u ++ t).takeWhile p) ((u ++ t).dropWhile p)) := by
  constructor
  · intro ds v h
    injection h with hds hv
    have hall : ∀ c ∈ ds, p c = true := fun c hc => List.mem_takeWhile_imp (hds ▸ hc)
    have hstops : Stops p (v ++ s) := hv ▸ stops_dropWhile p (u ++ s)
    have hu : u = ds ++ v := by
      have hsplit := @List.takeWhile_append_dropWhile _ p (u ++ s)
      rw [hds, hv, ← List.append_assoc] at hsplit
      exact (List.append_cancel_right hsplit).symm
    rw [hu, List.append_assoc, takeWhile_append_of_stops hall (fork.stops hstops),
      dropWhile_append_of_stops hall (fork.stops hstops)]
  · intro v cause h
    cases h

theorem alike_char (d : Char) (u : List Char) : Alike s t (char d (u ++ s)) (char d (u ++ t)) := by
  have hother {w : List Char} (h : Stops (· == d) w) : char d w = unexpected w (.char d) := by
    cases w with
    | nil => rfl
    | cons c w =>
        have hc : c ≠ d := by simpa using (stops_cons _ c w).1 h
        rw [char, if_neg hc]
  rcases stops_or_exists_cons (· == d) (u ++ s) with h | ⟨c, rest, hs, hc⟩
  · rw [hother h, hother (fork.stops h)]
    exact alike_unexpected fork u _
  · obtain rfl : c = d := by simpa using hc
    rw [hs, char, if_pos rfl]
    refine alike_of_leaves hs (leaves_found _ List.suffix_rfl) ?_
    rintro w rfl rfl
    rw [List.cons_append, char, if_pos rfl]
    exact alike_found () w

/-- A name in front of a text, and the fault if there is none. -/
theorem alike_named (expected : Expected) (u : List Char) :
    Alike s t (named expected (u ++ s)) (named expected (u ++ t)) := by
  have hnone {w : List Char} (h : (spanName w).1.isEmpty = true) : (spanName w).2 = w := by
    have hsplit := spanName_append w
    rw [List.isEmpty_iff.1 h] at hsplit
    exact hsplit
  have hnamed (w : List Char) : named expected w =
      (found (spanName w).1 (spanName w).2).andThen fun name rest =>
        if name.isEmpty then unexpected rest expected else found (String.ofList name) rest := by
    rw [andThen_found, named]
    split
    · next h => rw [hnone h]
    · rfl
  rw [hnamed, hnamed]
  refine (alike_run fork isNameChar u).andThen (fun name rest _ => ?_) fun name v _ => ?_
  · split
    · exact leaves_unexpected rest _
    · exact leaves_found _ List.suffix_rfl
  · split
    · exact alike_unexpected fork v _
    · exact alike_found _ v

theorem alike_selector (u : List Char) : Alike s t (selector (u ++ s)) (selector (u ++ t)) := by
  rcases stops_or_exists_cons (· == '*') (u ++ s) with h | ⟨c, rest, hs, hc⟩
  · rw [selector_of_stops h, selector_of_stops (fork.stops h)]
    exact (alike_named fork .selector u).map _
  · obtain rfl : c = '*' := by simpa using hc
    rw [hs, selector]
    refine alike_of_leaves hs (leaves_found _ List.suffix_rfl) ?_
    rintro w rfl rfl
    exact alike_found _ w

/-- An optional sign. -/
theorem alike_takeSign (u : List Char) :
    Alike s t (found (Numeral.takeSign (u ++ s)).1 (Numeral.takeSign (u ++ s)).2)
      (found (Numeral.takeSign (u ++ t)).1 (Numeral.takeSign (u ++ t)).2) := by
  have hnone {w : List Char} (h : Stops (fun c => c == '-' || c == '+') w) :
      Numeral.takeSign w = (false, w) := SignText.missing.takeSign_append h
  rcases stops_or_exists_cons (fun c => c == '-' || c == '+') (u ++ s) with h | ⟨c, rest, hs, hc⟩
  · rw [hnone h, hnone (fork.stops h)]
    exact alike_found _ u
  · rw [hs]
    refine alike_of_leaves hs (leaves_found _ ?_) ?_
    · rcases (by simpa using hc : c = '-' ∨ c = '+') with rfl | rfl <;> exact List.suffix_rfl
    · rintro w rfl rfl
      rcases (by simpa using hc : c = '-' ∨ c = '+') with rfl | rfl <;> exact alike_found _ w

/-- Digits. -/
theorem alike_spanDigits (u : List Char) :
    Alike s t (found (Numeral.spanDigits (u ++ s)).1 (Numeral.spanDigits (u ++ s)).2)
      (found (Numeral.spanDigits (u ++ t)).1 (Numeral.spanDigits (u ++ t)).2) :=
  alike_run fork Char.isDigit u

omit fork in
theorem leaves_boundOf (s : List Char) (negative : Bool) (ds rest : List Char) :
    (boundOf s negative ds rest).Leaves rest := by
  rw [boundOf]
  split
  · exact leaves_found _ List.suffix_rfl
  · split
    · exact leaves_found _ List.suffix_rfl
    · exact leaves_fault not_false

theorem alike_bound (u : List Char) : Alike s t (bound (u ++ s)) (bound (u ++ t)) := by
  rw [bound_eq, bound_eq]
  refine (alike_takeSign fork u).andThen (fun negative r _ => ?_) fun negative v _ => ?_
  · exact .andThen (leaves_found _ (Numeral.spanDigits_suffix r))
      fun ds rest => leaves_boundOf _ negative ds rest
  · refine (alike_spanDigits fork v).andThen (fun ds rest _ => leaves_boundOf _ negative ds rest)
      fun ds w _ => ?_
    have hlength : (w ++ s).length = (u ++ s).length ↔ (w ++ t).length = (u ++ t).length := by
      simp only [List.length_append]
      omega
    simp only [boundOf, hlength]
    split
    · exact alike_found _ w
    · split
      · exact alike_found _ w
      · exact alike_fault not_false fork fun hs => by rw [hs, fork.eq_nil hs]

theorem alike_rangeFrom (start : Option Int64) (u : List Char) :
    Alike s t (rangeFrom start (u ++ s)) (rangeFrom start (u ++ t)) := by
  rcases stops_or_exists_cons (· == ':') (u ++ s) with h | ⟨c, rest, hs, hc⟩
  · rw [rangeFrom_of_stops h, rangeFrom_of_stops (fork.stops h)]
    exact alike_found _ u
  · obtain rfl : c = ':' := by simpa using hc
    rw [hs, rangeFrom]
    refine alike_of_leaves hs ((endsIn_bound rest).map _).leaves ?_
    rintro w rfl rfl
    exact (alike_bound fork w).map _

theorem alike_range (u : List Char) : Alike s t (range (u ++ s)) (range (u ++ t)) := by
  rcases stops_or_exists_cons (· == '*') (u ++ s) with h | ⟨c, rest, hs, hc⟩
  · rw [range_of_stops h, range_of_stops (fork.stops h)]
    exact (alike_bound fork u).andThen
      (fun start rest _ => (endsIn_rangeFrom start rest).leaves)
      fun start v _ => alike_rangeFrom fork start v
  · obtain rfl : c = '*' := by simpa using hc
    rw [hs, range]
    refine alike_of_leaves hs (leaves_found _ List.suffix_rfl) ?_
    rintro w rfl rfl
    exact alike_found _ w

omit fork in
theorem leaves_textOf (mark : Char) (s text rest : List Char) :
    (textOf mark s text rest).Leaves rest := by
  cases rest with
  | nil => exact leaves_fault not_false
  | cons c rest => exact leaves_found _ (List.suffix_cons c rest)

omit fork in
theorem leaves_stringLiteral (mark : Char) (s : List Char) : (stringLiteral mark s).Leaves s := by
  rw [stringLiteral_eq]
  exact .andThen (leaves_found _ (List.dropWhile_suffix _)) (leaves_textOf mark s)

theorem alike_stringLiteral (mark : Char) (u : List Char) :
    Alike s t (stringLiteral mark (u ++ s)) (stringLiteral mark (u ++ t)) := by
  rw [stringLiteral_eq, stringLiteral_eq]
  refine (alike_run fork (· != mark) u).andThen (fun text rest _ => leaves_textOf _ _ text rest)
    fun text v _ => ?_
  cases hs : v ++ s with
  | nil =>
      obtain ⟨rfl, rfl⟩ := List.append_eq_nil_iff.1 hs
      obtain rfl := fork.eq_nil rfl
      exact alike_fault not_false fork fun _ => rfl
  | cons c rest =>
      refine alike_of_leaves hs (leaves_found _ List.suffix_rfl) ?_
      rintro w rfl rfl
      exact alike_found _ w

omit fork in
theorem leaves_floatOf (s : List Char) (negative : Bool) (whole fraction rest : List Char) :
    (floatOf s negative whole fraction rest).Leaves rest := by
  rw [floatOf]
  split
  · exact leaves_fault not_false
  · exact leaves_found _ List.suffix_rfl

omit fork in
theorem leaves_numberOf (s : List Char) (negative : Bool) (whole rest : List Char) :
    (numberOf s negative whole rest).Leaves rest := by
  rw [numberOf.eq_def]
  split
  · exact .andThen
      (leaves_found _ ((Numeral.spanDigits_suffix _).trans (List.suffix_cons _ _)))
      fun fraction rest => leaves_floatOf s negative whole fraction rest
  · split
    · exact leaves_found _ List.suffix_rfl
    · exact leaves_fault not_false

theorem alike_numberLiteral (u : List Char) :
    Alike s t (numberLiteral (u ++ s)) (numberLiteral (u ++ t)) := by
  rw [numberLiteral_eq, numberLiteral_eq]
  refine (alike_takeSign fork u).andThen (fun negative r _ => ?_) fun negative v _ => ?_
  · exact .andThen (leaves_found _ (Numeral.spanDigits_suffix r))
      fun ds rest => leaves_numberOf _ negative ds rest
  · refine (alike_spanDigits fork v).andThen (fun ds rest _ => leaves_numberOf _ negative ds rest)
      fun whole w _ => ?_
    rcases stops_or_exists_cons (· == '.') (w ++ s) with h | ⟨c, rest, hs, hc⟩
    · rw [numberOf_of_stops h, numberOf_of_stops (fork.stops h)]
      split
      · exact alike_found _ w
      · exact alike_fault not_false fork fun hs => by rw [hs, fork.eq_nil hs]
    · obtain rfl : c = '.' := by simpa using hc
      have hfloat := leaves_floatOf (u ++ s) negative whole
      rw [hs, numberOf]
      have hdigits := leaves_found (Numeral.spanDigits rest).1 (Numeral.spanDigits_suffix rest)
      refine alike_of_leaves hs (hdigits.andThen hfloat) ?_
      rintro w rfl rfl
      rw [List.cons_append, numberOf]
      refine (alike_spanDigits fork w).andThen (fun fraction rest _ => hfloat fraction rest)
        fun fraction v _ => ?_
      simp only [floatOf]
      split
      · exact alike_fault not_false fork fun hs => by rw [hs, fork.eq_nil hs]
      · exact alike_found _ v

end Words

end Reading

end TreePath
