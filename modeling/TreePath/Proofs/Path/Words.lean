/-
**Reading the words of path expressions.**

The readers of names, spaces, bounds, ranges, selectors and literals find exactly the texts of the
grammar.  Each reader comes with two facts.  What it finds is a text of the grammar, which stands in
front of the text that is left.  Conversely it finds every text of the grammar, as long as what
follows does not go on with the same word: a reader takes as many characters as it can, so a name
has to stop before a character that could belong to a name, and a number before a digit.

Main definitions:

* `Stops` — a text that does not go on with characters of a kind.

Main results:

* `takeWhile_append_of_stops`, `dropWhile_append_of_stops` — where a run of characters ends;
* `Numeral.int64?_eq_some_iff` — the integers that fit;
* `Reading.range_eq_found`, `Reading.exists_of_range` — ranges;
* `Reading.selector_eq_found`, `Reading.exists_of_selector` — selectors;
* `Reading.stringLiteral_eq_found`, `Reading.exists_of_stringLiteral` — texts in quotes;
* `Reading.numberLiteral_integer`, `Reading.numberLiteral_float`,
  `Reading.exists_of_numberLiteral` — numbers.
-/

import Mathlib.Data.List.TakeWhile
import TreePath.Proofs.Path.Grammar

set_option relaxedAutoImplicit false
set_option autoImplicit false

namespace TreePath

/-! ### Where a run of characters ends -/

/-- The text does not start with a character of the kind. -/
def Stops (p : Char → Bool) (s : List Char) : Prop := ∀ c ∈ s.head?, p c = false

@[simp] theorem stops_nil (p : Char → Bool) : Stops p [] := by simp [Stops]

@[simp] theorem stops_cons (p : Char → Bool) (c : Char) (s : List Char) :
    Stops p (c :: s) ↔ p c = false := by simp [Stops]

section Runs

variable {p : Char → Bool} {s rest : List Char}

theorem takeWhile_append_of_stops (hs : ∀ c ∈ s, p c = true) (hrest : Stops p rest) :
    (s ++ rest).takeWhile p = s := by
  rw [List.takeWhile_append_of_pos hs]
  cases rest with
  | nil => simp
  | cons c rest => simp [(stops_cons p c rest).1 hrest]

theorem dropWhile_append_of_stops (hs : ∀ c ∈ s, p c = true) (hrest : Stops p rest) :
    (s ++ rest).dropWhile p = rest := by
  rw [List.dropWhile_append_of_pos hs]
  cases rest with
  | nil => rfl
  | cons c rest => simp [(stops_cons p c rest).1 hrest]

/-- A run that is not empty starts with one of its characters. -/
theorem stops_append_of_ne_nil {q : Char → Bool} (hne : s ≠ []) (hs : ∀ c ∈ s, q c = true)
    (hpq : ∀ c, q c = true → p c = false) : Stops p (s ++ rest) := by
  cases s with
  | nil => exact absurd rfl hne
  | cons c s => exact (stops_cons p c _).2 (hpq c (hs c List.mem_cons_self))

end Runs

/-! ### Names and spaces -/

theorem isNameChar_iff {c : Char} : isNameChar c = true ↔
    c.isAlphanum = true ∨ c = '_' ∨ c = '-' ∨ 128 ≤ c.toNat := by
  simp [isNameChar, or_assoc]

theorem IsName.isNameChar {s : List Char} (h : IsName s) : ∀ c ∈ s, isNameChar c = true := by
  intro c hc
  exact isNameChar_iff.2 (h.2 c hc)

theorem IsName.spanName_append {s rest : List Char} (h : IsName s)
    (hrest : Stops TreePath.isNameChar rest) : spanName (s ++ rest) = (s, rest) := by
  rw [spanName, takeWhile_append_of_stops h.isNameChar hrest,
    dropWhile_append_of_stops h.isNameChar hrest]

theorem isName_spanName {s : List Char} (h : (spanName s).1 ≠ []) : IsName (spanName s).1 := by
  refine ⟨h, fun c hc => isNameChar_iff.1 ?_⟩
  exact List.mem_takeWhile_imp hc

theorem IsSpaces.skipSpaces_append {s : List Char} (h : IsSpaces s) (t : List Char) :
    skipSpaces (s ++ t) = skipSpaces t := by
  refine List.dropWhile_append_of_pos fun c hc => ?_
  simp [h c hc]

theorem skipSpaces_of_stops {s : List Char} (h : Stops (· == ' ') s) : skipSpaces s = s := by
  cases s with
  | nil => rfl
  | cons c s => exact List.dropWhile_cons_of_neg (by simp [(stops_cons _ c s).1 h])

/-- The spaces that are skipped. -/
theorem exists_skipSpaces (s : List Char) : ∃ sp, IsSpaces sp ∧ s = sp ++ skipSpaces s := by
  refine ⟨s.takeWhile (· == ' '), ?_, List.takeWhile_append_dropWhile.symm⟩
  intro c hc
  simpa using List.mem_takeWhile_imp hc

/-! ### Signs and digits -/

theorem SignText.takeSign_append {sign : List Char} {negative : Bool}
    (h : SignText sign negative) {s : List Char} (hs : Stops (fun c => c == '-' || c == '+') s) :
    Numeral.takeSign (sign ++ s) = (negative, s) := by
  cases h with
  | plus => rfl
  | minus => rfl
  | missing =>
      rw [List.nil_append, Numeral.takeSign.eq_def]
      split
      · simp at hs
      · simp at hs
      · rfl

theorem exists_takeSign (s : List Char) :
    ∃ sign, SignText sign (Numeral.takeSign s).1 ∧ s = sign ++ (Numeral.takeSign s).2 := by
  rw [Numeral.takeSign.eq_def]
  split
  · exact ⟨['-'], .minus, rfl⟩
  · exact ⟨['+'], .plus, rfl⟩
  · exact ⟨[], .missing, rfl⟩

theorem Numeral.takeSign_suffix (s : List Char) : (takeSign s).2 <:+ s := by
  obtain ⟨sign, -, hs⟩ := exists_takeSign s
  exact ⟨sign, hs.symm⟩

theorem Numeral.spanDigits_suffix (s : List Char) : (spanDigits s).2 <:+ s :=
  List.dropWhile_suffix _

theorem IsDigits.spanDigits_append {ds rest : List Char} (h : IsDigits ds)
    (hrest : Stops Char.isDigit rest) : Numeral.spanDigits (ds ++ rest) = (ds, rest) := by
  rw [Numeral.spanDigits, takeWhile_append_of_stops h hrest, dropWhile_append_of_stops h hrest]

theorem isDigits_spanDigits (s : List Char) : IsDigits (Numeral.spanDigits s).1 := by
  intro c hc
  exact List.mem_takeWhile_imp hc

theorem isSign_eq_false_of_isDigit (c : Char) (h : c.isDigit = true) :
    (c == '-' || c == '+') = false := by
  rw [Bool.eq_false_iff]
  intro hsign
  rcases (by simpa using hsign : c = '-' ∨ c = '+') with rfl | rfl <;> simp [Char.isDigit] at h

namespace Numeral

/-- **The integers that fit**: a numeral denotes one exactly when it has a digit and some integer of
64 bits has its value. -/
theorem int64?_eq_some_iff {negative : Bool} {ds : List Char} {n : Int64} :
    int64? negative ds = some n ↔ ds ≠ [] ∧ n.toInt = signed negative (value ds) := by
  cases ds with
  | nil => simp
  | cons d ds =>
      have htoInt? : ∀ m : Int, toInt64? m = some n ↔ n.toInt = m := by
        intro m
        have hle := n.le_toInt
        have hlt := n.toInt_lt
        simp only [toInt64?]
        constructor
        · intro h
          split at h
          · next hm =>
              obtain rfl := Option.some.inj h
              exact Int64.toInt_ofInt_of_le (by omega) (by omega)
          · cases h
        · rintro rfl
          rw [if_pos ⟨by omega, by omega⟩, Int64.ofInt_toInt]
      simp [int64?, htoInt?]

end Numeral

/-! ### First characters -/

/-- Whether a number could start with this character. -/
def startsNumber (c : Char) : Bool := c == '+' || c == '-' || c == '.' || c.isDigit

theorem startsNumber_iff {c : Char} :
    startsNumber c = true ↔ c = '+' ∨ c = '-' ∨ c = '.' ∨ c.isDigit = true := by
  simp [startsNumber, or_assoc]

theorem startsNumber_of_isDigit {c : Char} (h : c.isDigit = true) : startsNumber c = true := by
  simp [startsNumber, h]

/-- A character with which a number starts is none of the other marks. -/
theorem ne_of_startsNumber {c d : Char} (h : startsNumber c = true)
    (hd : startsNumber d = false) : c ≠ d := by
  rintro rfl
  rw [hd] at h
  cases h

theorem IntegerText.exists_cons {s : List Char} {n : Int64} (h : IntegerText s n) :
    ∃ c t, s = c :: t ∧ startsNumber c = true := by
  cases h with
  | @mk sign digits _ _ hsign hdigits nonempty _ =>
      cases hsign with
      | plus => exact ⟨_, _, rfl, rfl⟩
      | minus => exact ⟨_, _, rfl, rfl⟩
      | missing =>
          obtain ⟨d, ds, rfl⟩ := List.exists_cons_of_ne_nil nonempty
          exact ⟨d, ds, rfl, startsNumber_of_isDigit (hdigits d List.mem_cons_self)⟩

theorem FloatText.exists_cons {s : List Char} {x : Binary64} (h : FloatText s x) :
    ∃ c t, s = c :: t ∧ startsNumber c = true := by
  cases h with
  | @mk sign whole _ _ hsign hwhole _ _ =>
      cases hsign with
      | plus => exact ⟨_, _, rfl, rfl⟩
      | minus => exact ⟨_, _, rfl, rfl⟩
      | missing =>
          cases whole with
          | nil => exact ⟨_, _, rfl, rfl⟩
          | cons d ds => exact ⟨d, _, rfl, startsNumber_of_isDigit (hwhole d List.mem_cons_self)⟩

namespace Reading

/-- A reader followed by a function finds something exactly when the reader does. -/
theorem map_eq_found_iff {α β : Type} {f : α → β} {r : Reading α} {b : β} {t : List Char} :
    r.map f = found b t ↔ ∃ a, r = found a t ∧ f a = b := by
  cases r <;> simp [and_comm]

theorem map_map {α β γ : Type} (g : β → γ) (f : α → β) (r : Reading α) :
    (r.map f).map g = r.map fun a => g (f a) := by
  cases r <;> rfl

/-! ### Ranges -/

theorem bound_integer {s rest : List Char} {n : Int64} (h : IntegerText s n)
    (hrest : Stops Char.isDigit rest) : bound (s ++ rest) = found (some n) rest := by
  cases h with
  | @mk sign digits negative _ hsign hdigits nonempty value =>
      have hsigned : Numeral.takeSign (sign ++ (digits ++ rest)) = (negative, digits ++ rest) :=
        hsign.takeSign_append (stops_append_of_ne_nil nonempty hdigits isSign_eq_false_of_isDigit)
      have hlen : rest.length ≠ (sign ++ (digits ++ rest)).length := by
        have := List.length_pos_iff.2 nonempty
        simp only [List.length_append]
        omega
      have hn := Numeral.int64?_eq_some_iff.2 ⟨nonempty, value⟩
      rw [List.append_assoc, bound, hsigned]
      simp only [hdigits.spanDigits_append hrest, if_neg hlen, hn]

/-- There is no bound where neither a sign nor a digit stands. -/
theorem bound_of_stops {s : List Char} (hsign : Stops (fun c => c == '-' || c == '+') s)
    (hdigit : Stops Char.isDigit s) : bound s = found none s := by
  have hsigned : Numeral.takeSign s = (false, s) := SignText.missing.takeSign_append hsign
  have hnone : IsDigits [] := by simp [IsDigits]
  have hspan : Numeral.spanDigits s = ([], s) := hnone.spanDigits_append hdigit
  rw [bound, hsigned]
  simp only [hspan, if_true]

/-- A bound that is found is an integer of the text, and no bound takes nothing. -/
theorem exists_of_bound {s rest : List Char} {o : Option Int64} (h : bound s = found o rest) :
    (o = none ∧ s = rest) ∨ ∃ t n, o = some n ∧ s = t ++ rest ∧ IntegerText t n := by
  obtain ⟨sign, hsign, hs⟩ := exists_takeSign s
  have hspan := Numeral.spanDigits_append (Numeral.takeSign s).2
  simp only [bound] at h
  split at h
  · cases h
    exact Or.inl ⟨rfl, rfl⟩
  · split at h
    · next n hn =>
        cases h
        obtain ⟨hne, hvalue⟩ := Numeral.int64?_eq_some_iff.1 hn
        refine Or.inr ⟨_, n, rfl, ?_, .mk hsign (isDigits_spanDigits _) hne hvalue⟩
        rw [List.append_assoc, hspan]
        exact hs
    · cases h

theorem LastText.exists_bound {t : List Char} {stop : Int64} (h : LastText t stop)
    (rest : List Char) :
    ∃ o, bound (t ++ ']' :: rest) = found o (']' :: rest) ∧ o.getD Slice.full.stop = stop := by
  cases h with
  | missing => exact ⟨none, bound_of_stops (by simp) (by simp [Char.isDigit]), rfl⟩
  | given h => exact ⟨_, bound_integer h (by simp [Char.isDigit]), rfl⟩

theorem rangeFrom_colon {t : List Char} {stop : Int64} (h : LastText t stop)
    (start : Option Int64) (rest : List Char) :
    rangeFrom start (':' :: (t ++ ']' :: rest)) =
      found (some ⟨start.getD Slice.full.start, stop⟩) (']' :: rest) := by
  obtain ⟨o, hbound, rfl⟩ := LastText.exists_bound h rest
  rw [rangeFrom, hbound, map_found]

theorem range_of_stops {s : List Char} (h : Stops (· == '*') s) :
    range s = (bound s).andThen rangeFrom := by
  rw [range.eq_def]
  split
  · simp at h
  · rfl

theorem range_integer {s : List Char} {n : Int64} (h : IntegerText s n) {rest : List Char}
    (hrest : Stops Char.isDigit rest) : range (s ++ rest) = rangeFrom (some n) rest := by
  have hstar : Stops (· == '*') (s ++ rest) := by
    obtain ⟨c, t, rfl, hc⟩ := h.exists_cons
    exact (stops_cons _ _ _).2 (beq_eq_false_iff_ne.2 (ne_of_startsNumber hc rfl))
  rw [range_of_stops hstar, bound_integer h hrest, andThen_found]

/-- **Every range of the grammar is read** up to the bracket that closes it. -/
theorem range_eq_found {s : List Char} {r : Option Slice} (h : RangeText s r) (rest : List Char) :
    range (s ++ ']' :: rest) = found r (']' :: rest) := by
  cases h with
  | missing =>
      rw [List.nil_append, range_of_stops (by simp),
        bound_of_stops (by simp) (by simp [Char.isDigit])]
      rfl
  | all => rfl
  | single h =>
      rw [range_integer h (by simp [Char.isDigit])]
      rfl
  | between hstart hstop =>
      rw [List.append_assoc, range_integer hstart (by simp [Char.isDigit]), List.cons_append,
        rangeFrom_colon hstop]
      rfl
  | upTo hstop =>
      rw [List.cons_append, range_of_stops (by simp),
        bound_of_stops (by simp) (by simp [Char.isDigit]), andThen_found, rangeFrom_colon hstop]
      rfl

theorem exists_of_rangeFrom {start : Option Int64} {s rest : List Char} {r : Option Slice}
    (h : rangeFrom start s = found r rest) :
    (r = start.map Slice.index ∧ s = rest) ∨ ∃ t stop,
      r = some ⟨start.getD Slice.full.start, stop⟩ ∧ s = ':' :: (t ++ rest) ∧ LastText t stop := by
  rw [rangeFrom.eq_def] at h
  split at h
  · obtain ⟨o, hbound, rfl⟩ := map_eq_found_iff.1 h
    refine Or.inr ?_
    rcases exists_of_bound hbound with ⟨rfl, rfl⟩ | ⟨t, n, rfl, rfl, hn⟩
    · exact ⟨[], -1, rfl, rfl, .missing⟩
    · exact ⟨t, n, rfl, rfl, .given hn⟩
  · cases h
    exact Or.inl ⟨rfl, rfl⟩

/-- A range that is read is one of the grammar. -/
theorem exists_of_range {s rest : List Char} {r : Option Slice} (h : range s = found r rest) :
    ∃ t, s = t ++ rest ∧ RangeText t r := by
  rw [range.eq_def] at h
  split at h
  · cases h
    exact ⟨['*'], rfl, .all⟩
  · obtain ⟨o, mid, hbound, hfrom⟩ := andThen_eq_found_iff.1 h
    rcases exists_of_bound hbound with ⟨rfl, rfl⟩ | ⟨u, n, rfl, rfl, hn⟩
    · rcases exists_of_rangeFrom hfrom with ⟨rfl, rfl⟩ | ⟨t, stop, rfl, rfl, hstop⟩
      · exact ⟨[], rfl, .missing⟩
      · exact ⟨':' :: t, rfl, .upTo hstop⟩
    · rcases exists_of_rangeFrom hfrom with ⟨rfl, rfl⟩ | ⟨t, stop, rfl, rfl, hstop⟩
      · exact ⟨u, rfl, .single hn⟩
      · exact ⟨u ++ ':' :: t, by simp, .between hn hstop⟩

/-! ### Selectors -/

/-- **Every selector of the grammar is read**, unless the text goes on with the same name. -/
theorem selector_eq_found {s : List Char} {sel : Selector} (h : SelectorText s sel)
    {rest : List Char} (hrest : Stops isNameChar rest) : selector (s ++ rest) = found sel rest := by
  cases h with
  | wildcard => rfl
  | name hname =>
      rw [selector.eq_def]
      split
      · next hstar =>
          obtain ⟨c, t, rfl⟩ := List.exists_cons_of_ne_nil hname.1
          obtain ⟨rfl, -⟩ := List.cons.inj hstar
          exact absurd (hname.isNameChar '*' List.mem_cons_self) (by decide)
      · simp [hname.spanName_append hrest, hname.1]

/-- A selector that is read is one of the grammar. -/
theorem exists_of_selector {s rest : List Char} {sel : Selector}
    (h : selector s = found sel rest) : ∃ t, s = t ++ rest ∧ SelectorText t sel := by
  rw [selector.eq_def] at h
  split at h
  · cases h
    exact ⟨['*'], rfl, .wildcard⟩
  · simp only [List.isEmpty_iff] at h
    split at h
    · cases h
    · next hne =>
        cases h
        exact ⟨_, (spanName_append s).symm, .name (isName_spanName hne)⟩

/-! ### Literals -/

/-- **Every text in quotes is read**, given what follows the mark that opens it. -/
theorem stringLiteral_eq_found {mark : Char} {s : List Char} (closed : mark ∉ s)
    (rest : List Char) :
    stringLiteral mark (s ++ mark :: rest) = found (String.ofList s) rest := by
  have hs : ∀ c ∈ s, (c != mark) = true := by
    intro c hc
    exact bne_iff_ne.2 fun hcm => closed (hcm ▸ hc)
  have hmark : Stops (· != mark) (mark :: rest) := by simp
  rw [stringLiteral, dropWhile_append_of_stops hs hmark, takeWhile_append_of_stops hs hmark]

/-- A text in quotes that is read does not hold the mark that closes it. -/
theorem exists_of_stringLiteral {mark : Char} {s rest : List Char} {x : String}
    (h : stringLiteral mark s = found x rest) :
    ∃ t, s = t ++ mark :: rest ∧ mark ∉ t ∧ x = String.ofList t := by
  have hsplit := List.takeWhile_append_dropWhile (p := (· != mark)) (l := s)
  rw [stringLiteral] at h
  split at h
  · cases h
  · next c _ hdrop =>
      cases h
      have hc : c = mark := by
        have := List.head?_dropWhile_not (· != mark) s
        simpa [hdrop] using this
      subst hc
      refine ⟨s.takeWhile (· != c), ?_, ?_, rfl⟩
      · rw [← hdrop, hsplit]
      · intro hmem
        simpa using List.mem_takeWhile_imp hmem

/-- **Every integer is read**, unless the text goes on with a digit or a point. -/
theorem numberLiteral_integer {s rest : List Char} {n : Int64} (h : IntegerText s n)
    (hdigit : Stops Char.isDigit rest) (hpoint : Stops (· == '.') rest) :
    numberLiteral (s ++ rest) = found (.integer n) rest := by
  cases h with
  | @mk sign digits negative _ hsign hdigits nonempty value =>
      have hsigned : Numeral.takeSign (sign ++ (digits ++ rest)) = (negative, digits ++ rest) :=
        hsign.takeSign_append (stops_append_of_ne_nil nonempty hdigits isSign_eq_false_of_isDigit)
      have hn := Numeral.int64?_eq_some_iff.2 ⟨nonempty, value⟩
      rw [List.append_assoc, numberLiteral, hsigned]
      simp only [hdigits.spanDigits_append hdigit]
      split
      · simp at hpoint
      · simp only [hn]

/-- **Every floating point number is read**, unless the text goes on with a digit. -/
theorem numberLiteral_float {s rest : List Char} {x : Binary64} (h : FloatText s x)
    (hdigit : Stops Char.isDigit rest) : numberLiteral (s ++ rest) = found (.float x) rest := by
  cases h with
  | @mk sign whole fraction negative hsign hwhole hfraction nonempty =>
      have hstops : Stops (fun c => c == '-' || c == '+')
          (whole ++ ('.' :: (fraction ++ rest))) := by
        cases whole with
        | nil => simp
        | cons d ds =>
            exact (stops_cons _ _ _).2 (isSign_eq_false_of_isDigit d (hwhole d List.mem_cons_self))
      have hspan : Numeral.spanDigits (whole ++ '.' :: (fraction ++ rest)) =
          (whole, '.' :: (fraction ++ rest)) :=
        hwhole.spanDigits_append (by simp [Char.isDigit])
      have hempty : (whole.isEmpty && fraction.isEmpty) = false := by
        rcases nonempty with hne | hne <;> simp [hne]
      rw [List.append_assoc, List.append_assoc, List.cons_append, numberLiteral,
        hsign.takeSign_append hstops]
      simp only [hspan, hfraction.spanDigits_append hdigit, hempty]
      rfl

/-- A number that is read is an integer or a floating point number of the grammar. -/
theorem exists_of_numberLiteral {s rest : List Char} {a : Argument}
    (h : numberLiteral s = found a rest) :
    ∃ t, s = t ++ rest ∧ ((∃ n, a = .integer n ∧ IntegerText t n) ∨
      ∃ x, a = .float x ∧ FloatText t x) := by
  obtain ⟨sign, hsign, hs⟩ := exists_takeSign s
  have hspan := Numeral.spanDigits_append (Numeral.takeSign s).2
  have hwhole := isDigits_spanDigits (Numeral.takeSign s).2
  simp only [numberLiteral] at h
  split at h
  · next after hpoint =>
      have hafter := Numeral.spanDigits_append after
      split at h
      · cases h
      · next hne =>
          cases h
          refine ⟨_, ?_, Or.inr ⟨_, rfl, .mk hsign hwhole (isDigits_spanDigits after) ?_⟩⟩
          · rw [List.append_assoc, List.append_assoc, List.cons_append, hafter, ← hpoint, hspan]
            exact hs
          · simpa [Classical.or_iff_not_imp_left] using hne
  · split at h
    · next n hn =>
        cases h
        obtain ⟨hne, hvalue⟩ := Numeral.int64?_eq_some_iff.1 hn
        refine ⟨_, ?_, Or.inl ⟨n, rfl, .mk hsign hwhole hne hvalue⟩⟩
        rw [List.append_assoc, hspan]
        exact hs
    · cases h

end Reading

end TreePath
