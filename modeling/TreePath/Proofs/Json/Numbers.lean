/-
**Numbers in JSON texts.**

The reader of numbers takes as many characters as it can.  So what it makes of a number does not
depend on what follows, as long as that does not start like more of the number (`EndsNumber`).

An integer is read back from its text as itself.  A floating point number need not be: the reader
rounds more than once, and the text of a number with seventeen digits can be read as one of its
neighbours.  Whether a number is read back is therefore a property of its own, `ReadsBack`, which is
stated of the text of the number alone and then holds wherever that text stands.

Main definitions:

* `Document.EndsNumber` — a text before which a number ends;
* `Json.Number.ReadsBack` — the number is read back from its text.

Main results:

* `Numeral.value_ofNat`, `Numeral.eq_zero_of_head?_ofNat` — numerals without leading zeros;
* `Document.number?_append` — what follows a number does not change how it is read;
* `Json.Number.readsBack_integer` — every integer is read back;
* `Json.Number.readsBack_iff` — a number is read back when its form is all of its text;
* `Binary64.isFinite_ofInt` — integers of 64 bits are finite as floating point numbers.
-/

import TreePath.Json.Reading
import TreePath.Json.Writing
import TreePath.Proofs.Path.Words

set_option relaxedAutoImplicit false
set_option autoImplicit false

namespace TreePath

/-! ### Numerals -/

namespace Numeral

theorem value_eq_ofDigitChars (ds : List Char) : value ds = Nat.ofDigitChars 10 ds 0 :=
  Nat.ofDigitChars_eq_foldl.symm

/-- A natural number is what its numeral denotes. -/
@[simp] theorem value_ofNat (n : Nat) : value (ofNat n) = n := by
  rw [value_eq_ofDigitChars, ofNat, Nat.ofDigitChars_ten_toDigits]

theorem isDigits_ofNat (n : Nat) : IsDigits (ofNat n) := fun _ hc =>
  Nat.isDigit_of_mem_toDigits (by decide) (by decide) hc

theorem ofNat_ne_nil (n : Nat) : ofNat n ≠ [] := Nat.toDigits_ne_nil

/-- Only the numeral of zero starts with a zero. -/
theorem eq_zero_of_head?_ofNat {n : Nat} (h : (ofNat n).head? = some '0') : n = 0 := by
  induction n using Nat.strongRecOn with
  | ind n ih =>
      rw [ofNat, Nat.toDigits_eq_if (by decide)] at h
      split at h
      · next hlt =>
          have hdigits : ∀ d < 10, Nat.digitChar d = '0' → d = 0 := by decide
          exact hdigits n hlt (by simpa using h)
      · next hle =>
          rw [List.head?_append_of_ne_nil _ Nat.toDigits_ne_nil] at h
          have := ih (n / 10) (by omega) h
          omega

/-- Digits end where they did when something follows that does not start with a digit. -/
theorem spanDigits_append_of_stops (s : List Char) {rest : List Char}
    (h : Stops Char.isDigit rest) :
    spanDigits (s ++ rest) = ((spanDigits s).1, (spanDigits s).2 ++ rest) := by
  induction s with
  | nil =>
      have hnone : IsDigits [] := by simp [IsDigits]
      exact hnone.spanDigits_append h
  | cons c s ih =>
      by_cases hc : c.isDigit = true
      · simpa [spanDigits, hc] using ih
      · simp [spanDigits, hc]

/-- A sign is followed by what follows it. -/
theorem takeSign_append {s : List Char} (hs : s ≠ []) (rest : List Char) :
    takeSign (s ++ rest) = ((takeSign s).1, (takeSign s).2 ++ rest) := by
  cases s with
  | nil => exact absurd rfl hs
  | cons c s =>
      by_cases hminus : c = '-'
      · subst hminus
        rfl
      · by_cases hplus : c = '+'
        · subst hplus
          rfl
        · simp [takeSign, hminus, hplus]

end Numeral

/-! ### Reading numbers -/

namespace Document

/-- A text before which a number ends: it starts neither with a digit nor with a point or the mark
of an exponent. -/
def EndsNumber (rest : List Char) : Prop :=
  Stops (fun c => c.isDigit || c == '.' || c == 'e' || c == 'E') rest

theorem fraction?_point (s : List Char) : fraction? ('.' :: s) =
    if (Numeral.spanDigits s).1.isEmpty then none
    else some (some (Numeral.spanDigits s).1, (Numeral.spanDigits s).2) := rfl

theorem fraction?_of_stops {s : List Char} (h : Stops (· == '.') s) :
    fraction? s = some (none, s) := by
  unfold fraction?
  split
  · simp at h
  · rfl

theorem exponent?_mark {c : Char} (hc : c = 'e' ∨ c = 'E') (s : List Char) :
    exponent? (c :: s) =
      if (Numeral.spanDigits (Numeral.takeSign s).2).1.isEmpty then none
      else some (some (Numeral.signed (Numeral.takeSign s).1
          (Numeral.value (Numeral.spanDigits (Numeral.takeSign s).2).1)),
        (Numeral.spanDigits (Numeral.takeSign s).2).2) := by
  rw [exponent?, if_pos hc]

/-- A number without its sign, at the front of a text. -/
def unsigned? (negative : Bool) (s : List Char) : Option (NumberForm × List Char) :=
  let (ds, rest) := Numeral.spanDigits s
  if ds.isEmpty || (ds.head? == some '0' && ds.length != 1) then none
  else do
    let (fraction, rest) ← fraction? rest
    let (exponent, rest) ← exponent? rest
    return (⟨negative, ds, fraction, exponent⟩, rest)

theorem number?_minus (s : List Char) : number? ('-' :: s) = unsigned? true s := by
  rw [number?, unsigned?]

theorem number?_of_ne {c : Char} (hc : c ≠ '-') (s : List Char) :
    number? (c :: s) = unsigned? false (c :: s) := by
  rw [number?, unsigned?]
  rintro t heq
  exact hc (List.cons.inj heq).1

/-- What the parts of a number are, and where it ends. -/
theorem unsigned?_eq_some_iff {negative : Bool} {s left : List Char} {n : NumberForm} :
    unsigned? negative s = some (n, left) ↔
      (Numeral.spanDigits s).1 ≠ [] ∧
      ((Numeral.spanDigits s).1.head? = some '0' → (Numeral.spanDigits s).1.length = 1) ∧
      ∃ f rest e, fraction? (Numeral.spanDigits s).2 = some (f, rest) ∧
        exponent? rest = some (e, left) ∧ n = ⟨negative, (Numeral.spanDigits s).1, f, e⟩ := by
  simp only [unsigned?, Bool.or_eq_true, List.isEmpty_iff, Bool.and_eq_true, beq_iff_eq,
    bne_iff_ne, Option.bind_eq_bind, Option.pure_def, Option.ite_none_left_eq_some, not_or, not_and,
    not_not, Option.bind_eq_some_iff, Prod.exists, Option.some.injEq, Prod.mk.injEq, and_assoc]
  constructor
  · rintro ⟨hne, hzero, f, t, hf, e, _, he, rfl, rfl⟩
    exact ⟨hne, hzero, f, t, e, hf, he, rfl⟩
  · rintro ⟨hne, hzero, f, t, e, hf, he, rfl⟩
    exact ⟨hne, hzero, f, t, hf, e, left, he, rfl, rfl⟩

section Ends

variable {rest : List Char} (h : EndsNumber rest)

include h

theorem EndsNumber.stops_digits : Stops Char.isDigit rest := fun c hc => by
  have := h c hc
  simp only [Bool.or_eq_false_iff] at this
  exact this.1.1.1

/-- After a number there is no fraction to read. -/
theorem EndsNumber.fraction?_eq : fraction? rest = some (none, rest) := by
  refine fraction?_of_stops fun c hc => ?_
  have := h c hc
  simp only [Bool.or_eq_false_iff] at this
  exact this.1.1.2

/-- After a number there is no exponent to read. -/
theorem EndsNumber.exponent?_eq : exponent? rest = some (none, rest) := by
  cases rest with
  | nil => rfl
  | cons c rest =>
      have hc : ¬(c = 'e' ∨ c = 'E') := by
        rintro (rfl | rfl) <;> simp [EndsNumber] at h
      rw [exponent?, if_neg hc]

/-- A fraction ends where it did. -/
theorem fraction?_append {s left : List Char} {f : Option (List Char)}
    (hs : fraction? s = some (f, left)) : fraction? (s ++ rest) = some (f, left ++ rest) := by
  cases s with
  | nil =>
      cases hs
      exact h.fraction?_eq
  | cons c s =>
      by_cases hc : c = '.'
      · subst hc
        rw [fraction?_point] at hs
        rw [List.cons_append, fraction?_point, Numeral.spanDigits_append_of_stops s h.stops_digits]
        split at hs
        · cases hs
        · next hds =>
            cases hs
            rw [if_neg hds]
      · have hstops : ∀ t, Stops (· == '.') (c :: t) := fun t => by simp [hc]
        rw [fraction?_of_stops (hstops s)] at hs
        cases hs
        exact fraction?_of_stops (hstops _)

/-- An exponent ends where it did. -/
theorem exponent?_append {s left : List Char} {e : Option Int}
    (hs : exponent? s = some (e, left)) : exponent? (s ++ rest) = some (e, left ++ rest) := by
  cases s with
  | nil =>
      cases hs
      exact h.exponent?_eq
  | cons c s =>
      by_cases hc : c = 'e' ∨ c = 'E'
      · rw [exponent?_mark hc] at hs
        rw [List.cons_append, exponent?_mark hc]
        split at hs
        · cases hs
        · next hds =>
            cases hs
            -- There are digits, so the sign is not followed by the end of the text.
            have hne : s ≠ [] := by
              rintro rfl
              exact hds rfl
            rw [Numeral.takeSign_append hne, Numeral.spanDigits_append_of_stops _ h.stops_digits,
              if_neg hds]
      · rw [exponent?, if_neg hc] at hs
        cases hs
        rw [List.cons_append, exponent?, if_neg hc]

theorem unsigned?_append {negative : Bool} {s left : List Char} {n : NumberForm}
    (hs : unsigned? negative s = some (n, left)) :
    unsigned? negative (s ++ rest) = some (n, left ++ rest) := by
  rw [unsigned?_eq_some_iff, Numeral.spanDigits_append_of_stops s h.stops_digits]
  obtain ⟨hne, hzero, f, t, e, hf, he, rfl⟩ := unsigned?_eq_some_iff.1 hs
  exact ⟨hne, hzero, f, t ++ rest, e, fraction?_append h hf, exponent?_append h he, rfl⟩

/-- **What follows a number does not change how it is read.** -/
theorem number?_append {s left : List Char} {n : NumberForm}
    (hs : number? s = some (n, left)) : number? (s ++ rest) = some (n, left ++ rest) := by
  cases s with
  | nil => cases hs
  | cons c s =>
      by_cases hc : c = '-'
      · subst hc
        exact unsigned?_append h hs
      · rw [number?_of_ne hc] at hs
        rw [List.cons_append, number?_of_ne hc]
        exact unsigned?_append h hs

end Ends

theorem fraction?_suffix {s left : List Char} {f : Option (List Char)}
    (hs : fraction? s = some (f, left)) : left <:+ s := by
  unfold fraction? at hs
  split at hs
  · next s =>
      have hrest := Numeral.spanDigits_suffix s
      simp only [Option.ite_none_left_eq_some, Option.some.injEq, Prod.mk.injEq] at hs
      rw [← hs.2.2]
      exact hrest.trans (List.suffix_cons _ _)
  · cases hs
    exact List.suffix_refl _

theorem exponent?_suffix {s left : List Char} {e : Option Int}
    (hs : exponent? s = some (e, left)) : left <:+ s := by
  cases s with
  | nil =>
      cases hs
      exact List.suffix_refl _
  | cons c s =>
      by_cases hc : c = 'e' ∨ c = 'E'
      · rw [exponent?_mark hc] at hs
        simp only [Option.ite_none_left_eq_some, Option.some.injEq, Prod.mk.injEq] at hs
        rw [← hs.2.2]
        exact ((Numeral.spanDigits_suffix _).trans (Numeral.takeSign_suffix s)).trans
          (List.suffix_cons _ _)
      · rw [exponent?, if_neg hc] at hs
        cases hs
        exact List.suffix_refl _

/-- A number takes at least one digit of the text in which it stands. -/
theorem unsigned?_suffix {negative : Bool} {s left : List Char} {n : NumberForm}
    (hs : unsigned? negative s = some (n, left)) : left <:+ s ∧ left.length < s.length := by
  obtain ⟨hne, -, f, t, e, hf, he, -⟩ := unsigned?_eq_some_iff.1 hs
  have hleft := (exponent?_suffix he).trans (fraction?_suffix hf)
  refine ⟨hleft.trans (Numeral.spanDigits_suffix s), ?_⟩
  have hlength := congrArg List.length (Numeral.spanDigits_append s)
  have := List.length_pos_iff.2 hne
  have := hleft.length_le
  rw [List.length_append] at hlength
  omega

/-- A number is followed by the rest of the text in which it stands. -/
theorem number?_suffix {s left : List Char} {n : NumberForm} (hs : number? s = some (n, left)) :
    left <:+ s ∧ left.length < s.length := by
  cases s with
  | nil => cases hs
  | cons c s =>
      by_cases hc : c = '-'
      · subst hc
        rw [number?_minus] at hs
        obtain ⟨hsuffix, hlength⟩ := unsigned?_suffix hs
        exact ⟨hsuffix.trans (List.suffix_cons _ _), Nat.lt_succ_of_lt hlength⟩
      · rw [number?_of_ne hc] at hs
        exact unsigned?_suffix hs

end Document

/-! ### The characters of numbers -/

/-- The characters that occur in the text of a number. -/
def isNumberChar (c : Char) : Bool := c.isDigit || ['-', '+', '.', 'e'].contains c

theorem isNumberChar_of_isDigit {c : Char} (h : c.isDigit = true) : isNumberChar c = true := by
  simp [isNumberChar, h]

theorem Numeral.isNumberChar_ofNat {n : Nat} : ∀ c ∈ ofNat n, isNumberChar c = true :=
  fun c hc => isNumberChar_of_isDigit (isDigits_ofNat n c hc)

theorem Numeral.isNumberChar_ofInt {n : Int} : ∀ c ∈ ofInt n, isNumberChar c = true := by
  cases n with
  | ofNat n => exact isNumberChar_ofNat
  | negSucc n => exact List.forall_mem_cons.2 ⟨rfl, isNumberChar_ofNat⟩

namespace NumberLayout

variable (layout : NumberLayout) {ds : List Char} (hds : ∀ c ∈ ds, isNumberChar c = true)

include hds

theorem isNumberChar_positionalText (exponent : Int) :
    ∀ c ∈ layout.positionalText ds exponent, isNumberChar c = true := by
  have hzeros : ∀ n, ∀ c ∈ List.replicate n '0', isNumberChar c = true := fun n c hc =>
    List.eq_of_mem_replicate hc ▸ rfl
  simp only [positionalText]
  split
  · refine List.forall_mem_append.2 ⟨List.forall_mem_append.2 ⟨hds, hzeros _⟩, ?_⟩
    split
    · exact List.all_eq_true.1 rfl
    · exact List.forall_mem_nil _
  · split
    · refine List.forall_mem_append.2 ⟨fun c hc => hds c (List.mem_of_mem_take hc), ?_⟩
      exact List.forall_mem_cons.2 ⟨rfl, fun c hc => hds c (List.mem_of_mem_drop hc)⟩
    · refine List.forall_mem_append.2 ⟨?_, hds⟩
      exact List.forall_mem_cons.2 ⟨rfl, List.forall_mem_cons.2 ⟨rfl, hzeros _⟩⟩

theorem isNumberChar_exponentText (lead : Int) :
    ∀ c ∈ layout.exponentText ds lead, isNumberChar c = true := by
  have hfraction : ∀ c ∈ ds.drop 1, isNumberChar c = true := fun c hc =>
    hds c (List.mem_of_mem_drop hc)
  simp only [exponentText]
  refine List.forall_mem_append.2 ⟨List.forall_mem_append.2 ⟨List.forall_mem_append.2 ⟨?_, ?_⟩, ?_⟩,
    Numeral.isNumberChar_ofInt⟩
  · exact fun c hc => hds c (List.mem_of_mem_take hc)
  · split
    · exact List.forall_mem_nil _
    · exact List.forall_mem_cons.2 ⟨rfl, hfraction⟩
  · refine List.forall_mem_cons.2 ⟨rfl, ?_⟩
    split
    · exact List.all_eq_true.1 rfl
    · exact List.forall_mem_nil _

end NumberLayout

theorem NumberLayout.isNumberChar_magnitudeText (layout : NumberLayout) (magnitude : Nat) :
    ∀ c ∈ layout.magnitudeText magnitude, isNumberChar c = true := by
  unfold magnitudeText
  generalize Shortest.decimal layout.tie magnitude = shortest
  obtain ⟨digits, exponent⟩ := shortest
  have hds : ∀ c ∈ Numeral.ofNat digits, isNumberChar c = true := Numeral.isNumberChar_ofNat
  dsimp only
  -- Of the shortest decimal it only matters that its digits are digits.
  revert hds
  generalize Numeral.ofNat digits = ds
  intro hds
  split
  · split
    · exact List.all_eq_true.1 rfl
    · exact List.all_eq_true.1 rfl
  · split
    · exact layout.isNumberChar_positionalText hds _
    · exact layout.isNumberChar_exponentText hds _

theorem Binary64.isNumberChar_text (layout : NumberLayout) {x : Binary64}
    (hx : x.isFinite = true) : ∀ c ∈ x.text layout, isNumberChar c = true := by
  rw [text, if_neg (by simp [isNaN_eq_false_of_isFinite hx]), if_pos hx]
  refine List.forall_mem_append.2 ⟨?_, layout.isNumberChar_magnitudeText _⟩
  split
  · exact List.all_eq_true.1 rfl
  · exact List.forall_mem_nil _

theorem Json.Number.isNumberChar_write (n : Number) : ∀ c ∈ n.write, isNumberChar c = true := by
  cases n with
  | integer n _ _ => exact Numeral.isNumberChar_ofInt
  | float x hx => exact x.isNumberChar_text .json hx

/-! ### Numbers that are read back -/

namespace Document

theorem skipBlank_of_stops {s : List Char} (h : Stops isBlank s) : skipBlank s = s :=
  dropWhile_append_of_stops (s := []) (by simp) h

theorem skipBlank_of_forall {s : List Char} (h : ∀ c ∈ s, isBlank c = false) : skipBlank s = s :=
  skipBlank_of_stops fun c hc => h c (List.mem_of_head? hc)

/-- A text holds one value when nothing but blanks follows the value at its front. -/
theorem parse?_eq_some_iff {s : List Char} {d : Document} :
    parse? s = some d ↔ ∃ left, value? (levels s) s = some (d, left) ∧ skipBlank left = [] := by
  unfold parse?
  split
  · next e left hvalue =>
      rw [hvalue, Option.ite_none_right_eq_some, List.isEmpty_iff]
      constructor
      · rintro ⟨hleft, heq⟩
        cases heq
        exact ⟨left, rfl, hleft⟩
      · rintro ⟨_, heq, hleft⟩
        cases heq
        exact ⟨hleft, rfl⟩
  · next hvalue => simp [hvalue]

theorem isBlank_eq_false_of_isNumberChar {c : Char} (h : isNumberChar c = true) :
    isBlank c = false := by
  have hne : ∀ d, isNumberChar d = false → c ≠ d := by
    rintro d hd rfl
    rw [hd] at h
    cases h
  simp [isBlank, hne ' ' rfl, hne '\t' rfl, hne '\n' rfl, hne '\r' rfl]

/-- A number starts with a minus sign or a digit. -/
theorem exists_cons_of_number? {s left : List Char} {n : NumberForm}
    (h : number? s = some (n, left)) : ∃ c t, s = c :: t ∧ (c = '-' ∨ c.isDigit = true) := by
  cases s with
  | nil => cases h
  | cons c t =>
      refine ⟨c, t, rfl, or_iff_not_imp_left.2 fun hc => ?_⟩
      rw [number?_of_ne hc] at h
      have hne := (unsigned?_eq_some_iff.1 h).1
      by_contra hdigit
      exact hne (by simp [Numeral.spanDigits, hdigit])

/-- A value that is a number is one to the reader of numbers. -/
theorem number?_of_value? {levels : Nat} {s left : List Char} {n : NumberForm}
    (h : value? levels s = some (.number n, left)) : number? (skipBlank s) = some (n, left) := by
  cases levels with
  | zero => cases h
  | succ levels =>
      rw [value?] at h
      split at h
      · cases h
      · split at h <;> simp at h
      · split at h <;> simp at h
      · simp at h
      · simp at h
      · simp at h
      · simp at h
      · simpa using h

/-- Where a number stands, the value is that number. -/
theorem value?_of_number? {s left : List Char} {n : NumberForm}
    (h : number? s = some (n, left)) (levels : Nat) :
    value? (levels + 1) s = some (.number n, left) := by
  obtain ⟨c, t, rfl, hc⟩ := exists_cons_of_number? h
  have hne : ∀ d, d ≠ '-' → d.isDigit = false → c ≠ d := by
    rintro d hd hdigit rfl
    rcases hc with hc | hc
    · exact hd hc
    · rw [hdigit] at hc
      cases hc
  have hblank : skipBlank (c :: t) = c :: t := skipBlank_of_stops (by
    refine (stops_cons _ _ _).2 ?_
    simp [isBlank, hne ' ' (by decide) rfl, hne '\t' (by decide) rfl, hne '\n' (by decide) rfl,
      hne '\r' (by decide) rfl])
  rw [value?, hblank]
  split
  · cases ‹c :: t = []›
  · exact absurd (List.cons.inj ‹_›).1 (hne _ (by decide) rfl)
  · exact absurd (List.cons.inj ‹_›).1 (hne _ (by decide) rfl)
  · exact absurd (List.cons.inj ‹_›).1 (hne _ (by decide) rfl)
  · exact absurd (List.cons.inj ‹_›).1 (hne _ (by decide) rfl)
  · exact absurd (List.cons.inj ‹_›).1 (hne _ (by decide) rfl)
  · exact absurd (List.cons.inj ‹_›).1 (hne _ (by decide) rfl)
  · rw [h, Option.map_some]

end Document

/-- An integer is read as its sign and its digits. -/
theorem Numeral.number?_ofInt (n : Int) :
    Document.number? (ofInt n) = some (⟨decide (n < 0), ofNat n.natAbs, none, none⟩, []) := by
  have hunsigned (negative : Bool) (m : Nat) : Document.unsigned? negative (ofNat m) =
      some (⟨negative, ofNat m, none, none⟩, []) := by
    have hdigits : spanDigits (ofNat m) = (ofNat m, []) := by
      simpa using (isDigits_ofNat m).spanDigits_append (stops_nil _)
    rw [Document.unsigned?_eq_some_iff, hdigits]
    refine ⟨ofNat_ne_nil m, fun hzero => ?_, none, [], none, rfl, rfl, rfl⟩
    rw [eq_zero_of_head?_ofNat hzero]
    rfl
  cases n with
  | ofNat m =>
      obtain ⟨c, t, hc⟩ := List.exists_cons_of_ne_nil (ofNat_ne_nil m)
      have hdigit : c.isDigit = true := isDigits_ofNat m c (hc ▸ List.mem_cons_self)
      have hne : c ≠ '-' := by
        rintro rfl
        cases hdigit
      rw [ofInt, hc, Document.number?_of_ne hne, ← hc, hunsigned]
      rfl
  | negSucc m =>
      rw [ofInt, Document.number?_minus, hunsigned, decide_eq_true (Int.negSucc_lt_zero m),
        Int.natAbs_negSucc]

namespace Json.Number

/-- **The number is read back** from its text as the same number. -/
def ReadsBack (n : Number) : Prop := Json.parse? (Json.number n).text = some (.number n)

/-- An integer has the form of its sign and its digits. -/
theorem ofForm?_ofInt {n : Int} (least : -0x8000000000000000 ≤ n)
    (greatest : n < 0x10000000000000000) :
    ofForm? ⟨decide (n < 0), Numeral.ofNat n.natAbs, none, none⟩ =
      some (.integer n least greatest) := by
  have hsigned : Numeral.signed (decide (n < 0)) n.natAbs = n := by
    unfold Numeral.signed
    split
    · next hneg =>
        have := of_decide_eq_true hneg
        omega
    · next hneg =>
        have : ¬n < 0 := by simpa using hneg
        omega
  have hsign : (decide (n < 0) && n.natAbs == 0) = false := by
    simp only [Bool.and_eq_false_iff, decide_eq_false_iff_not, beq_eq_false_iff_ne]
    omega
  rw [ofForm?]
  simp only [Numeral.value_ofNat, hsigned, hsign, Option.isNone_none, Bool.not_false, Bool.and_self,
    if_true, ofInt?, dif_pos (And.intro least greatest), Option.some_or]

/-- Only the form of a number means a number. -/
theorem exists_form_of_ofDocument? {depth : Nat} {d : Document} {n : Number}
    (h : Json.ofDocument? depth d = some (.number n)) :
    ∃ form, d = .number form ∧ ofForm? form = some n := by
  cases d with
  | number form => exact ⟨form, rfl, by simpa [Json.ofDocument?] using h⟩
  | array items => cases depth <;> simp [Json.ofDocument?] at h
  | object members => cases depth <;> simp [Json.ofDocument?, Json.ofMembers] at h
  | _ => simp [Json.ofDocument?] at h

/-- What it means for a number to be read back is a matter of the reader of numbers only. -/
theorem readsBack_iff {n : Number} : n.ReadsBack ↔
    ∃ form, Document.number? n.write = some (form, []) ∧ ofForm? form = some n := by
  have hblanks : ∀ c ∈ n.write, Document.isBlank c = false := fun c hc =>
    Document.isBlank_eq_false_of_isNumberChar (n.isNumberChar_write c hc)
  have hread : n.ReadsBack ↔
      (Document.parse? n.write).bind (Json.ofDocument? Json.nestingLimit) = some (.number n) := by
    rw [ReadsBack, Json.parse?, Json.text, Json.write, String.toList_ofList]
  rw [hread, Option.bind_eq_some_iff]
  constructor
  · rintro ⟨d, hd, hmeaning⟩
    obtain ⟨form, rfl, hnumber⟩ := exists_form_of_ofDocument? hmeaning
    obtain ⟨left, hvalue, hleft⟩ := Document.parse?_eq_some_iff.1 hd
    have hform := Document.number?_of_value? hvalue
    rw [Document.skipBlank_of_forall hblanks] at hform
    have hnone := Document.skipBlank_of_forall fun c hc =>
      hblanks c ((Document.number?_suffix hform).1.mem hc)
    refine ⟨form, ?_, hnumber⟩
    rw [hform, ← hnone, hleft]
  · rintro ⟨form, hform, hmeaning⟩
    refine ⟨.number form, ?_, by rw [Json.ofDocument?, hmeaning, Option.map_some]⟩
    rw [Document.parse?, Document.levels, Document.value?_of_number? hform]
    rfl

/-- **Every integer is read back.** -/
theorem readsBack_integer {n : Int} (least : -0x8000000000000000 ≤ n)
    (greatest : n < 0x10000000000000000) : (integer n least greatest).ReadsBack :=
  readsBack_iff.2 ⟨_, Numeral.number?_ofInt n, ofForm?_ofInt least greatest⟩

end Json.Number

/-! ### Floating point numbers -/

/-- A rounded number is at most one more than the number rounded down. -/
theorem roundHalfEven_le (num den : Nat) : roundHalfEven num den ≤ num / den + 1 := by
  simp only [roundHalfEven]
  split
  · omega
  · split
    · omega
    · split <;> omega

/-- The significand of a fraction fits the format. -/
theorem BinaryFormat.significand_lt (f : BinaryFormat) (num den : Nat) :
    num / (den * Nat.pow 2 (f.excess num den)) < 2 * Nat.pow 2 f.fractionBits := by
  rw [← Nat.div_div_eq_div_mul]
  refine (Nat.div_lt_iff_lt_mul (Nat.two_pow_pos _)).2 (Nat.lt_of_lt_of_le Nat.lt_log2_self ?_)
  have hlog : Nat.log2 (num / den) ≤ f.excess num den + f.fractionBits := by
    unfold excess
    omega
  calc 2 ^ (Nat.log2 (num / den) + 1)
      ≤ 2 ^ (f.fractionBits + 1 + f.excess num den) :=
        Nat.pow_le_pow_right (by decide) (by omega)
    _ = 2 * 2 ^ f.fractionBits * 2 ^ f.excess num den := by rw [Nat.pow_add, Nat.pow_succ']

/-- A magnitude lies less than two powers of two above those with a significand that fits. -/
theorem BinaryFormat.round_le (f : BinaryFormat) (num den : Nat) :
    f.round num den ≤ (f.excess num den + 2) * Nat.pow 2 f.fractionBits := by
  have hround := roundHalfEven_le num (den * Nat.pow 2 (f.excess num den))
  have hsignificand := f.significand_lt num den
  calc f.round num den
      ≤ f.excess num den * Nat.pow 2 f.fractionBits +
          roundHalfEven num (den * Nat.pow 2 (f.excess num den)) := Nat.min_le_left _ _
    _ ≤ f.excess num den * Nat.pow 2 f.fractionBits + 2 * Nat.pow 2 f.fractionBits := by omega
    _ = (f.excess num den + 2) * Nat.pow 2 f.fractionBits := by rw [Nat.add_mul]

/-- An integer of 64 bits has a finite magnitude. -/
theorem BinaryFormat.roundDecimal_lt_infinity {m : Nat} (hm : m < 0x10000000000000000) :
    double.roundDecimal m 0 < double.infinity := by
  have hlength : Numeral.length m ≤ 20 :=
    (Nat.length_toDigits_le_iff (by decide) (by decide)).2 (Nat.lt_trans hm (by decide))
  rw [roundDecimal]
  split
  · decide
  · next hne =>
      rw [if_neg (by omega), if_neg (by omega), if_pos (Int.le_refl 0)]
      -- The exponent of the unit is large, and only its place in the sum matters.
      have hexcess : ∀ k, double.excess (m * Nat.pow 10 0 * Nat.pow 2 k) 1 ≤ 11 + k := by
        intro k
        have hpos : m * Nat.pow 10 0 * Nat.pow 2 k ≠ 0 :=
          Nat.mul_ne_zero (Nat.mul_ne_zero hne (by decide)) (Nat.two_pow_pos k).ne'
        have hlt : m * Nat.pow 10 0 * Nat.pow 2 k < 2 ^ (64 + k) := by
          rw [Nat.pow_add]
          exact Nat.mul_lt_mul_of_pos_right (by simpa using hm) (Nat.two_pow_pos k)
        have := (Nat.log2_lt hpos).2 hlt
        simp only [excess, Nat.div_one, double]
        omega
      have hround := double.round_le (m * Nat.pow 10 0 * Nat.pow 2 double.unitExponent) 1
      have hunit : double.unitExponent = 1074 := rfl
      have := hexcess double.unitExponent
      have hbound : (1085 + 2) * Nat.pow 2 double.fractionBits < double.infinity := by decide
      refine Nat.lt_of_le_of_lt (Nat.le_trans hround ?_) hbound
      exact Nat.mul_le_mul_right _ (by omega)

/-- What a sign and a magnitude are put together to has that magnitude. -/
theorem Binary64.magnitude_ofMagnitude (negative : Bool) {m : Nat} (hm : m < signBit) :
    (ofMagnitude negative m).magnitude = m := by
  simp only [ofMagnitude, magnitude, UInt64.toNat_ofNat', signBit] at hm ⊢
  cases negative
  · rw [if_neg (by decide)]
    omega
  · rw [if_pos rfl]
    omega

/-- **An integer of 64 bits**, with or without sign, is finite as a floating point number. -/
theorem Binary64.isFinite_ofInt {n : Int} (hn : n.natAbs < 0x10000000000000000) :
    (ofInt n).isFinite = true := by
  have hfinite := BinaryFormat.roundDecimal_lt_infinity hn
  have hsign : BinaryFormat.double.infinity < signBit := by decide
  rw [isFinite, ofInt, magnitude_ofMagnitude _ (Nat.lt_trans hfinite hsign)]
  exact decide_eq_true hfinite

end TreePath
