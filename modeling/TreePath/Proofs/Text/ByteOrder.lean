/-
**Texts are ordered by their bytes.**

Texts are compared code point by code point.  In UTF-8 this is the order of their bytes: a character
with a greater code has a greater byte where its bytes first differ from those of the other, for its
first byte tells how many bytes there are, and the bytes of sequences of one length are the digits
of the codes to the base 64.

Main definitions:

* `utf8` — the bytes of a text.

Main results:

* `utf8EncodeChar_append_lt` — the order of two characters shows in their bytes, whatever follows;
* `lt_iff_utf8_lt` — **the order of texts is the order of their bytes**.
-/

set_option relaxedAutoImplicit false
set_option autoImplicit false

namespace TreePath

/-- The bytes of a text in UTF-8. -/
def utf8 (s : String) : List UInt8 := s.toUTF8.data.toList

theorem utf8_eq_flatMap (s : String) : utf8 s = s.toList.flatMap String.utf8EncodeChar := by
  obtain ⟨cs, rfl⟩ : ∃ cs, s = String.ofList cs := ⟨s.toList, String.ofList_toList.symm⟩
  rw [utf8, String.toUTF8_eq_toByteArray, String.toList_ofList]
  exact List.toList_data_toByteArray

/-! ### Characters -/

theorem ofNat_lt_ofNat_iff {a b : Nat} (ha : a < 256) (hb : b < 256) :
    UInt8.ofNat a < UInt8.ofNat b ↔ a < b := by
  rw [UInt8.lt_iff_toNat_lt, UInt8.toNat_ofNat', UInt8.toNat_ofNat', Nat.mod_eq_of_lt ha,
    Nat.mod_eq_of_lt hb]

theorem ofNat_eq_ofNat_iff {a b : Nat} (ha : a < 256) (hb : b < 256) :
    UInt8.ofNat a = UInt8.ofNat b ↔ a = b := by
  rw [← UInt8.toNat_inj, UInt8.toNat_ofNat', UInt8.toNat_ofNat', Nat.mod_eq_of_lt ha,
    Nat.mod_eq_of_lt hb]

/-- A greater number has a greater digit to the base 64, after digits that are the same. -/
theorem digits_lt {v w : Nat} (h : v < w) :
    v / 262144 < w / 262144 ∨ v / 262144 = w / 262144 ∧
      (v / 4096 % 64 < w / 4096 % 64 ∨ v / 4096 % 64 = w / 4096 % 64 ∧
        (v / 64 % 64 < w / 64 % 64 ∨ v / 64 % 64 = w / 64 % 64 ∧ v % 64 < w % 64)) := by
  have hdigit : ∀ {v w : Nat}, v < w → v / 64 < w / 64 ∨ v / 64 = w / 64 ∧ v % 64 < w % 64 := by
    omega
  have hdiv : ∀ v : Nat, v / 64 / 64 = v / 4096 ∧ v / 64 / 64 / 64 = v / 262144 := by
    intro v
    constructor <;> simp only [Nat.div_div_eq_div_mul, Nat.reduceMul]
  rw [← (hdiv v).1, ← (hdiv w).1, ← (hdiv v).2, ← (hdiv w).2]
  rcases hdigit h with h | ⟨heq, h⟩
  · rcases hdigit h with h | ⟨heq, h⟩
    · rcases hdigit h with h | ⟨heq, h⟩
      · exact .inl h
      · exact .inr ⟨heq, .inl h⟩
    · exact .inr ⟨by rw [heq], .inr ⟨by rw [heq], .inl h⟩⟩
  · exact .inr ⟨by rw [heq], .inr ⟨by rw [heq], .inr ⟨by rw [heq], h⟩⟩⟩

/-- **The order of two characters shows in their bytes**, whatever follows them. -/
theorem utf8EncodeChar_append_lt {c d : Char} (h : c < d) (s t : List UInt8) :
    String.utf8EncodeChar c ++ s < String.utf8EncodeChar d ++ t := by
  have hd : d.val.toNat < 0x110000 := by
    have hvalid := d.valid
    simp only [UInt32.isValidChar, Nat.isValidChar] at hvalid
    omega
  have hlt : c.val.toNat < d.val.toNat := h
  have hdigits := digits_lt hlt
  simp only [String.utf8EncodeChar]
  generalize c.val.toNat = v at hlt hdigits ⊢
  generalize d.val.toNat = w at hd hlt hdigits ⊢
  have hv : v / 262144 < 8 := by omega
  have hw : w / 262144 < 8 := by omega
  rw [Nat.mod_eq_of_lt hv, Nat.mod_eq_of_lt hw]
  -- One case for each two lengths.  The character that is less does not have more bytes; with fewer
  -- bytes its first one is less, and with as many the digits decide.
  repeat' split
  all_goals try omega
  all_goals
    simp only [List.cons_append, List.nil_append, List.cons_lt_cons_iff]
    repeat rw [ofNat_lt_ofNat_iff (by omega) (by omega)]
    repeat rw [ofNat_eq_ofNat_iff (by omega) (by omega)]
    omega

/-! ### Texts -/

theorem flatMap_utf8EncodeChar_lt {s t : List Char} (h : s < t) :
    s.flatMap String.utf8EncodeChar < t.flatMap String.utf8EncodeChar := by
  induction h with
  | @nil c t =>
      rw [List.flatMap_nil, List.flatMap_cons]
      cases hc : String.utf8EncodeChar c with
      | nil => exact absurd hc String.utf8EncodeChar_ne_nil
      | cons b bs => exact List.nil_lt_cons _ _
  | rel h => exact utf8EncodeChar_append_lt h _ _
  | cons _ ih => exact List.append_left_lt ih

/-- **The order of texts is the order of their bytes.** -/
theorem lt_iff_utf8_lt {s t : String} : s < t ↔ utf8 s < utf8 t := by
  have hforward : ∀ {s t : String}, s < t → utf8 s < utf8 t := by
    intro s t h
    rw [utf8_eq_flatMap, utf8_eq_flatMap]
    exact flatMap_utf8EncodeChar_lt h
  refine ⟨hforward, fun h => ?_⟩
  refine Decidable.byContradiction fun hnot => ?_
  have hne : t ≠ s := by
    rintro rfl
    exact List.lt_irrefl _ h
  have hless : t < s := Decidable.byContradiction fun hless =>
    hne (String.le_antisymm (String.not_lt.1 hnot) (String.not_lt.1 hless))
  exact List.lt_asymm h (hforward hless)

end TreePath
