/-
**Rounding is to the nearest number, ties to even.**

The magnitudes of a format stand for sizes that grow with them.  Along a power of two the sizes are
the multiples of one step, and a fraction lies between two of them that follow one another.
Rounding takes the nearer one, and halfway between them the one whose significand is even; as the
sizes grow, no other magnitude of the format can be nearer.

For an integer this is said of numbers with their signs: the number that an integer is rounded to
is finite, no finite number is nearer to the integer, and where another one is as near, the last
bit of the significand is zero.

Main definitions:

* `BinaryFormat.Nearest` — a magnitude of a format that is nearest to a fraction;
* `Binary64.signedUnits` — a finite number, in units of the smallest positive one;
* `Binary64.RoundsToEven` — a number that is nearest to an integer.

Main results:

* `BinaryFormat.units_strictMono` — sizes grow with magnitudes;
* `BinaryFormat.nearest_round` — **rounding a fraction**;
* `Binary64.roundsToEven_ofInt` — **rounding an integer of 64 bits**.
-/

import Mathlib.Order.Monotone.Basic
import TreePath.Proofs.Json.Numbers

set_option relaxedAutoImplicit false
set_option autoImplicit false

namespace TreePath

/-! ### Rounding a fraction to a natural number -/

/-- A fraction is rounded down or up, to the nearer natural number or else to the even one. -/
theorem roundHalfEven_cases (num den : Nat) :
    (roundHalfEven num den = num / den ∧ 2 * (num % den) ≤ den ∧
      (2 * (num % den) = den → roundHalfEven num den % 2 = 0)) ∨
    (roundHalfEven num den = num / den + 1 ∧ den ≤ 2 * (num % den) ∧
      (2 * (num % den) = den → roundHalfEven num den % 2 = 0)) := by
  simp only [roundHalfEven]
  split
  · exact .inl ⟨rfl, by omega, by omega⟩
  · split
    · exact .inr ⟨rfl, by omega, by omega⟩
    · split
      · exact .inl ⟨rfl, by omega, by omega⟩
      · exact .inr ⟨rfl, by omega, by omega⟩

namespace BinaryFormat

variable (f : BinaryFormat)

/-! ### Sizes -/

/-- The magnitudes of a power of two stand for the multiples of one step. -/
theorem units_add {e m : Nat} (hle : m ≤ 2 * Nat.pow 2 f.fractionBits)
    (hnormal : e = 0 ∨ Nat.pow 2 f.fractionBits ≤ m) :
    f.units (e * Nat.pow 2 f.fractionBits + m) = m * Nat.pow 2 e := by
  have hpos : 0 < Nat.pow 2 f.fractionBits := Nat.two_pow_pos _
  simp only [units]
  generalize Nat.pow 2 f.fractionBits = b at *
  have hdiv : (e * b + m) / b = m / b + e := by
    rw [Nat.add_comm, Nat.add_mul_div_right _ _ hpos]
  have hmod : (e * b + m) % b = m % b := Nat.mul_add_mod_self_right _ _ _
  rw [hdiv, hmod]
  rcases Nat.lt_or_ge m b with hlt | hge
  · obtain rfl : e = 0 := hnormal.resolve_right (Nat.not_le.2 hlt)
    rw [Nat.div_eq_of_lt hlt, if_pos rfl, Nat.mod_eq_of_lt hlt]
    exact (Nat.mul_one m).symm
  · rcases Nat.lt_or_eq_of_le hle with hlt | rfl
    · obtain ⟨r, rfl⟩ := Nat.exists_eq_add_of_le hge
      have hr : r < b := by omega
      rw [Nat.add_div_left _ hpos, Nat.div_eq_of_lt hr, Nat.add_mod_left, Nat.mod_eq_of_lt hr,
        if_neg (by omega)]
      congr 2
      omega
    · rw [Nat.mul_div_cancel _ hpos, Nat.mul_mod_left, if_neg (by omega)]
      have hpow : Nat.pow 2 (2 + e - 1) = 2 * Nat.pow 2 e := by
        rw [show 2 + e - 1 = e + 1 by omega]
        exact Nat.pow_succ'
      rw [hpow, Nat.add_zero, Nat.mul_left_comm, Nat.mul_assoc]

/-- Every magnitude is one of those of a power of two, and not the last. -/
theorem exists_significand (m : Nat) : ∃ e s, m = e * Nat.pow 2 f.fractionBits + s ∧
    s < 2 * Nat.pow 2 f.fractionBits ∧ (e = 0 ∨ Nat.pow 2 f.fractionBits ≤ s) := by
  have hpos : 0 < Nat.pow 2 f.fractionBits := Nat.two_pow_pos _
  generalize Nat.pow 2 f.fractionBits = b at *
  have hdiv := Nat.div_add_mod m b
  have hmod := Nat.mod_lt m hpos
  rw [Nat.mul_comm] at hdiv
  cases he : m / b with
  | zero =>
      rw [he] at hdiv
      exact ⟨0, m % b, hdiv.symm, by omega, .inl rfl⟩
  | succ e =>
      rw [he, Nat.succ_mul, Nat.add_assoc] at hdiv
      exact ⟨e, b + m % b, hdiv.symm, by omega, .inr (Nat.le_add_right _ _)⟩

/-- **Sizes grow with magnitudes.** -/
theorem units_strictMono : StrictMono f.units := by
  refine strictMono_nat_of_lt_succ fun m => ?_
  obtain ⟨e, s, rfl, hlt, hnormal⟩ := f.exists_significand m
  rw [f.units_add hlt.le hnormal, Nat.add_assoc,
    f.units_add hlt (hnormal.imp_right Nat.le_succ_of_le)]
  exact Nat.mul_lt_mul_of_pos_right (Nat.lt_succ_self s) (Nat.two_pow_pos e)

/-! ### Rounding a fraction to a magnitude -/

/-- **A magnitude that is nearest to the size of `num / den` units**: no other one is nearer, and
where another one is as near, its last bit is zero. -/
structure Nearest (num den magnitude : Nat) : Prop where
  /-- No magnitude is nearer. -/
  le : ∀ m : Nat, ((f.units magnitude * den : Nat) - num : Int).natAbs ≤
    ((f.units m * den : Nat) - num : Int).natAbs
  /-- Of two magnitudes that are equally near this is the even one. -/
  even : ∀ m : Nat, ((f.units magnitude * den : Nat) - num : Int).natAbs =
    ((f.units m * den : Nat) - num : Int).natAbs → m ≠ magnitude → magnitude % 2 = 0

/-- The significand of a fraction fits the format, and it is normal unless the step is the smallest
one. -/
theorem significand_bounds (num den : Nat) :
    num / (den * Nat.pow 2 (f.excess num den)) < 2 * Nat.pow 2 f.fractionBits ∧
      (f.excess num den = 0 ∨
        Nat.pow 2 f.fractionBits ≤ num / (den * Nat.pow 2 (f.excess num den))) := by
  refine ⟨f.significand_lt num den, ?_⟩
  rw [← Nat.div_div_eq_div_mul]
  rcases Nat.eq_zero_or_pos (f.excess num den) with h | h
  · exact .inl h
  · have hexcess : f.fractionBits + f.excess num den = Nat.log2 (num / den) := by
      unfold excess at h ⊢
      omega
    refine .inr ((Nat.le_div_iff_mul_le (Nat.two_pow_pos _)).2 ?_)
    have hne : num / den ≠ 0 := by
      intro hzero
      rw [excess, hzero] at h
      exact absurd h (by simp)
    calc 2 ^ f.fractionBits * 2 ^ f.excess num den = 2 ^ Nat.log2 (num / den) := by
          rw [← Nat.pow_add, hexcess]
      _ ≤ num / den := Nat.log2_self_le hne

/-- Two magnitudes of a power of two that follow one another, and the sizes of all others: a
multiple of the sizes is less before the one, and greater after the other. -/
theorem units_mul_cases {den e q : Nat} (hden : 0 < den) (hlt : q < 2 * Nat.pow 2 f.fractionBits)
    (hnormal : e = 0 ∨ Nat.pow 2 f.fractionBits ≤ q) (m : Nat) :
    (m < e * Nat.pow 2 f.fractionBits + q ∧ f.units m * den < q * (den * Nat.pow 2 e)) ∨
    (m = e * Nat.pow 2 f.fractionBits + q ∧ f.units m * den = q * (den * Nat.pow 2 e)) ∨
    (m = e * Nat.pow 2 f.fractionBits + (q + 1) ∧
      f.units m * den = (q + 1) * (den * Nat.pow 2 e)) ∨
    (e * Nat.pow 2 f.fractionBits + (q + 1) < m ∧
      (q + 1) * (den * Nat.pow 2 e) < f.units m * den) := by
  have hbelow : f.units (e * Nat.pow 2 f.fractionBits + q) * den = q * (den * Nat.pow 2 e) := by
    rw [f.units_add hlt.le hnormal, Nat.mul_assoc, Nat.mul_comm (Nat.pow 2 e)]
  have habove : f.units (e * Nat.pow 2 f.fractionBits + (q + 1)) * den =
      (q + 1) * (den * Nat.pow 2 e) := by
    rw [f.units_add hlt (hnormal.imp_right Nat.le_succ_of_le), Nat.mul_assoc,
      Nat.mul_comm (Nat.pow 2 e)]
  have hless : ∀ {m n}, m < n → f.units m * den < f.units n * den := fun h =>
    Nat.mul_lt_mul_of_pos_right (f.units_strictMono h) hden
  rcases Nat.lt_trichotomy m (e * Nat.pow 2 f.fractionBits + q) with h | rfl | h
  · exact .inl ⟨h, hbelow ▸ hless h⟩
  · exact .inr (.inl ⟨rfl, hbelow⟩)
  · rcases Nat.eq_or_lt_of_le (Nat.succ_le_of_lt h) with rfl | h
    · exact .inr (.inr (.inl ⟨rfl, habove⟩))
    · exact .inr (.inr (.inr ⟨h, habove ▸ hless h⟩))

/-- **Rounding a fraction** gives a magnitude that is nearest to it, unless the result is
infinite. -/
theorem nearest_round (hbits : f.fractionBits ≠ 0) (num : Nat) {den : Nat} (hden : 0 < den)
    (hfinite : f.round num den < f.infinity) : f.Nearest num den (f.round num den) := by
  obtain ⟨hlt, hnormal⟩ := f.significand_bounds num den
  have hround : f.round num den = f.excess num den * Nat.pow 2 f.fractionBits +
      roundHalfEven num (den * Nat.pow 2 (f.excess num den)) := by
    simp only [round] at hfinite ⊢
    omega
  have heven : f.excess num den * Nat.pow 2 f.fractionBits % 2 = 0 := by
    obtain ⟨k, hk⟩ := Nat.exists_eq_succ_of_ne_zero hbits
    rw [hk, show Nat.pow 2 (k + 1) = Nat.pow 2 k * 2 from rfl, ← Nat.mul_assoc,
      Nat.mul_mod_left]
  -- The fraction lies between two sizes that follow one another.
  have hsizes := f.units_mul_cases hden hlt hnormal
  have hcases := roundHalfEven_cases num (den * Nat.pow 2 (f.excess num den))
  have hnum := Nat.div_add_mod' num (den * Nat.pow 2 (f.excess num den))
  have hmod := Nat.mod_lt num (Nat.mul_pos hden (Nat.two_pow_pos (f.excess num den)))
  rw [hround]
  generalize den * Nat.pow 2 (f.excess num den) = step at *
  generalize f.excess num den * Nat.pow 2 f.fractionBits = base at *
  simp only [Nat.succ_mul] at hsizes
  generalize num / step * step = size at *
  have hhere := hsizes (base + roundHalfEven num step)
  constructor
  · intro m
    have hm := hsizes m
    omega
  · intro m hdistance hne
    have hm := hsizes m
    omega

/-- An integer of 64 bits has a nearest magnitude. -/
theorem nearest_roundDecimal {m : Nat} (hm : m < 0x10000000000000000) :
    double.Nearest (m * Nat.pow 2 double.unitExponent) 1 (double.roundDecimal m 0) := by
  have hfinite := roundDecimal_lt_infinity hm
  rw [roundDecimal] at hfinite ⊢
  split
  · next hzero =>
      rw [hzero, Nat.zero_mul]
      exact ⟨fun k => by simp, fun _ _ _ => rfl⟩
  · next hne =>
      have hlength : Numeral.length m ≤ 20 :=
        (Nat.length_toDigits_le_iff (by decide) (by decide)).2 (Nat.lt_trans hm (by decide))
      rw [if_neg hne, if_neg (by omega), if_neg (by omega), if_pos (Int.le_refl 0)] at hfinite
      rw [if_neg (by omega), if_neg (by omega), if_pos (Int.le_refl 0)]
      rw [Int.toNat_zero, show Nat.pow 10 0 = 1 from rfl, Nat.mul_one] at hfinite ⊢
      exact double.nearest_round (by decide) _ Nat.one_pos hfinite

section Signed

variable {f : BinaryFormat} {num m k : Nat} {size : Int}

/-- A size with the opposite sign is not nearer either. -/
theorem Nearest.le_signed (h : f.Nearest num 1 m) (hsize : size.natAbs = f.units k) :
    (f.units m - num : Int).natAbs ≤ (size - num).natAbs := by
  have hle := h.le k
  have hzero := h.le 0
  rw [units_zero] at hzero
  omega

/-- A size with a sign is as near only if the nearest magnitude is even. -/
theorem Nearest.even_signed (h : f.Nearest num 1 m) (hsize : size.natAbs = f.units k)
    (hdistance : (f.units m - num : Int).natAbs = (size - num).natAbs)
    (hne : size ≠ f.units m) : m % 2 = 0 := by
  have hzero := h.le 0
  rw [units_zero] at hzero
  rcases Int.lt_or_le size 0 with hneg | hpos
  · -- Zero is as near as a size with the opposite sign.
    by_cases hm : 0 = m
    · rw [← hm]
    · exact h.even 0 (by rw [units_zero]; omega) hm
  · refine h.even k (by omega) ?_
    rintro rfl
    omega

end Signed

end BinaryFormat

/-! ### Rounding an integer -/

namespace Binary64

/-- What a sign and a magnitude are put together to has that sign. -/
theorem isNegative_ofMagnitude (negative : Bool) {m : Nat} (hm : m < signBit) :
    (ofMagnitude negative m).isNegative = negative := by
  simp only [ofMagnitude, isNegative, UInt64.toNat_ofNat', signBit] at hm ⊢
  cases negative
  · rw [if_neg (by decide)]
    exact decide_eq_false (by omega)
  · rw [if_pos rfl]
    exact decide_eq_true (by omega)

/-- A finite number, in units of the smallest positive one. -/
def signedUnits (x : Binary64) : Int := if x.isNegative then -(x.units : Int) else x.units

/-- An integer, in units of the smallest positive floating point number. -/
def unitsOfInt (n : Int) : Int := n * (Nat.pow 2 BinaryFormat.double.unitExponent : Nat)

/-- **A number that is nearest to an integer**, of two that are equally near the one whose last bit
is zero. -/
structure RoundsToEven (n : Int) (x : Binary64) : Prop where
  /-- It is finite. -/
  finite : x.isFinite = true
  /-- No finite number is nearer. -/
  le : ∀ y : Binary64, y.isFinite = true →
    (x.signedUnits - unitsOfInt n).natAbs ≤ (y.signedUnits - unitsOfInt n).natAbs
  /-- Where another number is as near, this is the even one. -/
  even : ∀ y : Binary64, y.isFinite = true →
    (x.signedUnits - unitsOfInt n).natAbs = (y.signedUnits - unitsOfInt n).natAbs →
    y.signedUnits ≠ x.signedUnits → x.magnitude % 2 = 0

theorem natAbs_signedUnits (x : Binary64) :
    x.signedUnits.natAbs = BinaryFormat.double.units x.magnitude := by
  simp only [signedUnits, units]
  split <;> omega

theorem unitsOfInt_neg (n : Int) : unitsOfInt (-n) = -unitsOfInt n := Int.neg_mul _ _

theorem unitsOfInt_natCast (m : Nat) :
    unitsOfInt m = (m * Nat.pow 2 BinaryFormat.double.unitExponent : Nat) :=
  (Int.natCast_mul _ _).symm

/-- **Rounding an integer of 64 bits**, with or without sign, gives a nearest number. -/
theorem roundsToEven_ofInt {n : Int} (hn : n.natAbs < 0x10000000000000000) :
    RoundsToEven n (ofInt n) := by
  have hbound : BinaryFormat.double.roundDecimal n.natAbs 0 < signBit :=
    Nat.lt_trans (BinaryFormat.roundDecimal_lt_infinity hn) (by decide)
  have hmagnitude : (ofInt n).magnitude = BinaryFormat.double.roundDecimal n.natAbs 0 :=
    magnitude_ofMagnitude _ hbound
  have hnegative : (ofInt n).isNegative = decide (n < 0) := isNegative_ofMagnitude _ hbound
  have hnearest := BinaryFormat.nearest_roundDecimal hn
  rw [← hmagnitude] at hnearest
  -- For a negative integer everything is turned around.
  rcases Int.lt_or_le n 0 with hneg | hpos
  · have hunits : unitsOfInt n = -unitsOfInt n.natAbs := by
      rw [← unitsOfInt_neg, Int.ofNat_natAbs_of_nonpos hneg.le, Int.neg_neg]
    have hsigned : (ofInt n).signedUnits =
        -(BinaryFormat.double.units (ofInt n).magnitude : Int) := by
      rw [signedUnits, hnegative, if_pos (decide_eq_true hneg)]
      rfl
    rw [unitsOfInt_natCast] at hunits
    generalize n.natAbs * Nat.pow 2 BinaryFormat.double.unitExponent = size at hunits hnearest
    refine ⟨isFinite_ofInt hn, fun y _ => ?_, fun y _ hdistance hne => ?_⟩
    · have hle := hnearest.le_signed ((Int.natAbs_neg _).trans y.natAbs_signedUnits)
      omega
    · exact hnearest.even_signed ((Int.natAbs_neg _).trans y.natAbs_signedUnits) (by omega)
        (by omega)
  · have hunits : unitsOfInt n = unitsOfInt n.natAbs := by rw [Int.natAbs_of_nonneg hpos]
    have hsigned : (ofInt n).signedUnits = BinaryFormat.double.units (ofInt n).magnitude := by
      rw [signedUnits, hnegative, if_neg (by simpa using hpos)]
      rfl
    rw [unitsOfInt_natCast] at hunits
    generalize n.natAbs * Nat.pow 2 BinaryFormat.double.unitExponent = size at hunits hnearest
    refine ⟨isFinite_ofInt hn, fun y _ => ?_, fun y _ hdistance hne => ?_⟩
    · have hle := hnearest.le_signed y.natAbs_signedUnits
      omega
    · exact hnearest.even_signed y.natAbs_signedUnits (by omega) (by omega)

end Binary64

end TreePath
