/-
**Capital sigmas and what stands around them.**

Lower case is taken character by character, but for the capital sigma: it becomes the final form if
a cased letter stands before it and none after it.  So the lower case of a text inside another is
not always the lower case of that text alone.  It is if no sigma changes its form
(`KeepsSigmas`), and the lower case of a text occurs in that of every text around it exactly when
none of its sigmas ever does (`SettledSigmas`).

That a text with a sigma of the other kind is lost somewhere is shown by counting.  One letter put
after the text can only turn final forms into ordinary ones, and one put before it only ordinary
forms into final ones; if it does turn one, there are too few of that form left for the lower case
of the text to occur in the result.

Main definitions:

* `lowercaseIn` — the lower case of a text between two others;
* `KeepsSigmas`, `SettledSigmas` — texts whose sigmas have the same form there, or everywhere.

Main results:

* `lowercase_append` — the lower case of a text around another, in three parts;
* `lowercaseIn_eq_lowercase` — a text that keeps its sigmas keeps its lower case;
* `settledSigmas_iff` — the texts whose lower case occurs in that of every text around them.
-/

import Mathlib.Data.List.Basic
import TreePath.Text.LetterCase

set_option relaxedAutoImplicit false
set_option autoImplicit false

namespace TreePath

/-! ### The letter that decides -/

/-- Whether the first character that case does not ignore is a cased letter, if there is one. -/
def caseAhead? (s : List Char) : Option Bool := (s.dropWhile isCaseIgnorable).head?.map isCased

theorem startsCased_eq (s : List Char) : startsCased s = (caseAhead? s).getD false := by
  rw [startsCased, caseAhead?]
  cases s.dropWhile isCaseIgnorable <;> rfl

theorem caseAhead?_append (s t : List Char) :
    caseAhead? (s ++ t) = (caseAhead? s).or (caseAhead? t) := by
  rw [caseAhead?, caseAhead?, List.dropWhile_append]
  cases h : s.dropWhile isCaseIgnorable <;> simp [caseAhead?]

theorem startsCased_append_left {s : List Char} (h : startsCased s = true) (t : List Char) :
    startsCased (s ++ t) = true := by
  rw [startsCased_eq] at h ⊢
  rw [caseAhead?_append]
  cases hs : caseAhead? s with
  | none => rw [hs] at h; cases h
  | some cased => rw [hs] at h; exact h

theorem caseAhead?_letter : caseAhead? ['A'] = some true := by decide +kernel

/-- Any cased letter stands for all that could come after a text. -/
theorem startsCased_append_letter {s t : List Char} (h : startsCased (s ++ t) = true) :
    startsCased (s ++ ['A']) = true := by
  rw [startsCased_eq, caseAhead?_append] at h
  rw [startsCased_eq, caseAhead?_append, caseAhead?_letter]
  cases hs : caseAhead? s with
  | none => rfl
  | some cased => rwa [hs, Option.some_or] at h

/-! ### The three sigmas -/

/-- The capital sigma. -/
def capitalSigma : Char := Char.ofNat 0x3a3

/-- The small sigma at the end of a word. -/
def finalSigma : Char := Char.ofNat 0x3c2

/-- The small sigma anywhere else. -/
def innerSigma : Char := Char.ofNat 0x3c3

theorem toNat_eq_capitalSigma_iff {c : Char} : c.toNat = 0x3a3 ↔ c = capitalSigma := by
  constructor
  · intro h
    rw [← Char.ofNat_toNat c, h]
    rfl
  · rintro rfl
    rfl

theorem smallSigma_eq_finalSigma_iff {before after : List Char} :
    smallSigma before after = finalSigma ↔
      startsCased before = true ∧ ¬startsCased after = true := by
  rw [smallSigma]
  cases startsCased before <;> cases startsCased after <;> decide

theorem smallSigma_eq_innerSigma_iff {before after : List Char} :
    smallSigma before after = innerSigma ↔ smallSigma before after ≠ finalSigma := by
  rw [smallSigma]
  cases startsCased before <;> cases startsCased after <;> decide

/-! ### The lower case of a part -/

/-- The lower case of a character between two texts, the one before it given backwards. -/
def smallIn (before : List Char) (c : Char) (after : List Char) : List Char :=
  if c.toNat = 0x3a3 then [smallSigma before after] else smallLetter c

/-- The lower case of a text between two others, the one before it given backwards. -/
def lowercaseIn (before after : List Char) : List Char → List Char
  | [] => []
  | c :: rest => smallIn before c (rest ++ after) ++ lowercaseIn (c :: before) after rest

theorem lowercaseIn_append (before after s t : List Char) :
    lowercaseIn before after (s ++ t) =
      lowercaseIn before (t ++ after) s ++ lowercaseIn (s.reverse ++ before) after t := by
  induction s generalizing before with
  | nil => rfl
  | cons c rest ih => simp [lowercaseIn, ih]

theorem lowercaseFrom_eq (before s : List Char) :
    lowercaseFrom before s = lowercaseIn before [] s := by
  induction s generalizing before with
  | nil => rfl
  | cons c rest ih => rw [lowercaseFrom, lowercaseIn, ih, List.append_nil, smallIn]

theorem lowercase_eq (s : List Char) : lowercase s = lowercaseIn [] [] s := lowercaseFrom_eq [] s

/-- **The lower case of a text around another**, in three parts. -/
theorem lowercase_append (before s after : List Char) :
    lowercase (before ++ s ++ after) =
      lowercaseIn [] (s ++ after) before ++ lowercaseIn before.reverse after s ++
        lowercaseIn (s.reverse ++ before.reverse) [] after := by
  simp [lowercase_eq, lowercaseIn_append]

/-- Only the sigmas of a text depend on what stands around it. -/
theorem lowercaseIn_congr {s before after before' after' : List Char}
    (h : ∀ x y, s = x ++ capitalSigma :: y → smallSigma (x.reverse ++ before) (y ++ after) =
      smallSigma (x.reverse ++ before') (y ++ after')) :
    lowercaseIn before after s = lowercaseIn before' after' s := by
  induction s generalizing before before' with
  | nil => rfl
  | cons c rest ih =>
      have hhead : smallIn before c (rest ++ after) = smallIn before' c (rest ++ after') := by
        simp only [smallIn, toNat_eq_capitalSigma_iff]
        split
        · next hc => rw [show smallSigma before _ = _ from h [] rest (by rw [hc]; rfl)]; rfl
        · rfl
      have hrest : lowercaseIn (c :: before) after rest =
          lowercaseIn (c :: before') after' rest := by
        refine ih fun x y hs => ?_
        have := h (c :: x) y (by rw [hs]; rfl)
        rwa [List.reverse_cons, List.append_assoc, List.append_assoc] at this
      rw [lowercaseIn, lowercaseIn, hhead, hrest]

/-! ### Texts that keep their sigmas -/

/-- Every capital sigma of a text has the same small form between two others as it has there on its
own. -/
def KeepsSigmas (before after s : List Char) : Prop :=
  ∀ x y, s = x ++ capitalSigma :: y →
    smallSigma (x.reverse ++ before.reverse) (y ++ after) = smallSigma x.reverse y

/-- Every capital sigma of a text has the same small form wherever the text stands. -/
def SettledSigmas (s : List Char) : Prop := ∀ before after, KeepsSigmas before after s

/-- Sigmas before a cased letter never change their form. -/
theorem SettledSigmas.of_startsCased {s : List Char}
    (h : ∀ x y, s = x ++ capitalSigma :: y → startsCased y = true) : SettledSigmas s := by
  intro before after x y hs
  have hy := h x y hs
  rw [smallSigma, smallSigma, hy, startsCased_append_left hy, Bool.not_true, Bool.and_false,
    Bool.and_false]

/-- **A text that keeps its sigmas keeps its lower case.** -/
theorem lowercaseIn_eq_lowercase {before after s : List Char} (h : KeepsSigmas before after s) :
    lowercaseIn before.reverse after s = lowercase s := by
  rw [lowercase_eq]
  refine lowercaseIn_congr fun x y hs => ?_
  rw [List.append_nil, List.append_nil]
  exact h x y hs

/-- The lower case of a text that keeps its sigmas occurs in that of the text around it. -/
theorem KeepsSigmas.lowercase_occurs {before after s : List Char} (h : KeepsSigmas before after s) :
    lowercase s <:+: lowercase (before ++ s ++ after) := by
  rw [lowercase_append, lowercaseIn_eq_lowercase h]
  exact List.infix_append _ _ _

/-! ### Counting the small forms -/

section Counting

variable {d : Char} {before after before' after' : List Char}

theorem count_smallIn_le {c : Char}
    (h : c = capitalSigma → smallSigma before after = d → smallSigma before' after' = d) :
    (smallIn before c after).count d ≤ (smallIn before' c after').count d := by
  simp only [smallIn, toNat_eq_capitalSigma_iff]
  split
  · next hc =>
    by_cases hd : smallSigma before after = d
    · exact Nat.le_of_eq (by rw [hd, h hc hd])
    · rw [List.count_singleton, if_neg (by simpa using hd)]
      exact Nat.zero_le _
  · exact Nat.le_refl _

/-- If no sigma takes a form in one place that it does not have in another, there are not more of
that form in the one than in the other. -/
theorem count_lowercaseIn_le {s : List Char}
    (h : ∀ x y, s = x ++ capitalSigma :: y → smallSigma (x.reverse ++ before) (y ++ after) = d →
      smallSigma (x.reverse ++ before') (y ++ after') = d) :
    (lowercaseIn before after s).count d ≤ (lowercaseIn before' after' s).count d := by
  induction s generalizing before before' with
  | nil => exact Nat.le_refl _
  | cons c rest ih =>
      have hhead : (smallIn before c (rest ++ after)).count d ≤
          (smallIn before' c (rest ++ after')).count d :=
        count_smallIn_le fun hc => h [] rest (by rw [hc]; rfl)
      have hrest : (lowercaseIn (c :: before) after rest).count d ≤
          (lowercaseIn (c :: before') after' rest).count d := by
        refine ih fun x y hs => ?_
        have := h (c :: x) y (by rw [hs]; rfl)
        rwa [List.reverse_cons, List.append_assoc, List.append_assoc] at this
      rw [lowercaseIn, lowercaseIn, List.count_append, List.count_append]
      exact Nat.add_le_add hhead hrest

/-- There are fewer if one of the sigmas loses that form. -/
theorem count_lowercaseIn_lt {x y : List Char}
    (h : ∀ x' y', x ++ capitalSigma :: y = x' ++ capitalSigma :: y' →
      smallSigma (x'.reverse ++ before) (y' ++ after) = d →
      smallSigma (x'.reverse ++ before') (y' ++ after') = d)
    (hne : smallSigma (x.reverse ++ before) (y ++ after) ≠ d)
    (heq : smallSigma (x.reverse ++ before') (y ++ after') = d) :
    (lowercaseIn before after (x ++ capitalSigma :: y)).count d <
      (lowercaseIn before' after' (x ++ capitalSigma :: y)).count d := by
  have hbefore : (lowercaseIn before (capitalSigma :: y ++ after) x).count d ≤
      (lowercaseIn before' (capitalSigma :: y ++ after') x).count d := by
    refine count_lowercaseIn_le fun x' y' hx => ?_
    have := h x' (y' ++ capitalSigma :: y) (by rw [hx]; simp)
    simpa using this
  have hafter : (lowercaseIn (capitalSigma :: (x.reverse ++ before)) after y).count d ≤
      (lowercaseIn (capitalSigma :: (x.reverse ++ before')) after' y).count d := by
    refine count_lowercaseIn_le fun x' y' hy => ?_
    have := h (x ++ capitalSigma :: x') y' (by rw [hy]; simp)
    simpa using this
  have hsigma : ∀ b a, smallIn b capitalSigma a = [smallSigma b a] := fun b a => if_pos rfl
  simp only [lowercaseIn_append, lowercaseIn, List.count_append, hsigma, heq, List.count_singleton,
    beq_self_eq_true, if_true, if_neg (show ¬(smallSigma (x.reverse ++ before) (y ++ after) == d) by
      simpa using hne)]
  omega

end Counting

/-! ### Texts that are lost -/

theorem smallLetter_letter : smallLetter 'A' = ['a'] := by decide +kernel

theorem lowercaseIn_letter (before after : List Char) : lowercaseIn before after ['A'] = ['a'] := by
  rw [lowercaseIn, smallIn, if_neg (by decide), smallLetter_letter, lowercaseIn]
  rfl

theorem lowercase_append_letter (s : List Char) :
    lowercase (s ++ ['A']) = lowercaseIn [] ['A'] s ++ ['a'] := by
  rw [lowercase_eq, lowercaseIn_append, lowercaseIn_letter]
  rfl

theorem lowercase_letter_append (s : List Char) :
    lowercase (['A'] ++ s) = ['a'] ++ lowercaseIn ['A'] [] s := by
  rw [lowercase_eq, lowercaseIn_append, lowercaseIn_letter]
  rfl

section Lost

variable {x y before after : List Char}

/-- A text with a final sigma is lost before a cased letter, if the sigma is not final there. -/
theorem not_infix_append_letter (hfinal : smallSigma x.reverse y = finalSigma)
    (hcased : startsCased (y ++ after) = true) :
    ¬lowercase (x ++ capitalSigma :: y) <:+: lowercase (x ++ capitalSigma :: y ++ ['A']) := by
  intro hinfix
  have hle := hinfix.sublist.count_le finalSigma
  have hlt : (lowercaseIn [] ['A'] (x ++ capitalSigma :: y)).count finalSigma <
      (lowercaseIn [] [] (x ++ capitalSigma :: y)).count finalSigma := by
    refine count_lowercaseIn_lt (fun x' y' _ hsmall => ?_) (fun hsmall => ?_) ?_
    · obtain ⟨hbefore, hafter⟩ := smallSigma_eq_finalSigma_iff.1 hsmall
      refine smallSigma_eq_finalSigma_iff.2 ⟨hbefore, fun h => hafter ?_⟩
      rw [List.append_nil] at h
      exact startsCased_append_left h _
    · exact (smallSigma_eq_finalSigma_iff.1 hsmall).2 (startsCased_append_letter hcased)
    · rwa [List.append_nil, List.append_nil]
  have hnone : ['a'].count finalSigma = 0 := by decide
  rw [lowercase_append_letter, lowercase_eq, List.count_append, hnone] at hle
  omega

/-- A text with an ordinary sigma is lost after a cased letter, if the sigma is final there. -/
theorem not_infix_letter_append (hinner : smallSigma x.reverse y ≠ finalSigma)
    (hcased : startsCased (x.reverse ++ before) = true) (hend : ¬startsCased y = true) :
    ¬lowercase (x ++ capitalSigma :: y) <:+: lowercase (['A'] ++ (x ++ capitalSigma :: y)) := by
  intro hinfix
  have hle := hinfix.sublist.count_le innerSigma
  have hlt : (lowercaseIn ['A'] [] (x ++ capitalSigma :: y)).count innerSigma <
      (lowercaseIn [] [] (x ++ capitalSigma :: y)).count innerSigma := by
    refine count_lowercaseIn_lt (fun x' y' _ hsmall => ?_) (fun hsmall => ?_) ?_
    · refine smallSigma_eq_innerSigma_iff.2 fun hfinal => ?_
      obtain ⟨hbefore, hafter⟩ := smallSigma_eq_finalSigma_iff.1 hfinal
      rw [List.append_nil] at hbefore
      exact smallSigma_eq_innerSigma_iff.1 hsmall
        (smallSigma_eq_finalSigma_iff.2 ⟨startsCased_append_left hbefore _, hafter⟩)
    · refine smallSigma_eq_innerSigma_iff.1 hsmall (smallSigma_eq_finalSigma_iff.2 ⟨?_, ?_⟩)
      · exact startsCased_append_letter hcased
      · rwa [List.append_nil]
    · rw [List.append_nil, List.append_nil]
      exact smallSigma_eq_innerSigma_iff.2 hinner
  have hnone : ['a'].count innerSigma = 0 := by decide
  rw [lowercase_letter_append, lowercase_eq, List.count_append, hnone] at hle
  omega

end Lost

/-- **The texts whose lower case occurs in that of every text around them** are those whose sigmas
never change their form. -/
theorem settledSigmas_iff {s : List Char} :
    SettledSigmas s ↔ ∀ before after, lowercase s <:+: lowercase (before ++ s ++ after) := by
  refine ⟨fun h before after => (h before after).lowercase_occurs, fun h before after x y hs => ?_⟩
  subst hs
  -- If the form of the sigma between `x` and `y` changed, it would also do so beside one letter.
  by_cases hfinal : smallSigma x.reverse y = finalSigma
  · obtain ⟨hbefore, -⟩ := smallSigma_eq_finalSigma_iff.1 hfinal
    rw [hfinal, smallSigma_eq_finalSigma_iff]
    refine ⟨startsCased_append_left hbefore _, fun hcased => ?_⟩
    exact not_infix_append_letter hfinal hcased (h [] ['A'])
  · rw [smallSigma_eq_innerSigma_iff.2 hfinal, smallSigma_eq_innerSigma_iff]
    intro hchanged
    obtain ⟨hbefore, hafter⟩ := smallSigma_eq_finalSigma_iff.1 hchanged
    have hend : ¬startsCased y = true := fun hy => hafter (startsCased_append_left hy _)
    have hinfix := h ['A'] []
    rw [List.append_nil] at hinfix
    exact not_infix_letter_append hfinal hbefore hend hinfix

end TreePath
