/-
**One value by itself and one value in a stream.**

The reader of forms recurs with a count of levels that grows with the text it is given, and a stream
gives it the text without the blanks in front.  From twice the length of a text on, one level more
makes no difference, because what is read within brackets is shorter than what the brackets stand
in.  So the first value of a stream is read as it would be by itself, and a text that holds one
value is a stream of one value, whatever blanks stand around it.

Main results:

* `Document.value?_congr_levels` — the count of levels makes no difference where it is enough;
* `Document.first?_of_value?` — the value at the front of a text is the first of its stream;
* `Json.streamOf_of_parse?` — **a text that holds one document is a stream of one document**.
-/

import TreePath.Proofs.Json.Streams

set_option relaxedAutoImplicit false
set_option autoImplicit false

namespace TreePath

namespace Document

/-! ### One level more -/

section Levels

variable {levels : Nat} {s : List Char}

theorem value?_level
    (hitems : ∀ t : List Char, 2 * t.length + 2 ≤ levels → items? (levels + 1) t = items? levels t)
    (hmembers : ∀ t : List Char, 2 * t.length + 2 ≤ levels →
      members? (levels + 1) t = members? levels t)
    (hs : 2 * s.length + 1 ≤ levels + 1) : value? (levels + 2) s = value? (levels + 1) s := by
  have hskip := length_skipBlank_le s
  rw [value?, value?]
  generalize skipBlank s = t at hskip ⊢
  split
  · rfl
  · next rest =>
      have hrest := length_skipBlank_le rest
      rw [List.length_cons] at hskip
      generalize skipBlank rest = u at hrest ⊢
      split
      · rfl
      · rw [hitems u (by omega)]
  · next rest =>
      have hrest := length_skipBlank_le rest
      rw [List.length_cons] at hskip
      generalize skipBlank rest = u at hrest ⊢
      split
      · rfl
      · rw [hmembers u (by omega)]
  all_goals rfl

variable
  (hvalue : ∀ t : List Char, 2 * t.length + 1 ≤ levels → value? (levels + 1) t = value? levels t)

include hvalue

theorem items?_level
    (hitems : ∀ t : List Char, 2 * t.length + 2 ≤ levels → items? (levels + 1) t = items? levels t)
    (hs : 2 * s.length + 2 ≤ levels + 1) : items? (levels + 2) s = items? (levels + 1) s := by
  rw [items?, items?, hvalue s (by omega)]
  cases hfound : value? levels s with
  | none => rfl
  | some found =>
      obtain ⟨d, rest⟩ := found
      have hlt := (length_lt levels).1 hfound
      have hrest := length_skipBlank_le rest
      simp only
      generalize skipBlank rest = u at hrest ⊢
      split
      · next more =>
          rw [List.length_cons] at hrest
          rw [hitems more (by omega)]
      · rfl
      · rfl

theorem members?_level
    (hmembers : ∀ t : List Char, 2 * t.length + 2 ≤ levels →
      members? (levels + 1) t = members? levels t)
    (hs : 2 * s.length + 2 ≤ levels + 1) : members? (levels + 2) s = members? (levels + 1) s := by
  have hskip := length_skipBlank_le s
  rw [members?, members?]
  generalize skipBlank s = t at hskip ⊢
  split
  · next inside =>
      rw [List.length_cons] at hskip
      cases hkey : pieces? inside with
      | none => rfl
      | some found =>
          obtain ⟨key, rest⟩ := found
          have hlt := length_pieces?_lt hkey
          have hrest := length_skipBlank_le rest
          simp only
          generalize skipBlank rest = u at hrest ⊢
          split
          · next after =>
              rw [List.length_cons] at hrest
              rw [hvalue after (by omega)]
              cases hfound : value? levels after with
              | none => rfl
              | some found =>
                  obtain ⟨d, rest⟩ := found
                  have hlt := (length_lt levels).1 hfound
                  have hrest := length_skipBlank_le rest
                  simp only
                  generalize skipBlank rest = u at hrest ⊢
                  split
                  · next more =>
                      rw [List.length_cons] at hrest
                      rw [hmembers more (by omega)]
                  · rfl
                  · rfl
          · rfl
  · rfl

end Levels

/-- From twice the length of a text on, one level more makes no difference. -/
theorem read_level (levels : Nat) :
    (∀ s : List Char, 2 * s.length + 1 ≤ levels → value? (levels + 1) s = value? levels s) ∧
    (∀ s : List Char, 2 * s.length + 2 ≤ levels → items? (levels + 1) s = items? levels s) ∧
    ∀ s : List Char, 2 * s.length + 2 ≤ levels → members? (levels + 1) s = members? levels s := by
  induction levels with
  | zero => exact ⟨fun s hs => by omega, fun s hs => by omega, fun s hs => by omega⟩
  | succ levels ih =>
      obtain ⟨hvalue, hitems, hmembers⟩ := ih
      exact ⟨fun s => value?_level hitems hmembers, fun s => items?_level hvalue hitems,
        fun s => members?_level hvalue hmembers⟩

/-- **The count of levels makes no difference** where it is enough. -/
theorem value?_congr_levels {s : List Char} {levels : Nat} (h : Document.levels s ≤ levels) :
    value? levels s = value? (Document.levels s) s := by
  induction h with
  | refl => rfl
  | step hle ih =>
      have hlevels : 2 * s.length + 2 ≤ _ := hle
      rw [(read_level _).1 s (by omega), ih]

/-! ### The first value of a stream -/

/-- Blanks in front of a value make no difference. -/
theorem value?_skipBlank (levels : Nat) (s : List Char) :
    value? levels (skipBlank s) = value? levels s := by
  have hblank : skipBlank (skipBlank s) = skipBlank s := List.dropWhile_idempotent _ _
  cases levels with
  | zero => rfl
  | succ levels => rw [value?, value?, hblank]

/-- **The value at the front of a text is the first of its stream**, if it is set off from what
follows. -/
theorem first?_of_value? {s rest : List Char} {d : Document}
    (h : value? (levels s) s = some (d, rest)) (hrest : canFollow rest = true) :
    first? s = some (d, rest) := by
  have hlevels : levels (skipBlank s) ≤ levels s := by
    have := length_skipBlank_le s
    simp only [levels]
    omega
  rw [← value?_skipBlank, value?_congr_levels hlevels] at h
  simp only [first?, h, hrest, Bool.or_true, if_true]

/-- Blanks can follow every value. -/
theorem canFollow_of_blank {s : List Char} (h : skipBlank s = []) : canFollow s = true := by
  cases s with
  | nil => rfl
  | cons c s =>
      have hc := List.dropWhile_eq_nil_iff.1 h c List.mem_cons_self
      simp [canFollow, hc]

end Document

/-- **A text that holds one document is a stream of one document.** -/
theorem Json.streamOf_of_parse? {text : String} {j : Json} (h : Json.parse? text = some j) :
    StreamOf (ofDocument? nestingLimit) text.toList [j] true := by
  obtain ⟨d, hd, hj⟩ := Option.bind_eq_some_iff.1 h
  obtain ⟨rest, hvalue, hblank⟩ := Document.parse?_eq_some_iff.1 hd
  have hfirst := Document.first?_of_value? hvalue (Document.canFollow_of_blank hblank)
  exact .value hfirst hj (.finished hblank)

end TreePath
