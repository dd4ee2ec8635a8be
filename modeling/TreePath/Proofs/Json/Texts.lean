/-
**Texts in quotes.**

A text is written between quotes with some of its characters escaped, and reading it gives one piece
for each character: a code unit for a control character that has no letter of its own, and the
character itself for all others.  Put together again, the pieces are the text.

Main definitions:

* `Piece.ofChar` — the piece that a written character is read as.

Main results:

* `Document.pieces?_quote` — what is written in quotes is read up to the closing quote;
* `textOfPieces?_map_ofChar` — **every text is read back**.
-/

import TreePath.Json.Reading
import TreePath.Json.Writing

set_option relaxedAutoImplicit false
set_option autoImplicit false

namespace TreePath

/-! ### Characters -/

/-- The piece that a character is read as after it has been written in quotes. -/
def Piece.ofChar (c : Char) : Piece :=
  if c.toNat < 32 ∧ c ∉ ['\x08', '\x0c', '\n', '\r', '\t'] then .unit c.toNat else .char c

namespace Document

theorem hexValue4?_hexDigit : ∀ n < 32,
    hexValue4? '0' '0' (Json.hexDigit (n / 16)) (Json.hexDigit (n % 16)) = some n := by
  decide

/-- An escape by a letter. -/
theorem pieces?_escaped {e c : Char} (he : e ≠ 'u') (hc : escaped? e = some c) (s : List Char) :
    pieces? ('\\' :: e :: s) = (pieces? s).map fun (more, rest) => (.char c :: more, rest) := by
  rw [pieces?, hc]
  · cases pieces? s <;> rfl
  · rintro _ _ _ _ _ heq
    exact absurd heq he

/-- An escape by a code unit. -/
theorem pieces?_unit {u : Nat} {a b c d : Char} (h : hexValue4? a b c d = some u)
    (s : List Char) : pieces? ('\\' :: 'u' :: a :: b :: c :: d :: s) =
      (pieces? s).map fun (more, rest) => (.unit u :: more, rest) := by
  rw [pieces?, h]
  cases pieces? s <;> rfl

/-- A character that is not escaped. -/
theorem pieces?_plain {c : Char} (hquote : c ≠ '\x22') (hslash : c ≠ '\\') (hc : 32 ≤ c.toNat)
    (s : List Char) :
    pieces? (c :: s) = (pieces? s).map fun (more, rest) => (.char c :: more, rest) := by
  rw [pieces?, if_neg (by simp [hslash, hc])]
  · cases pieces? s <;> rfl
  · exact hquote
  · rintro _ _ _ _ _ heq
    exact absurd heq hslash
  · rintro _ _ heq
    exact absurd heq hslash

/-- A character that was written is read as its piece. -/
theorem pieces?_escape (c : Char) (s : List Char) : pieces? (Json.escape c ++ s) =
    (pieces? s).map fun (more, rest) => (Piece.ofChar c :: more, rest) := by
  unfold Json.escape
  split
  · next hc =>
      rcases hc with rfl | rfl
      · exact pieces?_escaped (by decide) rfl s
      · exact pieces?_escaped (by decide) rfl s
  split
  · next hc => subst hc; exact pieces?_escaped (by decide) rfl s
  split
  · next hc => subst hc; exact pieces?_escaped (by decide) rfl s
  split
  · next hc => subst hc; exact pieces?_escaped (by decide) rfl s
  split
  · next hc => subst hc; exact pieces?_escaped (by decide) rfl s
  split
  · next hc => subst hc; exact pieces?_escaped (by decide) rfl s
  split
  · next hbackspace hfeed hnewline hreturn htab hcontrol =>
      have hpiece : Piece.ofChar c = .unit c.toNat :=
        if_pos ⟨hcontrol, by simp [hbackspace, hfeed, hnewline, hreturn, htab]⟩
      rw [hpiece]
      exact pieces?_unit (hexValue4?_hexDigit _ hcontrol) s
  · next hmarked _ _ _ _ _ hcontrol =>
      obtain ⟨hquote, hslash⟩ := not_or.1 hmarked
      have hpiece : Piece.ofChar c = .char c := if_neg (fun h => hcontrol h.1)
      rw [hpiece]
      exact pieces?_plain hquote hslash (Nat.le_of_not_lt hcontrol) s

/-- **What is written in quotes** is read up to the quote that closes it. -/
theorem pieces?_quote (s rest : List Char) :
    pieces? (s.flatMap Json.escape ++ '\x22' :: rest) = some (s.map Piece.ofChar, rest) := by
  induction s with
  | nil => rw [List.flatMap_nil, List.nil_append, pieces?, List.map_nil]
  | cons c s ih =>
      rw [List.flatMap_cons, List.append_assoc, pieces?_escape, ih, Option.map_some, List.map_cons]

end Document

/-! ### Putting pieces together -/

/-- A code unit that is no half of a pair stands for a character. -/
theorem decodePieces?_unit {u : Nat} (hu : u < 0xd800) (pieces : List Piece) :
    decodePieces? (.unit u :: pieces) = (decodePieces? pieces).map (Char.ofNat u :: ·) := by
  have hleading : isLeadingUnit u = false := decide_eq_false (by omega)
  have htrailing : isTrailingUnit u = false := decide_eq_false (by omega)
  cases pieces with
  | nil => simp [decodePieces?, hleading, htrailing]
  | cons p pieces =>
      cases p <;> simp [decodePieces?, hleading, htrailing]

/-- **Every text is read back** from the pieces of its characters. -/
theorem decodePieces?_map_ofChar (s : List Char) :
    decodePieces? (s.map Piece.ofChar) = some s := by
  induction s with
  | nil => rfl
  | cons c s ih =>
      rw [List.map_cons, Piece.ofChar]
      split
      · next hc =>
          rw [decodePieces?_unit (by omega), ih, Option.map_some, Char.ofNat_toNat]
      · rw [decodePieces?, ih, Option.map_some]

theorem textOfPieces?_map_ofChar (s : String) :
    textOfPieces? (s.toList.map Piece.ofChar) = some s := by
  rw [textOfPieces?, decodePieces?_map_ofChar, Option.map_some, String.ofList_toList]

end TreePath
