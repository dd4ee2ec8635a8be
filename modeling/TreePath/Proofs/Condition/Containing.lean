/-
**Containing a text, with case and without.**

`contains` looks for a literal in the texts of the candidates, and `cicontains` takes both in lower
case first.  The literal is lowered on its own, but in a candidate it stands between other
characters, and a capital sigma looks at those.  So ignoring case can lose a match: the literal `ΑΣ`
ends with a final sigma in lower case, and `ΑΣΒ` has an ordinary one at its place.  Only sigmas can
do that, and for a given literal there is a candidate that is lost unless none of its sigmas ever
changes its form.

Main results:

* `Builtin.containsUpTo_iff` — what the two conditions ask for;
* `Builtin.contains_ignoring_case` — **when ignoring case keeps a match**, for single matches and
  for a literal with all candidates;
* `Builtin.match_lost_ignoring_case` — a match that is lost.
-/

import TreePath.Condition.Builtin
import TreePath.Proofs.Text.FinalSigma

set_option relaxedAutoImplicit false
set_option autoImplicit false

namespace TreePath.Builtin

/-- Some candidate's text contains the literal, both taken through `fold`. -/
theorem containsUpTo_iff {fold : List Char → List Char} {vs : List Value} {literal : String} :
    containsUpTo fold [.candidates vs, .string literal] = true ↔
      ∃ v ∈ vs, ∃ s, v.searchText? = some s ∧ fold literal.toList <:+: fold s := by
  have htext : textAt? [.candidates vs, .string literal] 1 = some literal.toList := rfl
  simp only [containsUpTo, htext, List.any_eq_true]
  refine exists_congr fun v => and_congr_right fun _ => ?_
  cases v.searchText? with
  | none => simp
  | some s => simp [occursIn_iff]

theorem contains_iff {vs : List Value} {literal : String} :
    contains [.candidates vs, .string literal] = true ↔
      ∃ v ∈ vs, ∃ before after, v.searchText? = some (before ++ literal.toList ++ after) := by
  rw [contains, containsUpTo_iff]
  refine exists_congr fun v => and_congr_right fun _ => ?_
  constructor
  · rintro ⟨s, hs, before, after, rfl⟩
    exact ⟨before, after, hs⟩
  · rintro ⟨before, after, hs⟩
    exact ⟨_, hs, before, after, rfl⟩

/-- **When ignoring case keeps a match.**  If a candidate's text contains a literal, then it does so
without regard to case, unless wherever the literal stands in a candidate one of its capital sigmas
has another small form than in the literal alone.  No match of the literal is lost in any candidates
exactly when no sigma of it ever changes its form. -/
theorem contains_ignoring_case (literal : String) :
    (∀ vs : List Value, contains [.candidates vs, .string literal] = true →
      containsIgnoringCase [.candidates vs, .string literal] = true ∨
        ∀ v ∈ vs, ∀ before after, v.searchText? = some (before ++ literal.toList ++ after) →
          ¬KeepsSigmas before after literal.toList) ∧
    ((∀ vs : List Value, contains [.candidates vs, .string literal] = true →
      containsIgnoringCase [.candidates vs, .string literal] = true) ↔
        SettledSigmas literal.toList) := by
  have hkept : ∀ vs : List Value, ∀ v ∈ vs, ∀ before after,
      v.searchText? = some (before ++ literal.toList ++ after) →
      KeepsSigmas before after literal.toList →
      containsIgnoringCase [.candidates vs, .string literal] = true :=
    fun vs v hv before after hs hkeeps =>
      containsUpTo_iff.2 ⟨v, hv, _, hs, hkeeps.lowercase_occurs⟩
  refine ⟨fun vs _ => ?_, fun h => ?_, fun h vs hcontains => ?_⟩
  · by_cases hfound : containsIgnoringCase [.candidates vs, .string literal] = true
    · exact .inl hfound
    · exact .inr fun v hv before after hs hkeeps => hfound (hkept vs v hv before after hs hkeeps)
  · -- The text around the literal may be any, as a candidate of its own.
    refine settledSigmas_iff.2 fun before after => ?_
    have htext : (Value.string (String.ofList (before ++ literal.toList ++ after))).searchText? =
        some (before ++ literal.toList ++ after) := congrArg some String.toList_ofList
    obtain ⟨v, hv, s, hs, hinfix⟩ := containsUpTo_iff.1
      (h [_] (contains_iff.2 ⟨_, List.mem_singleton_self _, before, after, htext⟩))
    obtain rfl := List.mem_singleton.1 hv
    rw [htext] at hs
    cases hs
    exact hinfix
  · obtain ⟨v, hv, before, after, hs⟩ := contains_iff.1 hcontains
    exact hkept vs v hv before after hs (h before after)

/-- A sigma before a letter, whatever stands around both. -/
theorem contains_ignoring_case_before_letter :
    contains [.candidates [.string "ΟΔΥΣΣΕΥΣ"], .string "ΣΕ"] = true ∧
      containsIgnoringCase [.candidates [.string "ΟΔΥΣΣΕΥΣ"], .string "ΣΕ"] = true := by
  have hcontains : contains [.candidates [.string "ΟΔΥΣΣΕΥΣ"], .string "ΣΕ"] = true := by
    decide +kernel
  refine ⟨hcontains, (contains_ignoring_case "ΣΕ").2.2 ?_ _ hcontains⟩
  refine SettledSigmas.of_startsCased fun x y hs => ?_
  match x, hs with
  | [], hs => rw [← (List.cons.inj hs).2]; decide +kernel
  | [_], hs => cases (List.cons.inj (List.cons.inj hs).2).1
  | _ :: _ :: x, hs => simp at hs

/-- A sigma at the end of the literal, but not of the candidate's text. -/
theorem match_lost_ignoring_case :
    contains [.candidates [.string "ΑΣΒ"], .string "ΑΣ"] = true ∧
      containsIgnoringCase [.candidates [.string "ΑΣΒ"], .string "ΑΣ"] = false := by
  decide +kernel

end TreePath.Builtin
