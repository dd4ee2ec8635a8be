/-
**Texts in quotes, and what stands outside of them.**

Reading an expression from left to right, a text in quotes is open or not: a quotation mark opens
one, and the same mark closes it again.  This is all that is needed to tell the marks `@` of
references from the characters `@` in literals, for no other part of the grammar has quotation marks
or characters `@`.  So in the text of a path the marks outside of quotes stand, one by one and in
their order, for the paths in its filters, where a path comes before the paths inside it.

Main definitions:

* `openMark`, `bare` — the mark of the literal that is open after a text, and the characters of a
  text that stand outside of literals;
* `HasMarks` — a text that closes its literals and has a number of marks `@` outside of them;
* `Path.references` — the paths in the filters of a path, at any depth.

Main results:

* `HasMarks.eq_of_append_eq` — a mark `@` of a text is found again by the number of marks before it;
* `PathText.hasMarks` — **marks are references**: as many marks stand in the text of a path as there
  are paths in its filters.
-/

import TreePath.Proofs.Path.Words

set_option relaxedAutoImplicit false
set_option autoImplicit false

namespace TreePath

/-! ### Open literals -/

/-- The characters with which a text in quotes begins and ends. -/
def isQuote (c : Char) : Bool := c == '\x22' || c == '\'' || c == '\x60'

/-- The mark of the literal that is open after a text, given the mark of the one that is open
before it. -/
def openMark : Option Char → List Char → Option Char
  | mark, [] => mark
  | none, c :: s => openMark (if isQuote c then some c else none) s
  | some mark, c :: s => openMark (if c = mark then none else some mark) s

/-- The characters of a text that stand outside of literals, given the mark of the literal that is
open before it. -/
def bare : Option Char → List Char → List Char
  | _, [] => []
  | none, c :: s => if isQuote c then bare (some c) s else c :: bare none s
  | some mark, c :: s => bare (if c = mark then none else some mark) s

theorem openMark_append (mark : Option Char) (s t : List Char) :
    openMark mark (s ++ t) = openMark (openMark mark s) t := by
  induction s generalizing mark with
  | nil => cases mark <;> rfl
  | cons c s ih =>
      cases mark with
      | none => exact ih _
      | some mark => exact ih _

theorem bare_append (mark : Option Char) (s t : List Char) :
    bare mark (s ++ t) = bare mark s ++ bare (openMark mark s) t := by
  induction s generalizing mark with
  | nil => cases mark <;> rfl
  | cons c s ih =>
      cases mark with
      | none =>
          rw [List.cons_append, bare, bare, openMark]
          split
          · exact ih _
          · rw [ih, List.cons_append]
      | some mark => exact ih _

/-- A literal stays open as long as its mark does not come. -/
theorem openMark_of_not_mem {mark : Char} {s : List Char} (h : mark ∉ s) :
    openMark (some mark) s = some mark := by
  induction s with
  | nil => rfl
  | cons c s ih =>
      obtain ⟨hc, hs⟩ := not_or.1 (mt List.mem_cons.2 h)
      rw [openMark, if_neg (Ne.symm hc), ih hs]

theorem bare_of_not_mem {mark : Char} {s : List Char} (h : mark ∉ s) :
    bare (some mark) s = [] := by
  induction s with
  | nil => rfl
  | cons c s ih =>
      obtain ⟨hc, hs⟩ := not_or.1 (mt List.mem_cons.2 h)
      rw [bare, if_neg (Ne.symm hc), ih hs]

/-! ### Marks of references -/

/-- The text closes all its literals, and so many marks `@` stand outside of them. -/
def HasMarks (s : List Char) (n : Nat) : Prop :=
  openMark none s = none ∧ (bare none s).count '@' = n

theorem hasMarks_nil : HasMarks [] 0 := ⟨rfl, rfl⟩

theorem HasMarks.append {s t : List Char} {m n : Nat} (hs : HasMarks s m) (ht : HasMarks t n) :
    HasMarks (s ++ t) (m + n) := by
  obtain ⟨hsopen, hscount⟩ := hs
  obtain ⟨htopen, htcount⟩ := ht
  constructor
  · rw [openMark_append, hsopen, htopen]
  · rw [bare_append, hsopen, List.count_append, hscount, htcount]

/-- A mark of a reference counts. -/
theorem HasMarks.cons_mark {s : List Char} {n : Nat} (h : HasMarks s n) :
    HasMarks ('@' :: s) (n + 1) := by
  obtain ⟨hopen, hcount⟩ := h
  refine ⟨hopen, ?_⟩
  have hbare : bare none ('@' :: s) = '@' :: bare none s := rfl
  rw [hbare, List.count_cons_self, hcount]

/-- A character that is no mark of any sort. -/
def isPlain (c : Char) : Bool := !isQuote c && c != '@'

theorem HasMarks.cons {c : Char} {s : List Char} {n : Nat} (hc : isPlain c = true)
    (h : HasMarks s n) : HasMarks (c :: s) n := by
  obtain ⟨hopen, hcount⟩ := h
  obtain ⟨hquote, hmark⟩ : isQuote c = false ∧ c ≠ '@' := by simpa [isPlain] using hc
  constructor
  · rw [openMark, hquote]
    exact hopen
  · rw [bare, hquote, if_neg Bool.false_ne_true, List.count_cons_of_ne hmark, hcount]

/-- A text without marks of any sort has none outside of literals. -/
theorem hasMarks_of_plain {s : List Char} (h : ∀ c ∈ s, isPlain c = true) : HasMarks s 0 := by
  induction s with
  | nil => exact hasMarks_nil
  | cons c s ih =>
      exact .cons (h c List.mem_cons_self) (ih fun d hd => h d (List.mem_cons_of_mem c hd))

/-- A literal has no marks outside of itself. -/
theorem hasMarks_literal {mark : Char} {s : List Char} (hmark : isQuote mark = true)
    (closed : mark ∉ s) : HasMarks (mark :: (s ++ [mark])) 0 := by
  constructor
  · rw [openMark, hmark, if_pos rfl, openMark_append, openMark_of_not_mem closed, openMark,
      if_pos rfl]
    rfl
  · rw [bare, hmark, if_pos rfl, bare_append, openMark_of_not_mem closed, bare_of_not_mem closed,
      bare, if_pos rfl]
    rfl

/-- **A mark is found again by the number of marks before it**: a text has, after each number of
marks, at most one further mark. -/
theorem HasMarks.eq_of_append_eq {s t s' t' : List Char} {n : Nat} (hs : HasMarks s n)
    (hs' : HasMarks s' n) (h : s ++ '@' :: t = s' ++ '@' :: t') : s = s' := by
  -- If one of the two texts goes on after the other one, then with a mark, which it counts.
  have hlonger : ∀ {s u s' : List Char}, HasMarks s n → HasMarks s' n → s' = s ++ '@' :: u →
      False := by
    rintro s u s' hs hs' rfl
    have hcount := hs'.2
    have hbare : bare none ('@' :: u) = '@' :: bare none u := rfl
    rw [bare_append, hs.1, List.count_append, hs.2, hbare, List.count_cons_self] at hcount
    omega
  rcases List.append_eq_append_iff.1 h with ⟨u, hu, hrest⟩ | ⟨u, hu, hrest⟩
  · cases u with
    | nil => rw [hu, List.append_nil]
    | cons c u =>
        obtain ⟨rfl, -⟩ := List.cons.inj hrest
        exact (hlonger hs hs' hu).elim
  · cases u with
    | nil => rw [hu, List.append_nil]
    | cons c u =>
        obtain ⟨rfl, -⟩ := List.cons.inj hrest
        exact (hlonger hs' hs hu).elim

/-! ### The paths in a path -/

mutual

/-- The paths in the filters of a path, at any depth: each before the paths inside it, and in the
order of the text. -/
def Path.references : Path → List Path
  | ⟨_, steps⟩ => referencesOfSteps steps

/-- The paths in the filters of steps. -/
def referencesOfSteps : List Step → List Path
  | [] => []
  | s :: rest => s.references ++ referencesOfSteps rest

/-- The paths in the filter of a step. -/
def Step.references : Step → List Path
  | ⟨_, none⟩ => []
  | ⟨_, some f⟩ => f.references

/-- The paths in a filter. -/
def Filter.references : Filter → List Path
  | ⟨_, _, arguments⟩ => referencesOfArguments arguments

/-- The paths in arguments. -/
def referencesOfArguments : List Argument → List Path
  | [] => []
  | a :: rest => a.references ++ referencesOfArguments rest

/-- The paths in an argument. -/
def Argument.references : Argument → List Path
  | .path p => p :: p.references
  | .string _ => []
  | .integer _ => []
  | .float _ => []

end

theorem referencesOfSteps_append (sts more : List Step) :
    referencesOfSteps (sts ++ more) = referencesOfSteps sts ++ referencesOfSteps more := by
  induction sts with
  | nil => rfl
  | cons st sts ih => rw [List.cons_append, referencesOfSteps, referencesOfSteps, ih,
      List.append_assoc]

theorem referencesOfArguments_append (as bs : List Argument) :
    referencesOfArguments (as ++ bs) = referencesOfArguments as ++ referencesOfArguments bs := by
  induction as with
  | nil => rfl
  | cons a as ih => rw [List.cons_append, referencesOfArguments, referencesOfArguments, ih,
      List.append_assoc]

/-! ### Words without marks -/

/-- Characters of a kind to which no mark belongs are plain. -/
theorem isPlain_of_kind {p : Char → Bool} (hdouble : p '\x22' = false) (hsingle : p '\'' = false)
    (htick : p '\x60' = false) (hreference : p '@' = false) {c : Char} (hc : p c = true) :
    isPlain c = true := by
  have hne : ∀ d : Char, p d = false → c ≠ d := by
    rintro d hd rfl
    rw [hd] at hc
    cases hc
  simp [isPlain, isQuote, hne _ hdouble, hne _ hsingle, hne _ htick, hne _ hreference]

theorem IsName.hasMarks {s : List Char} (h : IsName s) : HasMarks s 0 := by
  refine hasMarks_of_plain ?_
  intro c hc
  exact isPlain_of_kind rfl rfl rfl rfl (h.isNameChar c hc)

theorem IsSpaces.hasMarks {s : List Char} (h : IsSpaces s) : HasMarks s 0 := by
  refine hasMarks_of_plain ?_
  intro c hc
  rw [h c hc]
  rfl

theorem IsDigits.hasMarks {s : List Char} (h : IsDigits s) : HasMarks s 0 := by
  refine hasMarks_of_plain ?_
  intro c hc
  exact isPlain_of_kind (p := Char.isDigit) rfl rfl rfl rfl (h c hc)

theorem SignText.hasMarks {s : List Char} {negative : Bool} (h : SignText s negative) :
    HasMarks s 0 := by
  cases h <;> exact ⟨rfl, rfl⟩

theorem NegationText.hasMarks {s : List Char} {negated : Bool} (h : NegationText s negated) :
    HasMarks s 0 := by
  cases h <;> exact ⟨rfl, rfl⟩

theorem IntegerText.hasMarks {s : List Char} {n : Int64} (h : IntegerText s n) : HasMarks s 0 := by
  cases h with
  | mk hsign hdigits _ _ => exact hsign.hasMarks.append hdigits.hasMarks

theorem FloatText.hasMarks {s : List Char} {x : Binary64} (h : FloatText s x) : HasMarks s 0 := by
  cases h with
  | mk hsign hwhole hfraction _ =>
      exact (hsign.hasMarks.append hwhole.hasMarks).append (hfraction.hasMarks.cons rfl)

theorem SelectorText.hasMarks {s : List Char} {sel : Selector} (h : SelectorText s sel) :
    HasMarks s 0 := by
  cases h with
  | wildcard => exact ⟨rfl, rfl⟩
  | name h => exact h.hasMarks

theorem LastText.hasMarks {s : List Char} {n : Int64} (h : LastText s n) : HasMarks s 0 := by
  cases h with
  | missing => exact hasMarks_nil
  | given h => exact h.hasMarks

theorem RangeText.hasMarks {s : List Char} {range : Option Slice} (h : RangeText s range) :
    HasMarks s 0 := by
  cases h with
  | missing => exact hasMarks_nil
  | all => exact ⟨rfl, rfl⟩
  | single h => exact h.hasMarks
  | between hstart hstop => exact hstart.hasMarks.append (hstop.hasMarks.cons rfl)
  | upTo hstop => exact hstop.hasMarks.cons rfl

theorem TargetText.hasMarks {ctx : Context} {s : List Char} {t : Target}
    (h : TargetText ctx s t) : HasMarks s 0 := by
  have hclose : HasMarks [']'] 0 := ⟨rfl, rfl⟩
  cases h with
  | child h => exact h.hasMarks.cons rfl
  | descendant _ h => exact (h.hasMarks.cons rfl).cons rfl
  | item h => exact (h.hasMarks.append hclose).cons rfl

/-! ### Marks of the text of a path -/

section Marks

variable {ctx : Context} {R : List Char → Path → Prop}
  (hR : ∀ s q, R s q → HasMarks s q.references.length)

include hR

theorem ArgumentText.hasMarks {s : List Char} {a : Argument} (h : ArgumentText R s a) :
    HasMarks s a.references.length := by
  cases h with
  | path h => exact (hR _ _ h).cons_mark
  | @string mark s hmark closed =>
      have hquote : isQuote mark = true := by rcases hmark with rfl | rfl | rfl <;> rfl
      exact hasMarks_literal hquote closed
  | integer h => exact h.hasMarks
  | float h => exact h.hasMarks

theorem ArgumentsText.hasMarks {s : List Char} {as : List Argument} (h : ArgumentsText R s as) :
    HasMarks s (referencesOfArguments as).length := by
  induction h with
  | last h hafter =>
      rw [referencesOfArguments, List.length_append]
      exact (h.hasMarks hR).append hafter.hasMarks
  | cons h hafter hbefore _ ih =>
      have hrest := hafter.hasMarks.append ((hbefore.hasMarks.append ih).cons (c := ',') rfl)
      rw [referencesOfArguments, List.length_append]
      simpa using (h.hasMarks hR).append hrest

theorem ArgumentListText.hasMarks {s : List Char} {as : List Argument}
    (h : ArgumentListText R s as) : HasMarks s (referencesOfArguments as).length := by
  cases h with
  | empty => exact hasMarks_nil
  | given h => exact h.hasMarks hR

theorem FilterText.hasMarks {s : List Char} {f : Filter} (h : FilterText ctx R s f) :
    HasMarks s f.references.length := by
  cases h with
  | mk hsp₁ hmark hsp₂ hname hsp₃ hsp₄ hargs hsp₅ _ _ =>
      have hclose : HasMarks [')'] 0 := ⟨rfl, rfl⟩
      have hend := (hsp₅.hasMarks.append hclose).cons (c := ')') rfl
      have hcall := (hsp₄.hasMarks.append ((hargs.hasMarks hR).append hend)).cons (c := '(') rfl
      have hfront := hsp₂.hasMarks.append (hname.hasMarks.append (hsp₃.hasMarks.append hcall))
      have hfilter := (hsp₁.hasMarks.append (hmark.hasMarks.append hfront)).cons (c := '(') rfl
      rw [Filter.references]
      simpa using hfilter

theorem StepText.hasMarks {s : List Char} {st : Step} (h : StepText ctx R s st) :
    HasMarks s st.references.length := by
  cases h with
  | plain h => exact h.hasMarks
  | filtered h hf =>
      rw [Step.references]
      simpa using h.hasMarks.append (hf.hasMarks hR)

theorem StepsText.hasMarks {s : List Char} {sts : List Step} (h : StepsText ctx R s sts) :
    HasMarks s (referencesOfSteps sts).length := by
  induction h with
  | nil => exact hasMarks_nil
  | cons h _ ih =>
      rw [referencesOfSteps, List.length_append]
      exact (h.hasMarks hR).append ih

end Marks

/-- **Marks are references.** -/
theorem PathText.hasMarks {ctx : Context} {s : List Char} {p : Path} (h : PathText ctx s p) :
    HasMarks s p.references.length := by
  refine PathText.induction_nested (motive := fun s p => HasMarks s p.references.length) ?_ h
  intro s sts hsteps _
  rw [Path.references]
  exact hsteps.hasMarks fun t q hq => hq.2

end TreePath
