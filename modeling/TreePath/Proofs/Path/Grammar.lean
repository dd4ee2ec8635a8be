/-
**The grammar of path expressions.**

```
path      = step+
step      = ("." selector | ".." selector | "[" range? "]") filter?
selector  = "*" | name
range     = "*" | integer | integer ":" integer? | ":" integer?
filter    = "(" sp "!"? sp name sp "(" sp (argument sp ("," sp argument sp)*)? ")" sp ")"
argument  = "@" path | text | integer | float
```

This module states the grammar as relations between a text and what it denotes, one relation for
each line and one constructor for each alternative, without a reader and without a rule for where a
part ends.  `PathText ctx s p` says that `s` derives from `path` and that `p` is the tree of that
derivation.  What a context has to say is part of the grammar: descendant steps derive only where
they are allowed, and the condition of a filter must be registered and accept the arguments.

The relations from `ArgumentText` to `StepsText` take as a parameter what a text after `@` denotes,
and `PathText` ties the knot.  Since an argument with a path spends one mark `@`, what is nested has
fewer marks than what it is nested in; this is the measure of every induction over nesting, and
`StepsText.imp` is its step.

Main definitions:

* `IsName`, `IsSpaces`, `IsDigits`, `SignText`, `IntegerText`, `FloatText` — the words;
* `SelectorText`, `RangeText`, `TargetText` — what a step selects;
* `ArgumentText`, `ArgumentsText`, `Accepts`, `FilterText` — filters;
* `StepText`, `StepsText`, `PathText` — paths.

Main results:

* `StepsText.imp`, `StepsText.nested_count_lt` — nested paths have fewer marks `@`;
* `PathText.induction_nested` — an induction on derivations that goes down to the paths inside;
* `StepsText.append` — steps may be written one list after another;
* `StepsText.length_le` — every step takes at least one character.
-/

import Mathlib.Data.List.Forall2
import TreePath.Path.Compile

set_option relaxedAutoImplicit false
set_option autoImplicit false

namespace TreePath

/-! ### Words -/

/-- A name is one or more ASCII letters, digits, low lines, hyphens and characters beyond ASCII. -/
def IsName (s : List Char) : Prop :=
  s ≠ [] ∧ ∀ c ∈ s, c.isAlphanum = true ∨ c = '_' ∨ c = '-' ∨ 128 ≤ c.toNat

/-- Any number of spaces. -/
def IsSpaces (s : List Char) : Prop := ∀ c ∈ s, c = ' '

/-- Any number of digits. -/
def IsDigits (s : List Char) : Prop := ∀ c ∈ s, c.isDigit = true

/-- An optional sign, and whether it is a minus. -/
inductive SignText : List Char → Bool → Prop
  | missing : SignText [] false
  | plus : SignText ['+'] false
  | minus : SignText ['-'] true

/-- An optional sign and digits denote an integer, which must fit into 64 bits. -/
inductive IntegerText : List Char → Int64 → Prop
  | mk {sign digits : List Char} {negative : Bool} {n : Int64} (hsign : SignText sign negative)
      (hdigits : IsDigits digits) (nonempty : digits ≠ [])
      (value : n.toInt = Numeral.signed negative (Numeral.value digits)) :
      IntegerText (sign ++ digits) n

/-- An optional sign and digits with one point before, among or after them denote the nearest
floating point number. -/
inductive FloatText : List Char → Binary64 → Prop
  | mk {sign whole fraction : List Char} {negative : Bool} (hsign : SignText sign negative)
      (hwhole : IsDigits whole) (hfraction : IsDigits fraction)
      (nonempty : whole ≠ [] ∨ fraction ≠ []) :
      FloatText (sign ++ whole ++ '.' :: fraction)
        (DecimalText.ofParts negative whole fraction).toBinary64

/-! ### Targets -/

/-- The mark for all children, or the key of one. -/
inductive SelectorText : List Char → Selector → Prop
  | wildcard : SelectorText ['*'] .wildcard
  | name {s : List Char} (h : IsName s) : SelectorText s (.name (String.ofList s))

/-- The last bound of a range; a missing one is the last element. -/
inductive LastText : List Char → Int64 → Prop
  | missing : LastText [] (-1)
  | given {s : List Char} {n : Int64} (h : IntegerText s n) : LastText s n

/-- What stands between the brackets of an item step. -/
inductive RangeText : List Char → Option Slice → Prop
  | missing : RangeText [] none
  | all : RangeText ['*'] (some ⟨0, -1⟩)
  | single {s : List Char} {n : Int64} (h : IntegerText s n) : RangeText s (some ⟨n, n⟩)
  | between {s t : List Char} {start stop : Int64} (hstart : IntegerText s start)
      (hstop : LastText t stop) : RangeText (s ++ ':' :: t) (some ⟨start, stop⟩)
  | upTo {t : List Char} {stop : Int64} (hstop : LastText t stop) :
      RangeText (':' :: t) (some ⟨0, stop⟩)

/-- A step without its filter. -/
inductive TargetText (ctx : Context) : List Char → Target → Prop
  | child {s : List Char} {sel : Selector} (h : SelectorText s sel) :
      TargetText ctx ('.' :: s) (.child sel)
  | descendant {s : List Char} {sel : Selector} (allowed : ctx.descendants = true)
      (h : SelectorText s sel) : TargetText ctx ('.' :: '.' :: s) (.descendant sel)
  | item {s : List Char} {range : Option Slice} (h : RangeText s range) :
      TargetText ctx ('[' :: (s ++ [']'])) (.item range)

/-! ### Filters -/

/-- An argument, where `R` says what a text after `@` denotes. -/
inductive ArgumentText (R : List Char → Path → Prop) : List Char → Argument → Prop
  | path {s : List Char} {p : Path} (h : R s p) : ArgumentText R ('@' :: s) (.path p)
  | string {mark : Char} {s : List Char} (hmark : mark = '\x22' ∨ mark = '\'' ∨ mark = '\x60')
      (closed : mark ∉ s) : ArgumentText R (mark :: (s ++ [mark])) (.string (String.ofList s))
  | integer {s : List Char} {n : Int64} (h : IntegerText s n) : ArgumentText R s (.integer n)
  | float {s : List Char} {x : Binary64} (h : FloatText s x) : ArgumentText R s (.float x)

/-- One or more arguments with commas between them, and spaces after them and after the commas. -/
inductive ArgumentsText (R : List Char → Path → Prop) : List Char → List Argument → Prop
  | last {s after : List Char} {a : Argument} (h : ArgumentText R s a) (hafter : IsSpaces after) :
      ArgumentsText R (s ++ after) [a]
  | cons {s after before t : List Char} {a : Argument} {as : List Argument}
      (h : ArgumentText R s a) (hafter : IsSpaces after) (hbefore : IsSpaces before)
      (hrest : ArgumentsText R t as) :
      ArgumentsText R (s ++ (after ++ ',' :: (before ++ t))) (a :: as)

/-- Whether a list of arguments may be missing or is what a call is given. -/
inductive ArgumentListText (R : List Char → Path → Prop) : List Char → List Argument → Prop
  | empty : ArgumentListText R [] []
  | given {s : List Char} {as : List Argument} (h : ArgumentsText R s as) :
      ArgumentListText R s as

/-- The arguments are as many as the signature asks for, and the kind of each is in the set at its
place. -/
def Accepts (signature : List KindSet) (arguments : List Argument) : Prop :=
  List.Forall₂ (fun accepted a => accepted.intersects (.only a.kind) = true) signature arguments

/-- An optional exclamation mark, and whether it is there. -/
inductive NegationText : List Char → Bool → Prop
  | missing : NegationText [] false
  | given : NegationText ['!'] true

/-- A filter: the call of a registered condition that accepts its arguments. -/
inductive FilterText (ctx : Context) (R : List Char → Path → Prop) : List Char → Filter → Prop
  | mk {sp₁ sp₂ sp₃ sp₄ sp₅ mark name args : List Char} {negated : Bool} {c : Condition}
      {as : List Argument} (hsp₁ : IsSpaces sp₁) (hmark : NegationText mark negated)
      (hsp₂ : IsSpaces sp₂) (hname : IsName name) (hsp₃ : IsSpaces sp₃) (hsp₄ : IsSpaces sp₄)
      (hargs : ArgumentListText R args as) (hsp₅ : IsSpaces sp₅)
      (registered : ctx.find? (String.ofList name) = some c) (accepts : Accepts c.signature as) :
      FilterText ctx R
        ('(' :: (sp₁ ++ (mark ++ (sp₂ ++ (name ++ (sp₃ ++ '(' :: (sp₄ ++ (args ++ ')' ::
          (sp₅ ++ [')']))))))))) ⟨c, negated, as⟩

/-! ### Paths -/

/-- A step with or without a filter. -/
inductive StepText (ctx : Context) (R : List Char → Path → Prop) : List Char → Step → Prop
  | plain {s : List Char} {t : Target} (h : TargetText ctx s t) : StepText ctx R s ⟨t, none⟩
  | filtered {s u : List Char} {t : Target} {f : Filter} (h : TargetText ctx s t)
      (hf : FilterText ctx R u f) : StepText ctx R (s ++ u) ⟨t, some f⟩

/-- Any number of steps. -/
inductive StepsText (ctx : Context) (R : List Char → Path → Prop) : List Char → List Step → Prop
  | nil : StepsText ctx R [] []
  | cons {s t : List Char} {st : Step} {sts : List Step} (h : StepText ctx R s st)
      (hrest : StepsText ctx R t sts) : StepsText ctx R (s ++ t) (st :: sts)

/-- **A text that derives from the grammar of paths, and the path it denotes**, which keeps the
text. -/
inductive PathText (ctx : Context) : List Char → Path → Prop
  | mk {s : List Char} {sts : List Step} (h : StepsText ctx (PathText ctx) s sts)
      (nonempty : sts ≠ []) : PathText ctx s ⟨String.ofList s, sts⟩

/-! ### Nesting -/

section Nesting

variable {ctx : Context} {R R' : List Char → Path → Prop} {n : Nat}
  (hR : ∀ s p, s.count '@' < n → R s p → R' s p)

include hR

theorem ArgumentText.imp {s : List Char} {a : Argument} (h : ArgumentText R s a)
    (hs : s.count '@' ≤ n) : ArgumentText R' s a := by
  cases h with
  | path h =>
      rw [List.count_cons_self] at hs
      exact .path (hR _ _ (by omega) h)
  | string hmark closed => exact .string hmark closed
  | integer h => exact .integer h
  | float h => exact .float h

theorem ArgumentsText.imp {s : List Char} {as : List Argument} (h : ArgumentsText R s as)
    (hs : s.count '@' ≤ n) : ArgumentsText R' s as := by
  induction h with
  | last h hafter =>
      rw [List.count_append] at hs
      exact .last (h.imp hR (by omega)) hafter
  | cons h hafter hbefore _ ih =>
      simp only [List.count_append, List.count_cons] at hs
      exact .cons (h.imp hR (by omega)) hafter hbefore (ih (by omega))

theorem FilterText.imp {s : List Char} {f : Filter} (h : FilterText ctx R s f)
    (hs : s.count '@' ≤ n) : FilterText ctx R' s f := by
  cases h with
  | mk hsp₁ hmark hsp₂ hname hsp₃ hsp₄ hargs hsp₅ registered accepts =>
      refine .mk hsp₁ hmark hsp₂ hname hsp₃ hsp₄ ?_ hsp₅ registered accepts
      simp only [List.count_append, List.count_cons] at hs
      cases hargs with
      | empty => exact .empty
      | given h => exact .given (h.imp hR (by omega))

theorem StepText.imp {s : List Char} {st : Step} (h : StepText ctx R s st)
    (hs : s.count '@' ≤ n) : StepText ctx R' s st := by
  cases h with
  | plain h => exact .plain h
  | filtered h hf =>
      rw [List.count_append] at hs
      exact .filtered h (hf.imp hR (by omega))

/-- **Nested paths have fewer marks `@`**: to change what they denote, it is enough to do so for
texts with fewer marks than the steps have in which they stand. -/
theorem StepsText.imp {s : List Char} {sts : List Step} (h : StepsText ctx R s sts)
    (hs : s.count '@' ≤ n) : StepsText ctx R' s sts := by
  induction h with
  | nil => exact .nil
  | cons h _ ih =>
      rw [List.count_append] at hs
      exact .cons (h.imp hR (by omega)) (ih (by omega))

end Nesting

theorem StepsText.nested_count_lt {ctx : Context} {s : List Char} {sts : List Step}
    (h : StepsText ctx (PathText ctx) s sts) {depth : Nat} (hdepth : s.count '@' ≤ depth) :
    StepsText ctx (fun t p => PathText ctx t p ∧ t.count '@' < depth) s sts := by
  refine h.imp (n := s.count '@') (fun t p ht hp => ⟨hp, ?_⟩) (Nat.le_refl _)
  omega

/-- **An induction on the derivation of a path** that goes down to the paths inside: a property
holds of a text and its path if it does whenever it holds of all that the arguments denote. -/
theorem PathText.induction_nested {ctx : Context} {motive : List Char → Path → Prop}
    (step : ∀ s sts, StepsText ctx (fun t q => PathText ctx t q ∧ motive t q) s sts → sts ≠ [] →
      motive s ⟨String.ofList s, sts⟩)
    {s : List Char} {p : Path} (h : PathText ctx s p) : motive s p := by
  induction hcount : s.count '@' using Nat.strongRecOn generalizing s p with
  | ind n ih =>
      obtain ⟨hsteps, nonempty⟩ := h
      refine step s _ (hsteps.imp (n := n) ?_ (Nat.le_of_eq hcount)) nonempty
      intro t q ht hq
      exact ⟨hq, ih _ ht hq rfl⟩

/-! ### Lists of steps -/

section Steps

variable {ctx : Context} {R : List Char → Path → Prop}

/-- Steps may be written one list after another. -/
theorem StepsText.append {s t : List Char} {sts more : List Step} (h : StepsText ctx R s sts)
    (hmore : StepsText ctx R t more) : StepsText ctx R (s ++ t) (sts ++ more) := by
  induction h with
  | nil => exact hmore
  | cons h _ ih =>
      rw [List.append_assoc, List.cons_append]
      exact .cons h ih

/-- Only the empty text has no steps. -/
theorem StepsText.eq_nil {s : List Char} {sts : List Step} (h : StepsText ctx R s sts)
    (hsts : sts = []) : s = [] := by
  cases h with
  | nil => rfl
  | cons => cases hsts

theorem TargetText.ne_nil {s : List Char} {t : Target} (h : TargetText ctx s t) : s ≠ [] := by
  cases h <;> simp

theorem StepText.ne_nil {s : List Char} {st : Step} (h : StepText ctx R s st) : s ≠ [] := by
  cases h with
  | plain h => exact h.ne_nil
  | filtered h _ => simp [h.ne_nil]

/-- Every step takes at least one character. -/
theorem StepsText.length_le {s : List Char} {sts : List Step} (h : StepsText ctx R s sts) :
    sts.length ≤ s.length := by
  induction h with
  | nil => exact Nat.le_refl _
  | cons h _ ih =>
      have := List.length_pos_iff.2 h.ne_nil
      simp only [List.length_append, List.length_cons]
      omega

end Steps

end TreePath
