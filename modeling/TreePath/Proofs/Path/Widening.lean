/-
**Wider contexts.**

A context is widened by letting all its conditions accept arguments of all kinds.  Names, numbers
of arguments and descendant steps stay as they are, so what is a path in the context is one in the
wider context as well; but a number, say, can then stand wherever an argument is missing.

Main definitions:

* `Condition.widened`, `Context.widened` — all kinds of arguments everywhere.

Main results:

* `accepts_widened_iff` — a widened condition asks for a number of arguments only;
* `StepText.widen`, `StepsText.widen`, `PathText.widen` — **paths stay paths** in a wider context.
-/

import TreePath.Proofs.Path.Grammar

set_option relaxedAutoImplicit false
set_option autoImplicit false

namespace TreePath

/-! ### Widening -/

/-- The set of all kinds. -/
def KindSet.all : KindSet := ofPredicate fun _ => true

@[simp] theorem KindSet.contains_all (k : Kind) : all.contains k = true := contains_ofPredicate _ k

/-- The condition that accepts as many arguments, of any kinds. -/
def Condition.widened (c : Condition) : Condition :=
  { c with signature := c.signature.map fun _ => .all }

@[simp] theorem Condition.arity_widened (c : Condition) : c.widened.arity = c.arity :=
  List.length_map _

namespace Context

/-- The context whose conditions accept arguments of any kinds. -/
def widened (ctx : Context) : Context where
  conditions := ctx.conditions.map fun e => (e.1, e.2.widened)
  descendants := ctx.descendants
  ascending := by
    rw [Entries.Ascending, List.map_map]
    exact ctx.ascending
  named := by
    intro e he
    obtain ⟨d, hd, rfl⟩ := List.mem_map.1 he
    exact ctx.named d hd

theorem find?_widened (ctx : Context) (name : String) :
    ctx.widened.find? name = (ctx.find? name).map Condition.widened := by
  rw [find?, Entries.find?, widened, List.find?_map, Option.map_map, find?, Entries.find?,
    Option.map_map]
  rfl

end Context

/-- A widened condition asks for a number of arguments only. -/
theorem accepts_widened_iff {c : Condition} {as : List Argument} :
    Accepts c.widened.signature as ↔ as.length = c.arity := by
  rw [Accepts, List.forall₂_iff_get]
  simp [Condition.widened, Condition.arity, eq_comm]

/-! ### What is written for a wider context -/

section Wider

variable {ctx : Context} {R R' : List Char → Path → Prop} (hR : ∀ s p, R s p → ∃ q, R' s q)

include hR

theorem ArgumentText.widen {s : List Char} {a : Argument} (h : ArgumentText R s a) :
    ∃ b, ArgumentText R' s b := by
  cases h with
  | path h =>
      obtain ⟨q, hq⟩ := hR _ _ h
      exact ⟨_, .path hq⟩
  | string hmark closed => exact ⟨_, .string hmark closed⟩
  | integer h => exact ⟨_, .integer h⟩
  | float h => exact ⟨_, .float h⟩

theorem ArgumentsText.widen {s : List Char} {as : List Argument} (h : ArgumentsText R s as) :
    ∃ bs, ArgumentsText R' s bs ∧ bs.length = as.length := by
  induction h with
  | last h hafter =>
      obtain ⟨b, hb⟩ := h.widen hR
      exact ⟨[b], .last hb hafter, rfl⟩
  | cons h hafter hbefore _ ih =>
      obtain ⟨b, hb⟩ := h.widen hR
      obtain ⟨bs, hbs, hlength⟩ := ih
      exact ⟨b :: bs, .cons hb hafter hbefore hbs, congrArg (· + 1) hlength⟩

theorem ArgumentListText.widen {s : List Char} {as : List Argument}
    (h : ArgumentListText R s as) :
    ∃ bs, ArgumentListText R' s bs ∧ bs.length = as.length := by
  cases h with
  | empty => exact ⟨[], .empty, rfl⟩
  | given h =>
      obtain ⟨bs, hbs, hlength⟩ := h.widen hR
      exact ⟨bs, .given hbs, hlength⟩

theorem FilterText.widen {s : List Char} {f : Filter} (h : FilterText ctx R s f) :
    ∃ g, FilterText ctx.widened R' s g := by
  cases h with
  | @mk _ _ _ _ _ _ _ _ _ c as hsp₁ hmark hsp₂ hname hsp₃ hsp₄ hargs hsp₅ registered accepts =>
      obtain ⟨bs, hbs, hlength⟩ := hargs.widen hR
      refine ⟨⟨c.widened, _, bs⟩, .mk hsp₁ hmark hsp₂ hname hsp₃ hsp₄ hbs hsp₅ ?_ ?_⟩
      · rw [Context.find?_widened, registered]
        rfl
      · rw [accepts_widened_iff, hlength, Condition.arity, List.Forall₂.length_eq accepts]

omit hR in
theorem TargetText.widen {s : List Char} {t : Target} (h : TargetText ctx s t) :
    TargetText ctx.widened s t := by
  cases h with
  | child h => exact .child h
  | descendant allowed h => exact .descendant allowed h
  | item h => exact .item h

theorem StepText.widen {s : List Char} {st : Step} (h : StepText ctx R s st) :
    ∃ st', StepText ctx.widened R' s st' := by
  cases h with
  | plain h => exact ⟨_, .plain h.widen⟩
  | filtered h hf =>
      obtain ⟨g, hg⟩ := hf.widen hR
      exact ⟨_, .filtered h.widen hg⟩

theorem StepsText.widen {s : List Char} {sts : List Step} (h : StepsText ctx R s sts) :
    ∃ sts', StepsText ctx.widened R' s sts' ∧ sts'.length = sts.length := by
  induction h with
  | nil => exact ⟨[], .nil, rfl⟩
  | cons h _ ih =>
      obtain ⟨st, hst⟩ := h.widen hR
      obtain ⟨sts, hsts, hlength⟩ := ih
      exact ⟨st :: sts, .cons hst hsts, congrArg (· + 1) hlength⟩

end Wider

/-- **Paths stay paths in a wider context.** -/
theorem PathText.widen {ctx : Context} {s : List Char} {p : Path} (h : PathText ctx s p) :
    ∃ q, PathText ctx.widened s q := by
  refine h.induction_nested (motive := fun s _ => ∃ q, PathText ctx.widened s q)
    fun s sts hsteps nonempty => ?_
  obtain ⟨sts', hsts, hlength⟩ := hsteps.widen fun _ _ h => h.2
  refine ⟨_, .mk hsts ?_⟩
  rintro rfl
  exact nonempty (List.length_eq_zero_iff.1 hlength.symm)

end TreePath
