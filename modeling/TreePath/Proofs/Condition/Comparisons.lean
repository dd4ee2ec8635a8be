/-
**How the comparisons of numbers agree.**

Five conditions compare a number with a literal: `lt`, `eq`, `gt`, `lte` and `gte`.  The ordering
ones round an integer to the nearest floating point number first, and floating point numbers are
ordered by their place among all numbers.  So does `eq`, except that it compares two integers
exactly.  Therefore the five agree with one another unless two different integers round to the same
number: for these neither of `lt`, `eq` and `gt` holds, but `lte` and `gte` both do.

Main definitions:

* `Builtin.answer?` — what a condition answers for one value and a literal;
* `Builtin.SameRounding` — different integers that round to the same number.

Main results:

* `Binary64.count_order` — of two numbers one is less, or they are equal, or one is greater;
* `Builtin.comparisons_agree` — **the comparisons agree** but for such integers;
* `Builtin.not_comparisons_agree` — two integers for which they do not.
-/

import TreePath.Proofs.Binary64.Nearest
import TreePath.Proofs.Condition.Answers

set_option relaxedAutoImplicit false
set_option autoImplicit false

namespace TreePath

/-! ### The order of numbers -/

namespace Binary64

/-- Of two numbers exactly one thing holds: the first is less, they are equal, or it is greater. -/
theorem count_order {x y : Binary64} (hx : x.isNaN = false) (hy : y.isNaN = false) :
    [x.lt y, x.numEq y, y.lt x].count true = 1 := by
  simp only [lt, numEq, hx, hy, Bool.not_false, Bool.true_and]
  rcases Int.lt_trichotomy x.rank y.rank with h | h | h
  · have hne : ¬x.rank = y.rank := by omega
    have hnot : ¬y.rank < x.rank := by omega
    simp [h, hne, hnot]
  · simp [h]
  · have hne : ¬x.rank = y.rank := by omega
    have hnot : ¬x.rank < y.rank := by omega
    simp [h, hne, hnot]

end Binary64

namespace Builtin

/-! ### Single numbers -/

/-- What a condition of the language answers when a path leads to one value. -/
def answer? (name : String) (v : Value) (literal : Resolved) : Option Bool :=
  (Context.standard.find? name).map fun c => c.test [.candidates [v], literal]

/-- The value and the literal are different integers that round to the same number. -/
def SameRounding (v : Value) (literal : Resolved) : Prop :=
  ∃ n m : Int64, v = .int n ∧ literal = .integer m ∧ n ≠ m ∧
    (Binary64.ofInt n.toInt).numEq (Binary64.ofInt m.toInt) = true

variable {v : Value} {literal : Resolved} {x y : Binary64}

/-- A comparison compares the two numbers. -/
theorem compares_single (compare : Binary64 → Binary64 → Bool) (hx : v.toBinary64? = some x)
    (hy : literal.toBinary64? = some y) :
    compares compare [.candidates [v], literal] = compare x y := by
  have hat : numberAt? [.candidates [v], literal] 1 = some y := hy
  simp only [compares, hat, tested, Resolved.values, List.filterMap_cons, hx, List.filterMap_nil,
    List.any_cons, List.any_nil, Bool.or_false]

/-- A comparison of the language is found under its name. -/
theorem answer?_compares (compare : Binary64 → Binary64 → Bool) {name : String}
    (hname : (name, compare) ∈ comparisons) (hx : v.toBinary64? = some x)
    (hy : literal.toBinary64? = some y) : answer? name v literal = some (compare x y) := by
  have htest : answer? name v literal = some (compares compare [.candidates [v], literal]) := by
    simp only [comparisons, List.mem_cons, List.not_mem_nil, or_false, Prod.mk.injEq] at hname
    rcases hname with ⟨rfl, rfl⟩ | ⟨rfl, rfl⟩ | ⟨rfl, rfl⟩ | ⟨rfl, rfl⟩ <;> rfl
  rw [htest, compares_single compare hx hy]

theorem answer?_eq (v : Value) (literal : Resolved) :
    answer? "eq" v literal = some (sameAsLiteral v literal) :=
  congrArg some (Bool.or_false _)

/-- Numbers are the same as literals by their rounding, unless both are integers, which are then the
same. -/
theorem sameAsLiteral_number (hx : v.toBinary64? = some x) (hy : literal.toBinary64? = some y)
    (hxn : x.isNaN = false) (hsame : ¬SameRounding v literal) :
    sameAsLiteral v literal = x.numEq y := by
  cases v <;> cases literal <;> simp only [Value.toBinary64?, Resolved.toBinary64?,
    Option.some.injEq, reduceCtorEq] at hx hy <;> subst hx hy
  case int.integer n m =>
      by_cases h : n = m
      · subst h
        rw [Binary64.numEq_self hxn]
        exact beq_self_eq_true n
      · have hdiffer : (Binary64.ofInt n.toInt).numEq (Binary64.ofInt m.toInt) = false :=
          Bool.eq_false_iff.2 fun hround => hsame ⟨n, m, rfl, rfl, h, hround⟩
        rw [hdiffer]
        exact beq_eq_false_iff_ne.2 h
  all_goals rfl

/-- Different integers that round to the same number are not the same as literals. -/
theorem SameRounding.sameAsLiteral_eq_false (h : SameRounding v literal) :
    sameAsLiteral v literal = false := by
  obtain ⟨n, m, rfl, rfl, hne, -⟩ := h
  exact beq_eq_false_iff_ne.2 hne

theorem SameRounding.numEq (h : SameRounding v literal) (hx : v.toBinary64? = some x)
    (hy : literal.toBinary64? = some y) : x.numEq y = true := by
  obtain ⟨n, m, rfl, rfl, -, hround⟩ := h
  cases hx
  cases hy
  exact hround

/-! ### Rounding -/

/-- An integer of a value or a literal is rounded to the nearest number, ties to even. -/
theorem roundsToEven_toInt (n : Int64) : (Binary64.ofInt n.toInt).RoundsToEven n.toInt := by
  have hlow := n.le_toInt
  have hhigh := n.toInt_lt
  exact Binary64.roundsToEven_ofInt (by omega)

/-! ### Agreement -/

/-- **The comparisons of one number with a literal agree**: exactly one of `lt`, `eq` and `gt`
holds, and the other two hold when one of their parts does.  Different integers that round to the
same number are apart from this: neither of the three holds for them, but the other two do.  An
integer is rounded to the nearest number, and of two that are as near to the even one. -/
theorem comparisons_agree (v : Value) (literal : Resolved) {x y : Binary64}
    (hx : v.toBinary64? = some x) (hxn : x.isNaN = false)
    (hy : literal.toBinary64? = some y) (hyn : y.isNaN = false) :
    (∃ lt eq gt lte gte : Bool,
      (answer? "lt" v literal = some lt ∧ answer? "eq" v literal = some eq ∧
        answer? "gt" v literal = some gt ∧ answer? "lte" v literal = some lte ∧
        answer? "gte" v literal = some gte) ∧
      (¬SameRounding v literal →
        [lt, eq, gt].count true = 1 ∧ lte = (lt || eq) ∧ gte = (gt || eq)) ∧
      (SameRounding v literal →
        [lt, eq, gt].count true = 0 ∧ lte = true ∧ gte = true)) ∧
    (∀ n, v = .int n → x.RoundsToEven n.toInt) ∧
    ∀ n, literal = .integer n → y.RoundsToEven n.toInt := by
  have hgt := answer?_compares (fun x y => y.lt x) (List.mem_of_getElem? (i := 0) rfl) hx hy
  have hlt := answer?_compares (fun x y => x.lt y) (List.mem_of_getElem? (i := 1) rfl) hx hy
  have hgte := answer?_compares (fun x y => y.le x) (List.mem_of_getElem? (i := 2) rfl) hx hy
  have hlte := answer?_compares (fun x y => x.le y) (List.mem_of_getElem? (i := 3) rfl) hx hy
  refine ⟨⟨x.lt y, sameAsLiteral v literal, y.lt x, x.le y, y.le x,
    ⟨hlt, answer?_eq v literal, hgt, hlte, hgte⟩, fun hsame => ?_, fun hsame => ?_⟩,
    fun n hn => ?_, fun n hn => ?_⟩
  · rw [sameAsLiteral_number hx hy hxn hsame]
    refine ⟨Binary64.count_order hxn hyn, Binary64.le_eq_lt_or_numEq x y, ?_⟩
    rw [Binary64.le_eq_lt_or_numEq, Binary64.numEq_comm]
  · have heq := hsame.numEq hx hy
    have hone := Binary64.count_order hxn hyn
    rw [heq] at hone
    rw [hsame.sameAsLiteral_eq_false, Binary64.le_eq_lt_or_numEq, Binary64.le_eq_lt_or_numEq y,
      Binary64.numEq_comm y, heq, Bool.or_true, Bool.or_true]
    refine ⟨?_, rfl, rfl⟩
    revert hone
    cases x.lt y <;> cases y.lt x <;> decide
  · subst hn
    cases hx
    exact roundsToEven_toInt n
  · subst hn
    cases hy
    exact roundsToEven_toInt n

/-- An integer that is rounded down, and the number with a point that it is rounded to. -/
theorem comparisons_agree_rounded : ∃ x y : Binary64,
    Value.toBinary64? (.int 9007199254740993) = some x ∧ x.isNaN = false ∧
    Resolved.toBinary64? (.float ⟨0x4340000000000000⟩) = some y ∧ y.isNaN = false ∧
    ¬SameRounding (.int 9007199254740993) (.float ⟨0x4340000000000000⟩) ∧
    (∃ lt eq gt : Bool,
      answer? "eq" (.int 9007199254740993) (.float ⟨0x4340000000000000⟩) = some eq ∧ eq = true ∧
      [lt, eq, gt].count true = 1) ∧
    x.RoundsToEven 9007199254740993 := by
  have hsame : ¬SameRounding (.int 9007199254740993) (.float ⟨0x4340000000000000⟩) := by
    rintro ⟨n, m, -, h, -⟩
    cases h
  obtain ⟨⟨lt, eq, gt, lte, gte, ⟨-, heq, -⟩, hone, -⟩, hround, -⟩ :=
    comparisons_agree (.int 9007199254740993) (.float ⟨0x4340000000000000⟩) rfl (by decide +kernel)
      rfl (by decide +kernel)
  have htrue : answer? "eq" (.int 9007199254740993) (.float ⟨0x4340000000000000⟩) = some true := by
    decide +kernel
  exact ⟨_, _, rfl, by decide +kernel, rfl, by decide +kernel, hsame,
    ⟨lt, eq, gt, heq, Option.some.inj (heq.symm.trans htrue), (hone hsame).1⟩,
    hround 9007199254740993 rfl⟩

/-- For two different integers that round to the same number neither of the three holds. -/
theorem not_comparisons_agree :
    answer? "lt" (.int 9007199254740993) (.integer 9007199254740992) = some false ∧
    answer? "eq" (.int 9007199254740993) (.integer 9007199254740992) = some false ∧
    answer? "gt" (.int 9007199254740993) (.integer 9007199254740992) = some false ∧
    answer? "lte" (.int 9007199254740993) (.integer 9007199254740992) = some true ∧
    answer? "gte" (.int 9007199254740993) (.integer 9007199254740992) = some true := by
  decide +kernel

end Builtin

end TreePath
