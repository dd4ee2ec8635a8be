/-
**Totals over lists.**

The total of a measure over a list is the sum of the measures of its elements.  Sizes of trees,
weights of searches and lengths of texts are totals.

Main definitions:

* `total`.

Main results:

* `total_append`, `total_map`, `total_add` — how a total splits;
* `total_le_of_sublist`, `le_total_of_mem` — a part has at most the total of the whole.
-/

set_option autoImplicit false
set_option relaxedAutoImplicit false

namespace TreePath

variable {α β : Type}

/-- The sum of a measure over a list. -/
def total (f : α → Nat) : List α → Nat
  | [] => 0
  | a :: as => f a + total f as

@[simp] theorem total_nil (f : α → Nat) : total f [] = 0 := rfl

@[simp] theorem total_cons (f : α → Nat) (a : α) (as : List α) :
    total f (a :: as) = f a + total f as := rfl

@[simp] theorem total_append (f : α → Nat) (as bs : List α) :
    total f (as ++ bs) = total f as + total f bs := by
  induction as with
  | nil => simp
  | cons a as ih => simp [ih, Nat.add_assoc]

@[simp] theorem total_map (f : β → Nat) (g : α → β) (as : List α) :
    total f (as.map g) = total (fun a => f (g a)) as := by
  induction as with
  | nil => rfl
  | cons a as ih => simp [ih]

/-- The total of a sum is the sum of the totals. -/
theorem total_add (f g : α → Nat) (as : List α) :
    total (fun a => f a + g a) as = total f as + total g as := by
  induction as with
  | nil => rfl
  | cons a as ih => simp only [total_cons, ih]; omega

/-- Part of a list has at most the total of all of it. -/
theorem total_le_of_sublist (f : α → Nat) {as bs : List α} (h : as.Sublist bs) :
    total f as ≤ total f bs := by
  induction h with
  | slnil => exact Nat.le_refl _
  | cons b _ ih => exact Nat.le_trans ih (Nat.le_add_left _ _)
  | cons_cons b _ ih => exact Nat.add_le_add_left ih _

/-- An element measures at most the total. -/
theorem le_total_of_mem (f : α → Nat) {a : α} {as : List α} (h : a ∈ as) : f a ≤ total f as := by
  have := total_le_of_sublist f (List.singleton_sublist.2 h)
  simpa using this

end TreePath
