import Mathlib.Tactic

/-!
# Tallies

A *tally* adds up a number for every entry of a table, e.g., the lengths of its lists.

* `tally_update`: writing an entry takes its old number and adds the new one;
* `le_tally`: if no number is negative, the tally is at least that of each entry;
* `add_le_tally`: and at least that of two of them.
-/

namespace W132d

variable {I A : Type*} [Fintype I] {f : A → ℤ} {t : I → A} {a : A} {i : I}

/-- The sum of `f` over the entries of the table `t`. -/
def tally (f : A → ℤ) (t : I → A) : ℤ := ∑ i, f (t i)

/-- Two tables whose entries have the same numbers. -/
theorem tally_congr {B : Type*} {h : B → ℤ} {u : I → B} (heq : ∀ i, f (t i) = h (u i)) :
    tally f t = tally h u := Finset.sum_congr rfl fun i _ => heq i

/-- A table whose entries are all zero. -/
theorem tally_eq_zero (h : ∀ i, f (t i) = 0) : tally f t = 0 :=
  Finset.sum_eq_zero fun i _ => h i

theorem tally_nonneg (h : ∀ i, 0 ≤ f (t i)) : 0 ≤ tally f t :=
  Finset.sum_nonneg fun i _ => h i

theorem le_tally (h : ∀ i, 0 ≤ f (t i)) (i : I) : f (t i) ≤ tally f t :=
  Finset.single_le_sum (f := fun i => f (t i)) (fun i _ => h i) (Finset.mem_univ i)

/-- A table whose entries are at most one. -/
theorem tally_le_card (h : ∀ i, f (t i) ≤ 1) : tally f t ≤ Fintype.card I := by
  have hle := Finset.sum_le_card_nsmul Finset.univ (fun i => f (t i)) 1 fun i _ => h i
  rwa [Finset.card_univ, nsmul_eq_mul, mul_one] at hle

/-- A table of which one entry is written. -/
theorem tally_update [DecidableEq I] :
    tally f (Function.update t i a) = tally f t - f (t i) + f a := by
  have hcomp : (fun k => f (Function.update t i a k)) =
      Function.update (fun k => f (t k)) i (f a) := Function.comp_update f t i a
  rw [tally, tally, hcomp, Finset.sum_update_of_mem (Finset.mem_univ i),
    Finset.sum_eq_add_sum_sdiff_singleton_of_mem (Finset.mem_univ i) fun k => f (t k)]
  ring

/-- A table of which one entry is written with another one of the same number. -/
theorem tally_update_same [DecidableEq I] (h : f a = f (t i)) :
    tally f (Function.update t i a) = tally f t := by
  rw [tally_update, h]
  ring

/-- Two entries of a table without negative numbers. -/
theorem add_le_tally (h : ∀ i, 0 ≤ f (t i)) {j : I} (hne : i ≠ j) :
    f (t i) + f (t j) ≤ tally f t := by
  classical
  have hpair := Finset.sum_le_sum_of_subset_of_nonneg (Finset.subset_univ {i, j}) fun k _ _ => h k
  rwa [Finset.sum_pair hne] at hpair

end W132d
