import Mathlib.Tactic

/-!
# Descents

How often a list does not go up: a *descent* is an element that is not greater than the one before
it.

* `descentsFrom`: the descents of a list behind a given element, and `descents`: those of a list
  alone;
* `descentsFrom_append`: the descents of a list that goes on;
* `descents_le`: an element in front of a list takes none of its descents away.
-/

namespace W132d

variable {α : Type*} [Preorder α] [DecidableLT α] {a : α} {l l' : List α}

/-- The descents of a list behind an element. -/
def descentsFrom : α → List α → ℕ
  | _, [] => 0
  | a, b :: l => (if a < b then 0 else 1) + descentsFrom b l

/-- The descents of a list. -/
def descents : List α → ℕ
  | [] => 0
  | a :: l => descentsFrom a l

/-- The last element of a list that goes on. -/
theorem getLastD_append {α : Type*} {a : α} {l l' : List α} :
    (l ++ l').getLastD a = l'.getLastD (l.getLastD a) := by
  induction l generalizing a with
  | nil => rfl
  | cons b l ih => rw [List.cons_append, List.getLastD_cons, List.getLastD_cons, ih]

theorem descentsFrom_append :
    descentsFrom a (l ++ l') = descentsFrom a l + descentsFrom (l.getLastD a) l' := by
  induction l generalizing a with
  | nil => rw [List.nil_append, descentsFrom, List.getLastD_nil, Nat.zero_add]
  | cons b l ih =>
    rw [List.cons_append, descentsFrom, descentsFrom, ih, List.getLastD_cons, Nat.add_assoc]

theorem descents_le (a : α) (l : List α) : descents l ≤ descentsFrom a l := by
  cases l with
  | nil => exact le_rfl
  | cons b l => exact Nat.le_add_left _ _

end W132d
