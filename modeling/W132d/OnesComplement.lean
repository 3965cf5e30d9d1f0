import Mathlib.Tactic

/-!
# One's complement arithmetic

A one's complement number of `k` bits counts modulo `m = 2 ^ k - 1`, and has two zeros, `0` and `m`.
A sum of such numbers wraps around by adding its carry. So a sum is zero only if all its terms are,
and it is `m` if the terms, not all of which are zero, add up to a multiple of `m`.

* `Same m x y`: as one's complement numbers, `x` and `y` are the same, where the two zeros are not;
* `Same.add`, `Same.mul`, `same_fold`, `same_carry`: sums and multiples, and wrapping around;
* `value m x`: the one's complement number that is the same as `x`;
* `value_complement`: adding the complement of a number gives `m`.
-/

namespace W132d.OnesComplement

/-- As one's complement numbers, `x` and `y` are the same. -/
structure Same (m x y : ℕ) : Prop where
  modEq : x ≡ y [MOD m]
  zero : x = 0 ↔ y = 0

variable {m b x x' y y' c : ℕ}

theorem Same.refl (m x : ℕ) : Same m x x := ⟨rfl, Iff.rfl⟩

/-- It does not matter which of two numbers comes first. -/
theorem Same.symm (h : Same m x y) : Same m y x := ⟨h.modEq.symm, h.zero.symm⟩

theorem Same.trans {z : ℕ} (h : Same m x y) (h' : Same m y z) : Same m x z :=
  ⟨h.modEq.trans h'.modEq, h.zero.trans h'.zero⟩

/-- Sums are the same if their parts are. -/
theorem Same.add (h : Same m x y) (h' : Same m x' y') : Same m (x + x') (y + y') :=
  ⟨h.modEq.add h'.modEq, by rw [Nat.add_eq_zero_iff, Nat.add_eq_zero_iff, h.zero, h'.zero]⟩

theorem Same.add_left (c : ℕ) (h : Same m x y) : Same m (c + x) (c + y) := (Same.refl m c).add h

theorem Same.add_right (c : ℕ) (h : Same m x y) : Same m (x + c) (y + c) := h.add (Same.refl m c)

/-- Multiples of the same number are the same. -/
theorem Same.mul (hc : c ≠ 0) (h : Same m x y) : Same m (c * x) (c * y) :=
  ⟨h.modEq.mul_left c, by rw [mul_eq_zero_iff_left hc, mul_eq_zero_iff_left hc, h.zero]⟩

/-- A power of two that is one more than a multiple of `m` counts as one. -/
theorem same_carry (hb : b ≡ 1 [MOD m]) (hpos : b ≠ 0) (c : ℕ) : Same m (b * c) c := by
  refine ⟨?_, ?_⟩
  · have h := hb.mul_right c
    rwa [one_mul] at h
  · rw [mul_eq_zero_iff_left hpos]

/-- A number wraps around by adding its carry. -/
theorem same_fold (hb : b ≡ 1 [MOD m]) (hpos : b ≠ 0) (x : ℕ) : Same m (x % b + x / b) x := by
  have h := (same_carry hb hpos (x / b)).symm.add_left (x % b)
  rwa [Nat.mod_add_div] at h

/-- The one's complement number that is the same as `x`. -/
def value (m x : ℕ) : ℕ := if x = 0 then 0 else (x - 1) % m + 1

/-- A value is not above the modulus. -/
theorem value_le (hm : 0 < m) (x : ℕ) : value m x ≤ m := by
  rw [value]
  split
  · exact Nat.zero_le m
  · exact Nat.mod_lt _ hm

theorem value_of_le (h : x ≤ m) : value m x = x := by
  rw [value]
  split
  · rename_i hx
    exact hx.symm
  · rw [Nat.mod_eq_of_lt (by omega)]
    omega

/-- The value of a number is the same as the number. -/
theorem same_value (m x : ℕ) : Same m (value m x) x := by
  rw [value]
  split
  · rename_i hx
    exact hx ▸ Same.refl m 0
  · refine ⟨?_, by omega⟩
    have h := (Nat.mod_modEq (x - 1) m).add_right 1
    rwa [Nat.sub_add_cancel (by omega)] at h

/-- Among the numbers of `k` bits, no two are the same. -/
theorem Same.eq (h : Same m x y) (hx : x ≤ m) (hy : y ≤ m) : x = y := by
  rcases Nat.eq_zero_or_pos x with hzero | hpos
  · rw [hzero, h.zero.1 hzero]
  · have hpos' : 0 < y := Nat.pos_of_ne_zero fun hy => hpos.ne' (h.zero.2 hy)
    have hpred : x - 1 ≡ y - 1 [MOD m] := by
      refine Nat.ModEq.add_right_cancel' 1 ?_
      rw [Nat.sub_add_cancel hpos, Nat.sub_add_cancel hpos']
      exact h.modEq
    have heq := hpred.eq_of_lt_of_lt (by omega) (by omega)
    omega

theorem Same.value_eq (hm : 0 < m) (h : Same m x y) : value m x = value m y :=
  ((same_value m x).trans (h.trans (same_value m y).symm)).eq (value_le hm x) (value_le hm y)

/-- The number that is the same as `x`, among those of `k` bits. -/
theorem Same.eq_value (hm : 0 < m) (h : Same m x y) (hx : x ≤ m) : x = value m y := by
  rw [← h.value_eq hm, value_of_le hx]

/-- Adding the complement of a number gives `m`. -/
theorem value_complement (hm : 0 < m) (h : Same m x y) (hx : x ≤ m) :
    value m (y + (m - x)) = m := by
  have hsame := (h.symm.add_right (m - x)).value_eq hm
  rw [Nat.add_sub_cancel' hx, value_of_le le_rfl] at hsame
  exact hsame

end W132d.OnesComplement
