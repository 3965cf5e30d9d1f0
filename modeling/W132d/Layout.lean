import W132d.Peek

/-!
# Records in memory

The fields of a record lie one behind the other, each with a size.

* `Layout.offset`: where a field begins;
* `Layout.disjoint`: different fields have no byte in common;
* `Layout.dvd_offset`: a record without padding;
* `Layout.leBytes`: a number as bytes, and `Layout.numAt_put`, `Layout.numAt_put_of_disjoint`: what
  is read after it was written.
-/

namespace W132d.Layout

open Peek

section Offset

variable {F : Type*} [DecidableEq F] (size : F → ℕ)

/-- Where a field begins. -/
def offset : List F → F → ℕ
  | [], _ => 0
  | f :: fs, g => if g = f then 0 else size f + offset fs g

variable {size} {fs : List F} {f g : F}

theorem offset_cons_of_ne (h : g ≠ f) : offset size (f :: fs) g = size f + offset size fs g :=
  if_neg h

theorem offset_cons_self : offset size (f :: fs) f = 0 := if_pos rfl

/-- Two fields lie one behind the other. -/
theorem disjoint (hf : f ∈ fs) (hg : g ∈ fs) (hne : f ≠ g) :
    offset size fs f + size f ≤ offset size fs g ∨
      offset size fs g + size g ≤ offset size fs f := by
  induction fs with
  | nil => exact absurd hf List.not_mem_nil
  | cons k fs ih =>
    by_cases hfk : f = k
    · subst hfk
      rw [offset_cons_self, offset_cons_of_ne hne.symm]
      exact .inl (by omega)
    by_cases hgk : g = k
    · subst hgk
      rw [offset_cons_self, offset_cons_of_ne hfk]
      exact .inr (by omega)
    rw [offset_cons_of_ne hfk, offset_cons_of_ne hgk]
    rcases ih (List.mem_of_ne_of_mem hfk hf) (List.mem_of_ne_of_mem hgk hg) with h | h
    · exact .inl (by omega)
    · exact .inr (by omega)

variable (size) in
/-- Whether the width of each field divides where it begins, from a position on. -/
def aligned (width : F → ℕ) : ℕ → List F → Bool
  | _, [] => true
  | pos, f :: fs => pos % width f = 0 && aligned width (pos + size f) fs

theorem dvd_add_offset {width : F → ℕ} {pos : ℕ} (h : aligned size width pos fs) (hf : f ∈ fs) :
    width f ∣ pos + offset size fs f := by
  induction fs generalizing pos with
  | nil => exact absurd hf List.not_mem_nil
  | cons g fs ih =>
    rw [aligned, Bool.and_eq_true, decide_eq_true_eq] at h
    by_cases hfg : f = g
    · subst hfg
      rw [offset_cons_self]
      exact Nat.dvd_of_mod_eq_zero h.1
    · rw [offset_cons_of_ne hfg, ← Nat.add_assoc]
      exact ih h.2 (List.mem_of_ne_of_mem hfg hf)

/-- The width of each field divides where it begins. -/
theorem dvd_offset {width : F → ℕ} (h : aligned size width 0 fs) (hf : f ∈ fs) :
    width f ∣ offset size fs f := by
  have hdvd := dvd_add_offset h hf
  rwa [Nat.zero_add] at hdvd

end Offset

/-! ## Numbers -/

/-- The lowest `width` bytes of a number, the lowest one first. -/
def leBytes : ℕ → ℕ → List UInt8
  | 0, _ => []
  | width + 1, n => UInt8.ofNat n :: leBytes width (n / 256)

variable {mem : ℕ → UInt8} {pos pos' width width' n : ℕ} {bs : List UInt8}

@[simp] theorem length_leBytes (width n : ℕ) : (leBytes width n).length = width := by
  induction width generalizing n with
  | zero => rfl
  | succ width ih => rw [leBytes, List.length_cons, ih]

theorem le_leBytes (width n : ℕ) : Bytes.le (leBytes width n) = n % 256 ^ width := by
  induction width generalizing n with
  | zero => rw [leBytes, pow_zero, Nat.mod_one]; rfl
  | succ width ih =>
    have hmod : n % (256 * 256 ^ width) = n % 256 + 256 * (n / 256 % 256 ^ width) := Nat.mod_mul
    rw [leBytes, Bytes.le_cons, ih, UInt8.toNat_ofNat', pow_succ' 256, hmod]

/-- A number that was written is read. -/
theorem numAt_put (mem : ℕ → UInt8) (pos width n : ℕ) :
    numAt (put mem pos (leBytes width n)) pos width = n % 256 ^ width := by
  have h := bytesAt_put mem (leBytes width n) (le_refl pos)
  rw [Nat.sub_self, Nat.zero_add, length_leBytes] at h
  rw [numAt, h, ← le_leBytes]
  rfl

/-- Bytes that were not written are read as before. -/
theorem numAt_put_of_disjoint (h : pos' + width' ≤ pos ∨ pos + bs.length ≤ pos') :
    numAt (put mem pos bs) pos' width' = numAt mem pos' width' := by
  refine numAt_congr fun i hi => ?_
  rw [put]
  split
  · rename_i hle
    rw [List.getD_eq_getElem?_getD, List.getElem?_eq_none (by omega)]
    rfl
  · rfl

end W132d.Layout
