import Mathlib.Tactic

/-!
# Numbers as bytes

* `Bytes.le`: a number whose lowest byte comes first;
* `Bytes.wordSum`: the sum of the words of two bytes, where an odd byte at the end is a word with
  the one that follows it zero;
* `wordSum_set`: the sum of a stream where a word was written.
-/

namespace W132d.Bytes

/-- A number in little-endian order. -/
def le (bytes : List UInt8) : ℕ := bytes.foldr (fun byte rest => byte.toNat + 256 * rest) 0

variable {byte : UInt8} {bytes : List UInt8} {n : ℕ}

theorem le_cons : le (byte :: bytes) = byte.toNat + 256 * le bytes := rfl

theorem le_lt (h : bytes.length ≤ n) : le bytes < 256 ^ n := by
  induction bytes generalizing n with
  | nil => exact Nat.pow_pos (by decide)
  | cons byte bytes ih =>
    have hne : n ≠ 0 := by
      rintro rfl
      exact absurd h nofun
    obtain ⟨n, rfl⟩ := Nat.exists_eq_succ_of_ne_zero hne
    have hrest := ih (Nat.le_of_succ_le_succ h)
    have hbyte := byte.toNat_lt
    rw [le_cons, pow_succ]
    omega

/-- The sum of the words. -/
def wordSum : List UInt8 → ℕ
  | [] => 0
  | [byte] => byte.toNat
  | byte :: byte' :: bytes => byte.toNat + 256 * byte'.toNat + wordSum bytes

/-- Writing a word. -/
theorem wordSum_set (bytes : List UInt8) (heven : n % 2 = 0) (hlen : n + 2 ≤ bytes.length)
    (low high : UInt8) :
    wordSum ((bytes.set n low).set (n + 1) high) +
        ((bytes.getD n 0).toNat + 256 * (bytes.getD (n + 1) 0).toNat) =
      wordSum bytes + (low.toNat + 256 * high.toNat) := by
  induction bytes using wordSum.induct generalizing n with
  | case1 => exact absurd hlen nofun
  | case2 byte =>
    rw [List.length_singleton] at hlen
    omega
  | case3 byte byte' bytes ih =>
    match n with
    | 0 =>
      change low.toNat + 256 * high.toNat + wordSum bytes + (byte.toNat + 256 * byte'.toNat) =
        byte.toNat + 256 * byte'.toNat + wordSum bytes + _
      omega
    | 1 => exact absurd heven Nat.one_ne_zero
    | n + 2 =>
      rw [List.length_cons, List.length_cons] at hlen
      have hrest := ih (n := n) (by omega) (by omega)
      change byte.toNat + 256 * byte'.toNat + wordSum ((bytes.set n low).set (n + 1) high) +
          ((bytes.getD n 0).toNat + 256 * (bytes.getD (n + 1) 0).toNat) =
        byte.toNat + 256 * byte'.toNat + wordSum bytes + _
      omega

theorem wordSum_eq_zero_iff : wordSum bytes = 0 ↔ ∀ byte ∈ bytes, byte = 0 := by
  induction bytes using wordSum.induct with
  | case1 => simp [wordSum]
  | case2 byte =>
    rw [wordSum, List.forall_mem_singleton]
    exact ⟨fun h => UInt8.toNat_inj.1 h, fun h => h ▸ rfl⟩
  | case3 byte byte' bytes ih =>
    have hzero : ∀ b : UInt8, b.toNat = 0 ↔ b = 0 := fun b =>
      ⟨fun h => UInt8.toNat_inj.1 h, fun h => h ▸ rfl⟩
    rw [wordSum, List.forall_mem_cons, List.forall_mem_cons, ← ih, ← hzero, ← hzero]
    omega

end W132d.Bytes
