import W132d.Bytes
import W132d.OnesComplement

/-!
# The checksum

`do_csum` in `tx_msg.c` adds up the words of a buffer in one's complement, as the checksums of the
Internet protocols need it. It reads the memory at aligned addresses: after a byte at an odd address
and a half word come words of 32 bits, whose sum wraps around with the carry of each addition, then
a half word and a byte. If the first byte was at an odd address, all the bytes were on the wrong
side, and the sum is swapped.

* `IpSummed`: who has seen to the checksum of a frame;
* `from32to16`, `doCsum`: the functions;
* `Words.turn`: a turn of the loop over the words of 32 bits, and `Words.turn_carry`: no carry of it
  is lost;
* `doCsum_same`: the sum is that of the words of the buffer, as a one's complement number;
* `doCsum_correct`: what a caller may rely on.

The machine is little-endian.

How the theorem is proved: two numbers are the same one's complement number if they are congruent
modulo 2 ^ 16 - 1, and both or neither of them are zero (`W132d.OnesComplement`). Adding with an
end-around carry keeps this, and so does folding the upper half onto the lower one. A word of 32
bits counts as its two halves, as 2 ^ 16 is 1 for this congruence, and swapping the bytes is a
multiplication by 2 ^ 8. So each part of the function adds to `result` what it takes from the buffer
(`total`), and in the end nothing is left of this.

In the loop, a carry that was not added yet is one more variable. It is 0 or 1, and there is always
room for it in the sum that has set it (`Words.turn_carry`).
-/

namespace W132d

open Bytes OnesComplement

/-- `ip_summed`. -/
inductive IpSummed
  | checksumNone
  | checksumUnnecessary
  | checksumComplete
  | checksumPartial
  deriving DecidableEq

/-- `from32to16`. -/
def from32to16 (x : UInt32) : UInt16 :=
  let x := (x &&& (0xffff : UInt32)) + (x >>> 16)
  let x := (x &&& (0xffff : UInt32)) + (x >>> 16)
  x.toUInt16

/-- `*(unsigned short *) buff`. -/
def load16 (buff : List UInt8) : UInt32 := .ofNat (le (buff.take 2))

/-- `*(unsigned int *) buff`. -/
def load32 (buff : List UInt8) : UInt32 := .ofNat (le (buff.take 4))

/-- The variables of the loop of `do_csum`. -/
structure Words where
  buff : List UInt8
  result : UInt32
  carry : UInt32

/-- A turn of the loop. -/
def Words.turn (s : Words) : Words :=
  let w := load32 s.buff
  let result := s.result + s.carry
  let result := result + w
  ⟨s.buff.drop 4, result, if w > result then 1 else 0⟩

/-- The variables of `do_csum`: the address in `buff`, the memory from there on, `len` and
    `result`. -/
structure Csum where
  addr : ℕ
  buff : List UInt8
  len : ℕ
  result : UInt32

namespace Csum

/-- The byte at an odd address. -/
def peel (s : Csum) : Csum :=
  if s.addr % 2 = 1 then
    ⟨s.addr + 1, s.buff.drop 1, s.len - 1, s.result + ((s.buff.getD 0 0).toUInt32 <<< 8)⟩
  else s

/-- The half word before the words. -/
def align (s : Csum) : Csum :=
  if s.addr / 2 % 2 = 1 then ⟨s.addr + 2, s.buff.drop 2, s.len - 2, s.result + load16 s.buff⟩
  else s

/-- The words. -/
def words (s : Csum) : Csum :=
  if 4 ≤ s.len then
    let t := Words.turn^[s.len / 4] ⟨s.buff, s.result, 0⟩
    let result := t.result + t.carry
    { s with buff := t.buff, result := (result &&& (0xffff : UInt32)) + (result >>> 16) }
  else s

/-- The half word after the words. -/
def half (s : Csum) : Csum :=
  if s.len / 2 % 2 = 1 then { s with buff := s.buff.drop 2, result := s.result + load16 s.buff }
  else s

/-- The last byte. -/
def last (s : Csum) : UInt32 :=
  if s.len % 2 = 1 then s.result + (s.buff.getD 0 0).toUInt32 else s.result

end Csum

/-- The two bytes of a number, swapped. -/
def swapBytes (result : UInt32) : UInt32 :=
  ((result >>> 8) &&& (0xff : UInt32)) ||| ((result &&& (0xff : UInt32)) <<< 8)

/-- `do_csum`, for the bytes from an address on. -/
def doCsum (buff : ℕ) (data : List UInt8) : UInt32 :=
  if data.length = 0 then 0
  else
    let s := (Csum.mk buff data data.length 0).peel
    let s := if 2 ≤ s.len then s.align.words.half else s
    let result := (from32to16 s.last).toUInt32
    if buff % 2 = 1 then swapBytes result else result

/-! ## Loads -/

variable {buff data : List UInt8} {n : ℕ} {s : Csum} {x : UInt32}

theorem load16_toNat (buff : List UInt8) : (load16 buff).toNat = le (buff.take 2) := by
  have h := le_lt (n := 2) (List.length_take_le 2 buff)
  rw [load16, UInt32.toNat_ofNat']
  omega

theorem load32_toNat (buff : List UInt8) : (load32 buff).toNat = le (buff.take 4) := by
  have h := le_lt (n := 4) (List.length_take_le 4 buff)
  rw [load32, UInt32.toNat_ofNat']
  omega

/-- The half word at the front of the memory is its first word. -/
theorem wordSum_load16 (h : 2 ≤ buff.length) :
    (load16 buff).toNat + wordSum (buff.drop 2) = wordSum buff := by
  rw [load16_toNat]
  match buff, h with
  | byte :: byte' :: buff, _ =>
    rw [wordSum, List.take_succ_cons, List.take_succ_cons, List.take_zero, le_cons, le_cons]
    simp [le]

/-- A word of 32 bits counts for two of 16 bits. -/
theorem wordSum_load32 (h : 4 ≤ buff.length) :
    Same 65535 ((load32 buff).toNat + wordSum (buff.drop 4)) (wordSum buff) := by
  rw [load32_toNat]
  match buff, h with
  | b₀ :: b₁ :: b₂ :: b₃ :: buff, _ =>
    have hle : le ((b₀ :: b₁ :: b₂ :: b₃ :: buff).take 4) =
        b₀.toNat + 256 * b₁.toNat + 65536 * (b₂.toNat + 256 * b₃.toNat) := by
      simp only [List.take_succ_cons, List.take_zero, le_cons]
      change b₀.toNat + 256 * (b₁.toNat + 256 * (b₂.toNat + 256 * (b₃.toNat + 256 * 0))) = _
      ring
    have hcarry := same_carry (m := 65535) (b := 65536) rfl (by decide) (b₂.toNat + 256 * b₃.toNat)
    have hsame := ((hcarry.add_left (b₀.toNat + 256 * b₁.toNat)).add_right (wordSum buff))
    rw [hle, wordSum, wordSum]
    rw [add_assoc (b₀.toNat + 256 * b₁.toNat) (b₂.toNat + 256 * b₃.toNat)] at hsame
    exact hsame

/-! ## The loop -/

/-- No carry is lost: before a turn, the last carry can be added, and an addition that overflows
    sets the next one. -/
theorem Words.turn_carry {s : Words} (h : s.result.toNat + s.carry.toNat < 2 ^ 32) :
    s.turn.result.toNat + 2 ^ 32 * s.turn.carry.toNat =
        s.result.toNat + s.carry.toNat + (load32 s.buff).toNat ∧
      s.turn.result.toNat + s.turn.carry.toNat < 2 ^ 32 := by
  have hw := (load32 s.buff).toNat_lt
  have hsum : (s.result + s.carry).toNat = s.result.toNat + s.carry.toNat := by
    rw [UInt32.toNat_add, Nat.mod_eq_of_lt h]
  have hresult : s.turn.result.toNat =
      (s.result.toNat + s.carry.toNat + (load32 s.buff).toNat) % 2 ^ 32 := by
    rw [turn, UInt32.toNat_add, hsum]
  have hcarry : s.turn.carry = if s.turn.result.toNat < (load32 s.buff).toNat then 1 else 0 := rfl
  rw [hcarry]
  split
  · rename_i hlt
    change _ + 2 ^ 32 * 1 = _ ∧ _ + 1 < 2 ^ 32
    omega
  · rename_i hle
    change _ + 2 ^ 32 * 0 = _ ∧ _ + 0 < 2 ^ 32
    omega

/-- A turn of the loop keeps the sum. -/
theorem Words.turn_same {s : Words} (h : s.result.toNat + s.carry.toNat < 2 ^ 32)
    (hlen : 4 ≤ s.buff.length) :
    Same 65535 (s.turn.result.toNat + s.turn.carry.toNat + wordSum s.turn.buff)
      (s.result.toNat + s.carry.toNat + wordSum s.buff) := by
  have hturn := (turn_carry h).1
  have hcarry :=
    (same_carry (m := 65535) (b := 2 ^ 32) (by decide) (by decide) s.turn.carry.toNat).symm
  have hword := wordSum_load32 hlen
  have hleft := (hcarry.add_left s.turn.result.toNat).add_right (wordSum (s.buff.drop 4))
  rw [hturn, add_assoc _ (load32 s.buff).toNat] at hleft
  exact hleft.trans (hword.add_left _)

/-- The last carry can be added. -/
theorem Words.turns_lt {s : Words} (h : s.result.toNat + s.carry.toNat < 2 ^ 32) :
    (turn^[n] s).result.toNat + (turn^[n] s).carry.toNat < 2 ^ 32 := by
  induction n with
  | zero => exact h
  | succ n ih =>
    rw [Function.iterate_succ_apply']
    exact (turn_carry ih).2

/-- Turns of the loop keep the sum. -/
theorem Words.turns_same {s : Words} (h : s.result.toNat + s.carry.toNat < 2 ^ 32)
    (hlen : 4 * n ≤ s.buff.length) :
    (turn^[n] s).buff = s.buff.drop (4 * n) ∧
      Same 65535 ((turn^[n] s).result.toNat + (turn^[n] s).carry.toNat + wordSum (turn^[n] s).buff)
        (s.result.toNat + s.carry.toNat + wordSum s.buff) := by
  induction n with
  | zero => exact ⟨rfl, Same.refl _ _⟩
  | succ n ih =>
    obtain ⟨hbuff, hsame⟩ := ih (by omega)
    have hlt := turns_lt (n := n) h
    have hlen' : 4 ≤ (turn^[n] s).buff.length := by
      rw [hbuff, List.length_drop]
      omega
    rw [Function.iterate_succ_apply']
    refine ⟨?_, (turn_same hlt hlen').trans hsame⟩
    rw [turn, hbuff, List.drop_drop, Nat.mul_succ]

/-! ## The rest -/

/-- A number of 32 bits wraps around. -/
theorem fold_toNat (x : UInt32) :
    ((x &&& (0xffff : UInt32)) + (x >>> 16)).toNat = x.toNat % 65536 + x.toNat / 65536 := by
  have hx := x.toNat_lt
  have hlow : (x &&& (0xffff : UInt32)).toNat = x.toNat % 65536 := by
    rw [UInt32.toNat_and]
    exact Nat.and_two_pow_sub_one_eq_mod x.toNat 16
  have hhigh : (x >>> 16).toNat = x.toNat / 65536 := by
    rw [UInt32.toNat_shiftRight]
    exact Nat.shiftRight_eq_div_pow x.toNat 16
  rw [UInt32.toNat_add, hlow, hhigh]
  omega

theorem from32to16_toNat (x : UInt32) : Same 65535 (from32to16 x).toNat x.toNat := by
  have hx := x.toNat_lt
  have hfold := fold_toNat ((x &&& (0xffff : UInt32)) + (x >>> 16))
  have hlow := fold_toNat x
  have hresult : (from32to16 x).toNat = (x.toNat % 65536 + x.toNat / 65536) % 65536 +
      (x.toNat % 65536 + x.toNat / 65536) / 65536 := by
    rw [from32to16, UInt32.toNat_toUInt16, hfold, hlow]
    omega
  rw [hresult]
  have hb : 65536 ≡ 1 [MOD 65535] := rfl
  exact (same_fold hb (by decide) _).trans (same_fold hb (by decide) _)

/-- Swapping the bytes of a one's complement number is a multiplication by 256. -/
theorem swapBytes_toNat (h : x.toNat < 65536) :
    (swapBytes x).toNat < 65536 ∧ Same 65535 (swapBytes x).toNat (256 * x.toNat) := by
  have hhigh : ((x >>> 8) &&& (0xff : UInt32)).toNat = x.toNat / 256 := by
    rw [UInt32.toNat_and, UInt32.toNat_shiftRight]
    change x.toNat >>> 8 &&& 2 ^ 8 - 1 = _
    rw [Nat.and_two_pow_sub_one_eq_mod, Nat.shiftRight_eq_div_pow]
    omega
  have hlow : (x &&& (0xff : UInt32)).toNat = x.toNat % 256 := by
    rw [UInt32.toNat_and]
    exact Nat.and_two_pow_sub_one_eq_mod x.toNat 8
  have hshift : ((x &&& (0xff : UInt32)) <<< 8).toNat = (x.toNat % 256) <<< 8 := by
    rw [UInt32.toNat_shiftLeft, hlow]
    change (x.toNat % 256) <<< 8 % 2 ^ 32 = _
    rw [Nat.shiftLeft_eq]
    omega
  have hswap : (swapBytes x).toNat = 256 * (x.toNat % 256) + x.toNat / 256 := by
    rw [swapBytes, UInt32.toNat_or, hhigh, hshift, Nat.or_comm,
      ← Nat.shiftLeft_add_eq_or_of_lt (by omega), Nat.shiftLeft_eq]
    omega
  rw [hswap]
  refine ⟨by omega, ?_⟩
  have hcarry := (same_carry (m := 65535) (b := 65536) rfl (by decide) (x.toNat / 256)).symm
  have hsum : 256 * x.toNat = 256 * (x.toNat % 256) + 65536 * (x.toNat / 256) := by omega
  rw [hsum]
  exact hcarry.add_left _

/-- A byte before a buffer moves all its bytes to the other side. -/
theorem wordSum_cons (byte : UInt8) (data : List UInt8) :
    Same 65535 (wordSum (byte :: data)) (byte.toNat + 256 * wordSum data) := by
  induction data generalizing byte with
  | nil => exact Same.refl _ _
  | cons byte' data ih =>
    have hcarry := same_carry (m := 65535) (b := 65536) rfl (by decide) (wordSum data)
    have hrest := (ih byte').mul (c := 256) (by decide)
    rw [mul_add, ← mul_assoc] at hrest
    have hsame := (hrest.trans (hcarry.add_left _)).add_left byte.toNat
    rw [← add_assoc] at hsame
    exact hsame.symm

namespace Csum

/-- What was added up, and what is to come. -/
def total (s : Csum) : ℕ := s.result.toNat + wordSum s.buff

theorem align_spec (hlen : s.len = s.buff.length) (htwo : 2 ≤ s.len)
    (hresult : s.result.toNat < 2 ^ 16) :
    s.align.len = s.align.buff.length ∧ s.align.total = s.total ∧
      s.align.result.toNat < 2 ^ 17 := by
  rw [align]
  split
  · have htwo' : 2 ≤ s.buff.length := by omega
    have hload := wordSum_load16 htwo'
    have hword := (load16_toNat s.buff).symm ▸
      le_lt (n := 2) (List.length_take_le 2 s.buff)
    have hsum : (s.result + load16 s.buff).toNat = s.result.toNat + (load16 s.buff).toNat := by
      rw [UInt32.toNat_add]
      omega
    refine ⟨?_, ?_, ?_⟩
    · rw [List.length_drop, hlen]
    · rw [total, total, hsum, add_assoc, hload]
    · rw [hsum]
      omega
  · exact ⟨hlen, rfl, by omega⟩

theorem words_spec (hlen : s.len = s.buff.length) (hresult : s.result.toNat < 2 ^ 17) :
    s.words.len = s.len ∧ s.words.buff.length = s.len % 4 ∧ Same 65535 s.words.total s.total ∧
      s.words.result.toNat < 2 ^ 17 := by
  rw [words]
  split
  · have hcarry : s.result.toNat + (0 : UInt32).toNat < 2 ^ 32 := s.result.toNat_lt
    obtain ⟨hbuff, hsame⟩ := Words.turns_same (s := ⟨s.buff, s.result, 0⟩) (n := s.len / 4)
      hcarry (by dsimp only; omega)
    have hlt := Words.turns_lt (s := ⟨s.buff, s.result, 0⟩) (n := s.len / 4) hcarry
    dsimp only
    generalize Words.turn^[s.len / 4] ⟨s.buff, s.result, 0⟩ = t at hlt hbuff hsame ⊢
    have hsum : (t.result + t.carry).toNat = t.result.toNat + t.carry.toNat := by
      rw [UInt32.toNat_add, Nat.mod_eq_of_lt hlt]
    have hfold := fold_toNat (t.result + t.carry)
    change t.buff = s.buff.drop (4 * (s.len / 4)) at hbuff
    refine ⟨rfl, ?_, ?_, ?_⟩
    · rw [hbuff, List.length_drop]
      omega
    · have hfolded := same_fold (m := 65535) (b := 65536) rfl (by decide) (t.result + t.carry).toNat
      rw [total, total, hfold]
      refine (hfolded.add_right _).trans ?_
      rw [hsum]
      exact hsame
    · rw [hfold]
      have hx := (t.result + t.carry).toNat_lt
      omega
  · exact ⟨rfl, by omega, Same.refl _ _, hresult⟩

theorem half_spec (hlen : s.buff.length = s.len % 4) (hresult : s.result.toNat < 2 ^ 17) :
    s.half.len = s.len ∧ s.half.buff.length = s.len % 2 ∧ s.half.total = s.total ∧
      s.half.result.toNat < 2 ^ 18 := by
  rw [half]
  split
  · have htwo' : 2 ≤ s.buff.length := by omega
    have hload := wordSum_load16 htwo'
    have hword := (load16_toNat s.buff).symm ▸
      le_lt (n := 2) (List.length_take_le 2 s.buff)
    have hsum : (s.result + load16 s.buff).toNat = s.result.toNat + (load16 s.buff).toNat := by
      rw [UInt32.toNat_add]
      omega
    refine ⟨rfl, ?_, ?_, ?_⟩
    · rw [List.length_drop]
      omega
    · rw [total, total, hsum, add_assoc, hload]
    · rw [hsum]
      omega
  · exact ⟨rfl, by omega, rfl, by omega⟩

theorem last_spec (hlen : s.buff.length = s.len % 2) (hresult : s.result.toNat < 2 ^ 18) :
    s.last.toNat = s.total := by
  rw [last, total]
  split
  · obtain ⟨byte, hbuff⟩ := List.length_eq_one_iff.1 (by omega : s.buff.length = 1)
    have hbyte := byte.toNat_lt
    rw [hbuff, UInt32.toNat_add]
    change (s.result.toNat + byte.toNat) % 2 ^ 32 = s.result.toNat + byte.toNat
    omega
  · rw [List.length_eq_zero_iff.1 (by omega : s.buff.length = 0)]
    rfl

/-- From where the address is even, all is added up. -/
theorem rest_same (hlen : s.len = s.buff.length) (hresult : s.result.toNat < 2 ^ 16) :
    Same 65535 (if 2 ≤ s.len then s.align.words.half else s).last.toNat s.total := by
  split
  · rename_i htwo
    obtain ⟨hlen₁, htotal₁, hresult₁⟩ := align_spec hlen htwo hresult
    obtain ⟨hkept, hlen₂, htotal₂, hresult₂⟩ := words_spec hlen₁ hresult₁
    obtain ⟨hkept', hlen₃, htotal₃, hresult₃⟩ := half_spec (by rw [hkept]; exact hlen₂) hresult₂
    rw [last_spec (by rw [hkept']; exact hlen₃) hresult₃, htotal₃, ← htotal₁]
    exact htotal₂
  · rw [last_spec (by omega) (by omega)]
    exact Same.refl _ _

end Csum

/-- The sum of a buffer at an odd address, once the bytes are swapped. -/
theorem swapBytes_same {byte : UInt8}
    (h : Same 65535 x.toNat (256 * byte.toNat + wordSum data)) :
    Same 65535 (swapBytes (from32to16 x).toUInt32).toNat (wordSum (byte :: data)) ∧
      (swapBytes (from32to16 x).toUInt32).toNat < 65536 := by
  have hfold : (from32to16 x).toUInt32.toNat = (from32to16 x).toNat := UInt16.toNat_toUInt32 _
  obtain ⟨hlt, hswap⟩ := swapBytes_toNat (x := (from32to16 x).toUInt32)
    (by rw [hfold]; exact (from32to16 x).toNat_lt)
  refine ⟨hswap.trans ?_, hlt⟩
  rw [hfold]
  have hmul := ((from32to16_toNat x).trans h).mul (c := 256) (by decide)
  rw [mul_add, ← mul_assoc] at hmul
  have hcarry := same_carry (m := 65535) (b := 65536) rfl (by decide) byte.toNat
  exact (hmul.trans (hcarry.add_right _)).trans (wordSum_cons byte data).symm

/-- As a one's complement number, the checksum is the sum of the words. -/
theorem doCsum_same (buff : ℕ) (data : List UInt8) :
    Same 65535 (doCsum buff data).toNat (wordSum data) ∧ (doCsum buff data).toNat < 65536 := by
  rw [doCsum]
  split
  · rename_i hnil
    rw [List.length_eq_zero_iff.1 hnil]
    exact ⟨Same.refl _ _, by decide⟩
  rename_i hne
  dsimp only
  split
  · rename_i hodd
    -- All bytes but the first one are on the wrong side.
    obtain ⟨byte, data, rfl⟩ := List.exists_cons_of_length_pos (Nat.pos_of_ne_zero hne)
    have hpeel : (Csum.mk buff (byte :: data) (byte :: data).length 0).peel =
        ⟨buff + 1, data, data.length, (0 : UInt32) + (byte.toUInt32 <<< 8)⟩ := if_pos hodd
    have hbyte := byte.toNat_lt
    have hshift : ((0 : UInt32) + (byte.toUInt32 <<< 8)).toNat = 256 * byte.toNat := by
      rw [UInt32.zero_add, UInt32.toNat_shiftLeft]
      change byte.toNat <<< 8 % 2 ^ 32 = _
      rw [Nat.shiftLeft_eq]
      omega
    have hrest := Csum.rest_same (s := ⟨buff + 1, data, data.length,
      (0 : UInt32) + (byte.toUInt32 <<< 8)⟩) rfl (by dsimp only; rw [hshift]; omega)
    rw [Csum.total, hshift] at hrest
    rw [hpeel]
    exact swapBytes_same hrest
  · rename_i heven
    have hpeel : (Csum.mk buff data data.length 0).peel = ⟨buff, data, data.length, 0⟩ :=
      if_neg heven
    have hrest := Csum.rest_same (s := ⟨buff, data, data.length, 0⟩) rfl
      (Nat.two_pow_pos 16)
    rw [hpeel, UInt16.toNat_toUInt32]
    refine ⟨(from32to16_toNat _).trans ?_, (from32to16 _).toNat_lt⟩
    rw [Csum.total] at hrest
    have hzero : (0 : UInt32).toNat + wordSum data = wordSum data := Nat.zero_add _
    rw [hzero] at hrest
    exact hrest

/-- For every buffer, wherever it starts: the checksum has 16 bits, is congruent to the sum of the
    words, and is zero exactly if all bytes are. And in the loop over the words of 32 bits, from
    whatever the sum is there, no carry is lost: each turn adds the last carry and a word exactly,
    with an overflow in the next carry, which can always be added. -/
theorem doCsum_correct :
    (∀ buff data, (doCsum buff data).toNat < 65536 ∧
      (doCsum buff data).toNat ≡ wordSum data [MOD 65535] ∧
      (doCsum buff data = 0 ↔ ∀ byte ∈ data, byte = 0)) ∧
    ∀ buff result n,
      let s := Words.turn^[n] ⟨buff, result, 0⟩
      (s.result + s.carry).toNat = s.result.toNat + s.carry.toNat ∧
        s.turn.result.toNat + 2 ^ 32 * s.turn.carry.toNat =
          s.result.toNat + s.carry.toNat + (load32 s.buff).toNat := by
  constructor
  · intro buff data
    obtain ⟨hsame, hlt⟩ := doCsum_same buff data
    refine ⟨hlt, hsame.modEq, ?_⟩
    rw [← wordSum_eq_zero_iff, ← hsame.zero]
    exact UInt32.toNat_inj.symm
  · intro buff result n
    have hlt := Words.turns_lt (s := ⟨buff, result, 0⟩) (n := n) result.toNat_lt
    refine ⟨?_, (Words.turn_carry hlt).1⟩
    rw [UInt32.toNat_add, Nat.mod_eq_of_lt hlt]

/-- Seven bytes from an odd address on. -/
example : doCsum 1 [0x12, 0x34, 0x56, 0x78, 0x9A, 0xBC, 0xDE] = 0x69E1 := by decide

end W132d
