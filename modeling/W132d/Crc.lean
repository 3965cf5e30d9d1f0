import Mathlib.Data.BitVec
import Mathlib.Logic.Function.Iterate
import Mathlib.Tactic

/-!
# Cyclic redundancy checks

A reflected check of some width takes the bits of a stream one by one, the lowest one of each byte
first, and shifts its state towards the lowest bit.

* `step`, `feed`, `run`: a shift of the state, the same with a bit of the stream, and with all bits;
* `run_eq`: as many bits as the state has may be written into it first, and shifted out then. A
  table of the shifts of several bits is right for that reason (`iterate_step`);
* `run_ne`: the state after a burst of that many bits tells what the burst was, and so does the
  state after what follows it.

The state and the stream are bits, and everything is linear over the field of two elements, where
`^^^` is the addition (`step_xor`). So the state after a stream with an error is the one without,
and the state that the error alone leaves. A shift is injective if the polynomial has the highest
bit (`step_injective`), so that a state that differs stays different whatever follows, and a burst
that is no longer than the state leaves a state that differs, since it is in the state as it is
before it is shifted out (`run_eq`).
-/

namespace W132d.Crc

variable {w : ℕ} {p s t : BitVec w} {b b' : Bool} {u v v' z : List Bool} {n : ℕ}

/-- The state moves down, and the bit that falls out of it adds the polynomial. -/
def step (p s : BitVec w) : BitVec w := if s.getLsbD 0 then s >>> 1 ^^^ p else s >>> 1

/-- A bit of the stream. -/
def feed (p s : BitVec w) (b : Bool) : BitVec w :=
  if s.getLsbD 0 ^^ b then s >>> 1 ^^^ p else s >>> 1

/-- The state after a stream. -/
def run (p s : BitVec w) (bits : List Bool) : BitVec w := bits.foldl (feed p) s

/-- The bits as they lie in the state. -/
def ofBits : List Bool → BitVec w
  | [] => 0
  | b :: bits => (BitVec.ofBool b).setWidth w ^^^ ofBits bits <<< 1

theorem run_append (p s : BitVec w) (u v : List Bool) : run p s (u ++ v) = run p (run p s u) v :=
  List.foldl_append

/-! ## Shifts are linear -/

theorem step_xor (p s t : BitVec w) : step p (s ^^^ t) = step p s ^^^ step p t := by
  simp only [step, BitVec.getLsbD_xor, BitVec.ushiftRight_xor_distrib]
  cases s.getLsbD 0 <;> cases t.getLsbD 0
  · rfl
  · simp [BitVec.xor_assoc]
  · simp [BitVec.xor_assoc, BitVec.xor_comm p]
  · have h : s >>> 1 ^^^ p ^^^ (t >>> 1 ^^^ p) = s >>> 1 ^^^ t >>> 1 := by
      rw [BitVec.xor_assoc, ← BitVec.xor_assoc p, BitVec.xor_comm p, BitVec.xor_assoc (t >>> 1),
        BitVec.xor_self, BitVec.xor_zero]
    simp [h]

theorem iterate_step_xor (p : BitVec w) (n : ℕ) (s t : BitVec w) :
    (step p)^[n] (s ^^^ t) = (step p)^[n] s ^^^ (step p)^[n] t := by
  induction n generalizing s t with
  | zero => rfl
  | succ n ih => rw [Function.iterate_succ_apply, step_xor, ih, Function.iterate_succ_apply,
      Function.iterate_succ_apply]

/-- Bits that do not reach the end only move. -/
theorem iterate_step_of_low (p : BitVec w) (h : ∀ i < n, s.getLsbD i = false) :
    (step p)^[n] s = s >>> n := by
  induction n with
  | zero => simp
  | succ n ih =>
    have hlow : (s >>> n).getLsbD 0 = false := by
      rw [BitVec.getLsbD_ushiftRight]
      exact h n (Nat.lt_succ_self n)
    rw [Function.iterate_succ_apply', ih fun i hi => h i (Nat.lt_succ_of_lt hi), step, hlow,
      if_neg (by simp), BitVec.shiftRight_add]

/-- The shifts of several bits, of which the ones that fall out may be taken from a table. -/
theorem iterate_step (p s : BitVec w) (n : ℕ) :
    (step p)^[n] s = (step p)^[n] (BitVec.ofNat w (s.toNat % 2 ^ n)) ^^^ s >>> n := by
  set low := BitVec.ofNat w (s.toNat % 2 ^ n)
  have hlow : ∀ i, low.getLsbD i = (decide (i < n) && s.getLsbD i) := by
    intro i
    rw [BitVec.getLsbD_ofNat, Nat.testBit_mod_two_pow]
    by_cases hi : i < w
    · simp [hi, BitVec.testBit_toNat]
    · simp [hi, BitVec.getLsbD_of_ge s i (by omega)]
  have hhigh : (step p)^[n] (s ^^^ low) = s >>> n := by
    rw [iterate_step_of_low p]
    · refine BitVec.eq_of_getLsbD_eq fun i _ => ?_
      simp [BitVec.getLsbD_ushiftRight, hlow]
    · intro i hi
      simp [hlow, hi]
  calc (step p)^[n] s
      = (step p)^[n] (low ^^^ (s ^^^ low)) := by
        rw [BitVec.xor_comm s, ← BitVec.xor_assoc, BitVec.xor_self, BitVec.zero_xor]
    _ = (step p)^[n] low ^^^ s >>> n := by rw [iterate_step_xor, hhigh]

/-! ## Streams -/

theorem feed_eq (hw : 0 < w) (p s : BitVec w) (b : Bool) :
    feed p s b = step p (s ^^^ (BitVec.ofBool b).setWidth w) := by
  have hbit : ((BitVec.ofBool b).setWidth w).getLsbD 0 = b := by
    simp [hw]
  have hshift : ((BitVec.ofBool b).setWidth w) >>> 1 = 0 := by
    refine BitVec.eq_of_getLsbD_eq fun i _ => ?_
    rw [BitVec.getLsbD_ushiftRight, BitVec.getLsbD_setWidth, BitVec.getLsbD_of_ge _ _ (by omega)]
    simp
  rw [feed, step, BitVec.getLsbD_xor, hbit, BitVec.ushiftRight_xor_distrib, hshift]
  simp

theorem ofBits_getLsbD (bits : List Bool) (i : ℕ) :
    (ofBits bits : BitVec w).getLsbD i = (decide (i < w) && bits.getD i false) := by
  induction bits generalizing i with
  | nil => simp [ofBits]
  | cons b bits ih =>
    rw [ofBits, BitVec.getLsbD_xor, BitVec.getLsbD_setWidth, BitVec.getLsbD_shiftLeft, ih]
    cases i with
    | zero => simp
    | succ i =>
      rw [BitVec.getLsbD_of_ge (BitVec.ofBool b) (i + 1) (by omega)]
      by_cases hi : i + 1 < w
      · simp [hi, show i < w by omega]
      · simp [hi]

/-- A stream that the state has room for. -/
theorem run_eq (p s : BitVec w) (h : v.length ≤ w) :
    run p s v = (step p)^[v.length] (s ^^^ ofBits v) := by
  induction v generalizing s with
  | nil => simp [run, ofBits]
  | cons b v ih =>
    rw [List.length_cons] at h
    have hmove : step p (ofBits v <<< 1) = (ofBits v : BitVec w) := by
      refine (iterate_step_of_low (n := 1) p (by simp)).trans ?_
      refine BitVec.eq_of_getLsbD_eq fun i hi => ?_
      rw [BitVec.getLsbD_ushiftRight, BitVec.getLsbD_shiftLeft, ofBits_getLsbD, ofBits_getLsbD]
      by_cases hlast : 1 + i < w
      · simp [hlast, hi]
      · simp [List.getD_eq_getElem?_getD, List.getElem?_eq_none (show v.length ≤ i by omega)]
    have hrun : run p s (b :: v) = run p (feed p s b) v := rfl
    rw [hrun, ih _ (by omega), feed_eq (by omega), List.length_cons, Function.iterate_succ_apply,
      ofBits, ← BitVec.xor_assoc, step_xor p (s ^^^ _), hmove]

/-! ## What the state tells -/

theorem pos_of_msb (hp : p.msb) : 0 < w := by
  refine Nat.pos_of_ne_zero ?_
  rintro rfl
  rw [BitVec.eq_nil p] at hp
  exact absurd hp (by decide)

/-- The polynomial has the highest bit. It tells whether a bit fell out. -/
theorem step_injective (hp : p.msb) : Function.Injective (step p) := by
  intro s t h
  have hw := pos_of_msb hp
  rw [BitVec.msb_eq_getLsbD_last] at hp
  have hmsb : ∀ s : BitVec w, (step p s).getLsbD (w - 1) = s.getLsbD 0 := by
    intro s
    have hout : (s >>> 1).getLsbD (w - 1) = false := by
      rw [BitVec.getLsbD_ushiftRight]
      exact BitVec.getLsbD_of_ge s _ (by omega)
    rw [step]
    cases hs : s.getLsbD 0 <;> simp [hout, hp]
  have hzero : s.getLsbD 0 = t.getLsbD 0 := by rw [← hmsb, h, hmsb]
  have hshift : s >>> 1 = t >>> 1 := by
    rw [step, step, hzero] at h
    split at h
    · exact (BitVec.xor_left_inj p).1 h
    · exact h
  refine BitVec.eq_of_getLsbD_eq fun i _ => ?_
  cases i with
  | zero => exact hzero
  | succ i =>
    have hi := congrArg (fun x => BitVec.getLsbD x i) hshift
    simpa [BitVec.getLsbD_ushiftRight, Nat.add_comm] using hi

theorem feed_injective (hp : p.msb) (b : Bool) : Function.Injective (feed p · b) := by
  intro s t h
  simp only [feed_eq (pos_of_msb hp)] at h
  exact (BitVec.xor_left_inj _).1 (step_injective hp h)

theorem run_injective (hp : p.msb) (z : List Bool) : Function.Injective (run p · z) := by
  induction z with
  | nil => exact fun s t h => h
  | cons b z ih => exact fun s t h => feed_injective hp b (ih h)

theorem ofBits_injective (hlen : v.length = v'.length) (hw : v.length ≤ w)
    (h : (ofBits v : BitVec w) = ofBits v') : v = v' := by
  refine List.ext_getElem hlen fun i hi hi' => ?_
  have hbit : (ofBits v : BitVec w).getLsbD i = (ofBits v' : BitVec w).getLsbD i := by rw [h]
  rw [ofBits_getLsbD, ofBits_getLsbD] at hbit
  simpa [hi, hi', show i < w by omega] using hbit

/-- Streams that differ in a burst that the state has room for. -/
theorem run_ne (hp : p.msb) (s : BitVec w) (u z : List Bool) (hlen : v.length = v'.length)
    (hw : v.length ≤ w) (hne : v ≠ v') : run p s (u ++ v ++ z) ≠ run p s (u ++ v' ++ z) := by
  intro h
  rw [run_append, run_append, run_append p s (u ++ v'), run_append p s u v'] at h
  have hburst := run_injective hp z h
  rw [run_eq p _ hw, run_eq p _ (hlen.symm.trans_le hw), hlen] at hburst
  have hstate := (step_injective hp).iterate _ hburst
  exact hne (ofBits_injective hlen hw ((BitVec.xor_right_inj _).1 hstate))

end W132d.Crc
