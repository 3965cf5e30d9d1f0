import W132d.Bytes
import W132d.Crc

/-!
# The checksum of the configuration

The configuration of the radio goes to the firmware by sections, each with a checksum behind it
(`CRC16` and `sprdwl_down_ini_cmd` in `cmdevt.c`).

* `CRC_table`, `CRC16`, `sprdwl_down_ini_cmd`: the functions. The table has the shifts of four bits;
* `CRC16_eq_run`: the checksum is that of the bits of a section one by one;
* `CRC16_detects`: it tells each burst of sixteen bits.
-/

namespace W132d.Cmd.Ini

open Crc

/-- The table of four bits at a time. -/
def CRC_table : List UInt16 :=
  [0x0000, 0xCC01, 0xD801, 0x1400, 0xF001, 0x3C00,
   0x2800, 0xE401, 0xA001, 0x6C00, 0x7800, 0xB401,
   0x5000, 0x9C01, 0x8801, 0x4400]

/-- The body of the loop of `CRC16`. -/
def nibbles (CRC : UInt16) (ch_char : UInt8) : UInt16 :=
  let CRC := CRC_table.getD ((ch_char.toUInt16 ^^^ CRC) &&& 15).toNat 0 ^^^ (CRC >>> 4)
  CRC_table.getD (((ch_char >>> 4).toUInt16 ^^^ CRC) &&& 15).toNat 0 ^^^ (CRC >>> 4)

/-- The checksum of the first bytes of a buffer. -/
def CRC16 (buf : List UInt8) (len : UInt16) : UInt16 :=
  (buf.take len.toNat).foldl nibbles 0xFFFF

/-- The data of the message: the number of the section, the section and its checksum, whose length
    is cut to sixteen bits. -/
def sprdwl_down_ini_cmd (data : List UInt8) (sec_num : UInt8) : List UInt8 :=
  let CRC := CRC16 data (UInt16.ofNat data.length)
  [sec_num, 0, 0, 0] ++ data ++ [CRC.toUInt8, (CRC >>> 8).toUInt8]

/-! ## Bit by bit -/

/-- The polynomial of the check, from the lowest bit on. -/
def polynomial : BitVec 16 := 0xA001

/-- The bits of a buffer, the lowest one of each byte first. -/
def bits (buf : List UInt8) : List Bool :=
  buf.flatMap fun byte => (List.range 8).map byte.toBitVec.getLsbD

variable {buf buf' : List UInt8} {byte : UInt8} {CRC : UInt16}

/-- The table has what four steps come to. -/
theorem CRC_table_eq : ∀ i < 2 ^ 4,
    (CRC_table.getD i 0).toBitVec = (step polynomial)^[4] (BitVec.ofNat 16 i) := by
  decide

/-- Four shifts of the state with the next bits in it, of which the lowest four fall out. -/
theorem iterate_step_four (CRC d : UInt16) :
    (step polynomial)^[4] (CRC.toBitVec ^^^ d.toBitVec) =
      (CRC_table.getD ((d ^^^ CRC) &&& 15).toNat 0 ^^^ (CRC >>> 4)).toBitVec ^^^
        d.toBitVec >>> 4 := by
  have hlow : ((d ^^^ CRC) &&& 15).toNat = (CRC.toBitVec ^^^ d.toBitVec).toNat % 2 ^ 4 := by
    rw [UInt16.toNat_and, ← UInt16.toNat_toBitVec (d ^^^ CRC), UInt16.toBitVec_xor,
      BitVec.xor_comm]
    exact Nat.and_two_pow_sub_one_eq_mod _ 4
  rw [iterate_step, hlow, ← CRC_table_eq _ (Nat.mod_lt _ (by decide)),
    BitVec.ushiftRight_xor_distrib, UInt16.toBitVec_xor, UInt16.toBitVec_shiftRight,
    ← BitVec.xor_assoc]
  rfl

/-- A byte is made of its bits. -/
theorem ofBits_byte (byte : UInt8) :
    (ofBits ((List.range 8).map byte.toBitVec.getLsbD) : BitVec 16) = byte.toUInt16.toBitVec := by
  refine BitVec.eq_of_getLsbD_eq fun i hi => ?_
  rw [ofBits_getLsbD, UInt8.toBitVec_toUInt16, BitVec.getLsbD_setWidth]
  by_cases hbyte : i < 8
  · simp [hbyte]
  · simp [hbyte, BitVec.getLsbD_of_ge byte.toBitVec i (by omega)]

/-- The upper half of a byte. -/
theorem upper (byte : UInt8) :
    byte.toUInt16.toBitVec >>> 4 = (byte >>> 4).toUInt16.toBitVec ∧
      (byte >>> 4).toUInt16.toBitVec >>> 4 = 0#16 := by
  have hbyte := byte.toNat_lt
  constructor
  · refine BitVec.eq_of_toNat_eq ?_
    simp
  · refine BitVec.eq_of_toNat_eq ?_
    simp [Nat.shiftRight_eq_div_pow]
    omega

/-- A byte of the buffer, by its bits. -/
theorem nibbles_eq_run (CRC : UInt16) (byte : UInt8) :
    (nibbles CRC byte).toBitVec = run polynomial CRC.toBitVec (bits [byte]) := by
  rw [bits, List.flatMap_singleton, run_eq _ _ (by simp), ofBits_byte, List.length_map,
    List.length_range, Function.iterate_add_apply _ 4 4, iterate_step_four, (upper byte).1,
    iterate_step_four, (upper byte).2, BitVec.xor_zero, nibbles]

/-- The bits of one more byte. -/
theorem bits_cons (byte : UInt8) (buf : List UInt8) :
    bits (byte :: buf) = bits [byte] ++ bits buf := by
  simp [bits]

/-- The loop. -/
theorem foldl_nibbles (CRC : UInt16) (buf : List UInt8) :
    (buf.foldl nibbles CRC).toBitVec = run polynomial CRC.toBitVec (bits buf) := by
  induction buf generalizing CRC with
  | nil => rfl
  | cons byte buf ih =>
    rw [List.foldl_cons, ih, nibbles_eq_run, bits_cons byte buf, run_append]

theorem CRC16_eq_run (h : buf.length < 65536) :
    (CRC16 buf (UInt16.ofNat buf.length)).toBitVec = run polynomial 0xFFFF (bits buf) := by
  rw [CRC16, UInt16.toNat_ofNat_of_lt' h, List.take_length, foldl_nibbles]
  rfl

/-! ## Bursts -/

/-- There are eight bits in a byte. -/
theorem bits_length (buf : List UInt8) : (bits buf).length = 8 * buf.length := by
  induction buf with
  | nil => rfl
  | cons byte buf ih =>
    have hbyte : (bits [byte]).length = 8 := by simp [bits]
    rw [bits_cons, List.length_append, ih, List.length_cons, hbyte]
    omega

theorem bits_injective : Function.Injective bits := by
  intro buf buf' h
  induction buf generalizing buf' with
  | nil =>
    have hlen := congrArg List.length h
    rw [bits_length, bits_length, List.length_nil] at hlen
    exact (List.length_eq_zero_iff.1 (by omega)).symm
  | cons byte buf ih =>
    cases buf' with
    | nil =>
      have hlen := congrArg List.length h
      rw [bits_length, bits_length, List.length_cons, List.length_nil] at hlen
      omega
    | cons byte' buf' =>
      rw [bits_cons byte, bits_cons byte'] at h
      obtain ⟨hbits, hrest⟩ := List.append_inj h (by rw [bits_length, bits_length]; rfl)
      have hbyte : byte.toUInt16.toBitVec = byte'.toUInt16.toBitVec := by
        rw [bits, bits, List.flatMap_singleton, List.flatMap_singleton] at hbits
        rw [← ofBits_byte, ← ofBits_byte, hbits]
      have hnat := congrArg BitVec.toNat hbyte
      simp only [UInt16.toNat_toBitVec, UInt8.toNat_toUInt16] at hnat
      rw [UInt8.toNat_inj.1 hnat, ih hrest]

/-- The buffers differ, and only in sixteen bits from the `k`-th one. -/
def Burst (k : ℕ) (buf buf' : List UInt8) : Prop :=
  buf.length = buf'.length ∧ buf ≠ buf' ∧ (bits buf).take k = (bits buf').take k ∧
    (bits buf).drop (k + 16) = (bits buf').drop (k + 16)

/-- A burst of errors changes the check. -/
theorem CRC16_ne {k : ℕ} (h : buf.length < 65536) (hburst : Burst k buf buf') :
    CRC16 buf (UInt16.ofNat buf.length) ≠ CRC16 buf' (UInt16.ofNat buf'.length) := by
  obtain ⟨hlen, hne, htake, hdrop⟩ := hburst
  intro heq
  have hrun : run polynomial 0xFFFF (bits buf) = run polynomial 0xFFFF (bits buf') := by
    rw [← CRC16_eq_run h, ← CRC16_eq_run (hlen ▸ h), heq]
  have hsplit : ∀ bs : List Bool, bs = bs.take k ++ (bs.drop k).take 16 ++ bs.drop (k + 16) := by
    intro bs
    rw [List.append_assoc, ← List.drop_drop, List.take_append_drop, List.take_append_drop]
  rw [hsplit (bits buf), hsplit (bits buf'), htake, hdrop] at hrun
  refine run_ne (by decide) _ _ _ ?_ ?_ ?_ hrun
  · simp [bits_length, hlen]
  · simp
  · intro hmid
    refine hne (bits_injective ?_)
    rw [hsplit (bits buf), hsplit (bits buf'), htake, hdrop, hmid]

/-- The check is behind the data. -/
theorem drop_down_ini (data : List UInt8) (sec_num : UInt8) :
    (sprdwl_down_ini_cmd data sec_num).drop (4 + data.length) =
      [(CRC16 data (UInt16.ofNat data.length)).toUInt8,
        (CRC16 data (UInt16.ofNat data.length) >>> 8).toUInt8] := by
  rw [sprdwl_down_ini_cmd]
  refine List.drop_left' ?_
  rw [List.length_append]
  rfl

theorem tail_inj {CRC CRC' : UInt16} (h : [CRC.toUInt8, (CRC >>> 8).toUInt8] =
    [CRC'.toUInt8, (CRC' >>> 8).toUInt8]) : CRC = CRC' := by
  simp only [List.cons.injEq, and_true, ← UInt8.toNat_inj, UInt16.toNat_toUInt8,
    UInt16.toNat_shiftRight] at h
  have hlt := CRC.toNat_lt
  have hlt' := CRC'.toNat_lt
  rw [← UInt16.toNat_inj]
  simp [Nat.shiftRight_eq_div_pow] at h
  omega

/-- The checksum is that of the bits one by one, and a section that a burst has changed has another
    one than the message says. -/
theorem CRC16_detects (buf : List UInt8) (h : buf.length < 65536) :
    (CRC16 buf (UInt16.ofNat buf.length)).toBitVec = run polynomial 0xFFFF (bits buf) ∧
      ∀ buf' k, Burst k buf buf' →
        CRC16 buf (UInt16.ofNat buf.length) ≠ CRC16 buf' (UInt16.ofNat buf'.length) ∧
        ∀ sec_num, (sprdwl_down_ini_cmd buf sec_num).drop (4 + buf.length) ≠
          (sprdwl_down_ini_cmd buf' sec_num).drop (4 + buf'.length) := by
  refine ⟨CRC16_eq_run h, ?_⟩
  intro buf' k hburst
  have hne := CRC16_ne h hburst
  refine ⟨hne, ?_⟩
  intro sec_num htail
  rw [drop_down_ini, drop_down_ini] at htail
  exact hne (tail_inj htail)

theorem CRC16_detects_bytes :
    (CRC16 [0x31, 0x32] 2).toBitVec = run polynomial 0xFFFF (bits [0x31, 0x32]) ∧
      CRC16 [0x31, 0x32] 2 ≠ CRC16 [0x32, 0x33] 2 :=
  have h := CRC16_detects [0x31, 0x32] (by decide)
  ⟨h.1, (h.2 [0x32, 0x33] 0 ⟨rfl, by decide, rfl, rfl⟩).1⟩

end W132d.Cmd.Ini
