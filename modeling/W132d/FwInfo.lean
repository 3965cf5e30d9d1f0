import W132d.Peek

/-!
# Information about the firmware

The firmware answers `WIFI_CMD_GET_INFO` with a record of fixed layout, of which older firmware only
has the first sections, and elements behind it (TLVs), each with its type and its length.
`sprdwl_get_fw_info` looks how long the answer is before it takes a section, but computes what is
left of it without a sign, and it reads the length of an element before it knows whether there is
one.

* `Priv`: what the driver keeps;
* `getFwInfo`: what the function does with an answer of `rLen` bytes, and `tlvs`: its loop over the
  elements;
* `Received`: what is kept comes from the answer, and so do the elements;
* `Stops`: the loop comes to an element that it does not take, but whose head is there;
* `fwInfo_received_iff`: where the function is right.

How the theorem is proved: the sections of the record are taken one after the other, each if what is
left of the answer has room for it. What is left is computed without a sign, so that an answer
shorter than the first section seems to be a long one (`left_of_lt`); then fields are kept that were
not received. Otherwise each field that is kept is within the answer (`fields_of_le`), and only the
loop over the elements can read behind it (`behind_iff`).

This loop reads the head of an element before it looks how much is left. It ends at the first
element that does not tell of OTT, so that it reads only received bytes exactly if it comes to the
head of such an element inside of the answer (`tlvs_inside_iff`, by induction on what is left).
-/

namespace W132d.FwInfo

open Peek

/-- `SEC1_LEN`. -/
def sec1Len : ℕ := 24

/-- The size of a `struct wiphy_sec2_t`. -/
def sizeofWiphySec2 : ℕ := 52

/-- `ETH_ALEN`. -/
def ethAlen : ℕ := 6

/-- The size of a `struct sprdwl_cmd_fw_info`. -/
def sizeofFwInfo : ℕ := 83

/-- The size of a `struct sprdwl_tlv_data`. -/
def sizeofTlvData : ℕ := 4

/-- `GET_INFO_TLV_TP_OTT`. -/
def getInfoTlvTpOtt : ℕ := 1

/-- `VERSION_1`. -/
def version1 : UInt8 := 1

/-- `TX_WITH_CREDIT`. -/
def txWithCredit : UInt8 := 0

/-- `OTT_NO_SUPT`. -/
def ottNoSupt : UInt8 := 0

/-- What the driver keeps of the information. -/
structure Priv where
  chipModel : ℕ
  chipVer : ℕ
  fwVer : ℕ
  fwStd : ℕ
  fwCapa : ℕ
  maxApAssocSta : UInt8
  maxAclMacAddrs : UInt8
  maxMcMacAddrs : UInt8
  wnmFtSupport : UInt8
  wiphySec2Flag : UInt32
  wiphySec2 : List UInt8
  macAddr : List UInt8
  creditCapa : UInt8
  ottSupt : UInt8

/-- What is left of the answer behind `lenCount` bytes, without a sign. -/
def left (rLen : UInt16) (lenCount : ℕ) : ℕ := (rLen.toUInt32 - UInt32.ofNat lenCount).toNat

/-- The first section. -/
def section1 (priv : Priv) : Peek Priv := do
  let chipModel ← num 0 4
  let chipVer ← num 4 4
  let fwVer ← num 8 4
  let fwStd ← num 12 4
  let fwCapa ← num 16 4
  let maxApAssocSta ← byte 20
  let maxAclMacAddrs ← byte 21
  let maxMcMacAddrs ← byte 22
  let wnmFtSupport ← byte 23
  return { priv with
    chipModel, chipVer, fwVer, fwStd, fwCapa, maxApAssocSta, maxAclMacAddrs, maxMcMacAddrs
    wnmFtSupport }

/-- The loop over the elements, from the one behind `lenCount` bytes on. -/
def tlvs (rLen : UInt16) (ottSupt : UInt8) (lenCount : ℕ) : Peek UInt8 := do
  let len ← num (lenCount + 2) 2
  if _h : lenCount + sizeofTlvData + len ≤ rLen.toNat then
    let type ← num lenCount 2
    if type = getInfoTlvTpOtt ∧ len = 1 then
      let ottSupt ← byte (lenCount + sizeofTlvData)
      tlvs rLen ottSupt (lenCount + sizeofTlvData + len)
    else return ottSupt
  else return ottSupt
termination_by rLen.toNat - lenCount
decreasing_by
  rw [sizeofTlvData] at *
  omega

/-- Whether the firmware uses credits: it does if it does not say so. -/
def creditCapa (rLen : UInt16) (lenCount : ℕ) : Peek UInt8 :=
  if 1 ≤ left rLen lenCount then byte 82 else return txWithCredit

/-- What is behind the record, of firmware that has it. -/
def version2 (compatVer : UInt8) (rLen : UInt16) (priv : Priv) : Peek Priv :=
  if compatVer = version1 then return { priv with ottSupt := ottNoSupt }
  else do
    let ottSupt ← tlvs rLen priv.ottSupt sizeofFwInfo
    return { priv with ottSupt }

/-- `sprdwl_get_fw_info`, once an answer is there. -/
def getFwInfo (compatVer : UInt8) (rLen : UInt16) (priv : Priv) : Peek Priv := do
  let priv ← section1 priv
  let lenCount := sec1Len
  if sizeofWiphySec2 ≤ left rLen lenCount then
    let wiphySec2 ← bytes 24 sizeofWiphySec2
    let priv := { priv with wiphySec2Flag := 1, wiphySec2 }
    let lenCount := lenCount + sizeofWiphySec2
    if ethAlen ≤ left rLen lenCount then
      let macAddr ← bytes 76 ethAlen
      let creditCapa ← creditCapa rLen (lenCount + ethAlen)
      version2 compatVer rLen { priv with macAddr, creditCapa }
    else return { priv with macAddr := List.replicate ethAlen 0 }
  else return priv

section

variable (mem : ℕ → UInt8) (compatVer : UInt8) (rLen : UInt16)

/-- At a position, there is an element that tells whether OTT is supported. -/
def IsOtt (pos : ℕ) : Prop :=
  numAt mem pos 2 = getInfoTlvTpOtt ∧ numAt mem (pos + 2) 2 = 1 ∧
    pos + sizeofTlvData + 1 ≤ rLen.toNat

/-- What is kept is as before, a default, or from the bytes of its field, which are received then.
    And of what is behind the record, only received bytes are read. -/
structure Received (priv : Priv) : Prop where
  wiphySec2Flag : ((getFwInfo compatVer rLen priv).value mem).wiphySec2Flag = priv.wiphySec2Flag ∨
    sec1Len + sizeofWiphySec2 ≤ rLen.toNat
  macAddr : ((getFwInfo compatVer rLen priv).value mem).macAddr = priv.macAddr ∨
    ((getFwInfo compatVer rLen priv).value mem).macAddr = List.replicate ethAlen 0 ∨
    76 + ethAlen ≤ rLen.toNat ∧
      ((getFwInfo compatVer rLen priv).value mem).macAddr = bytesAt mem 76 ethAlen
  creditCapa : ((getFwInfo compatVer rLen priv).value mem).creditCapa = priv.creditCapa ∨
    ((getFwInfo compatVer rLen priv).value mem).creditCapa = txWithCredit ∨
    82 < rLen.toNat ∧ ((getFwInfo compatVer rLen priv).value mem).creditCapa = mem 82
  ottSupt : ((getFwInfo compatVer rLen priv).value mem).ottSupt = priv.ottSupt ∨
    ((getFwInfo compatVer rLen priv).value mem).ottSupt = ottNoSupt ∨
    ∃ pos, sizeofFwInfo ≤ pos ∧ IsOtt mem rLen pos ∧
      ((getFwInfo compatVer rLen priv).value mem).ottSupt = mem (pos + sizeofTlvData)
  tlvs : Only (fun pos => sizeofFwInfo ≤ pos → pos < rLen.toNat) mem
    (getFwInfo compatVer rLen priv)

/-- From a position on, there are elements that tell whether OTT is supported, and behind them the
    head of an element that does not or is not complete. -/
inductive Stops : ℕ → Prop
  | stop {pos : ℕ} : pos + sizeofTlvData ≤ rLen.toNat → ¬IsOtt mem rLen pos → Stops pos
  | next {pos : ℕ} : IsOtt mem rLen pos → Stops (pos + sizeofTlvData + 1) → Stops pos

end

variable {mem : ℕ → UInt8} {compatVer : UInt8} {rLen : UInt16} {priv : Priv} {pos : ℕ}
  {ottSupt : UInt8}

theorem left_of_le {lenCount : ℕ} (h : lenCount ≤ rLen.toNat) :
    left rLen lenCount = rLen.toNat - lenCount := by
  have hlt := rLen.toNat_lt
  rw [left, UInt32.toNat_sub, UInt32.toNat_ofNat', UInt16.toNat_toUInt32]
  omega

/-- An answer that is too short has the most left. -/
theorem left_of_lt {lenCount : ℕ} (h : rLen.toNat < lenCount) (hlt : lenCount < 2 ^ 16) :
    2 ^ 16 ≤ left rLen lenCount := by
  rw [left, UInt32.toNat_sub, UInt32.toNat_ofNat', UInt16.toNat_toUInt32]
  omega

/-! ## The elements -/

/-- An element that is taken. -/
theorem tlvs_of_isOtt (h : IsOtt mem rLen pos) : (tlvs rLen ottSupt pos).value mem =
      (tlvs rLen (mem (pos + sizeofTlvData)) (pos + sizeofTlvData + 1)).value mem ∧
    ∀ P, Only P mem (tlvs rLen ottSupt pos) ↔ (∀ i < sizeofTlvData + 1, P (pos + i)) ∧
      Only P mem (tlvs rLen (mem (pos + sizeofTlvData)) (pos + sizeofTlvData + 1)) := by
  obtain ⟨htype, hlen, hle⟩ := h
  constructor
  · rw [tlvs]
    simp only [dite_eq_ite, value_num_bind, hlen, hle, htype, and_self, if_true, value_byte_bind]
  · intro P
    rw [tlvs]
    simp only [dite_eq_ite, only_num_bind, only_ite, hlen, htype, and_self, if_true,
      only_byte_bind, sizeofTlvData, Nat.forall_lt_succ_left]
    simp [add_assoc]
    tauto

/-- An element that is not taken. -/
theorem tlvs_of_not (h : ¬IsOtt mem rLen pos) : (tlvs rLen ottSupt pos).value mem = ottSupt ∧
    ∀ P, Only P mem (tlvs rLen ottSupt pos) ↔ P (pos + 2) ∧ P (pos + 3) ∧
      (pos + sizeofTlvData + numAt mem (pos + 2) 2 ≤ rLen.toNat → P pos ∧ P (pos + 1)) := by
  have hnot (hle : pos + sizeofTlvData + numAt mem (pos + 2) 2 ≤ rLen.toNat) :
      ¬(numAt mem pos 2 = getInfoTlvTpOtt ∧ numAt mem (pos + 2) 2 = 1) :=
    fun heq => h ⟨heq.1, heq.2, heq.2 ▸ hle⟩
  rw [tlvs]
  simp only [dite_eq_ite, value_num_bind, value_ite, only_num_bind, only_ite,
    Nat.forall_lt_succ_left]
  split_ifs with hle htaken
  · exact absurd htaken (hnot hle)
  · exact ⟨rfl, fun P => by simp [hle, and_assoc]⟩
  · exact ⟨rfl, fun P => by simp [hle]⟩

/-- What the driver keeps comes from an element that was received. -/
theorem tlvs_ottSupt (ottSupt : UInt8) (pos : ℕ) : (tlvs rLen ottSupt pos).value mem = ottSupt ∨
    ∃ p, pos ≤ p ∧ IsOtt mem rLen p ∧
      (tlvs rLen ottSupt pos).value mem = mem (p + sizeofTlvData) := by
  induction hfuel : rLen.toNat - pos using Nat.strong_induction_on generalizing pos ottSupt with
  | _ fuel ih =>
    by_cases hott : IsOtt mem rLen pos
    · have hle := hott.2.2
      rw [sizeofTlvData] at hle
      rw [(tlvs_of_isOtt hott).1]
      rcases ih _ (by rw [sizeofTlvData]; omega) (mem (pos + sizeofTlvData))
        (pos + sizeofTlvData + 1) rfl with heq | ⟨p, hp, hp', heq⟩
      · exact .inr ⟨pos, le_rfl, hott, heq⟩
      · exact .inr ⟨p, by omega, hp', heq⟩
    · exact .inl (tlvs_of_not hott).1

/-- The loop reads only received bytes if it comes to such an element. -/
theorem tlvs_inside_iff (ottSupt : UInt8) (hpos : sizeofFwInfo ≤ pos) :
    Only (fun pos => sizeofFwInfo ≤ pos → pos < rLen.toNat) mem (tlvs rLen ottSupt pos) ↔
      Stops mem rLen pos := by
  induction hfuel : rLen.toNat - pos using Nat.strong_induction_on generalizing pos ottSupt with
  | _ fuel ih =>
    by_cases hott : IsOtt mem rLen pos
    · have hle := hott.2.2
      rw [sizeofTlvData] at hle
      have hnext : sizeofFwInfo ≤ pos + sizeofTlvData + 1 := by omega
      have hrest := ih _ (by rw [sizeofTlvData]; omega) (mem (pos + sizeofTlvData)) hnext rfl
      have hread : ∀ i < sizeofTlvData + 1, sizeofFwInfo ≤ pos + i → pos + i < rLen.toNat := by
        intro i hi _
        rw [sizeofTlvData] at hi
        omega
      rw [(tlvs_of_isOtt hott).2, hrest, and_iff_right hread]
      refine ⟨.next hott, fun hstops => ?_⟩
      cases hstops with
      | stop _ hnot => exact absurd hott hnot
      | next _ hstops => exact hstops
    · -- The loop ends here, after the head was read.
      rw [(tlvs_of_not hott).2]
      constructor
      · rintro ⟨-, hlast, -⟩
        have hlast := hlast (by omega)
        exact .stop (by rw [sizeofTlvData]; omega) hott
      · intro hstops
        cases hstops with
        | stop hhead _ =>
          rw [sizeofTlvData] at hhead
          refine ⟨fun _ => by omega, fun _ => by omega, fun _ => ?_⟩
          exact ⟨fun _ => by omega, fun _ => by omega⟩
        | next hott' _ => exact absurd hott' hott

/-! ## The sections -/

/-- The first section is read from the record, and changes nothing else. -/
theorem section1_spec (mem : ℕ → UInt8) (priv : Priv) :
    ((section1 priv).value mem).wiphySec2Flag = priv.wiphySec2Flag ∧
      ((section1 priv).value mem).macAddr = priv.macAddr ∧
      ((section1 priv).value mem).creditCapa = priv.creditCapa ∧
      ((section1 priv).value mem).ottSupt = priv.ottSupt ∧
      Only (· < sizeofFwInfo) mem (section1 priv) := by
  refine ⟨rfl, rfl, rfl, rfl, ?_⟩
  rw [section1, sizeofFwInfo]
  simp only [only_num_bind, only_byte_bind, only_pure, forall_add_lt]
  decide

/-- An answer that ends within the first section is taken for one that has the second one. -/
theorem flag_of_lt (h : rLen.toNat < sec1Len) (priv : Priv) :
    ((getFwInfo compatVer rLen priv).value mem).wiphySec2Flag = 1 := by
  have hleft := left_of_lt h (by decide)
  have htaken : sizeofWiphySec2 ≤ left rLen sec1Len := by
    rw [sizeofWiphySec2]
    omega
  rw [getFwInfo, value_bind]
  simp only [htaken, if_true, value_ite, value_bind, value_pure, version2]
  split_ifs <;> rfl

section

theorem mac_le_left (hsec2 : 76 ≤ rLen.toNat) :
    ethAlen ≤ left rLen (sec1Len + sizeofWiphySec2) ↔ 82 ≤ rLen.toNat := by
  rw [left_of_le (by exact hsec2), ethAlen, sec1Len, sizeofWiphySec2]
  omega

variable (h : sec1Len ≤ rLen.toNat)
include h

theorem sec2_le_left : sizeofWiphySec2 ≤ left rLen sec1Len ↔ 76 ≤ rLen.toNat := by
  rw [left_of_le h, sizeofWiphySec2, sec1Len]
  omega

/-- Of an answer that has the first section, what is kept is from bytes that were received. -/
theorem fields_of_le (priv : Priv) :
    (((getFwInfo compatVer rLen priv).value mem).wiphySec2Flag = priv.wiphySec2Flag ∨
      76 ≤ rLen.toNat) ∧
    (((getFwInfo compatVer rLen priv).value mem).macAddr = priv.macAddr ∨
      ((getFwInfo compatVer rLen priv).value mem).macAddr = List.replicate ethAlen 0 ∨
      82 ≤ rLen.toNat ∧
        ((getFwInfo compatVer rLen priv).value mem).macAddr = bytesAt mem 76 ethAlen) ∧
    (((getFwInfo compatVer rLen priv).value mem).creditCapa = priv.creditCapa ∨
      ((getFwInfo compatVer rLen priv).value mem).creditCapa = txWithCredit ∨
      82 < rLen.toNat ∧ ((getFwInfo compatVer rLen priv).value mem).creditCapa = mem 82) ∧
    (((getFwInfo compatVer rLen priv).value mem).ottSupt = priv.ottSupt ∨
      ((getFwInfo compatVer rLen priv).value mem).ottSupt = ottNoSupt ∨
      ∃ pos, sizeofFwInfo ≤ pos ∧ IsOtt mem rLen pos ∧
        ((getFwInfo compatVer rLen priv).value mem).ottSupt = mem (pos + sizeofTlvData)) := by
  by_cases hsec2 : 76 ≤ rLen.toNat
  · by_cases hmac : 82 ≤ rLen.toNat
    · -- There is a second section, and an address.
      have hvalue : (getFwInfo compatVer rLen priv).value mem = (version2 compatVer rLen
          { (section1 priv).value mem with
            wiphySec2Flag := 1
            wiphySec2 := bytesAt mem 24 sizeofWiphySec2
            macAddr := bytesAt mem 76 ethAlen
            creditCapa := (creditCapa rLen 82).value mem }).value mem := by
        rw [getFwInfo, value_bind]
        dsimp only
        rw [if_pos ((sec2_le_left h).2 hsec2), value_bytes_bind,
          if_pos ((mac_le_left hsec2).2 hmac)]
        rfl
      have hcredit : (creditCapa rLen 82).value mem = txWithCredit ∨
          82 < rLen.toNat ∧ (creditCapa rLen 82).value mem = mem 82 := by
        rw [creditCapa, left_of_le hmac]
        split_ifs with hleft
        · exact .inr ⟨by omega, rfl⟩
        · exact .inl rfl
      rw [hvalue, version2]
      split_ifs with hversion
      · exact ⟨.inr hsec2, .inr (.inr ⟨hmac, rfl⟩), .inr hcredit, .inr (.inl rfl)⟩
      · refine ⟨.inr hsec2, .inr (.inr ⟨hmac, rfl⟩), .inr hcredit, ?_⟩
        exact (tlvs_ottSupt priv.ottSupt sizeofFwInfo).imp_right .inr
    · have hvalue : (getFwInfo compatVer rLen priv).value mem =
          { (section1 priv).value mem with
            wiphySec2Flag := 1
            wiphySec2 := bytesAt mem 24 sizeofWiphySec2
            macAddr := List.replicate ethAlen 0 } := by
        rw [getFwInfo, value_bind]
        dsimp only
        rw [if_pos ((sec2_le_left h).2 hsec2), value_bytes_bind,
          if_neg (mt (mac_le_left hsec2).1 hmac)]
        rfl
      rw [hvalue]
      exact ⟨.inr hsec2, .inr (.inl rfl), .inl rfl, .inl rfl⟩
  · have hvalue : (getFwInfo compatVer rLen priv).value mem = (section1 priv).value mem := by
      rw [getFwInfo, value_bind]
      dsimp only
      rw [if_neg (mt (sec2_le_left h).1 hsec2)]
      rfl
    rw [hvalue]
    exact ⟨.inl rfl, .inl rfl, .inl rfl, .inl rfl⟩

/-- Only the loop over the elements reads behind the record. -/
theorem behind_iff (priv : Priv) :
    Only (fun pos => sizeofFwInfo ≤ pos → pos < rLen.toNat) mem (getFwInfo compatVer rLen priv) ↔
      (82 ≤ rLen.toNat → compatVer ≠ version1 → Stops mem rLen sizeofFwInfo) := by
  have hfirst : Only (fun pos => sizeofFwInfo ≤ pos → pos < rLen.toNat) mem (section1 priv) :=
    fun pos hpos hle => absurd hle (not_le.2 ((section1_spec mem priv).2.2.2.2 pos hpos))
  rw [getFwInfo, only_bind, and_iff_right hfirst]
  dsimp only
  -- The sections that are in the answer are inside of it; only the TLVs behind them decide.
  by_cases hsec2 : 76 ≤ rLen.toNat
  · have hread : ∀ i < sizeofWiphySec2, sizeofFwInfo ≤ 24 + i → 24 + i < rLen.toNat := by
      intro i hi _
      rw [sizeofWiphySec2] at hi
      omega
    rw [if_pos ((sec2_le_left h).2 hsec2), only_bytes_bind, and_iff_right hread]
    by_cases hmac : 82 ≤ rLen.toNat
    · have hread : ∀ i < ethAlen, sizeofFwInfo ≤ 76 + i → 76 + i < rLen.toNat := by
        intro i hi _
        rw [ethAlen] at hi
        omega
      -- The byte with the credits is read only if it is there.
      have hcredit : Only (fun pos => sizeofFwInfo ≤ pos → pos < rLen.toNat) mem
          (creditCapa rLen (sec1Len + sizeofWiphySec2 + ethAlen)) := by
        rw [creditCapa]
        split
        · exact only_byte.2 fun hle => absurd hle (by decide)
        · exact only_pure _
      rw [if_pos ((mac_le_left hsec2).2 hmac), only_bytes_bind, and_iff_right hread, only_bind,
        and_iff_right hcredit, version2]
      split_ifs with hversion
      · exact iff_of_true (only_pure _) fun _ hne => absurd hversion hne
      · rw [only_bind, tlvs_inside_iff _ le_rfl, and_iff_left (only_pure _)]
        exact ⟨fun hstops _ _ => hstops, fun hstops => hstops hmac hversion⟩
    · rw [if_neg (mt (mac_le_left hsec2).1 hmac)]
      exact iff_of_true (only_pure _) fun hle => absurd hle hmac
  · rw [if_neg (mt (sec2_le_left h).1 hsec2)]
    exact iff_of_true (only_pure _) fun hle => absurd (by omega) hsec2

end

/-- For all answers and whatever the driver has kept before, what it keeps comes from received bytes
    or is a default, and of the elements it reads only received bytes, exactly if the answer has
    the first section and, if it has the address and is not of version 1, has elements that tell
    whether OTT is supported and behind them the head of an element that does not or is not
    complete. -/
theorem fwInfo_received_iff (mem : ℕ → UInt8) (compatVer : UInt8) (rLen : UInt16) :
    (∀ priv, Received mem compatVer rLen priv) ↔ sec1Len ≤ rLen.toNat ∧
      (82 ≤ rLen.toNat → compatVer ≠ version1 → Stops mem rLen sizeofFwInfo) := by
  constructor
  · intro hreceived
    have hsec1 : sec1Len ≤ rLen.toNat := by
      by_contra hlt
      have hsec2 := (hreceived
        ⟨0, 0, 0, 0, 0, 0, 0, 0, 0, 0, [], [], 0, 0⟩).wiphySec2Flag
      rw [flag_of_lt (not_le.1 hlt)] at hsec2
      rcases hsec2 with hflag | hle
      · exact absurd hflag (by decide)
      · exact hlt (le_trans (Nat.le_add_right _ _) hle)
    exact ⟨hsec1, (behind_iff hsec1 _).1
      (hreceived ⟨0, 0, 0, 0, 0, 0, 0, 0, 0, 0, [], [], 0, 0⟩).tlvs⟩
  · rintro ⟨hsec1, hstops⟩ priv
    obtain ⟨hflag, hmac, hcredit, hott⟩ := @fields_of_le mem compatVer rLen hsec1 priv
    exact ⟨hflag, hmac, hcredit, hott, (behind_iff hsec1 priv).2 hstops⟩

/-- A record with one element that tells that OTT is supported: the loop reads a head behind it. -/
theorem not_fwInfo_received : ¬∀ mem compatVer rLen priv, 0 < rLen → rLen ≤ 383 →
    Received mem compatVer rLen priv := by
  intro hreceived
  have hstops := (behind_iff (by decide) ⟨0, 0, 0, 0, 0, 0, 0, 0, 0, 0, [], [], 0, 0⟩).1
    (hreceived (fun i => if i = 83 ∨ i = 85 ∨ i = 87 then 1 else 0) 0 88 _ (by decide)
      (by decide)).tlvs (by decide) (by decide)
  have hott : IsOtt (fun i => if i = 83 ∨ i = 85 ∨ i = 87 then 1 else 0) 88 sizeofFwInfo := by
    refine ⟨by decide, by decide, by decide⟩
  cases hstops with
  | stop _ hnot => exact hnot hott
  | next _ hstops =>
    cases hstops with
    | stop hhead _ => exact absurd hhead (by decide)
    | next hott _ => exact absurd hott.2.2 (by decide)

end W132d.FwInfo
