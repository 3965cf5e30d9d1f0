import Mathlib.Tactic

/-!
# TCP packets

What the filter of TCP acknowledgements reads of an outgoing or received frame
(`tcp_ack.c`). A frame is the list of its bytes and of the memory behind it: a read
past the end of it is a crash (`none`).

* `tcpCheckAck`: whether a frame is an acknowledgement, whether it can be dropped, and the
  window scale that its options carry;
* `isDropTcpAck`: the scan of the options;
* `tcpCheckQuickAck`: whether a received frame asks for a quick acknowledgement;
* `u32Before`: the order of sequence numbers.
-/

namespace W132d.TcpAck

/-! ## Sequence numbers -/

/-- `SPRDWL_U32_BEFORE`. -/
def u32Before (a b : UInt32) : Bool := (a - b).toInt32 ≤ 0

theorem u32Before_iff {a b : UInt32} :
    u32Before a b = true ↔ a - b = 0 ∨ 2 ^ 31 ≤ (a - b).toNat := by
  have hlt := (a - b).toNat_lt
  have hint : (a - b).toInt32.toInt = (a - b).toBitVec.toInt := rfl
  have hnat : (a - b).toBitVec.toNat = (a - b).toNat := rfl
  have hzero : a - b = 0 ↔ (a - b).toNat = 0 := UInt32.toNat_inj.symm
  rw [u32Before, decide_eq_true_iff, Int32.le_iff_toInt_le, hint, BitVec.toInt_eq_toNat_cond,
    hnat, hzero, Int32.toInt_zero]
  split_ifs <;> omega

/-- Of two sequence numbers, one is before the other. -/
theorem u32Before_of_not {a b : UInt32} (h : u32Before a b = false) : u32Before b a = true := by
  have hnot : ¬(a - b = 0 ∨ 2 ^ 31 ≤ (a - b).toNat) := by
    rw [← u32Before_iff, h]
    exact Bool.false_ne_true
  rw [not_or, not_le] at hnot
  have hneg : (b - a).toNat = 2 ^ 32 - (a - b).toNat := by
    have hpos : (a - b).toNat ≠ 0 := fun h0 => hnot.1 (UInt32.toNat_inj.1 h0)
    rw [← UInt32.neg_sub, UInt32.toNat_neg, UInt32.size]
    omega
  rw [u32Before_iff]
  right
  omega

/-! ## Fields -/

/-- A byte of the frame. -/
def load8 (buf : List UInt8) (i : ℕ) : Option UInt8 := buf[i]?

/-- `ntohs`, of the bytes at `i`. -/
def load16 (buf : List UInt8) (i : ℕ) : Option UInt16 := do
  let hi ← load8 buf i
  let lo ← load8 buf (i + 1)
  return (hi.toUInt16 <<< 8) ||| lo.toUInt16

/-- `ntohl`, of the bytes at `i`. -/
def load32 (buf : List UInt8) (i : ℕ) : Option UInt32 := do
  let hi ← load16 buf i
  let lo ← load16 buf (i + 2)
  return (hi.toUInt32 <<< 16) ||| lo.toUInt32

/-- `struct sprdwl_tcp_ack_msg`; ports and addresses are only compared. -/
structure TcpAckMsg where
  source : UInt16
  dest : UInt16
  saddr : UInt32
  daddr : UInt32
  seq : UInt32
  win : UInt16
  deriving DecidableEq, Repr

/-- Two acknowledgements are of the same flow. -/
def TcpAckMsg.SameFlow (a b : TcpAckMsg) : Prop :=
  a.dest = b.dest ∧ a.source = b.source ∧ a.saddr = b.saddr ∧ a.daddr = b.daddr

instance (a b : TcpAckMsg) : Decidable (a.SameFlow b) := inferInstanceAs (Decidable (_ ∧ _))

theorem TcpAckMsg.SameFlow.refl (a : TcpAckMsg) : a.SameFlow a := ⟨rfl, rfl, rfl, rfl⟩

theorem TcpAckMsg.SameFlow.symm {a b : TcpAckMsg} (h : a.SameFlow b) : b.SameFlow a :=
  ⟨h.1.symm, h.2.1.symm, h.2.2.1.symm, h.2.2.2.symm⟩

theorem TcpAckMsg.SameFlow.trans {a b c : TcpAckMsg} (h : a.SameFlow b) (h' : b.SameFlow c) :
    a.SameFlow c :=
  ⟨h.1.trans h'.1, h.2.1.trans h'.2.1, h.2.2.1.trans h'.2.2.1, h.2.2.2.trans h'.2.2.2⟩

/-! ## Options -/

/-- The flag of an acknowledgement: 1 if it can be dropped, 2 if it has more information. -/
inductive AckType where
  | canDrop
  | moreInfo
  deriving DecidableEq, Repr

/-- The loop of `is_drop_tcp_ack`, with `len` bytes of options left at `ptr`. A turn takes
    at least one byte, though the end of the options and an option with a bad size leave
    `len` as it is. -/
def optionLoop : ℕ → ℕ → AckType → UInt16 → List UInt8 → Option (AckType × UInt16)
  | _, 0, drop, winScale, _ => some (drop, winScale)
  | 0, _ + 1, _, _, _ => none
  | _ + 1, _ + 1, _, _, [] => none
  | fuel + 1, len + 1, drop, winScale, opcode :: ptr =>
    if opcode = 0 then optionLoop fuel (len + 1) drop winScale ptr -- `TCPOPT_EOL`
    else if opcode = 1 then optionLoop fuel len drop winScale ptr -- `TCPOPT_NOP`
    else
      match ptr with
      | [] => none
      | opsize :: ptr =>
        if opsize < 2 then optionLoop fuel (len + 1) drop winScale ptr
        else if opsize.toNat > len + 1 then optionLoop fuel (len + 1) drop winScale ptr
        else
          let len := len + 1 - opsize.toNat
          let next := ptr.drop (opsize.toNat - 2)
          if opcode = 8 then optionLoop fuel len drop winScale next -- `TCPOPT_TIMESTAMP`
          else if opcode = 3 then -- `TCPOPT_WINDOW`
            match ptr with
            | [] => none
            | shift :: _ =>
              let winScale := if shift < 15 then 1 <<< shift.toUInt16 else winScale
              optionLoop fuel len drop winScale next
          else optionLoop fuel len .moreInfo winScale next

/-- `is_drop_tcp_ack`, of a TCP header with data offset `doff` whose options are at `ptr`;
    the flag is `none` (0) if data follows the header. -/
def isDropTcpAck (doff : ℕ) (tcpTotLen : ℤ) (ptr : List UInt8) :
    Option (Option (AckType × UInt16)) :=
  if tcpTotLen > doff * 4 then some none
  else (optionLoop ptr.length (doff * 4 - 20) .canDrop 0 ptr).map some

/-! ## Frames -/

/-- Where the TCP header of a frame is (`none` if it has none), and the length of the
    IP header. -/
def tcpHeader (buf : List UInt8) : Option (Option (ℕ × ℕ)) := do
  let proto ← load16 buf 12
  if proto ≠ 0x0800 then return none -- `ETH_P_IP`
  let version ← load8 buf 14
  if version >>> 4 ≠ 4 then return none
  let protocol ← load8 buf 23
  if protocol ≠ 6 then return none -- `IPPROTO_TCP`
  let ipHdrLen := (version &&& 0xf).toNat * 4
  return some (14 + ipHdrLen, ipHdrLen)

/-- What `sprdwl_tcp_check_ack` tells of an acknowledgement. -/
structure AckCheck where
  type : AckType
  msg : TcpAckMsg
  winScale : UInt16
  deriving DecidableEq, Repr

/-- `sprdwl_tcp_check_ack`; it says nothing (0) of what is no acknowledgement. -/
def tcpCheckAck (buf : List UInt8) : Option (Option AckCheck) := do
  let some (tcp, ipHdrLen) ← tcpHeader buf | return none
  let flags ← load8 buf (tcp + 13)
  if flags &&& 0x10 = 0 then return none -- `TCP_FLAG_ACK`
  let totLen ← load16 buf 16
  let doff ← load8 buf (tcp + 12)
  let some (type, winScale) ←
    isDropTcpAck (doff >>> 4).toNat (totLen.toNat - ipHdrLen) (buf.drop (tcp + 20)) | return none
  let msg : TcpAckMsg :=
    { saddr := ← load32 buf 26
      daddr := ← load32 buf 30
      source := ← load16 buf tcp
      dest := ← load16 buf (tcp + 2)
      seq := ← load32 buf (tcp + 8)
      win := ← load16 buf (tcp + 14) }
  return some ⟨type, msg, winScale⟩

/-- `sprdwl_tcp_check_quick_ack`, of a received frame: the flow is that of the
    acknowledgements the other way. -/
def tcpCheckQuickAck (buf : List UInt8) : Option (Option TcpAckMsg) := do
  let some (tcp, _) ← tcpHeader buf | return none
  let flags ← load8 buf (tcp + 13)
  if flags &&& 0x10 = 0 then return none
  if flags &&& 0x8 = 0 then return none
  let msg : TcpAckMsg :=
    { saddr := ← load32 buf 30
      daddr := ← load32 buf 26
      source := ← load16 buf (tcp + 2)
      dest := ← load16 buf tcp
      seq := ← load32 buf (tcp + 4)
      win := 0 }
  return some msg

end W132d.TcpAck
