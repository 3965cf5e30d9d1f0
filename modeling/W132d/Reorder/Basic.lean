import W132d.Cyclic

/-!
# The block-ack reorder engine

The receive path of the Wi-Fi driver (`reorder.c`). The peer numbers its MPDUs
with 12-bit sequence numbers and may repeat or reorder them; the driver holds
the MSDUs of the MPDUs that came early in a ring of slots, one MPDU a slot, and
hands them up in sequence.

A block-ack session keeps a *window* of sequence numbers, from `winStart` to
`winLimit`. An MSDU before the window is stale and freed, one in the window is
buffered, one past it moves the window on, and a timer gives up on the MPDUs
that never came. The window moves through four paths:

* `sendOrderMsdu`: an MSDU in sequence goes up at once when nothing is buffered;
* `sendMsduInOrder`: the complete MPDUs at the start of the window go up;
* `greaterThanSeqhi`: an MSDU past the window moves it up to itself, and what
  falls out of it goes up with gaps (`sendMsduWithGap`);
* `baReorderTimeout`: the timer moves the window on to the first complete MPDU.

The functions here are about one session (`RxBaNode`). They return what they
hand up and free (`Out`), where the driver appends to the list of the entry and
calls `kfree_skb`. Sequence numbers are 16-bit in the driver; all sums that can
leave 16 bits are reduced explicitly.
-/

namespace W132d.Reorder

/-! ## Data -/

/-- The ciphers the hardware reports; the field has 4 bits. -/
inductive CipherType
  | wep
  | tkip
  | ccmp
  | noCipher
  | wep104
  | gcmp128
  | gcmp256
  | wapi
  | ccmp256
  | bipCmac128
  | bipCmac256
  | bipGmac128
  | bipGmac256
  | reserved (code : Fin 3)
  deriving DecidableEq, Repr

/-- The descriptor the hardware puts before an MSDU (`struct rx_msdu_desc`), with
    the widths of its bit fields. -/
structure RxMsduDesc where
  lastMsduOfMpdu : Bool
  staLutIndex : ℕ
  bcMcFlag : Bool
  qosFlag : Bool
  tid : ℕ
  seqNum : ℕ
  pnL : ℕ
  pnH : ℕ
  cipherType : CipherType
  staLutIndex_lt : staLutIndex < 2 ^ 5
  tid_lt : tid < 2 ^ 4
  seqNum_lt : seqNum < 2 ^ 12
  pnL_lt : pnL < 2 ^ 32
  pnH_lt : pnH < 2 ^ 16
  deriving DecidableEq, Repr

/-- A received `sk_buff`: its identity, and the descriptor its data starts with. -/
structure Skb where
  id : ℕ
  desc : RxMsduDesc
  deriving DecidableEq, Repr

/-- What a slot knows about its MPDU (`struct rx_ba_pkt_desc`). -/
structure RxBaPktDesc where
  pnL : ℕ
  pnH : ℕ
  seq : ℕ
  cipherType : CipherType
  last : Bool
  msduNum : ℕ
  deriving DecidableEq, Repr

/-- A slot of the ring (`struct rx_ba_pkt`): the MSDUs of an MPDU, linked from
    `skb` to `skb_last` in the driver, in their order of arrival. -/
structure RxBaPkt where
  skb : List Skb
  desc : RxBaPktDesc
  deriving DecidableEq, Repr

/-- A slot after `memset(pkt, 0, ...)`. -/
def RxBaPkt.zero : RxBaPkt where
  skb := []
  desc := { pnL := 0, pnH := 0, seq := 0, cipherType := .wep, last := false, msduNum := 0 }

/-- The window and the ring of a session (`struct rx_ba_node_desc`). The ring was
    allocated with `slots` slots; an access past them is out of bounds. -/
structure RxBaNodeDesc where
  winStart : ℕ
  winLimit : ℕ
  winTail : ℕ
  winSize : ℕ
  buffCnt : ℕ
  pnH : ℕ
  pnL : ℕ
  resetPn : Bool
  indexMask : ℕ
  slots : ℕ
  reorderBuffer : ℕ → RxBaPkt

/-- A session (`struct rx_ba_node`), with whether its reorder timer is pending. -/
structure RxBaNode where
  staLutIndex : ℕ
  tid : ℕ
  active : Bool
  timeoutCnt : ℕ
  rxBa : RxBaNodeDesc
  timerPending : Bool

/-- What a function hands to the upper list and frees, and whether it accessed
    the ring out of bounds. -/
structure Out where
  up : List Skb := []
  freed : List Skb := []
  oob : Bool := false
  deriving DecidableEq, Repr

/-- What one function does, then another. -/
def Out.append (o o' : Out) : Out where
  up := o.up ++ o'.up
  freed := o.freed ++ o'.freed
  oob := o.oob || o'.oob

instance : Append Out := ⟨Out.append⟩

/-- Outputs may be joined in any grouping. -/
theorem Out.append_assoc (o o' o'' : Out) : o ++ o' ++ o'' = o ++ (o' ++ o'') := by
  change Out.append (Out.append o o') o'' = Out.append o (Out.append o' o'')
  simp only [Out.append, List.append_assoc, Bool.or_assoc]

theorem Out.append_nil (o : Out) : o ++ ({} : Out) = o := by
  change Out.append o {} = o
  simp only [Out.append, List.append_nil, Bool.or_false]

/-- Two outputs deliver the MSDUs of both, one after the other. -/
@[simp] theorem Out.append_up (o o' : Out) : (o ++ o').up = o.up ++ o'.up := rfl
@[simp] theorem Out.append_freed (o o' : Out) : (o ++ o').freed = o.freed ++ o'.freed := rfl
@[simp] theorem Out.append_oob (o o' : Out) : (o ++ o').oob = (o.oob || o'.oob) := rfl

/-! ## Sequence numbers -/

/-- `SEQNO_ADD`: masking an `int` with `SEQNO_MASK` is reducing it modulo `2 ^ 12`. -/
def seqnoAdd (seq₁ seq₂ : ℤ) : ℕ := ((seq₁ + seq₂) % 4096).toNat

/-- `SEQNO_SUB`. -/
def seqnoSub (seq₁ seq₂ : ℤ) : ℕ := ((seq₁ - seq₂) % 4096).toNat

/-- `MAX_SEQNO_BY_TWO`: half of the sequence space. -/
def maxSeqnoByTwo : ℕ := 2048

/-- `seq₁` is no later than `seq₂`, in the half of the sequence space ending at it. -/
def seqnoLeq (seq₁ seq₂ : ℕ) : Bool :=
  (seq₁ ≤ seq₂ && seq₂ - seq₁ < maxSeqnoByTwo) || (seq₁ > seq₂ && seq₁ - seq₂ ≥ maxSeqnoByTwo)

/-- `seq₁` is no earlier than `seq₂`. -/
def seqnoGeq (seq₁ seq₂ : ℕ) : Bool := seqnoLeq seq₂ seq₁

/-- A sequence number has twelve bits. -/
theorem seqnoAdd_lt (a b : ℤ) : seqnoAdd a b < 4096 := by unfold seqnoAdd; omega

theorem seqnoSub_lt (a b : ℤ) : seqnoSub a b < 4096 := by unfold seqnoSub; omega

/-! ## Descriptors -/

/-- `MIN_INDEX_SIZE`. -/
def minIndexSize : ℕ := 1 <<< 6

/-- The loop of `get_index_size`; an `unsigned int` is doubled at most 32 times. -/
def getIndexSizeLoop (size : ℕ) : ℕ → ℕ → ℕ
  | 0, indexSize => indexSize
  | fuel + 1, indexSize =>
    if size > indexSize then getIndexSizeLoop size fuel (indexSize <<< 1) else indexSize

/-- The number of slots for `size` sequence numbers: a power of two. -/
def getIndexSize (size : ℕ) : ℕ := getIndexSizeLoop size 32 minIndexSize

/-- The window an ADDBA asks for. The ring and the PN are kept as they are. -/
def setBaNodeDesc (d : RxBaNodeDesc) (winStart winSize indexMask : ℕ) : RxBaNodeDesc :=
  { d with
    winSize := winSize
    winStart := winStart
    winLimit := seqnoAdd winStart (winSize - 1)
    winTail := seqnoSub winStart 1
    indexMask := indexMask
    buffCnt := 0 }

/-- The descriptor of a slot for an MSDU, its `last` and `msduNum` kept. -/
def setBaPktDesc (p : RxBaPktDesc) (m : RxMsduDesc) : RxBaPktDesc :=
  { p with seq := m.seqNum, pnL := m.pnL, pnH := m.pnH, cipherType := m.cipherType }

/-- Only TKIP and CCMP have their PNs checked. -/
def CipherType.checksPn (c : CipherType) : Bool := c = .tkip || c = .ccmp

/-- An MSDU has the PN of the slot, if its cipher is one that is checked. -/
def isSamePn (p : RxBaPktDesc) (m : RxMsduDesc) : Bool :=
  if p.cipherType.checksPn then p.pnL = m.pnL && p.pnH = m.pnH else true

/-- Whether an MPDU is not a replay, and the descriptor with its PN if so. -/
def replayDetection (p : RxBaPktDesc) (d : RxBaNodeDesc) : Bool × RxBaNodeDesc :=
  if p.cipherType.checksPn then
    -- After `reset_pn`, the PN may start again from a smaller one, once.
    if d.resetPn && d.pnL ≥ p.pnL && d.pnH ≥ p.pnH then
      (true, { d with resetPn := false, pnL := p.pnL, pnH := p.pnH })
    else if (d.pnH = p.pnH && d.pnL < p.pnL) || d.pnH < p.pnH then
      (true, { d with pnL := p.pnL, pnH := p.pnH })
    else (false, d)
  else (true, d)

namespace RxBaNodeDesc

variable (d : RxBaNodeDesc)

/-- The slot of a sequence number. -/
def index (seqNum : ℕ) : ℕ := seqNum &&& d.indexMask

/-- Writing a slot of the ring. -/
def setPkt (i : ℕ) (p : RxBaPkt) : RxBaNodeDesc :=
  { d with reorderBuffer := Function.update d.reorderBuffer i p }

/-- One more slot in use, counted in 16 bits. -/
def incBuffCnt : RxBaNodeDesc := { d with buffCnt := (d.buffCnt + 1) % 2 ^ 16 }

/-- The effect of accessing a slot: out of bounds if it was not allocated. -/
def access (i : ℕ) : Out := { oob := decide (d.slots ≤ i) }

/-- The slot `i` is in use. -/
def Occ (i : ℕ) : Prop := (d.reorderBuffer i).desc.msduNum ≠ 0

instance (i : ℕ) : Decidable (d.Occ i) := inferInstanceAs (Decidable (_ ≠ _))

/-- The slots of the ring in use. -/
def occupied : Finset ℕ := (Finset.range d.slots).filter d.Occ

variable {d} {i j : ℕ} {p : RxBaPkt}

/-- A slot that was written is the one that is read. -/
theorem setPkt_self : (d.setPkt i p).reorderBuffer i = p := Function.update_self ..

theorem setPkt_of_ne (h : j ≠ i) : (d.setPkt i p).reorderBuffer j = d.reorderBuffer j :=
  Function.update_of_ne h ..

/-- A slot that was written has an MPDU if there are MSDUs in it. -/
theorem occ_setPkt_self : (d.setPkt i p).Occ i ↔ p.desc.msduNum ≠ 0 := by
  rw [Occ, setPkt_self]

theorem occ_setPkt_of_ne (h : j ≠ i) : (d.setPkt i p).Occ j ↔ d.Occ j := by
  rw [Occ, setPkt_of_ne h, Occ]

end RxBaNodeDesc

/-! ## Handing up -/

/-- Sending an MSDU that came in sequence, with nothing buffered. -/
def sendOrderMsdu (m : RxMsduDesc) (skb : Option Skb) (d : RxBaNodeDesc) : RxBaNodeDesc × Out :=
  let p := setBaPktDesc RxBaPkt.zero.desc m
  let winStart := seqnoAdd d.winStart 1
  let d := { d with
    winStart := winStart, winLimit := seqnoAdd d.winLimit 1, winTail := seqnoSub winStart 1 }
  match skb with
  | some skb =>
    let r := replayDetection p d
    (r.2, if r.1 then { up := [skb] } else { freed := [skb] })
  | none => (d, {})

/-- Sending the MSDUs of a slot and clearing it. -/
def sendReorderSkb (d : RxBaNodeDesc) (i : ℕ) : RxBaNodeDesc × Out :=
  let pkt := d.reorderBuffer i
  -- A filter event fills its slot without an `sk_buff`, and has no PN to check.
  if pkt.skb.isEmpty then (d.setPkt i .zero, {})
  else
    let r := replayDetection pkt.desc d
    (r.2.setPkt i .zero, if r.1 then { up := pkt.skb } else { freed := pkt.skb })

/-- Sending the MSDUs of a slot and taking it off the count, a turn of the loops
    below. -/
def sendSlot (d : RxBaNodeDesc) (i : ℕ) : RxBaNodeDesc × Out :=
  let r := sendReorderSkb d i
  ({ r.1 with buffCnt := r.1.buffCnt - 1 }, r.2)

/-- The loop of `flush_reorder_buffer`, over the slots from `i` on. -/
def flushReorderBufferLoop : ℕ → ℕ → RxBaNodeDesc → RxBaNodeDesc × Out
  | 0, _, d => (d, {})
  | n + 1, i, d =>
    let r := flushReorderBufferLoop n (i + 1) (d.setPkt i .zero)
    (r.1, d.access i ++ { freed := (d.reorderBuffer i).skb } ++ r.2)

/-- Freeing what the slots up to the mask hold. -/
def flushReorderBuffer (d : RxBaNodeDesc) : RxBaNodeDesc × Out :=
  let r := flushReorderBufferLoop (d.indexMask + 1) 0 d
  ({ r.1 with buffCnt := 0 }, r.2)

/-- Linking an MSDU to a slot. -/
def jointMsdu (pkt : RxBaPkt) (newsk : Option Skb) : RxBaPkt :=
  { pkt with skb := pkt.skb ++ newsk.toList }

/-- The loop of `send_msdu_in_order`; each turn takes one MPDU off `buffCnt`. -/
def sendMsduInOrderLoop : ℕ → ℕ → RxBaNodeDesc → ℕ × RxBaNodeDesc × Out
  | 0, seqNum, d => (seqNum, d, {})
  | n + 1, seqNum, d =>
    let i := d.index seqNum
    -- With nothing counted, the slot is not read.
    if d.buffCnt = 0 then (seqNum, d, {})
    else if !(d.reorderBuffer i).desc.last then (seqNum, d, d.access i)
    else
      let r := sendSlot d i
      let r' := sendMsduInOrderLoop n ((seqNum + 1) % 2 ^ 16) r.1
      (r'.1, r'.2.1, d.access i ++ r.2 ++ r'.2.2)

/-- Sending the complete MPDUs at the start of the window; the sequence number
    after the last one. -/
def sendMsduInOrder (d : RxBaNodeDesc) : ℕ × RxBaNodeDesc × Out :=
  let r := sendMsduInOrderLoop d.buffCnt d.winStart d
  (r.1 % 4096, r.2)

/-- The loop of `send_msdu_with_gap`, over `num` sequence numbers. -/
def sendMsduWithGapLoop : ℕ → ℕ → RxBaNodeDesc → RxBaNodeDesc × Out
  | 0, _, d => (d, {})
  | num + 1, seqNum, d =>
    let i := d.index seqNum
    if d.buffCnt = 0 then sendMsduWithGapLoop num ((seqNum + 1) % 2 ^ 16) d
    else if (d.reorderBuffer i).desc.msduNum = 0 then
      let r := sendMsduWithGapLoop num ((seqNum + 1) % 2 ^ 16) d
      (r.1, d.access i ++ r.2)
    else
      let r := sendSlot d i
      let r' := sendMsduWithGapLoop num ((seqNum + 1) % 2 ^ 16) r.1
      (r'.1, d.access i ++ r.2 ++ r'.2)

/-- Sending the MPDUs, complete or not, from the start of the window up to
    `lastSeqno`. (The number sent is not used by any caller.) -/
def sendMsduWithGap (d : RxBaNodeDesc) (lastSeqno : ℕ) : RxBaNodeDesc × Out :=
  sendMsduWithGapLoop (seqnoSub lastSeqno d.winStart) d.winStart d

/-- Moving the window past the complete MPDUs at its start. -/
def betweenSeqloSeqhi (d : RxBaNodeDesc) : RxBaNodeDesc × Out :=
  let r := sendMsduInOrder d
  let d := { r.2.1 with winStart := r.1 }
  ({ d with winLimit := seqnoAdd d.winStart (d.winSize - 1) }, r.2.2)

/-- Moving the window to a sequence number, sending what falls out of it with
    gaps and then what is complete at its new start. -/
def moveWindow (d : RxBaNodeDesc) (posSeqno : ℕ) : RxBaNodeDesc × Out :=
  let r := sendMsduWithGap d posSeqno
  let r' := betweenSeqloSeqhi { r.1 with winStart := posSeqno }
  (r'.1, r.2 ++ r'.2)

/-- Moving the window so that it ends at `seqNum`. -/
def greaterThanSeqhi (d : RxBaNodeDesc) (seqNum : ℕ) : RxBaNodeDesc × Out :=
  moveWindow d (seqnoSub seqNum (d.winSize - 1))

/-! ## Buffering -/

/-- An MSDU goes on with the MPDU of a slot in use. -/
def RxBaPkt.accepts (pkt : RxBaPkt) (m : RxMsduDesc) : Bool :=
  pkt.desc.seq = m.seqNum && !pkt.desc.last && isSamePn pkt.desc m

/-- A slot with one more MSDU of its MPDU, counted in 16 bits. -/
def RxBaPkt.join (pkt : RxBaPkt) (m : RxMsduDesc) (skb : Option Skb) : RxBaPkt :=
  { jointMsdu pkt skb with
    desc := { pkt.desc with
      msduNum := (pkt.desc.msduNum + 1) % 2 ^ 16, last := m.lastMsduOfMpdu } }

/-- A slot with the first MSDU of an MPDU. -/
def RxBaPkt.first (pkt : RxBaPkt) (m : RxMsduDesc) (skb : Option Skb) : RxBaPkt :=
  { jointMsdu pkt skb with
    desc := { setBaPktDesc pkt.desc m with last := m.lastMsduOfMpdu, msduNum := 1 } }

/-- Putting an MSDU into its slot: whether it could be, and the descriptor. -/
def insertMsdu (m : RxMsduDesc) (skb : Option Skb) (d : RxBaNodeDesc) :
    Bool × RxBaNodeDesc × Out :=
  let i := d.index m.seqNum
  let pkt := d.reorderBuffer i
  if pkt.desc.msduNum ≠ 0 then
    if pkt.accepts m then (true, d.setPkt i (pkt.join m skb), d.access i)
    else (false, d, d.access i)
  else (true, (d.setPkt i (pkt.first m skb)).incBuffCnt, d.access i)

/-- Moving the window for an MSDU past its limit. -/
def makeRoom (d : RxBaNodeDesc) (seqNum : ℕ) : RxBaNodeDesc × Out :=
  if !seqnoLeq seqNum d.winLimit then greaterThanSeqhi d seqNum else (d, {})

/-- Buffering an MSDU, or freeing it if it is stale or its slot is in use. -/
def reorderMsdu (m : RxMsduDesc) (skb : Option Skb) (d : RxBaNodeDesc) :
    Bool × RxBaNodeDesc × Out :=
  if seqnoGeq m.seqNum d.winStart then
    let r := makeRoom d m.seqNum
    let r' := insertMsdu m skb r.1
    if r'.1 then
      let d := if seqnoGeq m.seqNum r'.2.1.winTail then { r'.2.1 with winTail := m.seqNum }
        else r'.2.1
      (true, d, r.2 ++ r'.2.2)
    else (false, r'.2.1, r.2 ++ r'.2.2 ++ { freed := skb.toList })
  else (false, d, { freed := skb.toList })

/-- What `reorder_msdu` does: a stale MSDU is freed; another one is put into its
    slot, where it may be the new tail, or refused. -/
theorem reorderMsdu_cases {m : RxMsduDesc} {skb : Option Skb} {d : RxBaNodeDesc}
    {r : RxBaNodeDesc × Out} {r' : Bool × RxBaNodeDesc × Out} (hr : makeRoom d m.seqNum = r)
    (hr' : insertMsdu m skb r.1 = r') :
    (¬seqnoGeq m.seqNum d.winStart ∧
      reorderMsdu m skb d = (false, d, { freed := skb.toList })) ∨
    (seqnoGeq m.seqNum d.winStart ∧ r'.1 = true ∧ seqnoGeq m.seqNum r'.2.1.winTail ∧
      reorderMsdu m skb d = (true, { r'.2.1 with winTail := m.seqNum }, r.2 ++ r'.2.2)) ∨
    (seqnoGeq m.seqNum d.winStart ∧ r'.1 = true ∧ ¬seqnoGeq m.seqNum r'.2.1.winTail ∧
      reorderMsdu m skb d = (true, r'.2.1, r.2 ++ r'.2.2)) ∨
    (seqnoGeq m.seqNum d.winStart ∧ r'.1 = false ∧
      reorderMsdu m skb d = (false, r'.2.1, r.2 ++ r'.2.2 ++ { freed := skb.toList })) := by
  subst hr
  subst hr'
  by_cases hgeq : seqnoGeq m.seqNum d.winStart
  · cases hok : (insertMsdu m skb (makeRoom d m.seqNum).1).1 with
    | true =>
      by_cases htail : seqnoGeq m.seqNum (insertMsdu m skb (makeRoom d m.seqNum).1).2.1.winTail
      · refine .inr (.inl ⟨hgeq, rfl, htail, ?_⟩)
        exact (if_pos hgeq).trans ((if_pos hok).trans (by rw [if_pos htail]))
      · refine .inr (.inr (.inl ⟨hgeq, rfl, htail, ?_⟩))
        exact (if_pos hgeq).trans ((if_pos hok).trans (by rw [if_neg htail]))
    | false =>
      refine .inr (.inr (.inr ⟨hgeq, rfl, ?_⟩))
      exact (if_pos hgeq).trans (if_neg (by rw [hok]; exact Bool.false_ne_true))
  · exact .inl ⟨hgeq, if_neg hgeq⟩

/-- The timer runs as long as something is buffered. -/
def modReorderTimer (n : RxBaNode) : RxBaNode :=
  if n.rxBa.buffCnt ≠ 0 then { n with timerPending := true }
  else { n with timerPending := false, timeoutCnt := 0 }

/-- The timer is not part of the session. -/
@[simp] theorem modReorderTimer_rxBa (n : RxBaNode) : (modReorderTimer n).rxBa = n.rxBa := by
  unfold modReorderTimer
  split <;> rfl

@[simp] theorem modReorderTimer_active (n : RxBaNode) :
    (modReorderTimer n).active = n.active := by
  unfold modReorderTimer
  split <;> rfl

/-- Processing an MSDU of an active session. -/
def reorderActive (m : RxMsduDesc) (skb : Option Skb) (n : RxBaNode) : RxBaNode × Out :=
  if m.seqNum = n.rxBa.winStart && n.rxBa.buffCnt = 0 && m.lastMsduOfMpdu then
    -- The fast path: the timer is left as it is.
    let r := sendOrderMsdu m skb n.rxBa
    ({ n with rxBa := r.1 }, r.2)
  else
    let r := reorderMsdu m skb n.rxBa
    let n' := { n with rxBa := r.2.1 }
    if r.1 then
      if m.lastMsduOfMpdu && m.seqNum = n'.rxBa.winStart then
        let r' := betweenSeqloSeqhi n'.rxBa
        (modReorderTimer { n' with rxBa := r'.1 }, r.2.2 ++ r'.2)
      else if !n'.timerPending || n.rxBa.winStart ≠ n'.rxBa.winStart then
        -- The window may have moved without completing its start.
        (modReorderTimer n', r.2.2)
      else (n', r.2.2)
    else if n'.rxBa.buffCnt = 0 then
      -- "Should never happen".
      ({ n' with timerPending := false, timeoutCnt := 0 }, r.2.2)
    else (n', r.2.2)

/-- What an MSDU of an active session does to the ring: it goes up at once, or is
    buffered, which may complete the start of the window. -/
theorem reorderActive_cases (m : RxMsduDesc) (skb : Option Skb) (n : RxBaNode) :
    (reorderActive m skb n).1.active = n.active ∧
    ((m.seqNum = n.rxBa.winStart ∧ n.rxBa.buffCnt = 0 ∧
        (reorderActive m skb n).1.rxBa = (sendOrderMsdu m skb n.rxBa).1 ∧
        (reorderActive m skb n).2 = (sendOrderMsdu m skb n.rxBa).2) ∨
      ((reorderActive m skb n).1.rxBa = (reorderMsdu m skb n.rxBa).2.1 ∧
        (reorderActive m skb n).2 = (reorderMsdu m skb n.rxBa).2.2) ∨
      ((reorderActive m skb n).1.rxBa =
          (betweenSeqloSeqhi (reorderMsdu m skb n.rxBa).2.1).1 ∧
        (reorderActive m skb n).2 = (reorderMsdu m skb n.rxBa).2.2 ++
          (betweenSeqloSeqhi (reorderMsdu m skb n.rxBa).2.1).2)) := by
  unfold reorderActive
  dsimp only
  split_ifs with hfast
  · simp only [Bool.and_eq_true, decide_eq_true_eq] at hfast
    exact ⟨rfl, .inl ⟨hfast.1.1, hfast.1.2, rfl, rfl⟩⟩
  · exact ⟨modReorderTimer_active _, .inr (.inr ⟨modReorderTimer_rxBa _, rfl⟩)⟩
  · exact ⟨modReorderTimer_active _, .inr (.inl ⟨modReorderTimer_rxBa _, rfl⟩)⟩
  all_goals exact ⟨rfl, .inr (.inl ⟨rfl, rfl⟩)⟩

/-- Processing an MSDU of a session, or a filter event (without an `sk_buff`). An
    inactive session passes it straight to the upper list, which crashes on a
    null `sk_buff`; so does an access out of the ring. -/
def reorderMsduProcess (m : RxMsduDesc) (skb : Option Skb) (n : RxBaNode) :
    Option (RxBaNode × Out) :=
  if n.active then
    let r := reorderActive m skb n
    if r.2.oob then none else some r
  else
    -- `reorder_set_skb_list` writes the `next` of what it is given.
    match skb with
    | some skb => some (n, { up := [skb] })
    | none => none

/-! ## Loss recovery -/

/-- `MAX_TIMEOUT_CNT`. -/
def maxTimeoutCnt : ℕ := 60

/-- The loop of `get_first_seqno_in_buff`; it leaves the half of the sequence
    space before `winTail` within the 4096 sequence numbers. -/
def getFirstSeqnoInBuffLoop (d : RxBaNodeDesc) : ℕ → ℕ → ℕ × Out
  | 0, seqno => (seqno, {})
  | fuel + 1, seqno =>
    if seqnoLeq seqno d.winTail then
      let i := d.index seqno
      if (d.reorderBuffer i).desc.last then (seqno, d.access i)
      else
        let r := getFirstSeqnoInBuffLoop d fuel (seqnoAdd seqno 1)
        (r.1, d.access i ++ r.2)
    else (seqno, {})

/-- The first complete MPDU buffered, or the sequence number after `winTail`. -/
def getFirstSeqnoInBuff (d : RxBaNodeDesc) : ℕ × Out := getFirstSeqnoInBuffLoop d 4096 d.winStart

/-- The timer handler. After `maxTimeoutCnt` rounds without an empty ring, it
    deactivates the session (and asks for a DELBA). -/
def baReorderTimeout (n : RxBaNode) : RxBaNode × Out :=
  if n.active && n.rxBa.buffCnt ≠ 0 && !n.timerPending then
    let pos := getFirstSeqnoInBuff n.rxBa
    let r := moveWindow n.rxBa pos.1
    let cnt := (n.timeoutCnt + 1) % 2 ^ 8
    let n := { n with rxBa := r.1, timeoutCnt := cnt }
    -- An inactive session keeps what is still in its ring.
    let n := if cnt > maxTimeoutCnt then { n with active := false, timeoutCnt := 0 } else n
    (modReorderTimer n, pos.2 ++ r.2)
  else (n, {})

/-! ## One session -/

/-- The descriptor of a filter event: the last, and only, MSDU of its MPDU. Its
    `sta_lut_index` and `tid` are left uninitialised, and only logged. -/
def filterDesc (seqNum : ℕ) : RxMsduDesc where
  lastMsduOfMpdu := true
  staLutIndex := 0
  bcMcFlag := false
  qosFlag := false
  tid := 0
  seqNum := seqNum % 2 ^ 12
  pnL := 0
  pnH := 0
  cipherType := .wep
  staLutIndex_lt := by decide
  tid_lt := by decide
  seqNum_lt := Nat.mod_lt _ (by decide)
  pnL_lt := by decide
  pnH_lt := by decide

/-- What happens to a session. -/
inductive NodeEvent
  | msdu (skb : Skb)
  | filter (seqNum : ℕ)
  | timeout
  deriving DecidableEq, Repr

/-- The effect of an event on a session. A timer that is not pending does not
    fire; one that does is no longer pending when its handler runs. -/
def nodeStep (n : RxBaNode) : NodeEvent → Option (RxBaNode × Out)
  | .msdu skb => reorderMsduProcess skb.desc (some skb) n
  | .filter seqNum => reorderMsduProcess (filterDesc seqNum) none n
  | .timeout =>
    if n.timerPending then
      let r := baReorderTimeout { n with timerPending := false }
      if r.2.oob then none else some r
    else some (n, {})

/-- A session as `create_ba_node` makes it, for a ring of `slots` slots. -/
def createBaNode (staLutIndex tid slots : ℕ) : RxBaNode where
  staLutIndex := staLutIndex
  tid := tid
  active := false
  timeoutCnt := 0
  rxBa :=
    { winStart := 0, winLimit := 0, winTail := 0, winSize := 0, buffCnt := 0, pnH := 0, pnL := 0,
      resetPn := false, indexMask := 0, slots := slots, reorderBuffer := fun _ => .zero }
  timerPending := false

/-- A session as an ADDBA sets it up. With `CP2_RESET_SUPPORT`, an active session
    is deactivated first, so that it is always set up anew. -/
def addbaNode (n : RxBaNode) (winStart winSize : ℕ) : RxBaNode :=
  { n with
    active := false
    rxBa := setBaNodeDesc n.rxBa winStart winSize (getIndexSize (2 * winSize) - 1) }

/-- A session as `sprdwl_active_ba_node` makes it. -/
def activeBaNode (n : RxBaNode) : RxBaNode := { n with active := true }

/-- A session set up by one ADDBA on a fresh node, and activated. -/
def openSession (staLutIndex tid winStart winSize : ℕ) : RxBaNode :=
  activeBaNode
    (addbaNode (createBaNode staLutIndex tid (getIndexSize (2 * winSize))) winStart winSize)

end W132d.Reorder
