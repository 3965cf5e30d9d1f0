import W132d.Machine
import W132d.TcpAck.Packet

/-!
# The filter of TCP acknowledgements

An acknowledgement of a TCP flow says all that the ones before it said, so that the
driver holds one back for some milliseconds and frees it when a newer one of the flow
comes (`tcp_ack.c`). The flows have slots: a slot has the number of the flow's newest
acknowledgement, the message held back (`msgbuf`), if any, and the last message passed
on that has not left the host yet (`inSendMsg`).

* `filterSendTcpAck`: an outgoing packet, which is passed on, held back or freed;
* `tcpAckTimeout`: the timer of a slot passes on what it holds back, if the message
  before it has left the host;
* `moveTcpackMsg`: a message leaves the host;
* `filterRxTcpAck`: a received packet asks for a quick acknowledgement;
* `tcpAckUpdate`: slots of flows that were silent for a while are given to other flows;
* `filter`: the machine of these. Its states have the messages passed on and freed.

All that the filter does is done here in single steps, each under the lock of the filter;
`W132d.TcpAck.Concurrent` is about senders whose steps come between one another. A packet is a list
of bytes, which `W132d.TcpAck.Packet` reads, and the time is that of `jiffies`, which wraps around.

What the other modules need of the operations is said by their lemmas. An operation that is not
about a flow may take slots from their flows (`Aged`), but leaves the messages in them; an outgoing
packet is passed on, held back in the slot of its flow or freed (`filterSendTcpAck_cases`); and the
two that are left write a slot in one field only.
-/

namespace W132d.TcpAck

/-! ## Data -/

/-- A message (`struct sprdwl_msg_buf`): its address, its length, and the frame in it
    (the parameters `buf` and `plen` of the filter). -/
structure MsgBuf where
  addr : ℕ
  len : ℕ
  buf : List UInt8
  plen : UInt32
  deriving DecidableEq, Repr

/-- `struct sprdwl_tcp_ack_info`: a slot. Of its timer, `timer` tells whether it is
    pending. -/
structure AckInfo where
  busy : Bool
  dropCnt : Int32
  pshFlag : Bool
  pshSeq : UInt32
  winScale : UInt16
  lastTime : UInt64
  timeout : UInt64
  timer : Bool
  msgbuf : Option MsgBuf
  inSendMsg : Option MsgBuf
  ackMsg : TcpAckMsg
  deriving DecidableEq, Repr

/-- `SPRDWL_TCP_ACK_NUM`. -/
def tcpAckNum : ℕ := 32

/-- `MAX_TCP_ACK`. -/
def maxTcpAck : ℕ := 200

/-- `struct sprdwl_tcp_ack_manage`; a `free_index` of -1 is `none`. -/
structure AckManage where
  enable : Bool
  maxNum : ℤ
  freeIndex : Option (Fin tcpAckNum)
  lastTime : UInt64
  timeout : UInt64
  maxDropCnt : Int32
  ackInfo : Fin tcpAckNum → AckInfo
  ackWinsize : UInt32

/-- Writing a slot. -/
def AckManage.setInfo (m : AckManage) (i : Fin tcpAckNum) (info : AckInfo) : AckManage :=
  { m with ackInfo := Function.update m.ackInfo i info }

/-- `sprdwl_tcp_ack_init`, at the time `jiffies` and with `SPRDWL_ACK_OLD_TIME` as
    `timeout`, in jiffies. -/
def tcpAckInit (jiffies timeout : UInt64) : AckManage where
  enable := true
  maxNum := 0
  freeIndex := some ⟨0, by decide⟩
  lastTime := jiffies
  timeout := timeout
  maxDropCnt := 24
  ackInfo := fun _ =>
    { busy := false
      dropCnt := 0
      pshFlag := false
      pshSeq := 0
      winScale := 0
      lastTime := jiffies
      timeout := timeout
      timer := false
      msgbuf := none
      inSendMsg := none
      ackMsg := ⟨0, 0, 0, 0, 0, 0⟩ }
  ackWinsize := 256

/-! ## Slots -/

/-- `time_after`. -/
def timeAfter (a b : UInt64) : Bool := (b - a).toInt64 < 0

/-- `sprdwl_tcp_ack_match`: the slot of a flow. -/
def tcpAckMatch (m : AckManage) (ackMsg : TcpAckMsg) : Option (Fin tcpAckNum) :=
  (List.finRange tcpAckNum).find? fun i =>
    (m.ackInfo i).busy && decide ((m.ackInfo i).ackMsg.SameFlow ackMsg)

/-- A turn of the loop of `sprdwl_tcp_ack_update`. -/
def ageSlot (jiffies : UInt64) (m : AckManage) (i : Fin tcpAckNum) : AckManage :=
  let info := m.ackInfo i
  if info.busy && timeAfter jiffies (info.lastTime + info.timeout) then
    { m with freeIndex := some i, maxNum := m.maxNum - 1 }.setInfo i { info with busy := false }
  else m

/-- `sprdwl_tcp_ack_update`. -/
def tcpAckUpdate (jiffies : UInt64) (m : AckManage) : AckManage :=
  if timeAfter jiffies (m.lastTime + m.timeout) then
    (List.finRange tcpAckNum).reverse.foldl (ageSlot jiffies) { m with lastTime := jiffies }
  else m

/-- `sprdwl_tcp_ack_alloc_index`. -/
def tcpAckAllocIndex (m : AckManage) : AckManage × Option (Fin tcpAckNum) :=
  if m.maxNum = tcpAckNum then (m, none)
  else
    match m.freeIndex with
    | some i => ({ m with freeIndex := none, maxNum := m.maxNum + 1 }, some i)
    | none =>
      match (List.finRange tcpAckNum).find? fun i => !(m.ackInfo i).busy with
      | some i => ({ m with freeIndex := none, maxNum := m.maxNum + 1 }, some i)
      | none => (m, none)

/-- `sprdwl_tcp_ack_handle`, of an acknowledgement of the flow of the slot `info`: the
    slot, whether the message was held back or freed, and the message to free, if any. -/
def tcpAckHandle (jiffies : UInt64) (maxDropCnt : Int32) (newMsgbuf : MsgBuf) (info : AckInfo)
    (ackMsg : TcpAckMsg) (type : AckType) : AckInfo × Bool × Option MsgBuf :=
  let info := { info with lastTime := jiffies }
  let ack := info.ackMsg
  match type with
  | .moreInfo =>
    if u32Before ack.seq ackMsg.seq then
      let dropMsg := info.msgbuf
      ({ info with
          ackMsg := { ack with seq := ackMsg.seq }
          pshFlag := info.pshFlag && u32Before ackMsg.seq info.pshSeq
          msgbuf := none
          timer := info.timer && info.msgbuf.isNone
          inSendMsg := none
          dropCnt := maxDropCnt }, false, dropMsg)
    else (info, true, some newMsgbuf)
  | .canDrop =>
    if u32Before ack.seq ackMsg.seq then
      let dropMsg := info.msgbuf
      let quickAck := info.pshFlag && !u32Before ackMsg.seq info.pshSeq
      let info :=
        { info with
          ackMsg := { ack with seq := ackMsg.seq }
          pshFlag := info.pshFlag && !quickAck
          dropCnt := if quickAck then info.dropCnt else info.dropCnt + 1 }
      if quickAck || (info.inSendMsg.isNone && decide (info.dropCnt ≥ maxDropCnt)) then
        ({ info with
            msgbuf := none
            dropCnt := 0
            inSendMsg := some newMsgbuf
            timer := false }, false, dropMsg)
      else ({ info with msgbuf := some newMsgbuf, timer := true }, true, dropMsg)
    else (info, true, some newMsgbuf)

/-! ## Operations -/

/-- `sprdwl_filter_send_tcp_ack`: whether the packet was held back or freed, and the
    message to free, if any. -/
def filterSendTcpAck (jiffies : UInt64) (m : AckManage) (msgbuf : MsgBuf) :
    Option (AckManage × Bool × Option MsgBuf) :=
  if !m.enable then some (m, false, none)
  else if msgbuf.plen.toNat > maxTcpAck then some (m, false, none)
  else
    let m := tcpAckUpdate jiffies m
    match tcpCheckAck msgbuf.buf with
    | none => none
    | some none => some (m, false, none)
    | some (some ⟨type, ackMsg, winScale⟩) =>
      match tcpAckMatch m ackMsg with
      | some i =>
        let info := m.ackInfo i
        let info := if winScale ≠ 0 then { info with winScale := winScale } else info
        let win := info.winScale.toUInt32 * ackMsg.win.toUInt32
        let type := if win < m.ackWinsize * 1024 then .moreInfo else type
        let (info, ret, dropMsg) := tcpAckHandle jiffies m.maxDropCnt msgbuf info ackMsg type
        some (m.setInfo i info, ret, dropMsg)
      | none =>
        match tcpAckAllocIndex m with
        | (m, none) => some (m, false, none)
        | (m, some i) =>
          let info := m.ackInfo i
          some (m.setInfo i
            { info with
              busy := true
              pshFlag := false
              lastTime := jiffies
              dropCnt := m.maxDropCnt
              winScale := if winScale ≠ 0 then winScale else 1
              ackMsg := { ackMsg with win := info.ackMsg.win } }, false, none)

/-- `sprdwl_filter_rx_tcp_ack`. -/
def filterRxTcpAck (m : AckManage) (buf : List UInt8) (plen : UInt32) : Option AckManage :=
  if !m.enable then some m
  else if plen.toNat > maxTcpAck then some m
  else
    match tcpCheckQuickAck buf with
    | none => none
    | some none => some m
    | some (some ackMsg) =>
      match tcpAckMatch m ackMsg with
      | none => some m
      | some i => some (m.setInfo i { m.ackInfo i with pshFlag := true, pshSeq := ackMsg.seq })

/-- `sprdwl_tcp_ack_timeout`, of the slot `info`: the slot and the message to pass on,
    if any. -/
def tcpAckTimeout (info : AckInfo) : AckInfo × Option MsgBuf :=
  match info.msgbuf with
  | some msg =>
    if info.busy && info.inSendMsg.isNone then
      ({ info with msgbuf := none, dropCnt := 0, inSendMsg := some msg }, some msg)
    else (info, none)
  | none => (info, none)

/-- A turn of the loop of `sprdwl_move_tcpack_msg`. -/
def moveSlot (msg : MsgBuf) (info : AckInfo) : AckInfo :=
  match info.inSendMsg with
  | some inSendMsg =>
    if info.busy && inSendMsg.addr = msg.addr then { info with inSendMsg := none } else info
  | none => info

/-- `sprdwl_move_tcpack_msg`. -/
def moveTcpackMsg (m : AckManage) (msg : MsgBuf) : AckManage :=
  if !m.enable then m
  else if msg.len > maxTcpAck then m
  else { m with ackInfo := fun i => moveSlot msg (m.ackInfo i) }

/-! ## The machine -/

/-- The filter, the time, and the messages it passed on for transmission and freed. -/
structure State where
  jiffies : UInt64
  ackM : AckManage
  sent : List MsgBuf
  freed : List MsgBuf

/-- What happens to the filter. -/
inductive Event where
  /-- Time passes. -/
  | elapse (n : UInt64)
  /-- `sprdwl_send_data`: an outgoing packet. -/
  | send (msg : MsgBuf)
  /-- A received packet. -/
  | receive (buf : List UInt8) (plen : UInt32)
  /-- The timer of a slot expires. -/
  | timeout (i : Fin tcpAckNum)
  /-- A message leaves the host. -/
  | move (msg : MsgBuf)

/-- What an event does. Only a timer that is pending expires. -/
def State.step (s : State) : Event → Option State
  | .elapse n => some { s with jiffies := s.jiffies + n }
  | .send msg =>
    match filterSendTcpAck s.jiffies s.ackM msg with
    | none => none
    | some (m, ret, dropMsg) =>
      some { s with
        ackM := m
        sent := if ret then s.sent else s.sent ++ [msg]
        freed := s.freed ++ dropMsg.toList }
  | .receive buf plen =>
    match filterRxTcpAck s.ackM buf plen with
    | none => none
    | some m => some { s with ackM := m }
  | .timeout i =>
    let info := s.ackM.ackInfo i
    if info.timer then
      let (info, msg) := tcpAckTimeout { info with timer := false }
      some { s with ackM := s.ackM.setInfo i info, sent := s.sent ++ msg.toList }
    else none
  | .move msg => some { s with ackM := moveTcpackMsg s.ackM msg }

/-- The machine of the filter. -/
def filter : Machine State Event where
  step := State.step

/-- The filter after `sprdwl_tcp_ack_init`. -/
def State.init (jiffies timeout : UInt64) : State where
  jiffies := jiffies
  ackM := tcpAckInit jiffies timeout
  sent := []
  freed := []

/-! ## What the operations change -/

variable {jiffies : UInt64} {m m' : AckManage} {msgbuf : MsgBuf} {i : Fin tcpAckNum}

@[simp] theorem setInfo_ackInfo (m : AckManage) (i : Fin tcpAckNum) (info : AckInfo) :
    (m.setInfo i info).ackInfo = Function.update m.ackInfo i info := rfl

/-- The slots `info'` are the slots `info`, some of them taken from their flows. -/
def Aged (info info' : Fin tcpAckNum → AckInfo) : Prop :=
  ∀ i, info' i = info i ∨ info' i = { info i with busy := false }

theorem Aged.refl (info : Fin tcpAckNum → AckInfo) : Aged info info := fun _ => .inl rfl

theorem ageSlot_aged {info : Fin tcpAckNum → AckInfo} (h : Aged info m.ackInfo) :
    Aged info (ageSlot jiffies m i).ackInfo := by
  intro k
  rw [ageSlot]
  split
  · rw [setInfo_ackInfo]
    rcases eq_or_ne k i with rfl | hk
    · right
      rw [Function.update_self]
      rcases h k with hsame | hfree
      · rw [hsame]
      · rw [hfree]
    · rw [Function.update_of_ne hk]
      exact h k
  · exact h k

/-- Slots that were not used for a while are taken from their flows, and keep the rest. -/
theorem tcpAckUpdate_aged : Aged m.ackInfo (tcpAckUpdate jiffies m).ackInfo := by
  rw [tcpAckUpdate]
  split
  · refine List.foldlRecOn (motive := fun m' : AckManage => Aged m.ackInfo m'.ackInfo) _ _
      (Aged.refl _) ?_
    intro m' h i _
    exact ageSlot_aged h
  · exact Aged.refl _

theorem Aged.msgbuf_eq {info info' : Fin tcpAckNum → AckInfo} (h : Aged info info')
    (i : Fin tcpAckNum) : (info' i).msgbuf = (info i).msgbuf := by
  rcases h i with hsame | hfree
  · rw [hsame]
  · rw [hfree]

/-- What holds of a slot that was written, and of the others, holds of all. -/
theorem forall_update {P : AckInfo → Prop} {info : Fin tcpAckNum → AckInfo} {i : Fin tcpAckNum}
    {info' : AckInfo} (h : ∀ i, P (info i)) (h' : P info') (k : Fin tcpAckNum) :
    P (Function.update info i info' k) := by
  rcases eq_or_ne k i with rfl | hk
  · rw [Function.update_self]
    exact h'
  · rw [Function.update_of_ne hk]
    exact h k

theorem tcpAckMatch_some {ackMsg : TcpAckMsg} (h : tcpAckMatch m ackMsg = some i) :
    (m.ackInfo i).busy = true ∧ (m.ackInfo i).ackMsg.SameFlow ackMsg := by
  have hfound := List.find?_some h
  rw [Bool.and_eq_true, decide_eq_true_iff] at hfound
  exact hfound

theorem tcpAckAllocIndex_ackInfo : (tcpAckAllocIndex m).1.ackInfo = m.ackInfo := by
  rw [tcpAckAllocIndex]
  split
  · rfl
  · split
    · rfl
    · split <;> rfl

/-- An acknowledgement that is newer takes the place of the one held back: it is passed
    on, or held back with the timer pending. One that is older is freed. -/
theorem tcpAckHandle_cases {maxDropCnt : Int32} {info info' : AckInfo} {ackMsg : TcpAckMsg}
    {type : AckType} {ret : Bool} {dropMsg : Option MsgBuf}
    (h : tcpAckHandle jiffies maxDropCnt msgbuf info ackMsg type = (info', ret, dropMsg)) :
    (u32Before info.ackMsg.seq ackMsg.seq = true ∧ info'.busy = info.busy ∧
      info'.ackMsg = { info.ackMsg with seq := ackMsg.seq } ∧ dropMsg = info.msgbuf ∧
      (ret = false ∧ info'.msgbuf = none ∨
        ret = true ∧ info'.msgbuf = some msgbuf ∧ info'.timer = true)) ∨
    (u32Before info.ackMsg.seq ackMsg.seq = false ∧ info' = { info with lastTime := jiffies } ∧
      ret = true ∧ dropMsg = some msgbuf) := by
  cases hseq : u32Before info.ackMsg.seq ackMsg.seq with
  | true =>
    left
    cases type with
    | moreInfo =>
      simp only [tcpAckHandle, hseq, if_true] at h
      cases h
      exact ⟨rfl, rfl, rfl, rfl, .inl ⟨rfl, rfl⟩⟩
    | canDrop =>
      simp only [tcpAckHandle, hseq, if_true] at h
      generalize (if (info.pshFlag && !u32Before ackMsg.seq info.pshSeq) = true then info.dropCnt
        else info.dropCnt + 1) = dropCnt at h
      split at h
      · cases h
        exact ⟨rfl, rfl, rfl, rfl, .inl ⟨rfl, rfl⟩⟩
      · cases h
        exact ⟨rfl, rfl, rfl, rfl, .inr ⟨rfl, rfl, rfl⟩⟩
  | false =>
    right
    cases type <;> simp only [tcpAckHandle, hseq, Bool.false_eq_true, if_false] at h <;> cases h <;>
      exact ⟨rfl, rfl, rfl, rfl⟩

/-- The acknowledgement that a message is. -/
def ackOf (msg : MsgBuf) : Option TcpAckMsg :=
  match tcpCheckAck msg.buf with
  | some (some check) => some check.msg
  | _ => none

/-- The slot that the filter gives to the flow of an outgoing packet, if it has none. -/
def newSlot (jiffies : UInt64) (m : AckManage) (msgbuf : MsgBuf) : Option (Fin tcpAckNum) :=
  if m.enable && decide (msgbuf.plen.toNat ≤ maxTcpAck) then
    match ackOf msgbuf with
    | none => none
    | some ackMsg =>
      match tcpAckMatch (tcpAckUpdate jiffies m) ackMsg with
      | some _ => none
      | none => (tcpAckAllocIndex (tcpAckUpdate jiffies m)).2
  else none

/-- What the filter does with an outgoing packet, after it took slots from their flows:
    nothing; what `tcpAckHandle` does with the slot of the packet's flow; or it gives a
    slot to the flow. -/
theorem filterSendTcpAck_cases {ret : Bool} {dropMsg : Option MsgBuf}
    (h : filterSendTcpAck jiffies m msgbuf = some (m', ret, dropMsg)) :
    ∃ info, Aged m.ackInfo info ∧
      ((m'.ackInfo = info ∧ ret = false ∧ dropMsg = none) ∨
      (∃ i ackMsg maxDropCnt winScale type info',
        ackOf msgbuf = some ackMsg ∧ (info i).busy = true ∧ (info i).ackMsg.SameFlow ackMsg ∧
        tcpAckHandle jiffies maxDropCnt msgbuf { info i with winScale := winScale } ackMsg type =
          (info', ret, dropMsg) ∧
        m'.ackInfo = Function.update info i info') ∨
      (∃ i ackMsg info',
        m'.ackInfo = Function.update info i info' ∧ ret = false ∧ dropMsg = none ∧
        ackOf msgbuf = some ackMsg ∧ newSlot jiffies m msgbuf = some i ∧
        info'.msgbuf = (info i).msgbuf ∧ info'.timer = (info i).timer ∧
        info'.inSendMsg = (info i).inSendMsg ∧
        info'.ackMsg.SameFlow ackMsg ∧ info'.ackMsg.seq = ackMsg.seq)) := by
  rw [filterSendTcpAck] at h
  split at h
  · cases h
    exact ⟨_, Aged.refl _, .inl ⟨rfl, rfl, rfl⟩⟩
  rename_i henable
  split at h
  · cases h
    exact ⟨_, Aged.refl _, .inl ⟨rfl, rfl, rfl⟩⟩
  rename_i hplen
  refine ⟨(tcpAckUpdate jiffies m).ackInfo, tcpAckUpdate_aged, ?_⟩
  dsimp only at h
  split at h
  · cases h
  · cases h
    exact .inl ⟨rfl, rfl, rfl⟩
  rename_i type ackMsg winScale hcheck
  have hack : ackOf msgbuf = some ackMsg := by rw [ackOf, hcheck]
  split at h
  · -- The flow has a slot.
    rename_i i hmatch
    obtain ⟨hbusy, hflow⟩ := tcpAckMatch_some hmatch
    set m₁ := tcpAckUpdate jiffies m
    -- Both branches of the window scale are one update of the slot.
    have hscale : (if winScale ≠ 0 then { m₁.ackInfo i with winScale := winScale }
          else m₁.ackInfo i) =
        { m₁.ackInfo i with
          winScale := if winScale ≠ 0 then winScale else (m₁.ackInfo i).winScale } := by
      split <;> rfl
    rw [hscale] at h
    dsimp only at h
    generalize hhandle : tcpAckHandle _ _ _ _ _ _ = r at h
    obtain ⟨info', ret', dropMsg'⟩ := r
    cases h
    exact .inr (.inl ⟨i, ackMsg, _, _, _, info', hack, hbusy, hflow, hhandle, rfl⟩)
  · -- The flow gets a slot, if there is one left.
    rename_i hmatch
    have hsame := @tcpAckAllocIndex_ackInfo (tcpAckUpdate jiffies m)
    -- All slots are taken, or one is left.
    split at h
    · rename_i m₂ halloc
      rw [halloc] at hsame
      cases h
      exact .inl ⟨hsame, rfl, rfl⟩
    · rename_i m₂ i halloc
      rw [halloc] at hsame
      have hnew : newSlot jiffies m msgbuf = some i := by
        have hcond : (m.enable && decide (msgbuf.plen.toNat ≤ maxTcpAck)) = true := by
          rw [Bool.not_eq_true', Bool.not_eq_false] at henable
          rw [henable, decide_eq_true (not_lt.1 hplen)]
          rfl
        rw [newSlot, if_pos hcond, hack]
        dsimp only
        rw [hmatch]
        dsimp only
        rw [halloc]
      cases h
      rw [← hsame]
      exact .inr (.inr ⟨i, ackMsg, _, rfl, rfl, rfl, hack, hnew, rfl, rfl, rfl,
        ⟨rfl, rfl, rfl, rfl⟩, rfl⟩)

/-- A received packet only asks for a quick acknowledgement. -/
theorem filterRxTcpAck_info {buf : List UInt8} {plen : UInt32}
    (h : filterRxTcpAck m buf plen = some m') (i : Fin tcpAckNum) :
    ∃ pshFlag pshSeq, m'.ackInfo i = { m.ackInfo i with pshFlag := pshFlag, pshSeq := pshSeq } := by
  rw [filterRxTcpAck] at h
  split at h
  · cases h
    exact ⟨_, _, rfl⟩
  split at h
  · cases h
    exact ⟨_, _, rfl⟩
  split at h
  · cases h
  · cases h
    exact ⟨_, _, rfl⟩
  split at h
  · cases h
    exact ⟨_, _, rfl⟩
  · rename_i k hk
    cases h
    rw [setInfo_ackInfo]
    rcases eq_or_ne i k with rfl | hi
    · rw [Function.update_self]
      exact ⟨_, _, rfl⟩
    · rw [Function.update_of_ne hi]
      exact ⟨_, _, rfl⟩

theorem moveSlot_info {msg : MsgBuf} {info : AckInfo} :
    ∃ inSendMsg, moveSlot msg info = { info with inSendMsg := inSendMsg } := by
  rw [moveSlot]
  split
  · split
    · exact ⟨_, rfl⟩
    · exact ⟨_, rfl⟩
  · exact ⟨_, rfl⟩

/-- A message that leaves the host is only taken out of the slots. -/
theorem moveTcpackMsg_info (i : Fin tcpAckNum) {msg : MsgBuf} :
    ∃ inSendMsg, (moveTcpackMsg m msg).ackInfo i = { m.ackInfo i with inSendMsg := inSendMsg } := by
  rw [moveTcpackMsg]
  split
  · exact ⟨_, rfl⟩
  split
  · exact ⟨_, rfl⟩
  exact moveSlot_info

end W132d.TcpAck
