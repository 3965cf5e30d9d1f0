import W132d.Credit
import W132d.Tally
import W132d.TcpAck.Basic

/-!
# The pool of messages for transmission

Outgoing packets travel in messages, of which there is a pool (`tx_msg.c`, `msg.c`). A message is
taken off the free list and queued to the list of its mode, its access category and its peer. The
transmit thread drops messages that are too old, moves as many as there are credits for to the
send list and pushes them to the bus (`wl_intf.c`). They stay on the to-free list until the bus
has sent them.

* `getMsgBuf`, `txMsgFunc`: a message is taken and queued;
* `eachMode`: messages are dropped, and moved to the send list by the shares of their lists
  (`qosShares`);
* `handleToSendList`, `push`: the send list is pushed. The driver looks whether the firmware has
  asserted (`cpAsserted`) once in each of the two, so that they are two steps;
* `handlePopList`, `freePcieData`: messages were sent;
* `flushTxQoslist`, `flushModeTxlist`, `flushTosendlist`: lists are emptied;
* `pool`: the machine of these.

The counters of the pool (`ref`), of the lists (`lNum`) and of the modes (`modeListNum`) are
integers of ℤ. The products that the shares are computed from are those of 32 bits.
-/

namespace W132d.TxPool

open Credit (Mode FwStat s32 u32 enomem)
open TcpAck (timeAfter)

/-! ## Data -/

/-- The access categories, in the order of the loops. -/
inductive Ac where
  | vo
  | vi
  | be
  | bk
  deriving DecidableEq, Repr

/-- `MAX_LUT_NUM`. -/
def maxLutNum : ℕ := 32

/-- A peer's list of a mode: its category, and the index of the peer. -/
abbrev Queue := Ac × Fin maxLutNum

/-- The categories. -/
def acs : List Ac := [.vo, .vi, .be, .bk]

instance fintypeAc : Fintype Ac where
  elems := ⟨acs, by decide⟩
  complete i := by cases i <;> simp [acs]

instance fintypeMode : Fintype Mode where
  elems := {.none, .station, .ap, .p2pDevice, .p2pClient, .p2pGo, .ibss}
  complete mode := by cases mode <;> simp

theorem six_lt_maxLutNum : 6 < maxLutNum := by decide

/-- The peers. -/
def luts : List (Fin maxLutNum) := List.finRange maxLutNum

/-- The lists of a mode, in the order of the loops. -/
def queues : List Queue := acs.flatMap fun i => luts.map fun j => (i, j)

/-- `struct sprdwl_msg_buf`: its mode, and when it is too old. -/
structure Msg where
  mode : Mode
  timeout : UInt64
  deriving DecidableEq, Repr

/-- `struct sprdwl_msg_list`, of data: the free messages, the number of those in use, and that
    of all. -/
structure MsgList where
  freelist : List Msg
  ref : ℤ
  maxnum : ℤ

/-- `struct peer_list`. -/
structure PeerList where
  headList : List Msg
  lNum : ℤ

/-- `struct tx_t`: the lists of a mode. -/
structure TxList where
  modeListNum : ℤ
  pList : Queue → PeerList

/-- The state of the transmit path. -/
structure State where
  priv : Credit.Priv
  credits : Credit.TxMsg
  /-- The firmware has asserted (`cp_asserted`). -/
  cpAsserted : Bool
  dataTimeout : UInt64
  /-- `tx_list_qos_pool` -/
  pool : MsgList
  /-- The messages that were taken and are not queued yet. -/
  hand : List Msg
  txList : Mode → TxList
  toSend : List Msg
  toFree : List Msg
  /-- The mode of the send list (`xmit_msg_list.mode`). -/
  mode : Mode
  failcount : ℤ
  /-- The number of messages that the transmit thread is about to push (`credit`). -/
  credit : Option ℤ

/-- Writing a peer's list. -/
def State.setList (s : State) (mode : Mode) (q : Queue) (p : PeerList) : State :=
  let t := s.txList mode
  { s with
    txList := Function.update s.txList mode { t with pList := Function.update t.pList q p } }

/-- Adding to a mode's counter. -/
def State.addModeListNum (s : State) (mode : Mode) (n : ℤ) : State :=
  let t := s.txList mode
  { s with txList := Function.update s.txList mode { t with modeListNum := t.modeListNum + n } }

/-- A peer's list. -/
def State.list (s : State) (mode : Mode) (q : Queue) : PeerList := (s.txList mode).pList q

/-! ## Messages -/

/-- `SPRDWL_MSG_EXIT_VAL`. -/
def msgExitVal : ℤ := 0x8000

/-- `SPRDWL_TX_QOS_POOL_SIZE`. -/
def txQosPoolSize : ℕ := 20000

/-- `SPRDWL_MAX_DATA_TXLEN`. -/
def maxDataTxlen : ℕ := 1672

/-- A message as `kzalloc` returns it. -/
def Msg.zero : Msg := ⟨.none, 0⟩

/-- `sprdwl_msg_init`. -/
def msgInit (num : ℕ) : MsgList := ⟨List.replicate num Msg.zero, 0, num⟩

/-- `sprdwl_alloc_msg_buf`. -/
def allocMsgBuf (list : MsgList) : MsgList × Option Msg :=
  if list.ref + 1 ≥ msgExitVal then (list, none)
  else
    match list.freelist with
    | [] => (list, none)
    | msg :: freelist => ({ list with freelist := freelist, ref := list.ref + 1 }, some msg)

/-- `sprdwl_free_msg_buf`. -/
def freeMsgBuf (list : MsgList) (msg : Msg) : MsgList :=
  { list with freelist := list.freelist ++ [msg], ref := list.ref - 1 }

/-- `sprdwl_get_msg_buf`, of data. Whether `kzalloc` finds memory is given; there is none for more
    messages than an `int` counts. -/
def getMsgBuf (mode : Mode) (kzalloc : Bool) (list : MsgList) : MsgList × Option Msg :=
  let (list, msg) :=
    if list.ref > txQosPoolSize * 8 / 10 then
      -- The pool grows by the message.
      if kzalloc ∧ list.maxnum + 1 < 2 ^ 31 then
        allocMsgBuf
          { list with freelist := list.freelist ++ [Msg.zero], maxnum := list.maxnum + 1 }
      else (list, none)
    else allocMsgBuf list
  (list, msg.map fun msg => { msg with mode := mode })

/-- What `sprdwl_tx_msg_func` finds in a packet: its length, the `sw_rate` and `sta_lut_index` of
    its descriptor, and its category (`change_priority_if`), `none` if it may not be sent. -/
structure Packet where
  len : ℕ
  swRate : ℕ
  lut : Fin maxLutNum
  qos : Option Ac

/-- `sprdwl_queue_data_msg_buf`. -/
def queueDataMsgBuf (swRate : ℕ) (msg : Msg) (p : PeerList) : PeerList where
  headList := if swRate = 1 then msg :: p.headList else p.headList ++ [msg]
  lNum := p.lNum + 1

/-- `sprdwl_tx_msg_func`, of a message that was taken. -/
def txMsgFunc (jiffies : UInt64) (packet : Packet) (msg : Msg) (s : State) : State :=
  let msg := { msg with timeout := jiffies + s.dataTimeout }
  if packet.len > maxDataTxlen then { s with pool := freeMsgBuf s.pool msg }
  else
    match packet.qos with
    | none => { s with pool := freeMsgBuf s.pool msg }
    | some qos =>
      let qos := if (msg.mode = .ap ∨ msg.mode = .p2pGo) ∧ packet.lut.val < 6 then .bk else qos
      let q := (qos, packet.lut)
      (s.setList msg.mode q (queueDataMsgBuf packet.swRate msg (s.list msg.mode q))).addModeListNum
        msg.mode 1

/-! ## Lists that are emptied -/

/-- Messages are freed one by one. -/
def freeMsgBufs (list : MsgList) (msgs : List Msg) : MsgList := msgs.foldl freeMsgBuf list

/-- `sprdwl_flush_tx_qoslist`. -/
def flushTxQoslist (mode : Mode) (q : Queue) (s : State) : State :=
  let p := s.list mode q
  if p.headList = [] then s
  else
    ({ s with pool := freeMsgBufs s.pool p.headList }.addModeListNum mode (-p.lNum)).setList
      mode q ⟨[], 0⟩

/-- A turn of the loop of `sprdwl_flush_mode_txlist`. -/
def flushList (mode : Mode) (s : State) (q : Queue) : State :=
  let p := s.list mode q
  if p.headList = [] then s
  else { s with pool := freeMsgBufs s.pool p.headList }.setList mode q ⟨[], 0⟩

/-- `sprdwl_flush_mode_txlist`. -/
def flushModeTxlist (mode : Mode) (s : State) : State :=
  let s := queues.foldl (flushList mode) s
  s.addModeListNum mode (-(s.txList mode).modeListNum)

/-- `sprdwl_flush_tosendlist`. -/
def flushTosendlist (s : State) : State :=
  { s with pool := freeMsgBufs s.pool s.toSend, toSend := [] }

/-! ## Messages that are too old -/

/-- The number of messages that `handle_tx_timeout` drops from a list. -/
def delListNum (lNum maxnum : ℤ) : ℤ := min ((s32 (lNum * lNum)).tdiv maxnum) lNum

/-- `handle_tx_timeout`, of a peer's list. -/
def handleTxTimeout (jiffies : UInt64) (mode : Mode) (q : Queue) (s : State) : State :=
  let p := s.list mode q
  match p.headList with
  | [] => s
  | tailbuf :: _ =>
    if timeAfter jiffies tailbuf.timeout then
      let del := delListNum p.lNum s.pool.maxnum
      let dropped := p.headList.take del.toNat
      ({ s with pool := freeMsgBufs s.pool dropped }.setList mode q
        ⟨p.headList.drop del.toNat, p.lNum - del⟩).addModeListNum tailbuf.mode (-dropped.length)
    else s

/-- A turn of the loop of `sprdwl_tx_eachmode_data` that counts the messages of the lists. -/
def countList (jiffies : UInt64) (mode : Mode) :
    State × (Queue → ℤ) → Queue → State × (Queue → ℤ)
  | (s, num), q =>
    if (s.list mode q).lNum > 0 then
      let s := handleTxTimeout jiffies mode q s
      (s, Function.update num q (s.list mode q).lNum)
    else (s, num)

/-! ## The shares of the lists -/

section

variable (num : Queue → ℤ)

/-- `q_list_num`: the messages of a category. -/
def qListNum (i : Ac) : ℤ := (luts.map fun j => num (i, j)).sum

/-- The messages of a mode. -/
def total : ℤ := (acs.map (qListNum num)).sum

/-- The shares if there are credits for all messages. -/
def allShares : List (Queue × ℤ) :=
  acs.flatMap fun i =>
    if qListNum num i ≤ 0 then []
    else luts.filterMap fun j => if num (i, j) = 0 then none else some ((i, j), num (i, j))

/-- `vo_ratio`, `vi_ratio` and `be_ratio`. -/
def ratio : Ac → Option ℤ
  | .vo => some 87
  | .vi => some 90
  | .be => some 81
  | .bk => none

/-- The number of credits that a category with `q` of `total` messages gets of `sendNum`, by its
    ratio. A ratio is an `unsigned int`, the other factors are `int`s. -/
def fpByRatio (i : Ac) (sendNum total q : ℤ) : ℤ :=
  match ratio i with
  | some r => if total > q then min (u32 (sendNum * r) / 100) q else (s32 (sendNum * q)).tdiv total
  | none => (s32 (sendNum * q)).tdiv total

/-- `fp_num`: the number of credits that a category gets. -/
def fpNum (i : Ac) (sendNum total q : ℤ) : ℤ :=
  let fp := fpByRatio i sendNum total q
  -- The categories that follow cannot use all that is left.
  if total - q < sendNum - fp ∧ total - q > 0 then fp + (sendNum - fp - (total - q)) else fp

/-- The shares of the lists of a category, which has `q` messages and `fp` credits. -/
def peerShares (i : Ac) : List (Fin maxLutNum) → ℤ → ℤ → List (Queue × ℤ)
  | [], _, _ => []
  | j :: js, q, fp =>
    if num (i, j) = 0 then peerShares i js q fp
    else
      let round := (s32 (num (i, j) * fp)).tdiv q
      let round := if fp > 0 ∧ round = 0 then 1 else round
      let minNum := min round fp
      if minNum ≤ 0 then []
      else
        ((i, j), minNum) ::
          if fp - minNum ≤ 0 then [] else peerShares i js (q - num (i, j)) (fp - minNum)

/-- The shares if there are `sendNum` credits for `total` messages. -/
def qosShares : List Ac → ℤ → ℤ → List (Queue × ℤ)
  | [], _, _ => []
  | i :: is, sendNum, total =>
    let q := qListNum num i
    if q ≤ 0 then qosShares is sendNum total
    else if sendNum ≤ 0 then []
    else
      let fp := fpNum i sendNum total q
      peerShares num i luts q fp ++ qosShares is (sendNum - fp) (total - q)

end

/-- The first `n` messages of a list and the other ones, as `list_cut_position` cuts them at the
    position where a loop has counted `n`: at none if there are not that many. -/
def cut (l : List Msg) (n : ℤ) : List Msg × List Msg :=
  if 0 < n ∧ n ≤ l.length then (l.take n.toNat, l.drop n.toNat) else ([], l)

/-- `add_xmit_list_tail`, and what follows it: a share is moved to the send list. -/
def addXmitListTail (mode : Mode) (s : State) : Queue × ℤ → State
  | (q, n) =>
    let p := s.list mode q
    let (moved, rest) := cut p.headList n
    ({ s with toSend := s.toSend ++ moved }.setList mode q ⟨rest, p.lNum - n⟩).addModeListNum
      mode (-n)

/-- `sprdwl_tx_eachmode_data`, up to where it pushes the send list. -/
def eachMode (jiffies : UInt64) (mode : Mode) (s : State) : State :=
  let (s, num) := queues.foldl (countList jiffies mode) (s, fun _ => 0)
  let (credits, sendNum) := Credit.testSendNum s.priv s.credits mode (total num)
  let s := { s with credits := credits }
  if total num ≠ 0 ∧ sendNum ≤ 0 then s
  else if sendNum ≥ total num then (allShares num).foldl (addXmitListTail mode) s
  else (qosShares num acs sendNum (total num)).foldl (addXmitListTail mode) s

/-! ## The send list -/

/-- `sprdwl_handle_to_send_list`, up to where it calls `sprdwl_intf_tx_list`. -/
def handleToSendList (mode : Mode) (s : State) : State :=
  if s.cpAsserted then s
  else if s.toSend = [] then s
  else
    let (credits, credit) := Credit.getSendNum s.priv s.credits mode s.toSend.length
    let s := { s with credits := credits }
    if credit ≤ 0 then s else { s with mode := mode, credit := some credit }

/-- The bus, while a list is pushed: its free mbufs, whether there are buffers for the addresses
    that a PCIe device is sent, and what the push returns. -/
structure Bus where
  free : ℤ
  addrBuf : Bool
  push : ℤ

/-- `PCIE_TX_NUM`. -/
def pcieTxNum : ℤ := 96

/-- `buf_list_alloc`: the number of mbufs, or `none` if it fails. -/
def Bus.listAlloc (bus : Bus) (num : ℤ) : Option ℤ :=
  if num ≤ 0 ∨ bus.free ≤ 0 then none else some (min num bus.free)

/-- The lists after a push of `txCount` messages, and what it returns. The messages are put on
    the to-free list, and back if they could not be pushed. -/
def Bus.pushList (bus : Bus) (txCount : ℤ) (s : State) : State × ℤ :=
  let (sent, rest) := cut s.toSend txCount
  if bus.push ≠ 0 then (s, bus.push)
  else ({ s with toSend := rest, toFree := s.toFree ++ sent }, 0)

/-- `sprdwl_intf_tx_list`, and what it returns, or `none` if it reads through a null pointer. -/
def intfTxList (bus : Bus) (txCount : ℤ) (s : State) : Option (State × ℤ) :=
  if s.cpAsserted then some (s, 0)
  else if s.priv.pcie then
    -- An mbuf holds the addresses of many messages, but every message takes another mbuf.
    let pcieCount := if txCount ≤ pcieTxNum then 1 else (txCount - 1) / pcieTxNum + 1
    match bus.listAlloc pcieCount with
    | none => some (s, -enomem)
    | some pcieCount =>
      if bus.addrBuf = false then some (s, -1)
      else if pcieCount < txCount then none
      else some (bus.pushList txCount s)
  else
    match bus.listAlloc txCount with
    | none => some (s, -enomem)
    | some num => if num ≠ txCount then some (s, -enomem) else some (bus.pushList txCount s)

/-- `sprdwl_handle_tx_return`. -/
def handleTxReturn (sendNum ret : ℤ) (s : State) : State :=
  let s := { s with credits := Credit.handleTxReturn s.priv s.credits sendNum ret }
  if ret ≠ 0 then s else { s with pool := { s.pool with ref := s.pool.ref - sendNum } }

/-- `sprdwl_handle_to_send_list`, from where it calls `sprdwl_intf_tx_list` with `credit`. -/
def push (bus : Bus) (credit : ℤ) (s : State) : Option State := do
  let (s, ret) ← intfTxList bus credit s
  let s := { handleTxReturn credit ret s with credit := none }
  if ret ≠ 0 then
    let s := { s with failcount := s.failcount + 1 }
    if s.failcount > 10 then some { flushTosendlist s with failcount := 0 } else some s
  else some s

/-! ## Messages that were sent -/

/-- `sprdwl_handle_pop_list`, of the `num` messages from position `start` of the to-free list. -/
def handlePopList (start num : ℕ) (s : State) : State :=
  { s with
    toFree := s.toFree.take start ++ s.toFree.drop (start + num)
    pool := { s.pool with freelist := s.pool.freelist ++ (s.toFree.drop start).take num } }

/-- The messages from the first one on of which a PCIe device does not tell that they were sent. -/
def expired (jiffies : UInt64) (s : State) : List Msg :=
  s.toFree.takeWhile fun msg => timeAfter jiffies (msg.timeout + s.dataTimeout)

/-- `sprdwl_tx_free_pcie_data`, of an event that names `dataNum` buffers. In front of a buffer lies
    the address of its message (`msg_ptr` of `sprdwl_intf_tx_list`), and the function takes the
    place where it lies for the message itself: it frees through a wild pointer, and crashes.
    Without buffers, it frees the messages of which the device has not told for long
    (`sprdwl_dequeue_data_buf`). -/
def freePcieData (jiffies : UInt64) (dataNum : ℕ) (s : State) : Option State :=
  if dataNum ≠ 0 then none
  else some { s with
    toFree := s.toFree.drop (expired jiffies s).length
    pool := freeMsgBufs s.pool (expired jiffies s) }

/-! ## The machine -/

/-- What happens on the transmit path. -/
inductive Event where
  /-- A message is taken, and whether there is memory. -/
  | getMsgBuf (mode : Mode) (kzalloc : Bool)
  /-- The message at a position is sent. -/
  | txMsgFunc (i : ℕ) (packet : Packet) (jiffies : UInt64)
  /-- The message at a position is given back. -/
  | freeMsgBuf (i : ℕ)
  /-- The lists of a mode are gone through. -/
  | eachMode (mode : Mode) (jiffies : UInt64)
  /-- The send list is to be pushed. -/
  | handleToSendList (mode : Mode)
  /-- It is pushed. -/
  | push (bus : Bus)
  /-- Messages were sent. -/
  | handlePopList (start num : ℕ)
  /-- A PCIe device tells that messages were sent. -/
  | freePcieData (dataNum : ℕ) (jiffies : UInt64)
  /-- Lists are emptied. -/
  | flushTxQoslist (mode : Mode) (q : Queue)
  | flushModeTxlist (mode : Mode)
  | flushTosendlist
  /-- The firmware asserts. -/
  | assert
  /-- The firmware gives or resets credits. -/
  | processCredit (event : Bool) (flow : Fin Credit.maxColorBit → UInt8)
  /-- A mode changes its state. -/
  | setStat (mode : Mode) (stat : FwStat)
  /-- An interface was closed. -/
  | close (mode : Mode)
  /-- An interface was disconnected. -/
  | disconnect (mode : Mode)

/-- What an event does. The thread that pushes the send list does nothing else meanwhile. -/
def State.step (s : State) : Event → Option State
  | .getMsgBuf mode kzalloc =>
    let (pool, msg) := getMsgBuf mode kzalloc s.pool
    some { s with pool := pool, hand := s.hand ++ msg.toList }
  | .txMsgFunc i packet jiffies =>
    s.hand[i]?.map fun msg => txMsgFunc jiffies packet msg { s with hand := s.hand.eraseIdx i }
  | .freeMsgBuf i =>
    s.hand[i]?.map fun msg =>
      { s with hand := s.hand.eraseIdx i, pool := TxPool.freeMsgBuf s.pool msg }
  | .eachMode mode jiffies =>
    if s.credit = none then some (TxPool.eachMode jiffies mode s) else none
  | .handleToSendList mode =>
    if s.credit = none then some (TxPool.handleToSendList mode s) else none
  | .push bus => s.credit.bind fun credit => TxPool.push bus credit s
  | .handlePopList start num =>
    if s.priv.pcie = false ∧ start + num ≤ s.toFree.length then
      some (TxPool.handlePopList start num s)
    else none
  | .freePcieData dataNum jiffies =>
    if s.priv.pcie then TxPool.freePcieData jiffies dataNum s else none
  | .flushTxQoslist mode q => some (TxPool.flushTxQoslist mode q s)
  | .flushModeTxlist mode => some (TxPool.flushModeTxlist mode s)
  | .flushTosendlist => if s.credit = none then some (TxPool.flushTosendlist s) else none
  | .assert => some { s with cpAsserted := true }
  | .processCredit event flow =>
    some { s with credits := Credit.processCredit s.credits event flow }
  | .setStat mode stat =>
    some { s with priv := { s.priv with fwStat := Function.update s.priv.fwStat mode stat } }
  | .close mode => some { s with credits := Credit.txStatusAfterClose s.priv s.credits mode }
  | .disconnect mode => some { s with credits := Credit.addShareCredit s.credits mode }

/-- The machine of the pool. -/
def pool : Machine State Event where
  step := State.step

/-- `sprdwl_tx_init`, for a device: nothing was taken. -/
def State.init (pcie noCredit : Bool) (dataTimeout : UInt64) : State where
  priv := ⟨pcie, noCredit, fun _ => .close⟩
  credits := ⟨fun i => ⟨.none, i, 0⟩, fun _ => 0, 0, 0⟩
  cpAsserted := false
  dataTimeout := dataTimeout
  pool := msgInit txQosPoolSize
  hand := []
  txList := fun _ => ⟨0, fun _ => ⟨[], 0⟩⟩
  toSend := []
  toFree := []
  mode := .none
  failcount := 0
  credit := none

end W132d.TxPool
