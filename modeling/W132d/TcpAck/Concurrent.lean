import W132d.TcpAck.Timer

/-!
# Senders that run at the same time

Every interface sends its packets through the same filter, so that senders of different
interfaces run `sprdwl_filter_send_tcp_ack` at the same time (`tcp_ack.c`). `ack_m->lock` guards
the number of slots that are taken and the free index, and a seqlock every slot: who writes a slot
holds its seqlock, and who reads one reads again if it was written meanwhile.

* `Pc`: where a sender is. It goes on to the end of the next section that a lock guards, or of the
  next turn of a loop that reads a slot;
* `Net.senderStep`: what it does there;
* `Net.write`: a section that a seqlock guards. It counts the sections of the slot (`seq`), which a
  reader compares;
* `senders`: the machine of all senders, and of the others who write slots.

In the loop that looks for a slot that is not busy, what an attempt to read has done stays done if
the attempt is made again, so that the attempt is three steps there. Other attempts leave nothing
behind, and only the one that is not made again is a step.
-/

namespace W132d.TcpAck

/-- The slots, in the order of the loops. -/
def slots : List (Fin tcpAckNum) := List.finRange tcpAckNum

/-- Where a sender is in `sprdwl_filter_send_tcp_ack`, and its variables. Loops have the slots that
    are left. -/
inductive Pc where
  /-- It is not in the filter. -/
  | idle
  /-- `sprdwl_tcp_ack_update`, about to take `ack_m->lock`. -/
  | updateLock (msgbuf : MsgBuf)
  /-- The loop of `sprdwl_tcp_ack_update`. -/
  | update (msgbuf : MsgBuf) (left : List (Fin tcpAckNum))
  /-- The loop of `sprdwl_tcp_ack_match`. -/
  | lookup (msgbuf : MsgBuf) (check : AckCheck) (left : List (Fin tcpAckNum))
  /-- The slot of the flow is found. -/
  | found (msgbuf : MsgBuf) (check : AckCheck) (i : Fin tcpAckNum)
  /-- About to set the window scale of the slot. -/
  | scale (msgbuf : MsgBuf) (check : AckCheck) (i : Fin tcpAckNum)
  /-- About to read the window scale of the slot. -/
  | win (msgbuf : MsgBuf) (check : AckCheck) (i : Fin tcpAckNum)
  /-- `sprdwl_tcp_ack_handle`. -/
  | handle (msgbuf : MsgBuf) (check : AckCheck) (i : Fin tcpAckNum)
  /-- `sprdwl_tcp_ack_alloc_index`, about to take `ack_m->lock`. -/
  | allocLock (check : AckCheck)
  /-- The loop of `sprdwl_tcp_ack_alloc_index`, about to begin to read a slot. -/
  | allocBegin (check : AckCheck) (left : List (Fin tcpAckNum))
  /-- It has begun, with the count `start` of the slot. -/
  | allocLook (check : AckCheck) (i : Fin tcpAckNum) (left : List (Fin tcpAckNum)) (start : ℕ)
  /-- It has read the slot, and whether it is free. -/
  | allocRetry (check : AckCheck) (i : Fin tcpAckNum) (left : List (Fin tcpAckNum)) (start : ℕ)
      (free : Bool)
  /-- It was given the slot, and is about to write it. -/
  | publish (check : AckCheck) (i : Fin tcpAckNum)

/-- The filter, and `n` senders. `seq` counts the sections that wrote a slot, and `locked` tells
    whether `ack_m->lock` is taken. `given` has the senders that were given a slot, with their
    acknowledgements, and were not aged out since. -/
structure Net (n : ℕ) where
  ackM : AckManage
  seq : Fin tcpAckNum → ℕ
  locked : Bool
  pc : Fin n → Pc
  given : Fin tcpAckNum → List (Fin n × TcpAckMsg)

namespace Net

variable {n : ℕ} (s : Net n) (k : Fin n)

/-- A sender goes on. -/
def goto (pc : Pc) : Net n := { s with pc := Function.update s.pc k pc }

/-- A section that writes a slot. -/
def write (i : Fin tcpAckNum) (f : AckInfo → AckInfo) : Net n :=
  { s with
    ackM := s.ackM.setInfo i (f (s.ackM.ackInfo i))
    seq := Function.update s.seq i (s.seq i + 1) }

/-- The sender is given a slot. -/
def give (check : AckCheck) (i : Fin tcpAckNum) : Net n :=
  { s with given := Function.update s.given i (s.given i ++ [(k, check.msg)]) }.goto k
    (.publish check i)

/-- The sender is about to write the slot, which it was given. -/
def publishes (i : Fin tcpAckNum) : Bool :=
  match s.pc k with
  | .publish _ j => decide (j = i)
  | _ => false

/-- A turn of the loop of `sprdwl_tcp_ack_update`. If the slot ages, those who have written it are
    aged out. -/
def age (jiffies : UInt64) (i : Fin tcpAckNum) : Net n :=
  let info := s.ackM.ackInfo i
  { s with
    ackM := ageSlot jiffies s.ackM i
    seq := Function.update s.seq i (s.seq i + 1)
    given :=
      if info.busy && timeAfter jiffies (info.lastTime + info.timeout) then
        Function.update s.given i ((s.given i).filter fun x => s.publishes x.1 i)
      else s.given }

/-- The sender has a packet, and looks for the slot of its flow if it is an acknowledgement. -/
def checkAck (msgbuf : MsgBuf) : Option (Net n) :=
  (tcpCheckAck msgbuf.buf).map fun
    | none => s.goto k .idle
    | some check => s.goto k (.lookup msgbuf check slots)

/-- A sender enters `sprdwl_filter_send_tcp_ack`. -/
def call (jiffies : UInt64) (msgbuf : MsgBuf) : Option (Net n) :=
  if !s.ackM.enable then some s
  else if msgbuf.plen.toNat > maxTcpAck then some s
  else if timeAfter jiffies (s.ackM.lastTime + s.ackM.timeout) then
    some (s.goto k (.updateLock msgbuf))
  else s.checkAck k msgbuf

/-- What a sender does next; a sender that waits for `ack_m->lock` takes no step. -/
def senderStep (jiffies : UInt64) : Option (Net n) :=
  match s.pc k with
  | .idle => none
  | .updateLock msgbuf =>
    if s.locked then none
    else
      some ({ s with
        locked := true
        ackM := { s.ackM with lastTime := jiffies } }.goto k (.update msgbuf slots.reverse))
  | .update msgbuf [] => { s with locked := false }.checkAck k msgbuf
  | .update msgbuf (i :: left) => some ((s.age jiffies i).goto k (.update msgbuf left))
  | .lookup _ check [] => some (s.goto k (.allocLock check))
  | .lookup msgbuf check (i :: left) =>
    let info := s.ackM.ackInfo i
    if info.busy && decide (info.ackMsg.SameFlow check.msg) then
      some (s.goto k (.found msgbuf check i))
    else some (s.goto k (.lookup msgbuf check left))
  | .found msgbuf check i =>
    if check.winScale ≠ 0 ∧ (s.ackM.ackInfo i).winScale ≠ check.winScale then
      some (s.goto k (.scale msgbuf check i))
    else some (s.goto k (.win msgbuf check i))
  | .scale msgbuf check i =>
    some ((s.write i fun info => { info with winScale := check.winScale }).goto k
      (.win msgbuf check i))
  | .win msgbuf check i =>
    let win := (s.ackM.ackInfo i).winScale.toUInt32 * check.msg.win.toUInt32
    let type := if win < s.ackM.ackWinsize * 1024 then .moreInfo else check.type
    some (s.goto k (.handle msgbuf { check with type := type } i))
  | .handle msgbuf check i =>
    some ((s.write i fun info =>
      (tcpAckHandle jiffies s.ackM.maxDropCnt msgbuf info check.msg check.type).1).goto k .idle)
  | .allocLock check =>
    if s.locked then none
    else if s.ackM.maxNum = tcpAckNum then some (s.goto k .idle)
    else
      match s.ackM.freeIndex with
      | some i =>
        some ({ s with
          ackM := { s.ackM with freeIndex := none, maxNum := s.ackM.maxNum + 1 } }.give k check i)
      | none => some ({ s with locked := true }.goto k (.allocBegin check slots))
  | .allocBegin _ [] => some ({ s with locked := false }.goto k .idle)
  | .allocBegin check (i :: left) => some (s.goto k (.allocLook check i left (s.seq i)))
  | .allocLook check i left start =>
    if (s.ackM.ackInfo i).busy then some (s.goto k (.allocRetry check i left start false))
    else
      some ({ s with
        ackM := { s.ackM with freeIndex := none, maxNum := s.ackM.maxNum + 1 } }.goto k
          (.allocRetry check i left start true))
  | .allocRetry check i left start free =>
    if s.seq i ≠ start then some (s.goto k (.allocBegin check (i :: left)))
    else if free then some ({ s with locked := false }.give k check i)
    else some (s.goto k (.allocBegin check left))
  | .publish check i =>
    some ((s.write i fun info =>
      { info with
        busy := true
        pshFlag := false
        lastTime := jiffies
        dropCnt := s.ackM.maxDropCnt
        winScale := if check.winScale ≠ 0 then check.winScale else 1
        ackMsg := { check.msg with win := info.ackMsg.win } }).goto k .idle)

end Net

/-- What happens. -/
inductive NetEvent (n : ℕ) where
  /-- A sender enters the filter. -/
  | call (k : Fin n) (jiffies : UInt64) (msgbuf : MsgBuf)
  /-- A sender goes on. -/
  | sender (k : Fin n) (jiffies : UInt64)
  /-- The section of `sprdwl_filter_rx_tcp_ack`. -/
  | receive (i : Fin tcpAckNum) (seq : UInt32)
  /-- The section of `sprdwl_tcp_ack_timeout`. -/
  | timeout (i : Fin tcpAckNum)
  /-- A section of `sprdwl_move_tcpack_msg`. -/
  | move (i : Fin tcpAckNum) (msg : MsgBuf)
  /-- A section of `enable_tcp_ack_delay` or `sprdwl_tcp_ack_deinit`. -/
  | drop (i : Fin tcpAckNum)
  /-- `enable_tcp_ack_delay` turns the filter on or off. -/
  | enable (on : Bool)
  /-- `adjust_tcp_ack_delay`. -/
  | adjust (cnt : Int32)
  /-- `adjust_tcp_ack_delay_win`. -/
  | adjustWin (value : UInt32)

/-- What an event does. A sender enters the filter once it has left it. -/
def Net.step {n : ℕ} (s : Net n) : NetEvent n → Option (Net n)
  | .call k jiffies msgbuf =>
    match s.pc k with
    | .idle => s.call k jiffies msgbuf
    | _ => none
  | .sender k jiffies => s.senderStep k jiffies
  | .receive i seq => some (s.write i fun info => { info with pshFlag := true, pshSeq := seq })
  | .timeout i => some (s.write i fun info => (tcpAckTimeout { info with timer := false }).1)
  | .move i msg => some (s.write i (moveSlot msg))
  | .drop i => some (s.write i fun info => { info with timer := false, msgbuf := none })
  | .enable on => some { s with ackM := { s.ackM with enable := on } }
  | .adjust cnt => some { s with ackM := { s.ackM with maxDropCnt := cnt } }
  | .adjustWin value => some { s with ackM := { s.ackM with ackWinsize := value } }

/-- The machine of `n` senders. -/
def senders (n : ℕ) : Machine (Net n) (NetEvent n) where
  step := Net.step

/-- The filter after `sprdwl_tcp_ack_init`, and `n` senders that are not in it. -/
def Net.init (n : ℕ) (jiffies timeout : UInt64) : Net n where
  ackM := tcpAckInit jiffies timeout
  seq := fun _ => 0
  locked := false
  pc := fun _ => .idle
  given := fun _ => []

end W132d.TcpAck
