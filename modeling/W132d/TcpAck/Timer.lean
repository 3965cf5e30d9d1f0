import W132d.TcpAck.Basic

/-!
# The timer of what is held back

An acknowledgement that is held back waits for a newer one of its flow, or for the timer of
the slot. The timer passes it on only if the message before it has left the host
(`tcpAckTimeout`); if not, nothing sets the timer again, and when that message has left, the
acknowledgement waits for another packet of the flow (`stranded`). In runs where every timer
that expires finds nothing held back, or passes it on, what is held back has its timer
pending (`held_timer`).
-/

namespace W132d.TcpAck

/-- The timer of every slot that holds an acknowledgement back, with no message of the flow
    on its way, is pending. -/
def State.Waiting (s : State) : Prop :=
  ∀ i, (s.ackM.ackInfo i).busy = true → (s.ackM.ackInfo i).msgbuf ≠ none →
    (s.ackM.ackInfo i).inSendMsg = none → (s.ackM.ackInfo i).timer = true

instance (s : State) : Decidable s.Waiting :=
  inferInstanceAs (Decidable (∀ _ : Fin tcpAckNum, _))

/-- A timer that expires finds nothing held back, or passes it on: the slot has a flow, none
    of whose messages is on its way. -/
def PassesOn (s : State) : Event → Prop
  | .timeout i =>
    (s.ackM.ackInfo i).msgbuf = none ∨
      (s.ackM.ackInfo i).busy = true ∧ (s.ackM.ackInfo i).inSendMsg = none
  | _ => True

instance (s : State) : ∀ e, Decidable (PassesOn s e)
  | .timeout _ => inferInstanceAs (Decidable (_ ∨ _))
  | .elapse _ | .send _ | .receive .. | .move _ => .isTrue trivial

/-- What a slot holds back has its timer pending. -/
def Pending (info : AckInfo) : Prop := info.msgbuf ≠ none → info.timer = true

variable {s s' : State} {e : Event}

theorem Pending.congr {info info' : AckInfo} (h : Pending info)
    (hmsg : info'.msgbuf = info.msgbuf) (htimer : info'.timer = info.timer) : Pending info' := by
  rw [Pending, hmsg, htimer]
  exact h

/-- A new acknowledgement is passed on, is held back with the timer pending, or is freed. -/
theorem tcpAckHandle_pending {jiffies : UInt64} {maxDropCnt : Int32} {msgbuf : MsgBuf}
    {info info' : AckInfo} {ackMsg : TcpAckMsg} {type : AckType} {ret : Bool}
    {dropMsg : Option MsgBuf} (h : Pending info)
    (hr : tcpAckHandle jiffies maxDropCnt msgbuf info ackMsg type = (info', ret, dropMsg)) :
    Pending info' := by
  rcases tcpAckHandle_cases hr with ⟨_, _, _, _, ⟨_, hmsg⟩ | ⟨_, _, htimer⟩⟩ | ⟨_, rfl, _, _⟩
  · exact fun hne => absurd hmsg hne
  · exact fun _ => htimer
  · exact h

/-- A timer that passes on what the slot holds back leaves nothing there. -/
theorem tcpAckTimeout_pending {info : AckInfo}
    (h : info.msgbuf = none ∨ info.busy = true ∧ info.inSendMsg = none) :
    Pending (tcpAckTimeout info).1 := by
  rw [tcpAckTimeout]
  split
  · rename_i msg hmsg
    rcases h with hnone | ⟨hbusy, hsend⟩
    · rw [hnone] at hmsg
      cases hmsg
    · rw [hbusy, hsend]
      exact fun hne => absurd rfl hne
  · rename_i hmsg
    exact fun hne => absurd hmsg hne

theorem step_pending (h : ∀ i, Pending (s.ackM.ackInfo i)) (hpass : PassesOn s e)
    (hs : s.step e = some s') : ∀ i, Pending (s'.ackM.ackInfo i) := by
  -- What an event does to a slot is known, so that it is enough to look at the one it writes.
  cases e with
  | elapse n =>
    cases hs
    exact h
  | send msgbuf =>
    rw [State.step] at hs
    split at hs
    · cases hs
    rename_i m ret dropMsg hsend
    cases hs
    obtain ⟨info, haged, hcase⟩ := filterSendTcpAck_cases hsend
    have hinfo : ∀ i, Pending (info i) := fun i => by
      -- A slot that has aged is free, and its timer is as it was.
      rcases haged i with hsame | hfree
      · exact hsame ▸ h i
      · exact (h i).congr (by rw [hfree]) (by rw [hfree])
    rcases hcase with ⟨hm, _, _⟩ | ⟨i, _, _, winScale, _, info', _, _, _, hhandle, hm⟩ |
      ⟨i, _, info', hm, _, _, _, _, hmsg, htimer, _⟩
    · exact hm ▸ hinfo
    · -- Here the slot of the flow is written, which keeps a timer pending while it has an
      -- acknowledgement.
      have hi : Pending { info i with winScale := winScale } := (hinfo i).congr rfl rfl
      exact hm ▸ forall_update hinfo (tcpAckHandle_pending hi hhandle)
    · exact hm ▸ forall_update hinfo ((hinfo i).congr hmsg htimer)
  | receive buf plen =>
    rw [State.step] at hs
    split at hs
    · cases hs
    rename_i m hm
    cases hs
    intro i
    obtain ⟨pshFlag, pshSeq, hi⟩ := filterRxTcpAck_info hm i
    exact (h i).congr (by rw [hi]) (by rw [hi])
  | timeout i =>
    rw [State.step] at hs
    dsimp only at hs
    split at hs
    · cases hs
      exact forall_update h (tcpAckTimeout_pending hpass)
    · cases hs
  | move msg =>
    cases hs
    intro i
    obtain ⟨inSendMsg, hi⟩ := @moveTcpackMsg_info s.ackM i msg
    exact (h i).congr (by rw [hi]) (by rw [hi])

/-- In runs where every timer that expires finds nothing held back, or passes it on, the
    timer of every slot that holds an acknowledgement back is pending. -/
theorem held_timer (jiffies timeout : UInt64) {es : List Event} {s : State}
    (hpass : filter.Along PassesOn (State.init jiffies timeout) es)
    (hrun : filter.run (State.init jiffies timeout) es = some s) : s.Waiting := by
  have hinit : ∀ i, Pending ((State.init jiffies timeout).ackM.ackInfo i) :=
    fun _ hne => absurd rfl hne
  have hinv := Machine.invariant (I := fun s : State => ∀ i, Pending (s.ackM.ackInfo i))
    (fun s e s' h hG hs => step_pending h hG hs) hinit hpass hrun
  exact fun i _ hmsg _ => hinv i hmsg

/-! ## Packets of two flows -/

/-- The frame of an acknowledgement without data, of the flow from the port `port`, whose
    TCP header takes `doff` words. -/
def ackFrame (port seq doff : UInt8) (options : List UInt8) : List UInt8 :=
  let eth : List UInt8 := [0, 0, 0, 0, 0, 0, 0, 0, 0, 0, 0, 0, 0x08, 0x00]
  let ip : List UInt8 :=
    [0x45, 0, 0, 20 + 4 * doff, 0, 0, 0, 0, 64, 6, 0, 0, 10, 0, 0, 1, 10, 0, 0, 2]
  let tcp : List UInt8 :=
    [0, port, 0, 80, 0, 0, 0, 0, 0, 0, 0, seq, doff <<< 4, 0x10, 0xff, 0xff, 0, 0, 0, 0]
  eth ++ ip ++ tcp ++ options

/-- The first acknowledgement of a flow, with a window scale of 7. -/
def firstAck (addr : ℕ) (port : UInt8) : MsgBuf where
  addr := addr
  len := 61
  buf := ackFrame port 1 6 [3, 3, 7, 1]
  plen := 58

/-- Another acknowledgement of the flow. -/
def laterAck (addr : ℕ) (port seq : UInt8) : MsgBuf where
  addr := addr
  len := 57
  buf := ackFrame port seq 5 []
  plen := 54

/-- The slot that the first flow gets. -/
def firstSlot : Fin tcpAckNum := ⟨0, Nat.zero_lt_succ _⟩

/-- Three acknowledgements of a flow: the third is held back while the second is on its
    way, and the timer passes it on when the second has left. -/
def held : List Event :=
  [.send (firstAck 1 1), .send (laterAck 2 1 2), .send (laterAck 3 1 3)]

/-- After these, the timer expires before the second one has left. -/
def stranded : List Event :=
  held ++ [.elapse 2, .timeout firstSlot, .move (laterAck 2 1 2)]

/-- What is held back has its timer pending. -/
theorem held_timer_pending : ∃ s, filter.run (State.init 0 1000) held = some s ∧
    (s.ackM.ackInfo firstSlot).msgbuf = some (laterAck 3 1 3) ∧ s.Waiting := by
  have hpass : filter.Along PassesOn (State.init 0 1000) held := by decide +kernel
  obtain ⟨s, hs, hmsg⟩ : ∃ s, filter.run (State.init 0 1000) held = some s ∧
      (s.ackM.ackInfo firstSlot).msgbuf = some (laterAck 3 1 3) :=
    Machine.exists_run (by decide +kernel)
  exact ⟨s, hs, hmsg, held_timer 0 1000 hpass hs⟩

/-- The third one is held back for good if the flow stays silent. -/
theorem timer_lost : ∃ s, filter.run (State.init 0 1000) stranded = some s ∧
    (s.ackM.ackInfo firstSlot).busy = true ∧
    (s.ackM.ackInfo firstSlot).msgbuf = some (laterAck 3 1 3) ∧
    (s.ackM.ackInfo firstSlot).inSendMsg = none ∧ (s.ackM.ackInfo firstSlot).timer = false ∧
    ¬s.Waiting :=
  Machine.exists_run (by decide +kernel)

end W132d.TcpAck
