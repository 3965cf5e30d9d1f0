import W132d.TcpAck.Timer

/-!
# The newest acknowledgement is kept

Freeing an acknowledgement is safe as long as the host passes on, or still holds back, one
of the same flow that is at least as new. A slot has the number of the newest one of its
flow (`Newest`), and `tcpAckHandle` frees either what is older than this or what the new
one replaces.

A slot that is taken from a flow keeps the message held back, though, and a flow that gets
the slot afterwards frees it with its next acknowledgement (`newest_lost`). In runs where
no flow gets a slot that still holds a message back, the newest one is kept
(`newest_kept`).

How the theorem is proved: `Newest` is kept of every slot that belongs to a flow. Handling an
acknowledgement of the flow either makes it the newest one, or finds it older than the number of the
slot (`tcpAckHandle_newest`), and in both cases what is freed is covered by what is passed on or
held back. Slots that are taken from their flows keep nothing that is promised, unless they are
given to another flow while they hold a message back, which the condition excludes (`send_newest`).
-/

namespace W132d.TcpAck

/-- A message is an acknowledgement of the flow of `a` that is at least as new. -/
def Covers (msg : MsgBuf) (a : TcpAckMsg) : Prop :=
  ∃ b ∈ ackOf msg, b.SameFlow a ∧ u32Before a.seq b.seq = true

instance (msg : MsgBuf) (a : TcpAckMsg) : Decidable (Covers msg a) :=
  inferInstanceAs (Decidable (∃ b ∈ ackOf msg, _))

/-- An acknowledgement at least as new as `a` was passed on, or is held back in the slot of
    the flow. -/
def State.Kept (s : State) (a : TcpAckMsg) : Prop :=
  (∃ msg ∈ s.sent, Covers msg a) ∨
    ∃ i, (s.ackM.ackInfo i).busy = true ∧ (s.ackM.ackInfo i).ackMsg.SameFlow a ∧
      ∃ msg ∈ (s.ackM.ackInfo i).msgbuf, Covers msg a

instance (s : State) (a : TcpAckMsg) : Decidable (s.Kept a) :=
  inferInstanceAs (Decidable (_ ∨ ∃ _ : Fin tcpAckNum, _))

/-- No flow gets a slot that still holds a message back. -/
def SlotEmpty (s : State) : Event → Prop
  | .send msg => ∀ i ∈ newSlot s.jiffies s.ackM msg, (s.ackM.ackInfo i).msgbuf = none
  | _ => True

instance (s : State) : ∀ e, Decidable (SlotEmpty s e)
  | .send msg =>
    inferInstanceAs
      (Decidable (∀ i ∈ newSlot s.jiffies s.ackM msg, (s.ackM.ackInfo i).msgbuf = none))
  | .elapse _ | .receive .. | .timeout _ | .move _ => .isTrue trivial

/-! ## Slots -/

/-- A message is the acknowledgement that the slot has the number of. -/
def Carries (msg : MsgBuf) (a : TcpAckMsg) : Prop :=
  ∃ b, ackOf msg = some b ∧ b.SameFlow a ∧ b.seq = a.seq

/-- A slot has the number of the newest acknowledgement of its flow, which was passed on
    or is held back. -/
structure Newest (sent : List MsgBuf) (info : AckInfo) : Prop where
  newest : info.busy = true →
    ∃ msg, Carries msg info.ackMsg ∧ (msg ∈ sent ∨ info.msgbuf = some msg)
  held : info.busy = true → ∀ msg, info.msgbuf = some msg → Carries msg info.ackMsg

section

variable {jiffies : UInt64} {msgbuf msg : MsgBuf} {sent sent' : List MsgBuf}
  {info info' : AckInfo} {ackMsg a : TcpAckMsg}

theorem Carries.covers (h : Carries msg ackMsg) (hflow : ackMsg.SameFlow a)
    (hseq : u32Before a.seq ackMsg.seq = true) : Covers msg a := by
  obtain ⟨b, hb, hsame, hseq'⟩ := h
  exact ⟨b, hb, hsame.trans hflow, hseq' ▸ hseq⟩

theorem Newest.mono (h : Newest sent info) (hsub : sent ⊆ sent') : Newest sent' info :=
  ⟨fun hbusy => (h.newest hbusy).imp fun _ hmsg => ⟨hmsg.1, hmsg.2.imp_left (@hsub _)⟩, h.held⟩

/-- What a slot has of its flow does not depend on the rest. -/
theorem Newest.congr (h : Newest sent info) (hbusy : info'.busy = true → info.busy = true)
    (hack : info'.ackMsg = info.ackMsg) (hmsg : info'.msgbuf = info.msgbuf) :
    Newest sent info' := by
  refine ⟨fun hb => ?_, fun hb msg hm => ?_⟩
  · rw [hack, hmsg]
    exact h.newest (hbusy hb)
  · rw [hack]
    exact h.held (hbusy hb) msg (hmsg ▸ hm)

/-- A slot that holds nothing back has the number of an acknowledgement passed on. -/
theorem Newest.of_sent (hmem : msg ∈ sent) (hcarry : Carries msg info.ackMsg)
    (hmsg : info.msgbuf = none) : Newest sent info := by
  refine ⟨fun _ => ⟨msg, hcarry, .inl hmem⟩, fun _ msg' hm => ?_⟩
  rw [hmsg] at hm
  cases hm

/-- A slot that holds back the acknowledgement it has the number of. -/
theorem Newest.of_held (hcarry : Carries msg info.ackMsg) (hmsg : info.msgbuf = some msg) :
    Newest sent info := by
  refine ⟨fun _ => ⟨msg, hcarry, .inr hmsg⟩, fun _ msg' hm => ?_⟩
  cases hmsg.symm.trans hm
  exact hcarry

/-- Handling an acknowledgement of a slot's flow: what is freed is replaced by one at
    least as new. -/
theorem tcpAckHandle_newest {maxDropCnt : Int32} {type : AckType} {ret : Bool}
    {dropMsg : Option MsgBuf} (h : Newest sent info) (hbusy : info.busy = true)
    (hflow : info.ackMsg.SameFlow ackMsg) (hack : ackOf msgbuf = some ackMsg)
    (hr : tcpAckHandle jiffies maxDropCnt msgbuf info ackMsg type = (info', ret, dropMsg)) :
    Newest (if ret then sent else sent ++ [msgbuf]) info' ∧ info'.busy = true ∧
      info'.ackMsg.SameFlow ackMsg ∧
      ∀ d ∈ dropMsg, ∀ a ∈ ackOf d, a.SameFlow ackMsg ∧ ∃ msg, Covers msg a ∧
        (msg ∈ (if ret then sent else sent ++ [msgbuf]) ∨ info'.msgbuf = some msg) := by
  rcases tcpAckHandle_cases hr with
    ⟨hseq, hbusy', hack', rfl, hcase⟩ | ⟨hseq, rfl, rfl, rfl⟩
  · -- The new one is newer than what is held back.
    have hflow' : info'.ackMsg.SameFlow ackMsg := hack' ▸ hflow
    have hcarry : Carries msgbuf info'.ackMsg := ⟨ackMsg, hack, hflow'.symm, by rw [hack']⟩
    have hfreed : ∀ d ∈ info.msgbuf, ∀ a ∈ ackOf d, a.SameFlow ackMsg ∧ Covers msgbuf a := by
      intro d hd a ha
      obtain ⟨b, hb, hbflow, hbseq⟩ := h.held hbusy d hd
      cases hb.symm.trans ha
      have hsame := hbflow.trans hflow
      refine ⟨hsame, hcarry.covers (hflow'.trans hsame.symm) ?_⟩
      rw [hbseq, hack']
      exact hseq
    rcases hcase with ⟨rfl, hmsg⟩ | ⟨rfl, hmsg, -⟩
    · have hmem : msgbuf ∈ sent ++ [msgbuf] := List.mem_append_right _ List.mem_cons_self
      refine ⟨.of_sent hmem hcarry hmsg, hbusy'.trans hbusy, hflow', fun d hd a ha => ?_⟩
      exact ⟨(hfreed d hd a ha).1, msgbuf, (hfreed d hd a ha).2, .inl hmem⟩
    · refine ⟨.of_held hcarry hmsg, hbusy'.trans hbusy, hflow', fun d hd a ha => ?_⟩
      exact ⟨(hfreed d hd a ha).1, msgbuf, (hfreed d hd a ha).2, .inr hmsg⟩
  · -- The new one is older than the newest one, and is freed.
    refine ⟨h.congr id rfl rfl, hbusy, hflow, fun d hd a ha => ?_⟩
    cases hd
    cases hack.symm.trans ha
    obtain ⟨msg, hcarry, hmsg⟩ := h.newest hbusy
    exact ⟨⟨rfl, rfl, rfl, rfl⟩, msg, hcarry.covers hflow (u32Before_of_not hseq), hmsg⟩

end

/-! ## Steps -/

variable {s s' : State} {e : Event}

/-- The slots, after some of them were taken from their flows. -/
theorem Newest.aged {sent : List MsgBuf} {info info' : Fin tcpAckNum → AckInfo}
    (h : ∀ i, Newest sent (info i)) (haged : Aged info info') (i : Fin tcpAckNum) :
    Newest sent (info' i) := by
  rcases haged i with hsame | hfree
  · exact hsame ▸ h i
  · refine (h i).congr (fun hbusy => ?_) (by rw [hfree]) (by rw [hfree])
    rw [hfree] at hbusy
    cases hbusy

/-- An outgoing packet keeps the newest acknowledgements, and what it frees is replaced. -/
theorem send_newest {msgbuf : MsgBuf} (h : ∀ i, Newest s.sent (s.ackM.ackInfo i))
    (hempty : SlotEmpty s (.send msgbuf)) (hs : s.step (.send msgbuf) = some s') :
    (∀ i, Newest s'.sent (s'.ackM.ackInfo i)) ∧
      ∃ ds, s'.freed = s.freed ++ ds ∧ ∀ d ∈ ds, ∀ a ∈ ackOf d, s'.Kept a := by
  rw [State.step] at hs
  split at hs
  · cases hs
  rename_i m ret dropMsg hsend
  cases hs
  have hsub : s.sent ⊆ if ret then s.sent else s.sent ++ [msgbuf] := by
    split
    · exact List.Subset.refl _
    · exact List.subset_append_left _ _
  obtain ⟨info, haged, hcase⟩ := filterSendTcpAck_cases hsend
  have hinfo := Newest.aged h haged
  rcases hcase with ⟨hm, rfl, rfl⟩ |
    ⟨i, ackMsg, _, winScale, _, info', hack, hbusy, hflow, hhandle, hm⟩ |
    ⟨i, ackMsg, info', hm, rfl, rfl, hack, hnew, hmsg, _, _, hflow, hseq⟩
  · -- The packet has nothing to do with the slots.
    refine ⟨fun k => ?_, [], rfl, fun d hd => absurd hd List.not_mem_nil⟩
    dsimp only
    rw [hm]
    exact (hinfo k).mono hsub
  · -- The packet's flow has the slot `i`.
    have hi : Newest s.sent { info i with winScale := winScale } := (hinfo i).congr id rfl rfl
    obtain ⟨hnew, hbusy', hflow', hfreed⟩ := tcpAckHandle_newest hi hbusy hflow hack hhandle
    refine ⟨fun k => ?_, dropMsg.toList, rfl, fun d hd a ha => ?_⟩
    · dsimp only
      rw [hm]
      exact forall_update (P := Newest _) (fun k => (hinfo k).mono hsub) hnew k
    · obtain ⟨hsame, msg, hcovers, hmsg⟩ := hfreed d (Option.mem_toList.1 hd) a ha
      rcases hmsg with hmsg | hmsg
      · exact .inl ⟨msg, hmsg, hcovers⟩
      · refine .inr ⟨i, ?_, ?_, msg, ?_, hcovers⟩
        all_goals
          dsimp only
          rw [hm, Function.update_self]
        · exact hbusy'
        · exact hflow'.trans hsame.symm
        · exact hmsg
  · -- The packet's flow gets the slot `i`, which holds nothing back.
    have hnone : info'.msgbuf = none := by
      rw [hmsg, haged.msgbuf_eq]
      exact hempty i hnew
    have hmem : msgbuf ∈ s.sent ++ [msgbuf] := List.mem_append_right _ List.mem_cons_self
    refine ⟨fun k => ?_, [], rfl, fun d hd => absurd hd List.not_mem_nil⟩
    dsimp only
    rw [hm]
    exact forall_update (P := Newest _) (fun k => (hinfo k).mono hsub)
      (.of_sent hmem ⟨ackMsg, hack, hflow.symm, hseq.symm⟩ hnone) k

/-- The timer of a slot passes on what it holds back. -/
theorem tcpAckTimeout_newest {sent : List MsgBuf} {info : AckInfo} (h : Newest sent info) :
    Newest (sent ++ (tcpAckTimeout info).2.toList) (tcpAckTimeout info).1 := by
  rw [tcpAckTimeout]
  split
  · rename_i msg hmsg
    split
    · rename_i hcond
      rw [Bool.and_eq_true] at hcond
      exact .of_sent (List.mem_append_right _ List.mem_cons_self) (h.held hcond.1 msg hmsg) rfl
    · exact h.mono (List.subset_append_left _ _)
  · exact h.mono (List.subset_append_left _ _)

theorem step_newest (h : ∀ i, Newest s.sent (s.ackM.ackInfo i)) (hempty : SlotEmpty s e)
    (hs : s.step e = some s') :
    (∀ i, Newest s'.sent (s'.ackM.ackInfo i)) ∧
      ∃ ds, s'.freed = s.freed ++ ds ∧ ∀ d ∈ ds, ∀ a ∈ ackOf d, s'.Kept a := by
  -- Only sending drops acknowledgements. The other events change what a slot has in hand.
  have hnone : ∃ ds, s.freed = s.freed ++ ds ∧ ∀ d ∈ ds, ∀ a ∈ ackOf d, s'.Kept a :=
    ⟨[], (List.append_nil _).symm, fun d hd => absurd hd List.not_mem_nil⟩
  cases e with
  | elapse n =>
    cases hs
    exact ⟨h, hnone⟩
  | send msgbuf => exact send_newest h hempty hs
  | receive buf plen =>
    rw [State.step] at hs
    split at hs
    · cases hs
    rename_i m hm
    cases hs
    refine ⟨fun i => ?_, hnone⟩
    obtain ⟨pshFlag, pshSeq, hi⟩ := filterRxTcpAck_info hm i
    exact (h i).congr (by rw [hi]; exact id) (by rw [hi]) (by rw [hi])
  | timeout i =>
    rw [State.step] at hs
    dsimp only at hs
    split at hs
    · cases hs
      -- The timer expires, and the acknowledgement that was held is sent.
      refine ⟨fun k => ?_, hnone⟩
      have hi : Newest s.sent { s.ackM.ackInfo i with timer := false } := (h i).congr id rfl rfl
      exact forall_update (P := Newest _)
        (fun k => (h k).mono (List.subset_append_left _ _)) (tcpAckTimeout_newest hi) k
    · cases hs
  | move msg =>
    cases hs
    refine ⟨fun i => ?_, hnone⟩
    obtain ⟨inSendMsg, hi⟩ := @moveTcpackMsg_info s.ackM i msg
    exact (h i).congr (by rw [hi]; exact id) (by rw [hi]) (by rw [hi])

/-- In runs where no flow gets a slot that still holds a message back, an acknowledgement
    is freed only if one of its flow that is at least as new was passed on, is passed on by
    the same call, or is held back in the flow's slot. -/
theorem newest_kept (jiffies timeout : UInt64) {es : List Event} {e : Event} {s s' : State}
    (hempty : filter.Along SlotEmpty (State.init jiffies timeout) (es ++ [e]))
    (hrun : filter.run (State.init jiffies timeout) es = some s) (hs : filter.step s e = some s') :
    ∃ ds, s'.freed = s.freed ++ ds ∧ ∀ d ∈ ds, ∀ a ∈ ackOf d, s'.Kept a := by
  obtain ⟨halong, he⟩ := Machine.along_concat hrun hempty
  have hinit : ∀ i, Newest [] ((State.init jiffies timeout).ackM.ackInfo i) := fun i =>
    ⟨fun h => absurd h Bool.false_ne_true, fun h => absurd h Bool.false_ne_true⟩
  have hinv := Machine.invariant (I := fun s : State => ∀ i, Newest s.sent (s.ackM.ackInfo i))
    (fun s e s' h hG hs => (step_newest h hG hs).1) hinit halong hrun
  exact (step_newest hinv he hs).2

/-- After the flow was silent for a while, another one gets its slot. -/
def reused : List Event := stranded ++ [.elapse 2000, .send (firstAck 4 2)]

/-- A newer acknowledgement takes the place of the one held back. -/
theorem newest_kept_replace : ∃ s s', filter.run (State.init 0 1000) held = some s ∧
    filter.step s (.send (laterAck 4 1 4)) = some s' ∧ s'.freed = [laterAck 3 1 3] ∧
    ∃ ds, s'.freed = s.freed ++ ds ∧ ∀ d ∈ ds, ∀ a ∈ ackOf d, s'.Kept a := by
  have hempty : filter.Along SlotEmpty (State.init 0 1000)
      (held ++ [.send (laterAck 4 1 4)]) := by decide +kernel
  obtain ⟨s, s', hs, hs', hfreed⟩ : ∃ s s', filter.run (State.init 0 1000) held = some s ∧
      filter.step s (.send (laterAck 4 1 4)) = some s' ∧ s'.freed = [laterAck 3 1 3] :=
    Machine.exists_run_step (Q := fun _ s' : State => s'.freed = [laterAck 3 1 3])
      (by decide +kernel)
  exact ⟨s, s', hs, hs', hfreed, newest_kept 0 1000 hempty hs hs'⟩

/-- The newest acknowledgement of the silent flow is freed by one of the flow that got its
    slot. -/
theorem newest_lost : ∃ s s', filter.run (State.init 0 1000) reused = some s ∧
    filter.step s (.send (laterAck 5 2 2)) = some s' ∧
    s'.freed = s.freed ++ [laterAck 3 1 3] ∧ ∃ a ∈ ackOf (laterAck 3 1 3), ¬s'.Kept a :=
  Machine.exists_run_step (by decide +kernel)

end W132d.TcpAck
