import W132d.TxPool.Share

/-!
# The counter of the pool

Every message is free, in somebody's hands, queued, on the send list, or on the to-free list
(`State.stray`). The counter `ref` of the pool is to tell how many are in hand, queued or on the
send list (`State.held`).

A push is accounted for once it has returned zero, which it also does if the firmware has asserted
since the driver looked: it returns at once, with its messages on the send list. And when a PCIe
device has not told for long that a message was sent, the message is freed and the counter is
decremented again. These two are the only steps that the counter does not survive (`Conserves`).

* `State.drift`: how far the counter is off;
* `Kept`: steps that free messages or move them to the send list;
* `step_drift`: no step raises the drift, and exactly those meeting `Conserves` keep it.

How the proof goes: `drift` is a sum over all places where a message can be, so that a step is known
by what it moves. Most functions free messages of one list, or move them to the send list, and count
each of them (`Kept`); this is closed under composition and under loops over lists (`Kept.foldl`),
so that the lemma of a function follows from those of the functions that it calls. The push and the
event of a PCIe device are walked through by their cases (`intfTxList_cases`, `push_cases`).

Why no step raises the drift: the counter is only ever decremented too often, as every message that
is taken from the pool is counted once. So a run in which the drift is 0 in the end had it so in all
of its states, which `W132d.TxPool.Accounting` uses for the other direction of its theorem.
-/

namespace W132d.TxPool

open Credit (Mode s32)

/-! ## The account -/

/-- The number of messages in the lists of a mode. -/
def TxList.queued (t : TxList) : ℤ := tally (fun p => (p.headList.length : ℤ)) t.pList

/-- The number of messages in the lists. -/
def State.queued (s : State) : ℤ := tally TxList.queued s.txList

/-- The number of messages that are neither on the free list nor on the to-free list. -/
def State.held (s : State) : ℤ := s.hand.length + s.queued + s.toSend.length

/-- The condition of a step: a push does not find that the firmware has asserted, and an event of
    a PCIe device finds no message that is kept for too long. -/
def Conserves (s : State) : Event → Prop
  | .push _ => s.cpAsserted = false
  | .freePcieData _ jiffies => expired jiffies s = []
  | _ => True

instance decidableConserves (s : State) : ∀ e, Decidable (Conserves s e)
  | .push _ => inferInstanceAs (Decidable (s.cpAsserted = false))
  | .freePcieData _ jiffies => inferInstanceAs (Decidable (expired jiffies s = []))
  | .getMsgBuf .. | .txMsgFunc .. | .freeMsgBuf _ | .eachMode .. | .handleToSendList _
  | .handlePopList .. | .flushTxQoslist .. | .flushModeTxlist _ | .flushTosendlist | .assert
  | .processCredit .. | .setStat .. | .close _ | .disconnect _ => .isTrue trivial

/-- How far the counter of the pool is above the number that it is to tell. -/
def State.drift (s : State) : ℤ := s.pool.ref - s.held

/-- The number of messages that are nowhere. -/
def State.stray (s : State) : ℤ :=
  s.pool.maxnum - (s.pool.freelist.length + s.held + s.toFree.length)

variable {s s' s'' : State} {e : Event} {mode mode' : Mode} {q q' : Queue} {p : PeerList} {n : ℤ}
  {l : List Msg} {pool : MsgList}

/-! ## Writing lists and counters -/

section

variable (s mode q p n)

@[simp] theorem setList_pool : (s.setList mode q p).pool = s.pool := rfl
@[simp] theorem setList_hand : (s.setList mode q p).hand = s.hand := rfl
@[simp] theorem setList_toSend : (s.setList mode q p).toSend = s.toSend := rfl
@[simp] theorem setList_toFree : (s.setList mode q p).toFree = s.toFree := rfl
@[simp] theorem setList_credit : (s.setList mode q p).credit = s.credit := rfl
@[simp] theorem setList_credits : (s.setList mode q p).credits = s.credits := rfl
@[simp] theorem addModeListNum_pool : (s.addModeListNum mode n).pool = s.pool := rfl
@[simp] theorem addModeListNum_hand : (s.addModeListNum mode n).hand = s.hand := rfl
@[simp] theorem addModeListNum_toSend : (s.addModeListNum mode n).toSend = s.toSend := rfl
@[simp] theorem addModeListNum_toFree : (s.addModeListNum mode n).toFree = s.toFree := rfl
@[simp] theorem addModeListNum_credit : (s.addModeListNum mode n).credit = s.credit := rfl
@[simp] theorem addModeListNum_credits : (s.addModeListNum mode n).credits = s.credits := rfl
@[simp] theorem list_pool : ({ s with pool := pool } : State).list mode q = s.list mode q := rfl
@[simp] theorem list_toSend : ({ s with toSend := l } : State).list mode q = s.list mode q := rfl
@[simp] theorem list_hand : ({ s with hand := l } : State).list mode q = s.list mode q := rfl
@[simp] theorem queued_hand : ({ s with hand := l } : State).queued = s.queued := rfl
@[simp] theorem queued_pool : ({ s with pool := pool } : State).queued = s.queued := rfl
@[simp] theorem queued_toSend : ({ s with toSend := l } : State).queued = s.queued := rfl

end

/-- A list that was written is the one that is read, and the other ones are as before. -/
theorem setList_list :
    (s.setList mode q p).list mode' q' = if mode' = mode ∧ q' = q then p else s.list mode' q' := by
  rcases eq_or_ne mode' mode with rfl | hmode
  · rcases eq_or_ne q' q with rfl | hq
    · simp [State.setList, State.list]
    · simp [State.setList, State.list, hq]
  · simp [State.setList, State.list, hmode]

/-- Writing a list leaves the counters of the modes. -/
@[simp] theorem setList_modeListNum :
    ((s.setList mode q p).txList mode').modeListNum = (s.txList mode').modeListNum := by
  rcases eq_or_ne mode' mode with rfl | hmode
  · simp [State.setList]
  · simp [State.setList, hmode]

/-- A counter that was changed leaves the lists as they are. -/
@[simp] theorem addModeListNum_list :
    (s.addModeListNum mode n).list mode' q = s.list mode' q := by
  rcases eq_or_ne mode' mode with rfl | hmode
  · simp [State.addModeListNum, State.list]
  · simp [State.addModeListNum, State.list, hmode]

/-- A counter that was changed leaves those of the other modes. -/
theorem addModeListNum_modeListNum :
    ((s.addModeListNum mode n).txList mode').modeListNum =
      (s.txList mode').modeListNum + if mode' = mode then n else 0 := by
  rcases eq_or_ne mode' mode with rfl | hmode
  · simp [State.addModeListNum]
  · simp [State.addModeListNum, hmode]

/-- A list and a counter can be written in either order. -/
theorem addModeListNum_setList :
    (s.addModeListNum mode' n).setList mode q p = (s.setList mode q p).addModeListNum mode' n := by
  rcases eq_or_ne mode mode' with rfl | hmode
  · simp [State.addModeListNum, State.setList]
  · simp [State.addModeListNum, State.setList, hmode, hmode.symm, Function.update_comm hmode]

/-- A list that is written. -/
theorem queued_setList : (s.setList mode q p).queued =
    s.queued - (s.list mode q).headList.length + p.headList.length := by
  rw [State.queued, State.setList, tally_update, TxList.queued, TxList.queued, tally_update]
  rw [State.queued, State.list]
  ring

/-- The messages that are queued are counted by their lists, not by the counters. -/
@[simp] theorem queued_addModeListNum : (s.addModeListNum mode n).queued = s.queued :=
  tally_congr fun mode' => tally_congr fun q => by
    rw [show ((s.addModeListNum mode n).txList mode').pList q = _ from addModeListNum_list]
    rfl

/-- The number of messages in the lists is not negative. -/
theorem queued_nonneg : 0 ≤ s.queued :=
  tally_nonneg fun _ => tally_nonneg fun _ => Nat.cast_nonneg _

/-- A list is part of what is queued. -/
theorem length_le_queued (mode : Mode) (q : Queue) :
    ((s.list mode q).headList.length : ℤ) ≤ s.queued :=
  (le_tally (f := fun p : PeerList => (p.headList.length : ℤ)) (fun _ => Nat.cast_nonneg _) q).trans
    (le_tally (f := TxList.queued) (fun _ => tally_nonneg fun _ => Nat.cast_nonneg _) mode)

/-- Each message that is freed is counted off. -/
@[simp] theorem freeMsgBufs_ref : (freeMsgBufs pool l).ref = pool.ref - l.length := by
  rw [freeMsgBufs]
  induction l generalizing pool with
  | nil => simp
  | cons msg l ih =>
    rw [List.foldl_cons, ih, freeMsgBuf, List.length_cons]
    push_cast
    ring

/-- Each message that is freed goes to the end of the free list. -/
@[simp] theorem freeMsgBufs_freelist :
    (freeMsgBufs pool l).freelist = pool.freelist ++ l := by
  rw [freeMsgBufs]
  induction l generalizing pool with
  | nil => simp
  | cons msg l ih =>
    rw [List.foldl_cons, ih, freeMsgBuf, List.append_assoc, List.singleton_append]

/-- Freeing messages leaves the size of the pool. -/
@[simp] theorem freeMsgBufs_maxnum : (freeMsgBufs pool l).maxnum = pool.maxnum := by
  rw [freeMsgBufs]
  induction l generalizing pool with
  | nil => rfl
  | cons msg l ih => rw [List.foldl_cons, ih, freeMsgBuf]

/-- A list is cut into what is moved to the send list and the rest. -/
theorem cut_append (l : List Msg) (n : ℤ) : (cut l n).1 ++ (cut l n).2 = l := by
  rw [cut]
  split_ifs
  · exact List.take_append_drop ..
  · rfl

/-! ## What a step keeps -/

/-- A step that frees messages, or moves them to the send list, and keeps the account. -/
structure Kept (s s' : State) : Prop where
  drift : s'.drift = s.drift
  stray : s'.stray = s.stray
  ref : s'.pool.ref ≤ s.pool.ref
  maxnum : s'.pool.maxnum = s.pool.maxnum
  credit : s'.credit = s.credit
  toSend : s.toSend.length ≤ s'.toSend.length
  flow : ∀ i, (s'.credits.flowCtrl i).flow = (s.credits.flowCtrl i).flow

/-- Doing nothing keeps the account. -/
theorem Kept.refl (s : State) : Kept s s :=
  ⟨rfl, rfl, le_rfl, rfl, rfl, le_rfl, fun _ => rfl⟩

/-- Two steps that keep the account do so one after the other. -/
theorem Kept.trans (h : Kept s s') (h' : Kept s' s'') : Kept s s'' where
  drift := h'.drift.trans h.drift
  stray := h'.stray.trans h.stray
  ref := h'.ref.trans h.ref
  maxnum := h'.maxnum.trans h.maxnum
  credit := h'.credit.trans h.credit
  toSend := h.toSend.trans h'.toSend
  flow i := (h'.flow i).trans (h.flow i)

/-- What every turn of a loop keeps, the loop does. -/
theorem Kept.foldl {A : Type*} {f : State → A → State} (h : ∀ s a, Kept s (f s a)) {as : List A} :
    Kept s (as.foldl f s) := by
  induction as generalizing s with
  | nil => exact .refl s
  | cons a as ih => exact (h s a).trans ih

/-- Changing the counter of a mode keeps the account, of which it is no part. -/
theorem kept_addModeListNum : Kept s (s.addModeListNum mode n) where
  drift := by simp [State.drift, State.held]
  stray := by simp [State.stray, State.held]
  ref := le_rfl
  maxnum := rfl
  credit := rfl
  toSend := le_rfl
  flow _ := rfl

/-- Messages of a list are freed. -/
theorem kept_freeList (hl : l.length + p.headList.length = (s.list mode q).headList.length) :
    Kept s ({ s with pool := freeMsgBufs s.pool l }.setList mode q p) where
  drift := by
    simp only [State.drift, State.held, queued_setList, queued_pool, list_pool, setList_pool,
      freeMsgBufs_ref, ← hl]
    simp
    ring
  stray := by
    simp only [State.stray, State.held, queued_setList, queued_pool, list_pool, setList_pool,
      freeMsgBufs_maxnum, freeMsgBufs_freelist, List.length_append, ← hl]
    simp
    ring
  ref := by simp
  maxnum := by simp
  credit := rfl
  toSend := le_rfl
  flow _ := rfl

/-- Freeing the messages that have waited for too long keeps the account. -/
theorem kept_handleTxTimeout {jiffies : UInt64} : Kept s (handleTxTimeout jiffies mode q s) := by
  rw [handleTxTimeout]
  dsimp only
  split
  · exact .refl s
  · split_ifs
    · refine (kept_freeList ?_).trans kept_addModeListNum
      rw [← List.length_append, List.take_append_drop]
    · exact .refl s

/-- Counting the messages of a list. -/
theorem kept_countList (jiffies : UInt64) (mode : Mode) (s : State) (num : Queue → ℤ) (q : Queue) :
    Kept s (countList jiffies mode (s, num) q).1 := by
  rw [countList]
  split_ifs
  · exact kept_handleTxTimeout
  · exact .refl s

/-- Counting the messages of all lists of a mode keeps the account. -/
theorem kept_countLists (jiffies : UInt64) (mode : Mode) (s : State) (num : Queue → ℤ)
    (qs : List Queue) : Kept s (qs.foldl (countList jiffies mode) (s, num)).1 := by
  induction qs generalizing s num with
  | nil => exact .refl s
  | cons q qs ih =>
    rw [List.foldl_cons]
    exact (kept_countList ..).trans (ih ..)

/-- Moving messages to the send list keeps the account. -/
theorem kept_addXmitListTail {x : Queue × ℤ} : Kept s (addXmitListTail mode s x) := by
  obtain ⟨q, n⟩ := x
  rw [addXmitListTail]
  -- The part that is moved and the rest are the list.
  have hcut := congrArg List.length (cut_append (s.list mode q).headList n)
  generalize cut (s.list mode q).headList n = c at hcut ⊢
  obtain ⟨moved, rest⟩ := c
  rw [List.length_append] at hcut
  dsimp only at hcut ⊢
  exact
    { drift := by
        simp only [State.drift, State.held, queued_setList, queued_addModeListNum, queued_toSend,
          list_toSend, setList_pool, addModeListNum_pool, ← hcut]
        simp
        ring
      stray := by
        simp only [State.stray, State.held, queued_setList, queued_addModeListNum, queued_toSend,
          list_toSend, setList_pool, addModeListNum_pool, ← hcut]
        simp
        ring
      ref := le_rfl
      maxnum := rfl
      credit := rfl
      toSend := by simp
      flow := fun _ => rfl }

/-- Freeing the messages of one list keeps the account. -/
theorem kept_flushList : Kept s (flushList mode s q) := by
  rw [flushList]
  split_ifs
  · exact .refl s
  · exact kept_freeList (by simp)

/-- Freeing all lists of a mode keeps the account. -/
theorem kept_flushModeTxlist : Kept s (flushModeTxlist mode s) := by
  have hlists : Kept s (queues.foldl (flushList mode) s) := .foldl fun _ _ => kept_flushList
  rw [flushModeTxlist]
  exact hlists.trans kept_addModeListNum

/-- Freeing the list of one peer keeps the account. -/
theorem kept_flushTxQoslist : Kept s (flushTxQoslist mode q s) := by
  rw [flushTxQoslist]
  split_ifs
  · exact .refl s
  · rw [addModeListNum_setList]
    exact (kept_freeList (by simp)).trans kept_addModeListNum

/-- A turn of the thread over the lists of a mode keeps the account. -/
theorem kept_eachMode {jiffies : UInt64} : Kept s (eachMode jiffies mode s) := by
  rw [eachMode]
  generalize hr : queues.foldl (countList jiffies mode) (s, fun _ => 0) = r
  obtain ⟨t, num⟩ := r
  -- Messages that have waited for too long are freed first,
  have hcount : Kept s t := by
    have h := kept_countLists jiffies mode s (fun _ => 0) queues
    rw [hr] at h
    exact h
  dsimp only
  -- then the credits say how many may be sent, without being changed,
  have htest := @Credit.testSendNum_flow t.priv t.credits mode (total num)
  generalize Credit.testSendNum t.priv t.credits mode (total num) = r at htest ⊢
  obtain ⟨credits, sendNum⟩ := r
  have hkept : Kept s { t with credits := credits } :=
    hcount.trans ⟨rfl, rfl, le_rfl, rfl, rfl, le_rfl, fun i => (htest i).1⟩
  dsimp only
  -- and these are moved to the send list, queue by queue.
  split_ifs
  · exact hkept
  · exact hkept.trans (.foldl fun s x => kept_addXmitListTail)
  · exact hkept.trans (.foldl fun s x => kept_addXmitListTail)

/-! ## The drift -/

/-- The invariant: no message is lost, the counter of the pool has its bound, and there are as many
    messages as are about to be pushed. -/
structure Inv (s : State) : Prop where
  stray : s.stray = 0
  ref : s.pool.ref < msgExitVal
  maxnum : 0 < s.pool.maxnum
  credit : ∀ n, s.credit = some n → 0 < n ∧ n ≤ s.toSend.length
  flow : Credit.IsInt s.credits

/-- A step that keeps the account keeps the invariant. -/
theorem Inv.kept (h : Inv s) (hk : Kept s s') : Inv s' where
  stray := hk.stray.trans h.stray
  ref := hk.ref.trans_lt h.ref
  maxnum := hk.maxnum ▸ h.maxnum
  credit n hn := by
    obtain ⟨hpos, hle⟩ := h.credit n (hk.credit ▸ hn)
    exact ⟨hpos, hle.trans (Nat.cast_le.2 hk.toSend)⟩
  flow := h.flow.congr hk.flow

/-- A message that is taken is counted. -/
theorem allocMsgBuf_spec (href : pool.ref < msgExitVal) :
    (allocMsgBuf pool).1.ref = pool.ref + (allocMsgBuf pool).2.toList.length ∧
      (allocMsgBuf pool).1.ref < msgExitVal ∧
      ((allocMsgBuf pool).1.freelist.length : ℤ) + (allocMsgBuf pool).2.toList.length =
        pool.freelist.length ∧
      (allocMsgBuf pool).1.maxnum = pool.maxnum := by
  rw [allocMsgBuf]
  split_ifs with hfull
  · exact ⟨by simp, href, by simp, rfl⟩
  · split
    · exact ⟨by simp, href, by simp, rfl⟩
    · rename_i msg l hl
      refine ⟨by simp, not_le.1 hfull, ?_, rfl⟩
      rw [hl, List.length_cons, Option.toList_some, List.length_singleton]
      push_cast
      ring

/-- A message is taken, for which the pool may grow. -/
theorem getMsgBuf_spec (mode : Mode) (kzalloc : Bool) (href : pool.ref < msgExitVal) :
    (getMsgBuf mode kzalloc pool).1.ref =
        pool.ref + (getMsgBuf mode kzalloc pool).2.toList.length ∧
      (getMsgBuf mode kzalloc pool).1.ref < msgExitVal ∧
      ((getMsgBuf mode kzalloc pool).1.freelist.length : ℤ) +
          (getMsgBuf mode kzalloc pool).2.toList.length - (getMsgBuf mode kzalloc pool).1.maxnum =
        pool.freelist.length - pool.maxnum ∧
      pool.maxnum ≤ (getMsgBuf mode kzalloc pool).1.maxnum := by
  have hmap : ∀ msg : Option Msg,
      (msg.map fun msg => { msg with mode := mode }).toList.length = msg.toList.length := by
    intro msg
    cases msg <;> rfl
  rw [getMsgBuf]
  dsimp only
  rw [hmap]
  -- Most of the pool is in use, and it grows by one message, if there is memory for it; or a
  -- message is taken from the pool as it is.
  split_ifs
  · obtain ⟨h1, h2, h3, h4⟩ := @allocMsgBuf_spec
      { pool with freelist := pool.freelist ++ [Msg.zero], maxnum := pool.maxnum + 1 } href
    rw [List.length_append, List.length_singleton] at h3
    push_cast at h3
    dsimp only at h3 h4
    exact ⟨h1, h2, by rw [h4]; omega, by rw [h4]; omega⟩
  · exact ⟨by simp, href, by simp, le_rfl⟩
  · obtain ⟨h1, h2, h3, h4⟩ := allocMsgBuf_spec href
    exact ⟨h1, h2, by rw [h4, h3], h4.ge⟩

/-- Taking a message out of the hands leaves one less. -/
theorem length_eraseIdx_hand {i : ℕ} {msg : Msg} (hi : l[i]? = some msg) :
    ((l.eraseIdx i).length : ℤ) = l.length - 1 := by
  obtain ⟨hlt, -⟩ := List.getElem?_eq_some_iff.1 hi
  rw [List.length_eraseIdx_of_lt hlt]
  omega

/-- A message in hand is freed. -/
theorem kept_freeHand {i : ℕ} {msg msg' : Msg} (hi : s.hand[i]? = some msg) :
    Kept s { s with hand := s.hand.eraseIdx i, pool := freeMsgBuf s.pool msg' } where
  drift := by
    change s.pool.ref - 1 - ((s.hand.eraseIdx i).length + s.queued + s.toSend.length) = s.drift
    rw [length_eraseIdx_hand hi, State.drift, State.held]
    ring
  stray := by
    change s.pool.maxnum - ((s.pool.freelist ++ [msg']).length +
      ((s.hand.eraseIdx i).length + s.queued + s.toSend.length) + s.toFree.length) = s.stray
    rw [length_eraseIdx_hand hi, State.stray, State.held, List.length_append, List.length_singleton]
    push_cast
    ring
  ref := by simp [freeMsgBuf]
  maxnum := rfl
  credit := rfl
  toSend := le_rfl
  flow _ := rfl

/-- A message in hand is queued. -/
theorem kept_queueHand {i swRate : ℕ} {msg msg' : Msg} (hi : s.hand[i]? = some msg) :
    Kept s ({ s with hand := s.hand.eraseIdx i }.setList mode q
      (queueDataMsgBuf swRate msg' (s.list mode q))) := by
  -- The message is put in front or at the end of the list.
  have hlen : ((queueDataMsgBuf swRate msg' (s.list mode q)).headList.length : ℤ) =
      (s.list mode q).headList.length + 1 := by
    rw [queueDataMsgBuf]
    dsimp only
    split_ifs
    · simp
    · simp
  exact
    { drift := by
        simp only [State.drift, State.held, queued_setList, queued_hand, list_hand, setList_pool,
          setList_hand, hlen, length_eraseIdx_hand hi]
        simp
        ring
      stray := by
        simp only [State.stray, State.held, queued_setList, queued_hand, list_hand, setList_pool,
          setList_hand, hlen, length_eraseIdx_hand hi]
        simp
        ring
      ref := le_rfl
      maxnum := rfl
      credit := rfl
      toSend := le_rfl
      flow := fun _ => rfl }

/-- A packet is sent with a message in hand, which is queued, or freed if there is no peer. -/
theorem kept_txMsgFunc {jiffies : UInt64} {packet : Packet} {i : ℕ} {msg : Msg}
    (hi : s.hand[i]? = some msg) :
    Kept s (txMsgFunc jiffies packet msg { s with hand := s.hand.eraseIdx i }) := by
  rw [txMsgFunc]
  split
  · exact kept_freeHand hi
  · split
    · exact kept_freeHand hi
    · exact (kept_queueHand hi).trans kept_addModeListNum

/-- What `sprdwl_intf_tx_list` does: nothing, as the firmware has asserted; nothing, as it fails;
    or it moves the messages to the to-free list. -/
theorem intfTxList_cases {bus : Bus} {n ret : ℤ} (hs : intfTxList bus n s = some (s', ret)) :
    (s.cpAsserted = true ∧ s' = s ∧ ret = 0) ∨ (s.cpAsserted = false ∧ s' = s ∧ ret ≠ 0) ∨
      s.cpAsserted = false ∧ ret = 0 ∧
        s' = { s with
          toSend := (cut s.toSend n).2
          toFree := s.toFree ++ (cut s.toSend n).1 } := by
  -- What the bus does, once the checks were passed; for PCIe and for the other buses.
  have hpush : ∀ r, bus.pushList n s = r → s.cpAsserted = false →
      (s.cpAsserted = true ∧ r.1 = s ∧ r.2 = 0) ∨ (s.cpAsserted = false ∧ r.1 = s ∧ r.2 ≠ 0) ∨
      s.cpAsserted = false ∧ r.2 = 0 ∧
        r.1 = { s with
          toSend := (cut s.toSend n).2
          toFree := s.toFree ++ (cut s.toSend n).1 } := by
    rintro r rfl hassert
    rw [Bus.pushList]
    dsimp only
    split_ifs with hret
    · exact .inr (.inl ⟨hassert, rfl, hret⟩)
    · exact .inr (.inr ⟨hassert, rfl, rfl⟩)
  by_cases hassert : s.cpAsserted = true
  · rw [intfTxList, if_pos hassert] at hs
    cases hs
    exact .inl ⟨hassert, rfl, rfl⟩
  rw [intfTxList, if_neg hassert] at hs
  rw [Bool.not_eq_true] at hassert
  by_cases hpcie : s.priv.pcie = true
  · rw [if_pos hpcie] at hs
    generalize (if n ≤ pcieTxNum then 1 else (n - 1) / pcieTxNum + 1) = count at hs
    dsimp only at hs
    split at hs
    · cases hs
      exact .inr (.inl ⟨hassert, rfl, by decide⟩)
    · split_ifs at hs
      · cases hs
        exact .inr (.inl ⟨hassert, rfl, by decide⟩)
      · exact hpush (s', ret) (Option.some.inj hs) hassert
  · rw [if_neg hpcie] at hs
    split at hs
    · cases hs
      exact .inr (.inl ⟨hassert, rfl, by decide⟩)
    · split_ifs at hs
      · cases hs
        exact .inr (.inl ⟨hassert, rfl, by decide⟩)
      · exact hpush (s', ret) (Option.some.inj hs) hassert

/-- The messages on the send list are freed. -/
theorem flushTosendlist_drift :
    (flushTosendlist s).drift = s.drift ∧ (flushTosendlist s).stray = s.stray := by
  refine ⟨?_, ?_⟩
  · change (freeMsgBufs s.pool s.toSend).ref - (s.hand.length + s.queued + 0) = s.drift
    rw [freeMsgBufs_ref, State.drift, State.held]
    ring
  · change (freeMsgBufs s.pool s.toSend).maxnum - ((freeMsgBufs s.pool s.toSend).freelist.length +
      (s.hand.length + s.queued + 0) + s.toFree.length) = s.stray
    rw [freeMsgBufs_maxnum, freeMsgBufs_freelist, List.length_append, State.stray, State.held]
    push_cast
    ring

/-- A push that has returned, and is accounted for. -/
theorem push_cases {bus : Bus} {n : ℤ} (hs : push bus n s = some s') :
    ∃ t ret, intfTxList bus n s = some (t, ret) ∧
      (ret = 0 ∧ s' = { handleTxReturn n ret t with credit := none } ∨
        (ret ≠ 0 ∧ ∃ failcount, s' = { handleTxReturn n ret t with
          credit := none
          failcount := failcount }) ∨
        ret ≠ 0 ∧ ∃ failcount, s' = flushTosendlist { handleTxReturn n ret t with
          credit := none
          failcount := failcount }) := by
  obtain ⟨⟨t, ret⟩, ht, hs⟩ := Option.bind_eq_some_iff.1 hs
  refine ⟨t, ret, ht, ?_⟩
  dsimp only at hs
  split_ifs at hs with hret
  · -- A push that has failed too often empties the send list.
    exact .inr (.inr ⟨hret, 0, (Option.some.inj hs).symm⟩)
  · exact .inr (.inl ⟨hret, _, (Option.some.inj hs).symm⟩)
  · exact .inl ⟨not_not.1 hret, (Option.some.inj hs).symm⟩

/-- The invariant, once nothing is about to be pushed. -/
theorem Inv.done (h : Inv s) (hstray : s'.stray = s.stray) (href : s'.pool.ref ≤ s.pool.ref)
    (hmaxnum : s'.pool.maxnum = s.pool.maxnum) (hcredit : s'.credit = none)
    (hflow : Credit.IsInt s'.credits) : Inv s' where
  stray := hstray.trans h.stray
  ref := href.trans_lt h.ref
  maxnum := hmaxnum ▸ h.maxnum
  credit n hn := by rw [hcredit] at hn; cases hn
  flow := hflow

/-- The drift while the send list is pushed. -/
theorem push_drift {bus : Bus} {n : ℤ} (h : Inv s) (hn : s.credit = some n)
    (hs : push bus n s = some s') :
    Inv s' ∧ s'.drift ≤ s.drift ∧ (s'.drift = s.drift ↔ s.cpAsserted = false) := by
  obtain ⟨hpos, hle⟩ := h.credit n hn
  have hflow : ∀ ret, Credit.IsInt (Credit.handleTxReturn s.priv s.credits n ret) := fun _ =>
    Credit.handleTxReturn_isInt h.flow
  obtain ⟨t, ret, ht, hreturn⟩ := push_cases hs
  rcases intfTxList_cases ht with ⟨hassert, rfl, rfl⟩ | ⟨hassert, rfl, hret⟩ | ⟨hassert, rfl, rfl⟩
  · -- The messages are accounted for, and are on the send list.
    rcases hreturn with ⟨-, rfl⟩ | ⟨hret, -⟩ | ⟨hret, -⟩
    · have hdrift : ({ handleTxReturn n 0 t with credit := none } : State).drift = t.drift - n := by
        change t.pool.ref - n - t.held = t.drift - n
        rw [State.drift]
        ring
      rw [hdrift, hassert]
      refine ⟨h.done rfl ?_ rfl rfl (hflow 0), by omega, by simp; omega⟩
      change t.pool.ref - n ≤ t.pool.ref
      omega
    · exact absurd rfl hret
    · exact absurd rfl hret
  · -- The push failed, and nothing is accounted for.
    have hkeep : handleTxReturn n ret t =
        { t with credits := Credit.handleTxReturn t.priv t.credits n ret } := by
      rw [handleTxReturn, if_pos hret]
    rw [hkeep] at hreturn
    rcases hreturn with ⟨hzero, -⟩ | ⟨-, _, rfl⟩ | ⟨-, _, rfl⟩
    · exact absurd hzero hret
    · exact ⟨h.done rfl le_rfl rfl rfl (hflow ret), le_rfl, iff_of_true rfl hassert⟩
    · obtain ⟨hdrift, hstray⟩ := flushTosendlist_drift (s := { t with
        credits := Credit.handleTxReturn t.priv t.credits n ret
        credit := none
        failcount := _ })
      refine ⟨h.done hstray ?_ ?_ rfl (hflow ret), hdrift.le, iff_of_true hdrift hassert⟩
      · change (freeMsgBufs t.pool t.toSend).ref ≤ t.pool.ref
        simp
      · exact freeMsgBufs_maxnum
  · -- The messages have left the send list, and are accounted for.
    rcases hreturn with ⟨-, rfl⟩ | ⟨hret, -⟩ | ⟨hret, -⟩
    · have hcut := congrArg List.length (cut_append s.toSend n)
      have hsent : ((cut s.toSend n).1.length : ℤ) = n := by
        rw [cut, if_pos ⟨hpos, hle⟩, List.length_take]
        omega
      rw [List.length_append] at hcut
      have hdrift : s.pool.ref - n -
          (s.hand.length + s.queued + (cut s.toSend n).2.length) = s.drift := by
        rw [State.drift, State.held, ← hcut, Nat.cast_add, hsent]
        ring
      have hstray : s.pool.maxnum - (s.pool.freelist.length +
          (s.hand.length + s.queued + (cut s.toSend n).2.length) +
            (s.toFree ++ (cut s.toSend n).1).length) = s.stray := by
        rw [State.stray, State.held, ← hcut, List.length_append]
        push_cast
        ring
      refine ⟨h.done hstray ?_ rfl rfl (hflow 0), hdrift.le, iff_of_true hdrift hassert⟩
      change s.pool.ref - n ≤ s.pool.ref
      omega
    · exact absurd rfl hret
    · exact absurd rfl hret

/-- Messages of the to-free list are freed, and the counter of the pool is decremented again. -/
theorem freeSent_drift {rest : List Msg} (h : Inv s)
    (hlen : rest.length + l.length = s.toFree.length) :
    Inv { s with toFree := rest, pool := freeMsgBufs s.pool l } ∧
      ({ s with toFree := rest, pool := freeMsgBufs s.pool l } : State).drift =
        s.drift - l.length := by
  -- Each message is counted off when it is freed, although the push had counted it off before.
  have hdrift : (freeMsgBufs s.pool l).ref - s.held = s.drift - l.length := by
    rw [freeMsgBufs_ref, State.drift]
    ring
  have hstray : (freeMsgBufs s.pool l).maxnum -
      ((freeMsgBufs s.pool l).freelist.length + s.held + rest.length) = s.stray := by
    rw [freeMsgBufs_maxnum, freeMsgBufs_freelist, State.stray, List.length_append, ← hlen]
    push_cast
    ring
  refine ⟨⟨hstray.trans h.stray, ?_, ?_, h.credit, h.flow⟩, hdrift⟩
  · have href := h.ref
    change (freeMsgBufs s.pool l).ref < msgExitVal
    rw [freeMsgBufs_ref]
    omega
  · change 0 < (freeMsgBufs s.pool l).maxnum
    rw [freeMsgBufs_maxnum]
    exact h.maxnum

/-- The drift when an event of a PCIe device finds messages that are kept for too long. -/
theorem freePcieData_drift {dataNum : ℕ} {jiffies : UInt64} (h : Inv s)
    (hs : freePcieData jiffies dataNum s = some s') :
    Inv s' ∧ s'.drift ≤ s.drift ∧ (s'.drift = s.drift ↔ expired jiffies s = []) := by
  rw [freePcieData] at hs
  split_ifs at hs
  rw [← Option.some.inj hs]
  -- What has expired is at the front of the list.
  have hlen : (s.toFree.drop (expired jiffies s).length).length + (expired jiffies s).length =
      s.toFree.length := by
    rw [List.length_drop, expired]
    exact Nat.sub_add_cancel (List.takeWhile_sublist _).length_le
  obtain ⟨hinv, hdrift⟩ := freeSent_drift h hlen
  refine ⟨hinv, by omega, ?_⟩
  rw [hdrift, ← List.length_eq_zero_iff]
  omega

/-- The send list is looked at. -/
theorem handleToSendList_drift (h : Inv s) (hn : s.credit = none) :
    Inv (handleToSendList mode s) ∧ (handleToSendList mode s).drift = s.drift := by
  rw [handleToSendList]
  split
  · exact ⟨h, rfl⟩
  split
  · exact ⟨h, rfl⟩
  · rename_i hne
    -- The number of credits is not more than that of the messages to send.
    obtain ⟨hflow, hle⟩ := Credit.getSendNum_le s.priv mode h.flow
      (Nat.cast_pos.2 (List.length_pos_iff.2 hne))
    dsimp only
    split
    · exact ⟨h.done rfl le_rfl rfl hn (h.flow.congr hflow), rfl⟩
    · rename_i hpos
      refine ⟨⟨h.stray, h.ref, h.maxnum, fun n hn => ?_, h.flow.congr hflow⟩, rfl⟩
      rw [← Option.some.inj hn]
      exact ⟨not_le.1 hpos, hle⟩

/-- Messages were sent, which are free then. -/
theorem handlePopList_drift {start num : ℕ} (h : Inv s) (hle : start + num ≤ s.toFree.length) :
    Inv (handlePopList start num s) ∧ (handlePopList start num s).drift = s.drift := by
  refine ⟨⟨?_, h.ref, h.maxnum, h.credit, h.flow⟩, rfl⟩
  have hstray : s.pool.maxnum - ((s.pool.freelist ++ (s.toFree.drop start).take num).length +
      s.held + (s.toFree.take start ++ s.toFree.drop (start + num)).length) = s.stray := by
    rw [State.stray]
    simp
    omega
  exact hstray.trans h.stray

/-- A message that is taken is in hand from then on. -/
theorem getMsgBuf_drift (mode : Mode) (kzalloc : Bool) (h : Inv s) :
    let r := getMsgBuf mode kzalloc s.pool
    Inv { s with pool := r.1, hand := s.hand ++ r.2.toList } ∧
      ({ s with pool := r.1, hand := s.hand ++ r.2.toList } : State).drift = s.drift := by
  obtain ⟨href, hlt, hfree, hmaxnum⟩ := getMsgBuf_spec mode kzalloc h.ref
  -- Of the message buffer, only the specification is needed from here on.
  generalize getMsgBuf mode kzalloc s.pool = r at *
  dsimp only
  have hstray : r.1.maxnum - (r.1.freelist.length +
      ((s.hand ++ r.2.toList).length + s.queued + s.toSend.length) + s.toFree.length) =
        s.stray := by
    rw [State.stray, State.held, List.length_append]
    push_cast
    omega
  have hdrift : r.1.ref - ((s.hand ++ r.2.toList).length + s.queued + s.toSend.length) =
      s.drift := by
    rw [State.drift, State.held, href, List.length_append]
    push_cast
    ring
  exact ⟨⟨hstray.trans h.stray, hlt, h.maxnum.trans_le hmaxnum, h.credit, h.flow⟩, hdrift⟩

/-- What a step does to the drift. -/
theorem step_drift (h : Inv s) (hs : s.step e = some s') :
    Inv s' ∧ s'.drift ≤ s.drift ∧ (s'.drift = s.drift ↔ Conserves s e) := by
  have hkept : Kept s s' → Conserves s e →
      Inv s' ∧ s'.drift ≤ s.drift ∧ (s'.drift = s.drift ↔ Conserves s e) :=
    fun hk hc => ⟨h.kept hk, hk.drift.le, iff_of_true hk.drift hc⟩
  have hsame : Inv s' ∧ s'.drift = s.drift → Conserves s e →
      Inv s' ∧ s'.drift ≤ s.drift ∧ (s'.drift = s.drift ↔ Conserves s e) :=
    fun ⟨hinv, hdrift⟩ hc => ⟨hinv, hdrift.le, iff_of_true hdrift hc⟩
  cases e with
  -- Only pushes and messages that were pushed over PCIe can take from the drift.
  | getMsgBuf mode kzalloc =>
    cases hs
    exact hsame (getMsgBuf_drift mode kzalloc h) trivial
  | txMsgFunc i packet jiffies =>
    obtain ⟨msg, hi, rfl⟩ := Option.map_eq_some_iff.1 hs
    exact hkept (kept_txMsgFunc hi) trivial
  | freeMsgBuf i =>
    obtain ⟨msg, hi, rfl⟩ := Option.map_eq_some_iff.1 hs
    exact hkept (kept_freeHand hi) trivial
  | eachMode mode jiffies =>
    rw [State.step] at hs
    split_ifs at hs
    rw [← Option.some.inj hs] at hkept ⊢
    exact hkept kept_eachMode trivial
  | handleToSendList mode =>
    rw [State.step] at hs
    split_ifs at hs with hn
    cases hs
    exact hsame (handleToSendList_drift h hn) trivial
  | push bus =>
    obtain ⟨n, hn, hs⟩ := Option.bind_eq_some_iff.1 hs
    exact push_drift h hn hs
  | handlePopList start num =>
    rw [State.step] at hs
    split_ifs at hs with hcond
    cases hs
    exact hsame (handlePopList_drift h hcond.2) trivial
  | freePcieData dataNum jiffies =>
    rw [State.step] at hs
    split_ifs at hs
    exact freePcieData_drift h hs
  | flushTxQoslist mode q =>
    cases hs
    exact hkept kept_flushTxQoslist trivial
  | flushModeTxlist mode =>
    rw [← Option.some.inj hs] at hkept ⊢
    exact hkept kept_flushModeTxlist trivial
  | flushTosendlist =>
    rw [State.step] at hs
    split_ifs at hs with hn
    cases hs
    obtain ⟨hdrift, hstray⟩ := @flushTosendlist_drift s
    exact hsame ⟨h.done hstray (by simp [flushTosendlist]) (by simp [flushTosendlist]) hn h.flow,
      hdrift⟩ trivial
  | assert =>
    cases hs
    exact hsame ⟨⟨h.stray, h.ref, h.maxnum, h.credit, h.flow⟩, rfl⟩ trivial
  | processCredit event flow =>
    cases hs
    exact hsame ⟨⟨h.stray, h.ref, h.maxnum, h.credit, Credit.processCredit_isInt event h.flow⟩,
      rfl⟩ trivial
  | setStat mode stat =>
    cases hs
    exact hsame ⟨⟨h.stray, h.ref, h.maxnum, h.credit, h.flow⟩, rfl⟩ trivial
  | close mode =>
    cases hs
    exact hsame ⟨⟨h.stray, h.ref, h.maxnum, h.credit,
      Credit.txStatusAfterClose_isInt s.priv mode h.flow⟩, rfl⟩ trivial
  | disconnect mode =>
    cases hs
    exact hsame ⟨⟨h.stray, h.ref, h.maxnum, h.credit,
      h.flow.congr fun i => (Credit.addShareCredit_flow i).1⟩, rfl⟩ trivial

end W132d.TxPool
