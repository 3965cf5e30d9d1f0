import W132d.TxPool.Drift

/-!
# Accounting for the messages

The counter of the pool, and those of the lists and the modes, are to tell how many messages there
are (`Accounted`). They do so after a run exactly if all of its steps met `Conserves`
(`accounted_iff`).

* `Counted`: the counters of the lists and the modes are right. While the counter of the pool is,
  no list has so many messages that the number of those to be dropped overflows, and every step
  keeps them right (`step_counted`);
* `messages_conserved`: no message is lost, whatever the counters tell.

`W132d.TxPool.Drift` is about the counter of the pool; here are the counters of the lists and of the
modes, and all of them together. A list is written with its counter, and its mode's counter changes
by as much (`Counted.setList`), so that the lemma of a function says which messages it takes from
which list. Where several lists of a mode are gone through, each turn of the loop leaves the other
lists (`addXmitListTail_list`, `handleTxTimeout_list`), so that what was computed of them before the
loop is still so when it comes to them.

How the theorem is proved: the counters of lists and modes need the one of the pool. From it, a list
has less than 0x8000 messages (`lNum_lt`), so that the products of the code do not overflow, the
shares are of messages that there are, and so are the messages to be dropped. So by induction on the
run, the counters are right as long as `Conserves` holds. In the other direction, the drift that the
first other step makes is never made up for.
-/

namespace W132d.TxPool

open Credit (Mode s32)

/-- The counter of the pool tells how many messages are neither on the free list nor on the
    to-free list, that of a list its length, and that of a mode the sum of those of its lists. -/
structure Accounted (s : State) : Prop where
  ref : s.pool.ref = s.held
  lNum : ∀ mode q, (s.list mode q).lNum = (s.list mode q).headList.length
  modeListNum : ∀ mode, (s.txList mode).modeListNum = ∑ q, (s.list mode q).lNum

/-- The counters of the lists and the modes are right, and the messages of a list are of its
    mode. -/
structure Counted (s : State) : Prop where
  lNum : ∀ mode q, (s.list mode q).lNum = (s.list mode q).headList.length
  modeListNum : ∀ mode, (s.txList mode).modeListNum = tally PeerList.lNum (s.txList mode).pList
  mode : ∀ mode q, ∀ msg ∈ (s.list mode q).headList, msg.mode = mode

variable {s s' t : State} {e : Event} {es : List Event} {mode mode' : Mode} {q q' : Queue}
  {p : PeerList} {n : ℤ} {l : List Msg} {qs : List Queue} {num : Queue → ℤ} {jiffies : UInt64}

/-! ## Counters of lists and modes -/

/-- The counters depend on the lists alone. -/
theorem Counted.congr (h : Counted s) (ht : t.txList = s.txList) : Counted t where
  lNum mode q := by
    rw [State.list, ht]
    exact h.lNum mode q
  modeListNum mode := by
    rw [ht]
    exact h.modeListNum mode
  mode mode q := by
    rw [State.list, ht]
    exact h.mode mode q

/-- A list that is written is counted anew. -/
theorem tally_setList : tally PeerList.lNum ((s.setList mode q p).txList mode').pList =
    tally PeerList.lNum (s.txList mode').pList +
      if mode' = mode then p.lNum - (s.list mode q).lNum else 0 := by
  rcases eq_or_ne mode' mode with rfl | hmode
  · simp only [State.setList, Function.update_self, tally_update, if_true, State.list]
    ring
  · simp [State.setList, hmode]

theorem tally_addModeListNum : tally PeerList.lNum ((s.addModeListNum mode n).txList mode').pList =
    tally PeerList.lNum (s.txList mode').pList :=
  tally_congr fun _ => congrArg PeerList.lNum addModeListNum_list

/-- A list is written, with its counter, and the counter of its mode changes by as much. -/
theorem Counted.setList (h : Counted s) (hlen : p.lNum = p.headList.length)
    (hmode : ∀ msg ∈ p.headList, msg.mode = mode) (hn : n = p.lNum - (s.list mode q).lNum) :
    Counted ((s.setList mode q p).addModeListNum mode n) where
  lNum mode' q' := by
    rw [addModeListNum_list, setList_list]
    split_ifs
    · exact hlen
    · exact h.lNum mode' q'
  modeListNum mode' := by
    rw [addModeListNum_modeListNum, setList_modeListNum, tally_addModeListNum, tally_setList,
      h.modeListNum, hn]
  mode mode' q' := by
    rw [addModeListNum_list, setList_list]
    split_ifs with heq
    · rw [heq.1]
      exact hmode
    · exact h.mode mode' q'

/-- A message that is queued is counted in its list and in its mode. -/
theorem counted_txMsgFunc {packet : Packet} {msg : Msg} (h : Counted s) :
    Counted (txMsgFunc jiffies packet msg s) := by
  rw [txMsgFunc]
  split
  · exact h.congr rfl
  split
  · exact h.congr rfl
  · rename_i qos _
    dsimp only
    generalize (if (msg.mode = .ap ∨ msg.mode = .p2pGo) ∧ packet.lut.val < 6 then Ac.bk else qos)
      = qos
    refine h.setList ?_ ?_ ?_
    · rw [queueDataMsgBuf]
      dsimp only
      rw [h.lNum]
      split_ifs <;> simp
    · intro msg' hmsg
      -- The message is put at one end of the list.
      have hmem : msg' = { msg with timeout := jiffies + s.dataTimeout } ∨
          msg' ∈ (s.list msg.mode (qos, packet.lut)).headList := by
        rw [queueDataMsgBuf] at hmsg
        split_ifs at hmsg
        · exact List.mem_cons.1 hmsg
        · exact (List.mem_append.1 hmsg).symm.imp_left List.mem_singleton.1
      rcases hmem with rfl | hmem
      · rfl
      · exact h.mode _ _ _ hmem
    · rw [queueDataMsgBuf]
      ring

/-- A list that is flushed is taken off. -/
theorem counted_flushTxQoslist (h : Counted s) : Counted (flushTxQoslist mode q s) := by
  rw [flushTxQoslist]
  split_ifs
  · exact h
  · rw [addModeListNum_setList]
    have hfreed : Counted { s with pool := freeMsgBufs s.pool (s.list mode q).headList } :=
      h.congr rfl
    exact hfreed.setList (p := ⟨[], 0⟩) rfl (by simp) (by simp)

/-- The lists, after one of them was emptied. -/
theorem flushList_list (hnum : ∀ mode q, (s.list mode q).lNum = (s.list mode q).headList.length) :
    (flushList mode s q).list mode' q' =
      if mode' = mode ∧ q' = q then ⟨[], 0⟩ else s.list mode' q' := by
  rw [flushList]
  split_ifs with hempty hq hq
  · have hlen := hnum mode q
    rw [hq.1, hq.2]
    generalize s.list mode q = p at hempty hlen
    obtain ⟨l, n⟩ := p
    dsimp only at hempty hlen
    rw [hempty] at hlen ⊢
    rw [hlen]
    rfl
  · rfl
  · rw [setList_list, if_pos hq]
  · rw [setList_list, if_neg hq, list_pool]

/-- The lists of a mode, after some of them were emptied. -/
theorem flushLists_list (hnum : ∀ mode q, (s.list mode q).lNum = (s.list mode q).headList.length) :
    (qs.foldl (flushList mode) s).list mode' q' =
      if mode' = mode ∧ q' ∈ qs then ⟨[], 0⟩ else s.list mode' q' := by
  induction qs generalizing s with
  | nil => simp
  | cons q qs ih =>
    have hnum' : ∀ mode' q', ((flushList mode s q).list mode' q').lNum =
        ((flushList mode s q).list mode' q').headList.length := fun mode' q' => by
      rw [flushList_list hnum]
      split_ifs
      · rfl
      · exact hnum mode' q'
    rw [List.foldl_cons, ih hnum', flushList_list hnum]
    simp only [List.mem_cons]
    split_ifs <;> tauto

/-- Flushing the lists one by one leaves the counter of the mode. -/
theorem flushLists_modeListNum :
    ((qs.foldl (flushList mode) s).txList mode').modeListNum = (s.txList mode').modeListNum := by
  induction qs generalizing s with
  | nil => rfl
  | cons q qs ih =>
    rw [List.foldl_cons, ih, flushList]
    split_ifs
    · rfl
    · exact setList_modeListNum

theorem counted_flushModeTxlist (h : Counted s) : Counted (flushModeTxlist mode s) := by
  -- Each list of the mode is empty at the end, and no other list is touched.
  have hlist : ∀ mode' q, (queues.foldl (flushList mode) s).list mode' q =
      if mode' = mode then ⟨[], 0⟩ else s.list mode' q := fun mode' q => by
    rw [flushLists_list h.lNum]
    simp only [mem_queues, and_true]
  have hnum : ∀ mode', ((queues.foldl (flushList mode) s).txList mode').modeListNum =
      (s.txList mode').modeListNum := fun mode' => flushLists_modeListNum
  rw [flushModeTxlist]
  generalize queues.foldl (flushList mode) s = t at hlist hnum
  refine ⟨fun mode' q => ?_, fun mode' => ?_, fun mode' q => ?_⟩
  · rw [addModeListNum_list, hlist]
    split_ifs
    · rfl
    · exact h.lNum mode' q
  · rw [addModeListNum_modeListNum, tally_addModeListNum, hnum]
    split_ifs with hmode
    · subst hmode
      rw [hnum, add_neg_cancel]
      refine (tally_eq_zero fun q => ?_).symm
      have hq := hlist mode' q
      rw [if_pos rfl, State.list] at hq
      rw [hq]
    · rw [add_zero, h.modeListNum]
      refine tally_congr fun q => ?_
      have hq := hlist mode' q
      rw [if_neg hmode, State.list, State.list] at hq
      rw [hq]
  · rw [addModeListNum_list, hlist]
    split_ifs
    · simp
    · exact h.mode mode' q

/-! ## Shares that are moved -/

/-- What is left of a list of which some messages are cut. -/
theorem length_cut (hpos : 0 ≤ n) (hle : n ≤ l.length) :
    ((cut l n).2.length : ℤ) = l.length - n := by
  rw [cut]
  split_ifs with hcut
  · rw [List.length_drop]
    omega
  · change (l.length : ℤ) = l.length - n
    omega

/-- What is left of a list was in it. -/
theorem mem_cut {msg : Msg} (h : msg ∈ (cut l n).2) : msg ∈ l := by
  rw [← cut_append l n]
  exact List.mem_append_right _ h

/-- Messages that are moved to the send list are taken off their list and their mode. -/
theorem counted_addXmitListTail (h : Counted s) (hpos : 0 ≤ n) (hle : n ≤ (s.list mode q).lNum) :
    Counted (addXmitListTail mode s (q, n)) := by
  have hlen := length_cut hpos (h.lNum mode q ▸ hle)
  have hmode : ∀ msg ∈ (cut (s.list mode q).headList n).2, msg.mode = mode := fun msg hmsg =>
    h.mode mode q msg (mem_cut hmsg)
  rw [addXmitListTail]
  generalize cut (s.list mode q).headList n = c at hlen hmode ⊢
  obtain ⟨moved, rest⟩ := c
  have hmoved : Counted { s with toSend := s.toSend ++ moved } := h.congr rfl
  refine hmoved.setList ?_ hmode ?_
  · rw [h.lNum]
    exact hlen.symm
  · change -n = (s.list mode q).lNum - n - (s.list mode q).lNum
    ring

/-- Moving a share leaves the other lists. -/
theorem addXmitListTail_list (hq : q' ≠ q) :
    (addXmitListTail mode s (q, n)).list mode q' = s.list mode q' := by
  rw [addXmitListTail]
  generalize cut (s.list mode q).headList n = c
  obtain ⟨moved, rest⟩ := c
  dsimp only
  rw [addModeListNum_list, setList_list, if_neg fun heq => hq heq.2, list_toSend]

/-- Shares of different lists, none of which is of more messages than its list has. -/
theorem counted_addXmitListTails {shares : List (Queue × ℤ)} (h : Counted s)
    (hnodup : (shares.map Prod.fst).Nodup)
    (hle : ∀ x ∈ shares, 0 ≤ x.2 ∧ x.2 ≤ (s.list mode x.1).lNum) :
    Counted (shares.foldl (addXmitListTail mode) s) := by
  induction shares generalizing s with
  | nil => exact h
  | cons x shares ih =>
    obtain ⟨q, n⟩ := x
    rw [List.map_cons, List.nodup_cons] at hnodup
    rw [List.forall_mem_cons] at hle
    refine ih (counted_addXmitListTail h hle.1.1 hle.1.2) hnodup.2 fun x hx => ?_
    rw [addXmitListTail_list fun heq => hnodup.1 (List.mem_map.2 ⟨x, hx, heq⟩)]
    exact hle.2 x hx

/-! ## Messages that are dropped -/

/-- The number of messages to be dropped is one of messages that there are, if there are so few of
    them that it does not overflow. -/
theorem delListNum_le {maxnum : ℤ} (hmaxnum : 0 < maxnum) (hpos : 0 ≤ n) (hlt : n < 0x8000) :
    0 ≤ delListNum n maxnum ∧ delListNum n maxnum ≤ n := by
  have hsq : 0 ≤ n * n ∧ n * n < 2 ^ 31 := ⟨by positivity, by nlinarith⟩
  rw [delListNum, Credit.s32_eq (by omega) hsq.2]
  exact ⟨le_min (Int.tdiv_nonneg hsq.1 hmaxnum.le) hpos, min_le_right ..⟩

/-- While the counter of the pool is right, no list has more messages than it counts. -/
theorem lNum_lt (mode : Mode) (q : Queue) (h : Inv s) (hdrift : s.drift = 0) (hc : Counted s) :
    0 ≤ (s.list mode q).lNum ∧ (s.list mode q).lNum < 0x8000 := by
  have hlen := length_le_queued (s := s) mode q
  have href := h.ref
  rw [State.drift, State.held] at hdrift
  rw [hc.lNum]
  rw [msgExitVal] at href
  omega

/-- Messages that have waited for too long are taken off as many as there were. -/
theorem counted_handleTxTimeout (h : Inv s) (hdrift : s.drift = 0) (hc : Counted s) :
    Counted (handleTxTimeout jiffies mode q s) := by
  obtain ⟨hpos, hlt⟩ := lNum_lt mode q h hdrift hc
  obtain ⟨hdel, hdel'⟩ := delListNum_le h.maxnum hpos hlt
  have hmode := hc.mode mode q
  have hlen := hc.lNum mode q
  rw [handleTxTimeout]
  split
  · exact hc
  split
  · rename_i tailbuf rest hl _
    -- The number of the mode of the last message is lowered; it is in the list of this mode.
    have htail : tailbuf.mode = mode := hmode tailbuf (by rw [hl]; exact List.mem_cons_self)
    generalize delListNum (s.list mode q).lNum s.pool.maxnum = del at hdel hdel' ⊢
    have hfreed : Counted
        { s with pool := freeMsgBufs s.pool ((s.list mode q).headList.take del.toNat) } :=
      hc.congr rfl
    dsimp only
    rw [htail]
    refine hfreed.setList ?_ (fun msg hmsg => hmode msg (List.mem_of_mem_drop hmsg)) ?_
    · change (s.list mode q).lNum - del = ((s.list mode q).headList.drop del.toNat).length
      rw [List.length_drop]
      omega
    · change -(((s.list mode q).headList.take del.toNat).length : ℤ) =
        (s.list mode q).lNum - del - (s.list mode q).lNum
      rw [List.length_take]
      omega
  · exact hc

/-- Dropping messages of a list leaves the other lists. -/
theorem handleTxTimeout_list (hq : q' ≠ q) :
    (handleTxTimeout jiffies mode q s).list mode q' = s.list mode q' := by
  rw [handleTxTimeout]
  split
  · rfl
  split
  · rw [addModeListNum_list, setList_list, if_neg fun heq => hq heq.2, list_pool]
  · rfl

/-- A list is counted. -/
theorem countList_spec (jiffies : UInt64) (mode : Mode) (h : Inv s) (hdrift : s.drift = 0)
    (hc : Counted s) (hnum : num q = 0) :
    let r := countList jiffies mode (s, num) q
    Counted r.1 ∧ r.2 q = (r.1.list mode q).lNum ∧
      ∀ q' ≠ q, r.1.list mode q' = s.list mode q' ∧ r.2 q' = num q' := by
  rw [countList]
  split_ifs with hpos
  · exact ⟨counted_handleTxTimeout h hdrift hc, Function.update_self .., fun q' hq =>
      ⟨handleTxTimeout_list hq, Function.update_of_ne hq ..⟩⟩
  · -- A list without messages has none to be counted.
    have hzero := (lNum_lt mode q h hdrift hc).1
    exact ⟨hc, by dsimp only; omega, fun q' _ => ⟨rfl, rfl⟩⟩

/-- The lists of a mode are counted. -/
theorem countLists_spec (jiffies : UInt64) (mode : Mode) (h : Inv s) (hdrift : s.drift = 0)
    (hc : Counted s) (hnodup : qs.Nodup) (hnum : ∀ q ∈ qs, num q = 0) :
    let r := qs.foldl (countList jiffies mode) (s, num)
    Counted r.1 ∧ (∀ q ∈ qs, r.2 q = (r.1.list mode q).lNum) ∧
      ∀ q ∉ qs, r.1.list mode q = s.list mode q ∧ r.2 q = num q := by
  induction qs generalizing s num with
  | nil => exact ⟨hc, fun q hq => absurd hq List.not_mem_nil, fun q _ => ⟨rfl, rfl⟩⟩
  | cons q qs ih =>
    rw [List.nodup_cons] at hnodup
    obtain ⟨hc', hq, hother⟩ := countList_spec jiffies mode h hdrift hc
      (hnum q List.mem_cons_self)
    have hkept := kept_countList jiffies mode s num q
    rw [List.foldl_cons]
    generalize countList jiffies mode (s, num) q = r at hc' hq hother hkept ⊢
    obtain ⟨t, num'⟩ := r
    dsimp only at hc' hq hother hkept
    -- The lists that are still to be counted are as they were.
    have hnum' : ∀ q' ∈ qs, num' q' = 0 := fun q' hq' => by
      rw [(hother q' (ne_of_mem_of_not_mem hq' hnodup.1)).2]
      exact hnum q' (List.mem_cons_of_mem _ hq')
    obtain ⟨hcounted, hmem, hnot⟩ :=
      ih (h.kept hkept) (hkept.drift.trans hdrift) hc' hnodup.2 hnum'
    refine ⟨hcounted, fun q' hq' => ?_, fun q' hq' => ?_⟩
    · rcases List.mem_cons.1 hq' with rfl | hq'
      · rw [(hnot q' hnodup.1).1, (hnot q' hnodup.1).2]
        exact hq
      · exact hmem q' hq'
    · rw [List.mem_cons, not_or] at hq'
      rw [(hnot q' hq'.2).1, (hnot q' hq'.2).2]
      exact hother q' hq'.1

/-- A sum over the categories and the peers is one over the lists. -/
theorem total_eq_tally (t : Queue → PeerList) (hnum : ∀ q, num q = (t q).lNum) :
    total num = tally PeerList.lNum t := by
  have hpeers : ∀ i, qListNum num i = ∑ j, (t (i, j)).lNum := fun i => by
    rw [qListNum, luts, Fin.sum_univ_def]
    exact congrArg List.sum (List.map_congr_left fun j _ => hnum (i, j))
  rw [total, tally, Fintype.sum_prod_type, List.map_congr_left fun i _ => hpeers i]
  rfl

/-- While the counter of the pool is right, the lists of a mode have no more messages than it
    counts. -/
theorem tally_lNum_lt (mode : Mode) (h : Inv s) (hdrift : s.drift = 0) (hc : Counted s) :
    0 ≤ tally PeerList.lNum (s.txList mode).pList ∧
      tally PeerList.lNum (s.txList mode).pList < 0x8000 := by
  have hqueued : tally PeerList.lNum (s.txList mode).pList = (s.txList mode).queued :=
    tally_congr fun q => hc.lNum mode q
  have hle : (s.txList mode).queued ≤ s.queued :=
    le_tally (f := TxList.queued) (fun _ => tally_nonneg fun _ => Nat.cast_nonneg _) mode
  have hnonneg : 0 ≤ (s.txList mode).queued := tally_nonneg fun _ => Nat.cast_nonneg _
  have href := h.ref
  rw [State.drift, State.held] at hdrift
  rw [msgExitVal] at href
  omega

/-- The lists of a mode are gone through. -/
theorem counted_eachMode (h : Inv s) (hdrift : s.drift = 0) (hc : Counted s) :
    Counted (eachMode jiffies mode s) := by
  have hnone : ∀ q ∈ queues, (fun _ : Queue => (0 : ℤ)) q = 0 := fun _ _ => rfl
  have hspec := countLists_spec jiffies mode h hdrift hc nodup_queues hnone
  have hkept := kept_countLists jiffies mode s (fun _ => 0) queues
  rw [eachMode]
  generalize queues.foldl (countList jiffies mode) (s, fun _ => 0) = r at hspec hkept ⊢
  obtain ⟨t, num⟩ := r
  obtain ⟨hcounted, hnum, -⟩ := hspec
  dsimp only at hcounted hnum hkept ⊢
  have htest := @testSendNum_le (total num) t.priv t.credits mode
  generalize Credit.testSendNum t.priv t.credits mode (total num) = r at htest ⊢
  obtain ⟨credits, sendNum⟩ := r
  have hcredits : Counted { t with credits := credits } := hcounted.congr rfl
  -- No more is taken off a list than was counted.
  have hnonneg : ∀ q, 0 ≤ num q := fun q => by
    rw [hnum q (mem_queues q)]
    exact (lNum_lt mode q (h.kept hkept) (hkept.drift.trans hdrift) hcounted).1
  have hlist : ∀ q, num q = (State.list { t with credits := credits } mode q).lNum := fun q =>
    hnum q (mem_queues q)
  dsimp only
  split_ifs with hnone hall
  · exact hcredits
  · refine counted_addXmitListTails hcredits (allShares_sublist.nodup nodup_queues) fun x hx => ?_
    rw [mem_allShares hx, ← hlist]
    exact ⟨hnonneg x.1, le_rfl⟩
  · refine counted_addXmitListTails hcredits (qosShares_sublist.nodup nodup_queues) fun x hx => ?_
    -- At most 100 credits are shared out, and there are fewer than 32768 messages.
    obtain ⟨htotal, htotal'⟩ :=
      tally_lNum_lt mode (h.kept hkept) (hkept.drift.trans hdrift) hcounted
    rw [← total_eq_tally (t.txList mode).pList fun q => hnum q (mem_queues q)] at htotal htotal'
    have hsmall : sendNum * total num < 2 ^ 31 := by
      have hsend := htest (not_le.1 hall)
      exact (mul_le_mul_of_nonneg_right hsend htotal).trans_lt (by omega)
    obtain ⟨hpos, hle⟩ := mem_qosShares hnonneg rfl (not_le.1 hall).le hsmall hx
    rw [← hlist]
    exact ⟨hpos.le, hle⟩

/-! ## Runs -/

/-- Pushing messages leaves the lists. -/
theorem push_txList {bus : Bus} (hs : push bus n s = some s') : s'.txList = s.txList := by
  obtain ⟨t, ret, ht, hreturn⟩ := push_cases hs
  have htx : t.txList = s.txList := by
    rcases intfTxList_cases ht with ⟨-, rfl, -⟩ | ⟨-, rfl, -⟩ | ⟨-, -, rfl⟩
    all_goals rfl
  have hret : (handleTxReturn n ret t).txList = t.txList := by
    rw [handleTxReturn]
    split <;> rfl
  rcases hreturn with ⟨-, rfl⟩ | ⟨-, _, rfl⟩ | ⟨-, _, rfl⟩
  all_goals exact hret.trans htx

theorem freePcieData_txList {dataNum : ℕ} (hs : freePcieData jiffies dataNum s = some s') :
    s'.txList = s.txList := by
  rw [freePcieData] at hs
  split_ifs at hs
  rw [← Option.some.inj hs]

theorem handleToSendList_txList : (handleToSendList mode s).txList = s.txList := by
  rw [handleToSendList]
  split
  · rfl
  split
  · rfl
  · dsimp only
    split <;> rfl

/-- While the counter of the pool is right, a step keeps those of the lists and modes right. -/
theorem step_counted (h : Inv s) (hdrift : s.drift = 0) (hc : Counted s)
    (hs : s.step e = some s') : Counted s' := by
  -- The first four events change the lists together with their counters; all others leave the
  -- lists.
  cases e with
  | txMsgFunc i packet jiffies =>
    obtain ⟨msg, hi, rfl⟩ := Option.map_eq_some_iff.1 hs
    have hhand : Counted { s with hand := s.hand.eraseIdx i } := hc.congr rfl
    exact counted_txMsgFunc hhand
  | eachMode mode jiffies =>
    rw [State.step] at hs
    split_ifs at hs
    rw [← Option.some.inj hs]
    exact counted_eachMode h hdrift hc
  | flushTxQoslist mode q =>
    rw [← Option.some.inj hs]
    exact counted_flushTxQoslist hc
  | flushModeTxlist mode =>
    rw [← Option.some.inj hs]
    exact counted_flushModeTxlist hc
  | freeMsgBuf i =>
    obtain ⟨msg, hi, rfl⟩ := Option.map_eq_some_iff.1 hs
    exact hc.congr rfl
  | handleToSendList mode =>
    rw [State.step] at hs
    split_ifs at hs
    rw [← Option.some.inj hs]
    exact hc.congr handleToSendList_txList
  | push bus =>
    obtain ⟨n, -, hs⟩ := Option.bind_eq_some_iff.1 hs
    exact hc.congr (push_txList hs)
  | handlePopList start num =>
    rw [State.step] at hs
    split_ifs at hs
    cases hs
    exact hc.congr rfl
  | freePcieData dataNum jiffies =>
    rw [State.step] at hs
    split_ifs at hs
    exact hc.congr (freePcieData_txList hs)
  | flushTosendlist =>
    rw [State.step] at hs
    split_ifs at hs
    cases hs
    exact hc.congr rfl
  | getMsgBuf _ _ | assert | processCredit _ _ | setStat _ _ | close _ | disconnect _ =>
    cases hs
    exact hc.congr rfl

section

variable {pcie noCredit : Bool} {dataTimeout : UInt64}

/-- No message was queued. -/
theorem init_counted : Counted (.init pcie noCredit dataTimeout) where
  lNum _ _ := rfl
  modeListNum _ := (tally_eq_zero fun _ => rfl).symm
  mode _ _ _ hmsg := absurd hmsg List.not_mem_nil

theorem init_queued : (State.init pcie noCredit dataTimeout).queued = 0 :=
  tally_eq_zero fun _ => tally_eq_zero fun _ => rfl

theorem init_drift : (State.init pcie noCredit dataTimeout).drift = 0 := by
  rw [State.drift, State.held, init_queued]
  rfl

theorem init_inv : Inv (.init pcie noCredit dataTimeout) where
  stray := by
    rw [State.stray, State.held, init_queued]
    simp [State.init, msgInit]
  ref := by simp [State.init, msgInit, msgExitVal]
  maxnum := by
    change (0 : ℤ) < txQosPoolSize
    decide
  credit _ hn := nomatch hn
  flow _ := by simp [State.init]

/-- No message is lost: each is free, on the to-free list, or neither. -/
theorem messages_conserved (hrun : pool.run (.init pcie noCredit dataTimeout) es = some s) :
    s.pool.freelist.length + s.held + s.toFree.length = s.pool.maxnum := by
  have h := Machine.invariant_of_step (I := Inv) (fun s e s' h hs => (step_drift h hs).1) init_inv
    hrun
  have hstray := h.stray
  rw [State.stray] at hstray
  omega

/-- After a run, the counters are right exactly if no push found that the firmware had asserted,
    and no message was freed since a PCIe device had not told for long that it was sent. -/
theorem accounted_iff (hrun : pool.run (.init pcie noCredit dataTimeout) es = some s) :
    Accounted s ↔ pool.Along Conserves (.init pcie noCredit dataTimeout) es := by
  obtain ⟨-, hdrift⟩ := Machine.measure_eq_along_iff (μ := State.drift) (I := Inv)
    (fun s e s' h hs => (step_drift h hs).1) (fun s e s' h hs => (step_drift h hs).2) init_inv hrun
  rw [init_drift] at hdrift
  constructor
  · intro h
    exact hdrift.1 (sub_eq_zero.2 h.ref)
  · intro halong
    -- While the counter of the pool is right, all of them are.
    obtain ⟨-, hzero, hc⟩ := Machine.invariant (I := fun s => Inv s ∧ s.drift = 0 ∧ Counted s)
      (fun s e s' ⟨h, hzero, hc⟩ hG hs => by
        obtain ⟨h', -, hiff⟩ := step_drift h hs
        exact ⟨h', (hiff.2 hG).trans hzero, step_counted h hzero hc hs⟩)
      ⟨init_inv, init_drift, init_counted⟩ halong hrun
    exact ⟨sub_eq_zero.1 hzero, hc.lNum, hc.modeListNum⟩

end

/-- A station's message is on the send list, and is about to be pushed. -/
def beforePush : List Event :=
  [.processCredit true fun i => if i = Credit.firstColor then 10 else 0, .setStat .station .open,
    .getMsgBuf .station true, .txMsgFunc 0 ⟨100, 0, ⟨6, six_lt_maxLutNum⟩, some .be⟩ 0,
    .eachMode .station 0, .handleToSendList .station]

/-- A bus that takes every message. -/
def goodBus : Bus := ⟨100, true, 0⟩

/-- The message is pushed, sent and freed. -/
theorem accounted_beforePush : ∃ s, pool.run (.init false false 400)
      (beforePush ++ [.push goodBus, .handlePopList 0 1]) = some s ∧ s.pool.ref = 0 ∧
    Accounted s := by
  obtain ⟨s, hs, href⟩ : ∃ s, pool.run (.init false false 400)
      (beforePush ++ [.push goodBus, .handlePopList 0 1]) = some s ∧ s.pool.ref = 0 :=
    Machine.exists_run (by decide +kernel)
  exact ⟨s, hs, href, (accounted_iff hs).2 (by decide +kernel)⟩

/-- The firmware asserts before the message is pushed, or the event of a PCIe device, which names no
    buffer, comes so late that the message that was pushed is freed. -/
theorem not_accounted :
    (∃ s, pool.run (.init false false 400) (beforePush ++ [.assert, .push goodBus]) = some s ∧
      ¬Accounted s) ∧
    ∃ s, pool.run (.init true false 400)
      (beforePush ++ [.push goodBus, .freePcieData 0 801]) = some s ∧ ¬Accounted s := by
  constructor
  · obtain ⟨s, hs, href, hlen⟩ : ∃ s, pool.run (.init false false 400)
        (beforePush ++ [.assert, .push goodBus]) = some s ∧ s.pool.ref = 0 ∧
          s.toSend.length = 1 := Machine.exists_run (by decide +kernel)
    refine ⟨s, hs, fun h => ?_⟩
    have hheld := h.ref
    have hqueued := queued_nonneg (s := s)
    rw [State.held, href, hlen] at hheld
    omega
  · obtain ⟨s, hs, href⟩ : ∃ s, pool.run (.init true false 400)
        (beforePush ++ [.push goodBus, .freePcieData 0 801]) = some s ∧ s.pool.ref = -1 :=
      Machine.exists_run (by decide +kernel)
    refine ⟨s, hs, fun h => ?_⟩
    have hheld := h.ref
    have hqueued := queued_nonneg (s := s)
    rw [State.held, href] at hheld
    omega

end W132d.TxPool
