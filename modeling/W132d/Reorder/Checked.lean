import W132d.Reorder.Entry

/-!
# The MPDUs that are checked for replays

Before the MSDUs of an MPDU are handed up, its PN is checked against that of the MPDUs before it
(`replay_detection`): if it passes, its MSDUs are given to `reorder_set_skb_list`, and freed
otherwise. Every function of the reorder engine has a companion here that tells which MPDUs it
checks, in their order, and which of them pass (`sendSlotChecks`, `moveWindowChecks`, ...).

* `nodeChecks`, `endSessionChecks`: the MPDUs that are checked in a step of a session, and when it
  is ended;
* `Checks`: a list of checks, each against the PN that the ones before it left;
* `Passes`: a function makes such a list, and hands up the MSDUs of the MPDUs that pass;
* `nodeStep_passes`: so does a step of an active session.

The functions of the engine do not tell what they check, only what they hand up and free. A
companion recurses like its function, and calls the companions of the functions that it calls, so
that the two are compared step by step: `Passes` says that what is handed up are the MSDUs of the
checks that passed, in their order, and that the PN is what the checks have left of it. It is closed
under one function after the other (`Passes.trans`), and each lemma is put together from those of
the functions that are called.

The list of checks is what `W132d.Reorder.Replay` and `W132d.Reorder.SkbList` speak about.
-/

namespace W132d.Reorder

/-! ## The companions -/

/-- An MPDU that was checked, and whether it passed. -/
structure Checked where
  pkt : RxBaPkt
  passed : Bool
  deriving DecidableEq, Repr

/-- The MSDUs that are handed up. -/
def Checked.up (c : Checked) : List Skb := if c.passed then c.pkt.skb else []

/-- The MSDUs that are handed up after some checks. -/
def handedUp (l : List Checked) : List Skb := l.flatMap Checked.up

/-- The check of an MPDU. -/
def check (pkt : RxBaPkt) (d : RxBaNodeDesc) : Checked := ⟨pkt, (replayDetection pkt.desc d).1⟩

/-- `send_order_msdu`: an MSDU is checked by the descriptor that is made for it. -/
def sendOrderMsduChecks (m : RxMsduDesc) (skb : Option Skb) (d : RxBaNodeDesc) : List Checked :=
  match skb with
  | some skb => [check ⟨[skb], setBaPktDesc RxBaPkt.zero.desc m⟩ d]
  | none => []

/-- `send_reorder_skb`: a slot without an `sk_buff` is not checked. -/
def sendSlotChecks (d : RxBaNodeDesc) (i : ℕ) : List Checked :=
  if (d.reorderBuffer i).skb.isEmpty then [] else [check (d.reorderBuffer i) d]

/-- The loop of `send_msdu_in_order`. -/
def sendMsduInOrderLoopChecks : ℕ → ℕ → RxBaNodeDesc → List Checked
  | 0, _, _ => []
  | n + 1, seqNum, d =>
    let i := d.index seqNum
    if d.buffCnt = 0 then []
    else if !(d.reorderBuffer i).desc.last then []
    else
      sendSlotChecks d i ++ sendMsduInOrderLoopChecks n ((seqNum + 1) % 2 ^ 16) (sendSlot d i).1

/-- The loop of `send_msdu_with_gap`. -/
def sendMsduWithGapLoopChecks : ℕ → ℕ → RxBaNodeDesc → List Checked
  | 0, _, _ => []
  | num + 1, seqNum, d =>
    let i := d.index seqNum
    if d.buffCnt = 0 ∨ (d.reorderBuffer i).desc.msduNum = 0 then
      sendMsduWithGapLoopChecks num ((seqNum + 1) % 2 ^ 16) d
    else
      sendSlotChecks d i ++
        sendMsduWithGapLoopChecks num ((seqNum + 1) % 2 ^ 16) (sendSlot d i).1

/-- `between_seqlo_seqhi`. -/
def betweenSeqloSeqhiChecks (d : RxBaNodeDesc) : List Checked :=
  sendMsduInOrderLoopChecks d.buffCnt d.winStart d

/-- The window is moved. -/
def moveWindowChecks (d : RxBaNodeDesc) (posSeqno : ℕ) : List Checked :=
  sendMsduWithGapLoopChecks (seqnoSub posSeqno d.winStart) d.winStart d ++
    betweenSeqloSeqhiChecks { (sendMsduWithGap d posSeqno).1 with winStart := posSeqno }

/-- The window is moved for an MSDU past its limit. -/
def makeRoomChecks (d : RxBaNodeDesc) (seqNum : ℕ) : List Checked :=
  if !seqnoLeq seqNum d.winLimit then moveWindowChecks d (seqnoSub seqNum (d.winSize - 1)) else []

/-- `reorder_msdu`. -/
def reorderMsduChecks (m : RxMsduDesc) (d : RxBaNodeDesc) : List Checked :=
  if seqnoGeq m.seqNum d.winStart then makeRoomChecks d m.seqNum else []

/-- `reorder_msdu_process`, of an active session. -/
def reorderActiveChecks (m : RxMsduDesc) (skb : Option Skb) (n : RxBaNode) : List Checked :=
  if m.seqNum = n.rxBa.winStart && n.rxBa.buffCnt = 0 && m.lastMsduOfMpdu then
    sendOrderMsduChecks m skb n.rxBa
  else
    let r := reorderMsdu m skb n.rxBa
    reorderMsduChecks m n.rxBa ++
      if r.1 && m.lastMsduOfMpdu && m.seqNum = r.2.1.winStart then betweenSeqloSeqhiChecks r.2.1
      else []

/-- `reorder_msdu_process`: without an active session, nothing is checked. -/
def reorderMsduProcessChecks (m : RxMsduDesc) (skb : Option Skb) (n : RxBaNode) : List Checked :=
  if n.active then reorderActiveChecks m skb n else []

/-- `ba_reorder_timeout`. -/
def baReorderTimeoutChecks (n : RxBaNode) : List Checked :=
  if n.active && n.rxBa.buffCnt ≠ 0 && !n.timerPending then
    moveWindowChecks n.rxBa (getFirstSeqnoInBuff n.rxBa).1
  else []

/-- The MPDUs that are checked in a step of a session. -/
def nodeChecks (n : RxBaNode) : NodeEvent → List Checked
  | .msdu skb => reorderMsduProcessChecks skb.desc (some skb) n
  | .filter seqNum => reorderMsduProcessChecks (filterDesc seqNum) none n
  | .timeout =>
    if n.timerPending then baReorderTimeoutChecks { n with timerPending := false } else []

/-- The MPDUs that are checked when a session is ended. -/
def endSessionChecks (drain : Bool) (n : RxBaNode) : List Checked :=
  if n.active ∧ drain then betweenSeqloSeqhiChecks n.rxBa else []

/-! ## What the checks are made against -/

/-- The PN and its reset are the same. -/
structure SamePn (d d' : RxBaNodeDesc) : Prop where
  pnL : d'.pnL = d.pnL
  pnH : d'.pnH = d.pnH
  resetPn : d'.resetPn = d.resetPn

/-- Doing nothing leaves the packet numbers. -/
theorem SamePn.refl (d : RxBaNodeDesc) : SamePn d d := ⟨rfl, rfl, rfl⟩

/-- MPDUs are checked one after the other. -/
inductive Checks : RxBaNodeDesc → RxBaNodeDesc → List Checked → Prop
  | keep {d d' : RxBaNodeDesc} (h : SamePn d d') : Checks d d' []
  | check {d d' : RxBaNodeDesc} (pkt : RxBaPkt) (hne : pkt.skb ≠ [])
      (h : SamePn (replayDetection pkt.desc d).2 d') : Checks d d' [Reorder.check pkt d]
  | trans {d d' d'' : RxBaNodeDesc} {l l' : List Checked} (h : Checks d d' l)
      (h' : Checks d' d'' l') : Checks d d'' (l ++ l')

/-- A function checks some MPDUs, and hands up those that pass. -/
structure Passes (d : RxBaNodeDesc) (r : RxBaNodeDesc × Out) (l : List Checked) : Prop where
  checks : Checks d r.1 l
  up : r.2.up = handedUp l

section

variable {d d' d'' : RxBaNodeDesc} {l l' : List Checked} {i : ℕ} {m : RxMsduDesc}
  {skb : Option Skb} {r r' : RxBaNodeDesc × Out} {o : Out}

theorem Checks.refl (d : RxBaNodeDesc) : Checks d d [] := .keep (.refl d)

/-- After the checks, the packet numbers may stay. -/
theorem Checks.trans_keep (h : Checks d d' l) (h' : SamePn d' d'') : Checks d d'' l := by
  have hall := h.trans (.keep h')
  rwa [List.append_nil] at hall

/-- The check reads the PN and its reset, and writes nothing else. -/
theorem SamePn.replayDetection (h : SamePn d d') (p : RxBaPktDesc) :
    (Reorder.replayDetection p d').1 = (Reorder.replayDetection p d).1 ∧
      SamePn (Reorder.replayDetection p d).2 (Reorder.replayDetection p d').2 := by
  unfold Reorder.replayDetection
  rw [h.pnL, h.pnH, h.resetPn]
  split_ifs
  · exact ⟨rfl, rfl, rfl, rfl⟩
  · exact ⟨rfl, rfl, rfl, rfl⟩
  · exact ⟨rfl, h⟩
  · exact ⟨rfl, h⟩

/-- What delivers nothing passes without checks. -/
theorem Passes.keep (h : SamePn d d') (hup : o.up = []) : Passes d (d', o) [] := ⟨.keep h, hup⟩

/-- Doing nothing passes without checks. -/
theorem Passes.refl (d : RxBaNodeDesc) : Passes d (d, {}) [] := .keep (.refl d) rfl

/-- What is left as it is by a change, and added to what is handed up, does not matter. -/
theorem Passes.mono (h : Passes d r l) (h' : SamePn r.1 d') (hup : o.up = r.2.up) :
    Passes d (d', o) l :=
  ⟨h.checks.trans_keep h', hup.trans h.up⟩

theorem Passes.trans (h : Passes d r l) (h' : Passes r.1 r' l') (hup : o.up = r.2.up ++ r'.2.up) :
    Passes d (r'.1, o) (l ++ l') :=
  ⟨h.checks.trans h'.checks, by rw [hup, h.up, h'.up, handedUp, handedUp, handedUp,
    List.flatMap_append]⟩

/-- The MSDUs of an MPDU go up or are freed. -/
theorem Passes.check (pkt : RxBaPkt) (hne : pkt.skb ≠ [])
    (h : SamePn (Reorder.replayDetection pkt.desc d).2 d')
    (hup : o.up = if (Reorder.replayDetection pkt.desc d).1 then pkt.skb else []) :
    Passes d (d', o) [Reorder.check pkt d] :=
  ⟨.check pkt hne h, hup.trans (List.append_nil _).symm⟩

/-! ## What the functions check -/

/-- An MSDU that is sent at once is checked. -/
theorem sendOrderMsdu_passes : Passes d (sendOrderMsdu m skb d) (sendOrderMsduChecks m skb d) := by
  cases skb with
  | none => exact .keep ⟨rfl, rfl, rfl⟩ rfl
  | some skb =>
    -- The window is moved before the check.
    have hwindow : SamePn d { d with
        winStart := seqnoAdd d.winStart 1
        winLimit := seqnoAdd d.winLimit 1
        winTail := seqnoSub (seqnoAdd d.winStart 1) 1 } := ⟨rfl, rfl, rfl⟩
    have hcheck := hwindow.replayDetection (setBaPktDesc RxBaPkt.zero.desc m)
    refine .check _ (List.cons_ne_nil _ _) hcheck.2 ?_
    rw [hcheck.1, apply_ite Out.up]

theorem sendSlot_passes (d : RxBaNodeDesc) (i : ℕ) :
    Passes d (sendSlot d i) (sendSlotChecks d i) := by
  unfold sendSlotChecks sendSlot sendReorderSkb
  by_cases he : (d.reorderBuffer i).skb.isEmpty
  · rw [if_pos he, if_pos he]
    exact .keep ⟨rfl, rfl, rfl⟩ rfl
  · rw [if_neg he, if_neg he]
    exact .check _ (fun h => he (List.isEmpty_iff.2 h)) ⟨rfl, rfl, rfl⟩ (apply_ite Out.up ..)

theorem sendMsduInOrderLoop_passes (n seqNum : ℕ) (d : RxBaNodeDesc) :
    Passes d (sendMsduInOrderLoop n seqNum d).2 (sendMsduInOrderLoopChecks n seqNum d) := by
  induction n generalizing seqNum d with
  | zero => exact .refl d
  | succ n ih =>
    rw [sendMsduInOrderLoop, sendMsduInOrderLoopChecks]
    dsimp only
    split_ifs
    · exact .refl d
    · exact .keep (.refl d) rfl
    · exact (sendSlot_passes d _).trans (ih _ _) rfl

theorem sendMsduWithGapLoop_passes (num seqNum : ℕ) (d : RxBaNodeDesc) :
    Passes d (sendMsduWithGapLoop num seqNum d) (sendMsduWithGapLoopChecks num seqNum d) := by
  induction num generalizing seqNum d with
  | zero => exact .refl d
  | succ num ih =>
    rw [sendMsduWithGapLoop, sendMsduWithGapLoopChecks]
    dsimp only
    by_cases hcnt : d.buffCnt = 0
    · rw [if_pos hcnt, if_pos (.inl hcnt)]
      exact ih _ _
    rw [if_neg hcnt]
    by_cases hnum : (d.reorderBuffer (d.index seqNum)).desc.msduNum = 0
    · rw [if_pos hnum, if_pos (.inr hnum)]
      exact (ih _ _).mono (.refl _) rfl
    · rw [if_neg hnum, if_neg (not_or.2 ⟨hcnt, hnum⟩)]
      exact (sendSlot_passes d _).trans (ih _ _) rfl

theorem betweenSeqloSeqhi_passes (d : RxBaNodeDesc) :
    Passes d (betweenSeqloSeqhi d) (betweenSeqloSeqhiChecks d) :=
  (sendMsduInOrderLoop_passes d.buffCnt d.winStart d).mono ⟨rfl, rfl, rfl⟩ rfl

theorem moveWindow_passes (d : RxBaNodeDesc) (pos : ℕ) :
    Passes d (moveWindow d pos) (moveWindowChecks d pos) := by
  have hgap := sendMsduWithGapLoop_passes (seqnoSub pos d.winStart) d.winStart d
  have hstart : Passes d ({ (sendMsduWithGap d pos).1 with winStart := pos },
      (sendMsduWithGap d pos).2)
      (sendMsduWithGapLoopChecks (seqnoSub pos d.winStart) d.winStart d) :=
    hgap.mono ⟨rfl, rfl, rfl⟩ rfl
  exact hstart.trans (betweenSeqloSeqhi_passes _) rfl

theorem makeRoom_passes (d : RxBaNodeDesc) (seqNum : ℕ) :
    Passes d (makeRoom d seqNum) (makeRoomChecks d seqNum) := by
  unfold makeRoom makeRoomChecks
  split_ifs
  · exact moveWindow_passes d _
  · exact .refl d

/-- Buffering an MSDU checks nothing. -/
theorem insertMsdu_samePn (m : RxMsduDesc) (skb : Option Skb) (d : RxBaNodeDesc) :
    SamePn d (insertMsdu m skb d).2.1 ∧ (insertMsdu m skb d).2.2.up = [] := by
  unfold insertMsdu
  dsimp only
  split_ifs <;> exact ⟨⟨rfl, rfl, rfl⟩, rfl⟩

theorem reorderMsdu_passes (m : RxMsduDesc) (skb : Option Skb) (d : RxBaNodeDesc) :
    Passes d (reorderMsdu m skb d).2 (reorderMsduChecks m d) := by
  obtain ⟨hpn, hnone⟩ := insertMsdu_samePn m skb (makeRoom d m.seqNum).1
  have hroom {d' : RxBaNodeDesc} {o : Out}
      (h : SamePn (insertMsdu m skb (makeRoom d m.seqNum).1).2.1 d')
      (hup : o.up = (makeRoom d m.seqNum).2.up ++
        (insertMsdu m skb (makeRoom d m.seqNum).1).2.2.up) :
      Passes d (d', o) (makeRoomChecks d m.seqNum) := by
    rw [hnone, List.append_nil] at hup
    exact ((makeRoom_passes d m.seqNum).mono hpn hup).mono h rfl
  rw [reorderMsduChecks]
  rcases reorderMsdu_cases (Eq.refl (makeRoom d m.seqNum))
    (Eq.refl (insertMsdu m skb (makeRoom d m.seqNum).1)) with
    ⟨hgeq, heq⟩ | ⟨hgeq, -, -, heq⟩ | ⟨hgeq, -, -, heq⟩ | ⟨hgeq, -, heq⟩
  · rw [heq, if_neg hgeq]
    exact .keep (.refl d) rfl
  · rw [heq, if_pos hgeq]
    exact hroom ⟨rfl, rfl, rfl⟩ rfl
  · rw [heq, if_pos hgeq]
    exact hroom (.refl _) rfl
  · rw [heq, if_pos hgeq]
    exact hroom (.refl _) (List.append_nil _)

theorem reorderActive_passes (m : RxMsduDesc) (skb : Option Skb) (n : RxBaNode) :
    Passes n.rxBa ((reorderActive m skb n).1.rxBa, (reorderActive m skb n).2)
      (reorderActiveChecks m skb n) := by
  have hmsdu := reorderMsdu_passes m skb n.rxBa
  unfold reorderActive reorderActiveChecks
  dsimp only
  by_cases hfast : (decide (m.seqNum = n.rxBa.winStart) && decide (n.rxBa.buffCnt = 0) &&
      m.lastMsduOfMpdu) = true
  · rw [if_pos hfast, if_pos hfast]
    exact sendOrderMsdu_passes
  rw [if_neg hfast, if_neg hfast]
  by_cases hok : (reorderMsdu m skb n.rxBa).1 = true
  · rw [if_pos hok, hok, Bool.true_and]
    split_ifs
    · rw [modReorderTimer_rxBa]
      exact hmsdu.trans (betweenSeqloSeqhi_passes _) rfl
    · rw [modReorderTimer_rxBa, List.append_nil]
      exact hmsdu
    · rw [List.append_nil]
      exact hmsdu
  · rw [if_neg hok, Bool.eq_false_iff.2 hok, Bool.false_and, Bool.false_and,
      if_neg Bool.false_ne_true, List.append_nil]
    split_ifs
    · exact hmsdu
    · exact hmsdu

/-- The search of the timer hands nothing up. -/
theorem getFirstSeqnoInBuffLoop_up (fuel seqno : ℕ) (d : RxBaNodeDesc) :
    (getFirstSeqnoInBuffLoop d fuel seqno).2.up = [] := by
  induction fuel generalizing seqno with
  | zero => rfl
  | succ fuel ih =>
    rw [getFirstSeqnoInBuffLoop]
    dsimp only
    split_ifs
    · rfl
    · exact ih _
    · rfl

theorem baReorderTimeout_passes (n : RxBaNode) :
    Passes n.rxBa ((baReorderTimeout n).1.rxBa, (baReorderTimeout n).2)
      (baReorderTimeoutChecks n) := by
  have hmove {o : Out} (hup : o.up = (getFirstSeqnoInBuff n.rxBa).2.up ++
        (moveWindow n.rxBa (getFirstSeqnoInBuff n.rxBa).1).2.up) :
      Passes n.rxBa ((moveWindow n.rxBa (getFirstSeqnoInBuff n.rxBa).1).1, o)
        (moveWindowChecks n.rxBa (getFirstSeqnoInBuff n.rxBa).1) :=
    (moveWindow_passes n.rxBa _).mono (.refl _)
      (hup.trans (by rw [getFirstSeqnoInBuff, getFirstSeqnoInBuffLoop_up, List.nil_append]))
  unfold baReorderTimeout baReorderTimeoutChecks
  dsimp only
  split_ifs
  · rw [modReorderTimer_rxBa]
    exact hmove rfl
  · rw [modReorderTimer_rxBa]
    exact hmove rfl
  · exact .refl _

/-- Flushing a ring sends nothing. -/
theorem flushReorderBufferLoop_passes (num i : ℕ) (d : RxBaNodeDesc) :
    Passes d (flushReorderBufferLoop num i d) [] := by
  induction num generalizing i d with
  | zero => exact .refl d
  | succ num ih =>
    have hslot : Passes d (d.setPkt i .zero, {}) [] := .keep ⟨rfl, rfl, rfl⟩ rfl
    exact hslot.trans (ih (i + 1) _) rfl

theorem endSession_passes (drain : Bool) (n : RxBaNode) :
    Passes n.rxBa (endSession drain n) (endSessionChecks drain n) := by
  have hflush (d : RxBaNodeDesc) : Passes d (flushReorderBuffer d) [] :=
    (flushReorderBufferLoop_passes (d.indexMask + 1) 0 d).mono ⟨rfl, rfl, rfl⟩ rfl
  unfold endSession endSessionChecks
  by_cases hact : n.active
  · rw [if_pos hact]
    by_cases hdrain : drain
    · rw [if_pos hdrain, if_pos ⟨hact, hdrain⟩]
      rw [← List.append_nil (betweenSeqloSeqhiChecks n.rxBa)]
      exact (betweenSeqloSeqhi_passes n.rxBa).trans (hflush _) rfl
    · rw [if_neg hdrain, if_neg fun h => hdrain h.2]
      exact (hflush n.rxBa).mono (.refl _) rfl
  · rw [if_neg hact, if_neg fun h => hact h.1]
    exact .refl _

/-! ## A step of a session -/

/-- A session that is active, or does not get an MSDU, sends what it checks. -/
theorem nodeStep_passes {n : RxBaNode} {e : NodeEvent} {r : RxBaNode × Out}
    (hact : n.active = true ∨ e = .timeout) (h : nodeStep n e = some r) :
    Passes n.rxBa (r.1.rxBa, r.2) (nodeChecks n e) := by
  have hprocess (m : RxMsduDesc) (skb : Option Skb) (hact : n.active = true)
      (h : reorderMsduProcess m skb n = some r) :
      Passes n.rxBa (r.1.rxBa, r.2) (reorderMsduProcessChecks m skb n) := by
    unfold reorderMsduProcess at h
    rw [if_pos hact] at h
    obtain ⟨-, h⟩ := Option.ite_none_left_eq_some.1 h
    rw [reorderMsduProcessChecks, if_pos hact, ← Option.some.inj h]
    exact reorderActive_passes m skb n
  cases e with
  | msdu skb => exact hprocess _ _ (hact.resolve_right (by simp)) h
  | filter seqNum => exact hprocess _ _ (hact.resolve_right (by simp)) h
  | timeout =>
    rw [nodeStep] at h
    rw [nodeChecks]
    split_ifs at h ⊢ with hp
    · obtain ⟨-, h⟩ := Option.ite_none_left_eq_some.1 h
      rw [← Option.some.inj h]
      exact baReorderTimeout_passes { n with timerPending := false }
    · rw [← Option.some.inj h]
      exact .refl _

/-- An MSDU of an inactive session is handed up without a check. -/
theorem nodeChecks_inactive {n : RxBaNode} {e : NodeEvent} {r : RxBaNode × Out}
    (hact : n.active = false) (h : nodeStep n e = some r) :
    nodeChecks n e = [] ∧ r.1.rxBa = n.rxBa ∧
      ((∃ skb, e = .msdu skb ∧ r.2.up = [skb]) ∨ e = .timeout) := by
  have hno : ¬n.active = true := Bool.eq_false_iff.1 hact
  cases e with
  | msdu skb =>
    rw [nodeStep, reorderMsduProcess, if_neg hno] at h
    rw [nodeChecks, reorderMsduProcessChecks, if_neg hno, ← Option.some.inj h]
    exact ⟨rfl, rfl, .inl ⟨skb, rfl, rfl⟩⟩
  | filter seqNum =>
    rw [nodeStep, reorderMsduProcess, if_neg hno] at h
    exact absurd h (by simp)
  | timeout =>
    have hidle : (baReorderTimeout { n with timerPending := false }) =
        ({ n with timerPending := false }, {}) := by
      unfold baReorderTimeout
      rw [hact, Bool.false_and, Bool.false_and, if_neg Bool.false_ne_true]
    refine ⟨?_, ?_, .inr rfl⟩
    · rw [nodeChecks, baReorderTimeoutChecks, hact, Bool.false_and, Bool.false_and,
        if_neg Bool.false_ne_true, ite_self]
    · rw [nodeStep] at h
      dsimp only at h
      rw [hidle] at h
      split_ifs at h
      · rw [← Option.some.inj h]
      · rw [← Option.some.inj h]

/-- In a step of a session, MPDUs are checked one after the other. -/
theorem nodeChecks_checks {n : RxBaNode} {e : NodeEvent} {r : RxBaNode × Out}
    (h : nodeStep n e = some r) : Checks n.rxBa r.1.rxBa (nodeChecks n e) := by
  cases hact : n.active with
  | true => exact (nodeStep_passes (.inl hact) h).checks
  | false =>
    obtain ⟨hnone, hsame, -⟩ := nodeChecks_inactive hact h
    rw [hnone, hsame]
    exact .refl _

end

end W132d.Reorder
