import W132d.Reorder.Entry

/-!
# The ring is accessed where it is allocated

A slot is found by masking a sequence number, so that an access is inside of the ring as long as
the mask is below its length. No function changes either of them but the ADDBA, which sets the
mask for the window it asks for and keeps the ring.

* `InRing`: a function keeps the mask and the ring, and stays inside of it;
* `reorderActive_inRing`, `baReorderTimeout_inRing`, `endSession_inRing`: so do the functions of a
  session;
* `flushReorderBuffer_oob`: the flush leaves the ring exactly if the mask is not below its length.

There is no window here, as in `W132d.Reorder.Slots`: an index is inside because it was masked, so
that nothing needs to be known of the sequence numbers. `InRing` is closed under one function after
the other, and it does not depend on what else a function does (`InRing.mono`), so that the lemma of
a function is put together from those of the functions that it calls. The functions that flush a
ring are the exception: they count the slots up to the mask, and do not mask the count.
-/

namespace W132d.Reorder

/-- A function keeps the mask and the length of the ring, and accesses no slot past its end if the
    mask is below it. -/
structure InRing (d : RxBaNodeDesc) (r : RxBaNodeDesc × Out) : Prop where
  mask : r.1.indexMask = d.indexMask
  slots : r.1.slots = d.slots
  oob : d.indexMask < d.slots → r.2.oob = false

section

variable {d d' : RxBaNodeDesc} {r r' : RxBaNodeDesc × Out} {o : Out} {m : RxMsduDesc}
  {skb : Option Skb}

/-- Doing nothing stays inside of the ring. -/
theorem InRing.refl (d : RxBaNodeDesc) : InRing d (d, {}) := ⟨rfl, rfl, fun _ => rfl⟩

/-- A function, then another. -/
theorem InRing.trans (h : InRing d r) (h' : InRing r.1 r') (ho : o.oob = (r.2.oob || r'.2.oob)) :
    InRing d (r'.1, o) := by
  refine ⟨h'.mask.trans h.mask, h'.slots.trans h.slots, fun hd => ?_⟩
  rw [ho, h.oob hd, h'.oob (h.mask ▸ h.slots ▸ hd), Bool.or_false]

/-- What is changed next to the mask and the ring, and what a function does beyond accessing
    slots, does not matter. -/
theorem InRing.mono (h : InRing d r) (hmask : d'.indexMask = r.1.indexMask)
    (hslots : d'.slots = r.1.slots) (ho : o.oob = r.2.oob) : InRing d (d', o) :=
  ⟨hmask.trans h.mask, hslots.trans h.slots, fun hd => ho.trans (h.oob hd)⟩

/-- The slot of a sequence number. -/
theorem InRing.access (d : RxBaNodeDesc) (seqNum : ℕ) :
    InRing d (d, d.access (d.index seqNum)) := by
  refine ⟨rfl, rfl, fun hd => decide_eq_false (Nat.not_le.2 ?_)⟩
  have hle : d.index seqNum ≤ d.indexMask := Nat.and_le_right
  exact hle.trans_lt hd

/-! ## Sending -/

theorem replayDetection_inRing (p : RxBaPktDesc) (d : RxBaNodeDesc) :
    (replayDetection p d).2.indexMask = d.indexMask ∧ (replayDetection p d).2.slots = d.slots := by
  unfold replayDetection
  split_ifs <;> exact ⟨rfl, rfl⟩

/-- An MSDU that is sent at once is not in it. -/
theorem sendOrderMsdu_inRing : InRing d (sendOrderMsdu m skb d) := by
  cases skb with
  | none => exact ⟨rfl, rfl, fun _ => rfl⟩
  | some skb =>
    unfold sendOrderMsdu
    dsimp only
    obtain ⟨hmask, hslots⟩ := replayDetection_inRing (setBaPktDesc RxBaPkt.zero.desc m)
      { d with
        winStart := seqnoAdd d.winStart 1
        winLimit := seqnoAdd d.winLimit 1
        winTail := seqnoSub (seqnoAdd d.winStart 1) 1 }
    refine ⟨hmask, hslots, fun _ => ?_⟩
    split_ifs <;> rfl

/-- The slot that is sent is inside. -/
theorem sendSlot_inRing (d : RxBaNodeDesc) (i : ℕ) : InRing d (sendSlot d i) := by
  unfold sendSlot sendReorderSkb
  dsimp only
  obtain ⟨hmask, hslots⟩ := replayDetection_inRing (d.reorderBuffer i).desc d
  split_ifs
  · exact ⟨rfl, rfl, fun _ => rfl⟩
  · exact ⟨hmask, hslots, fun _ => rfl⟩
  · exact ⟨hmask, hslots, fun _ => rfl⟩

/-- A slot that is read and sent. -/
theorem access_sendSlot_inRing (d : RxBaNodeDesc) (seqNum : ℕ) :
    InRing d ((sendSlot d (d.index seqNum)).1,
      d.access (d.index seqNum) ++ (sendSlot d (d.index seqNum)).2) :=
  (InRing.access d seqNum).trans (sendSlot_inRing d _) rfl

theorem sendMsduInOrderLoop_inRing (n seqNum : ℕ) (d : RxBaNodeDesc) :
    InRing d (sendMsduInOrderLoop n seqNum d).2 := by
  induction n generalizing seqNum d with
  | zero => exact .refl d
  | succ n ih =>
    rw [sendMsduInOrderLoop]
    dsimp only
    split_ifs
    · exact .refl d
    · exact .access d seqNum
    · exact (access_sendSlot_inRing d seqNum).trans (ih _ _) rfl

theorem sendMsduWithGapLoop_inRing (num seqNum : ℕ) (d : RxBaNodeDesc) :
    InRing d (sendMsduWithGapLoop num seqNum d) := by
  induction num generalizing seqNum d with
  | zero => exact .refl d
  | succ num ih =>
    rw [sendMsduWithGapLoop]
    dsimp only
    split_ifs
    · exact ih _ _
    · exact (InRing.access d seqNum).trans (ih _ _) rfl
    · exact (access_sendSlot_inRing d seqNum).trans (ih _ _) rfl

theorem betweenSeqloSeqhi_inRing (d : RxBaNodeDesc) : InRing d (betweenSeqloSeqhi d) :=
  (sendMsduInOrderLoop_inRing d.buffCnt d.winStart d).mono rfl rfl rfl

theorem moveWindow_inRing (d : RxBaNodeDesc) (pos : ℕ) : InRing d (moveWindow d pos) := by
  have hgap : InRing d ({ (sendMsduWithGap d pos).1 with winStart := pos },
      (sendMsduWithGap d pos).2) :=
    (sendMsduWithGapLoop_inRing (seqnoSub pos d.winStart) d.winStart d).mono rfl rfl rfl
  exact hgap.trans (betweenSeqloSeqhi_inRing _) rfl

/-! ## Buffering -/

theorem makeRoom_inRing (d : RxBaNodeDesc) (seqNum : ℕ) : InRing d (makeRoom d seqNum) := by
  unfold makeRoom
  split_ifs
  · exact moveWindow_inRing d _
  · exact .refl d

theorem insertMsdu_inRing (m : RxMsduDesc) (skb : Option Skb) (d : RxBaNodeDesc) :
    InRing d (insertMsdu m skb d).2 := by
  have haccess := InRing.access d m.seqNum
  unfold insertMsdu
  dsimp only
  split_ifs
  · exact haccess.mono rfl rfl rfl
  · exact haccess
  · exact haccess.mono rfl rfl rfl

theorem reorderMsdu_inRing (m : RxMsduDesc) (skb : Option Skb) (d : RxBaNodeDesc) :
    InRing d (reorderMsdu m skb d).2 := by
  have hput {o : Out} (ho : o.oob = ((makeRoom d m.seqNum).2.oob ||
        (insertMsdu m skb (makeRoom d m.seqNum).1).2.2.oob)) :
      InRing d ((insertMsdu m skb (makeRoom d m.seqNum).1).2.1, o) :=
    (makeRoom_inRing d m.seqNum).trans (insertMsdu_inRing m skb _) ho
  rcases reorderMsdu_cases (Eq.refl (makeRoom d m.seqNum))
    (Eq.refl (insertMsdu m skb (makeRoom d m.seqNum).1)) with
    ⟨-, heq⟩ | ⟨-, -, -, heq⟩ | ⟨-, -, -, heq⟩ | ⟨-, -, heq⟩
  · rw [heq]
    exact ⟨rfl, rfl, fun _ => rfl⟩
  · rw [heq]
    exact (hput (Out.append_oob _ _)).mono rfl rfl rfl
  · rw [heq]
    exact hput rfl
  · rw [heq]
    exact hput (Bool.or_false _)

theorem reorderActive_inRing (m : RxMsduDesc) (skb : Option Skb) (n : RxBaNode) :
    InRing n.rxBa ((reorderActive m skb n).1.rxBa, (reorderActive m skb n).2) := by
  obtain ⟨-, ⟨-, -, hring, hout⟩ | ⟨hring, hout⟩ | ⟨hring, hout⟩⟩ := reorderActive_cases m skb n
  · rw [hring, hout]
    exact sendOrderMsdu_inRing
  · rw [hring, hout]
    exact reorderMsdu_inRing m skb n.rxBa
  · rw [hring, hout]
    exact (reorderMsdu_inRing m skb n.rxBa).trans (betweenSeqloSeqhi_inRing _) rfl

/-! ## Timers and ends of sessions -/

theorem getFirstSeqnoInBuffLoop_inRing (fuel seqno : ℕ) (d : RxBaNodeDesc) :
    InRing d (d, (getFirstSeqnoInBuffLoop d fuel seqno).2) := by
  induction fuel generalizing seqno with
  | zero => exact .refl d
  | succ fuel ih =>
    rw [getFirstSeqnoInBuffLoop]
    dsimp only
    split_ifs
    · exact .access d seqno
    · exact (InRing.access d seqno).trans (ih _) rfl
    · exact .refl d

theorem baReorderTimeout_inRing (n : RxBaNode) :
    InRing n.rxBa ((baReorderTimeout n).1.rxBa, (baReorderTimeout n).2) := by
  have hmove := (getFirstSeqnoInBuffLoop_inRing 4096 n.rxBa.winStart n.rxBa).trans
    (moveWindow_inRing n.rxBa (getFirstSeqnoInBuff n.rxBa).1) (Out.append_oob ..)
  unfold baReorderTimeout
  dsimp only
  split_ifs
  · rw [modReorderTimer_rxBa]
    exact hmove
  · rw [modReorderTimer_rxBa]
    exact hmove
  · exact .refl _

theorem flushReorderBufferLoop_oob (num i : ℕ) (d : RxBaNodeDesc) :
    (flushReorderBufferLoop num i d).1.indexMask = d.indexMask ∧
      (flushReorderBufferLoop num i d).1.slots = d.slots ∧
      ((flushReorderBufferLoop num i d).2.oob = true ↔ 0 < num ∧ d.slots < i + num) := by
  induction num generalizing i d with
  | zero => exact ⟨rfl, rfl, iff_of_false Bool.false_ne_true fun h => h.1.false⟩
  | succ num ih =>
    obtain ⟨hmask, hslots, hoob⟩ := ih (i + 1) (d.setPkt i .zero)
    refine ⟨hmask, hslots, ?_⟩
    rw [flushReorderBufferLoop]
    dsimp only
    rw [Out.append_oob, Out.append_oob, Bool.or_eq_true, hoob]
    change (decide (d.slots ≤ i) || false) = true ∨ (0 < num ∧ d.slots < i + 1 + num) ↔ _
    rw [Bool.or_false, decide_eq_true_eq]
    omega

/-- The flush goes over the slots up to the mask. -/
theorem flushReorderBuffer_oob (d : RxBaNodeDesc) :
    (flushReorderBuffer d).2.oob = true ↔ ¬d.indexMask < d.slots := by
  refine (flushReorderBufferLoop_oob (d.indexMask + 1) 0 d).2.2.trans ?_
  omega

theorem flushReorderBuffer_inRing (d : RxBaNodeDesc) : InRing d (flushReorderBuffer d) := by
  obtain ⟨hmask, hslots, -⟩ := flushReorderBufferLoop_oob (d.indexMask + 1) 0 d
  refine ⟨hmask, hslots, fun hd => ?_⟩
  rw [← Bool.not_eq_true, flushReorderBuffer_oob]
  exact not_not.2 hd

theorem endSession_inRing (drain : Bool) (n : RxBaNode) : InRing n.rxBa (endSession drain n) := by
  have hdrained : InRing n.rxBa (if drain then betweenSeqloSeqhi n.rxBa else (n.rxBa, {})) := by
    split_ifs
    · exact betweenSeqloSeqhi_inRing n.rxBa
    · exact .refl _
  unfold endSession
  split_ifs
  · exact (betweenSeqloSeqhi_inRing n.rxBa).trans (flushReorderBuffer_inRing _) rfl
  · exact (InRing.refl n.rxBa).trans (flushReorderBuffer_inRing _) rfl
  · exact .refl _

/-! ## A step of a session -/

/-- A session keeps its mask and its ring. -/
theorem nodeStep_keepsRing {n : RxBaNode} {e : NodeEvent} {r : RxBaNode × Out}
    (h : nodeStep n e = some r) :
    r.1.rxBa.indexMask = n.rxBa.indexMask ∧ r.1.rxBa.slots = n.rxBa.slots := by
  have hprocess {m : RxMsduDesc} {skb : Option Skb} (h : reorderMsduProcess m skb n = some r) :
      r.1.rxBa.indexMask = n.rxBa.indexMask ∧ r.1.rxBa.slots = n.rxBa.slots := by
    unfold reorderMsduProcess at h
    split_ifs at h
    · obtain ⟨-, h⟩ := Option.ite_none_left_eq_some.1 h
      have hring := reorderActive_inRing m skb n
      rw [← Option.some.inj h]
      exact ⟨hring.mask, hring.slots⟩
    · split at h
      · rw [← Option.some.inj h]
        exact ⟨rfl, rfl⟩
      · exact absurd h (by simp)
  cases e with
  | msdu skb => exact hprocess h
  | filter seqNum => exact hprocess h
  | timeout =>
    rw [nodeStep] at h
    split_ifs at h
    · obtain ⟨-, h⟩ := Option.ite_none_left_eq_some.1 h
      have hring := baReorderTimeout_inRing { n with timerPending := false }
      rw [← Option.some.inj h]
      exact ⟨hring.mask, hring.slots⟩
    · rw [← Option.some.inj h]
      exact ⟨rfl, rfl⟩

end

end W132d.Reorder
