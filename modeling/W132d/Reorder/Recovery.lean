import W132d.Reorder.Session

/-!
# Loss recovery

The timer of a session gives up on the MPDUs that did not come. It looks for the
first complete MPDU from `winStart` to `winTail` and moves the window there, so
it makes progress as long as `winTail` is not before what is buffered.

* `session_tail`: `winTail` is between `winStart - 1` and `winLimit`, at the end of
  what is buffered, along every run in which no MSDU past the window compares as
  before `winTail`;
* `timeout_recovers`: the timer then moves the window and empties at least one
  slot, and the first complete MPDU is handed over: up, or to be freed if its
  PN shows it to be a replay.

An MSDU past the window may compare as before `winTail`: `winTail` can be one
before `winStart`, so that half of the sequence space from `winStart` reaches one
number further than half of it from `winTail`. Then the tail stays behind, and
the timer finds nothing (`timeout_stalls`).

How the theorem is proved: the step that counts is that of the timer. It moves the window to the
first complete MPDU, or past all that is buffered (`moveWindow_recovers`), and a complete MPDU at
the start of the window is the first one to go (`betweenSeqloSeqhi_out`). That the timer gets as far
as an MPDU at all needs that `winTail` is at the end of what is buffered, which is the invariant of
the run (`session_tail`, with `TailAt` of `W132d.Reorder.Window`).
-/

namespace W132d.Reorder

/-! ## Handing an MPDU over -/

/-- The MPDU of a slot was checked against the PN of `d`, and handed up, or freed as
    a replay. -/
def HandedOver (pkt : RxBaPkt) (d : RxBaNodeDesc) (up freed : List Skb) : Prop :=
  if (replayDetection pkt.desc d).1 then pkt.skb <:+: up else pkt.skb <:+: freed

/-- The replay check reads the PN only. -/
theorem replayDetection_congr {p : RxBaPktDesc} {d d' : RxBaNodeDesc} (hl : d'.pnL = d.pnL)
    (hh : d'.pnH = d.pnH) (hr : d'.resetPn = d.resetPn) :
    (replayDetection p d').1 = (replayDetection p d).1 := by
  unfold replayDetection
  rw [hl, hh, hr]
  split_ifs <;> rfl

theorem HandedOver.congr {pkt : RxBaPkt} {d d' : RxBaNodeDesc} {up freed : List Skb}
    (h : HandedOver pkt d' up freed) (hl : d'.pnL = d.pnL) (hh : d'.pnH = d.pnH)
    (hr : d'.resetPn = d.resetPn) : HandedOver pkt d up freed := by
  rwa [HandedOver, replayDetection_congr hl hh hr] at h

theorem sendSlot_handedOver (d : RxBaNodeDesc) (i : ℕ) :
    HandedOver (d.reorderBuffer i) d (sendSlot d i).2.up (sendSlot d i).2.freed := by
  rw [HandedOver, sendSlot_out]
  by_cases hr : (replayDetection (d.reorderBuffer i).desc d).1
  · rw [if_pos hr, if_pos hr]
  · rw [if_neg hr, if_neg hr]

theorem HandedOver.mono {pkt : RxBaPkt} {d : RxBaNodeDesc} {out : Out}
    (h : HandedOver pkt d out.up out.freed) (pre post : Out) :
    HandedOver pkt d (pre ++ out ++ post).up (pre ++ out ++ post).freed := by
  unfold HandedOver at h ⊢
  split_ifs with hr
  · rw [if_pos hr] at h
    exact h.trans ⟨pre.up, post.up, rfl⟩
  · rw [if_neg hr] at h
    exact h.trans ⟨pre.freed, post.freed, rfl⟩

section

variable {hist : List Skb} {d : RxBaNodeDesc} {hi t : ℕ}

/-- A complete MPDU at the start of the window is the first to go. -/
theorem betweenSeqloSeqhi_out (h : Buffered hist d d.winStart 0 hi)
    (hlast : (d.reorderBuffer (d.winStart % d.slots)).desc.last) :
    ∃ out, (betweenSeqloSeqhi d).2 = (sendSlot d (d.winStart % d.slots)).2 ++ out := by
  have hslot : d.winStart % d.slots < d.slots := Nat.mod_lt _ h.slots_pos
  have hcnt : d.buffCnt ≠ 0 := fun hz =>
    h.cnt_eq_zero.1 hz _ hslot (h.occ_of_last hslot hlast)
  obtain ⟨n, hn⟩ := Nat.exists_eq_succ_of_ne_zero hcnt
  have hacc : d.access (d.winStart % d.slots) = {} := by rw [← h.index_eq, h.access_oob]
  refine ⟨(sendMsduInOrderLoop n ((d.winStart + 1) % 2 ^ 16)
    (sendSlot d (d.winStart % d.slots)).1).2.2, ?_⟩
  change (sendMsduInOrderLoop d.buffCnt d.winStart d).2.2 = _
  rw [hn, sendMsduInOrderLoop, h.index_eq, if_neg hcnt, if_neg (by simp [hlast]), hacc]
  rfl

/-- The timer moves the window to the first complete MPDU, which is handed over with
    the PN that the MPDUs flushed before it leave. -/
theorem moveWindow_handedOver (h : Buffered hist d d.winStart 0 hi) (hd : d.winStart < 4096)
    {pos : ℕ} (hpos : pos < 4096) (hnum : seqnoSub pos d.winStart < d.slots)
    (hlast : (d.reorderBuffer (pos % d.slots)).desc.last) :
    HandedOver (d.reorderBuffer (pos % d.slots)) (sendMsduWithGap d pos).1
      (moveWindow d pos).2.up (moveWindow d pos).2.freed := by
  obtain ⟨hgap, hs, hkept⟩ := sendMsduWithGap_released h hd hpos
  set d₁ := (sendMsduWithGap d pos).1
  have hslots : d₁.slots = d.slots := hgap.window.slots
  have hbuf : d₁.reorderBuffer (pos % d.slots) = d.reorderBuffer (pos % d.slots) := hkept hnum
  have hlast' : (d₁.reorderBuffer (pos % d₁.slots)).desc.last := by rwa [hslots, hbuf]
  obtain ⟨out, hout⟩ := betweenSeqloSeqhi_out hs hlast'
  have hsend := (sendSlot_handedOver { d₁ with winStart := pos } (pos % d₁.slots)).mono
    (sendMsduWithGap d pos).2 out
  have hmove : (moveWindow d pos).2 = (sendMsduWithGap d pos).2 ++
      (sendSlot { d₁ with winStart := pos } (pos % d₁.slots)).2 ++ out := by
    rw [Out.append_assoc, ← hout]
    rfl
  rw [← hmove, hslots] at hsend
  rw [← hbuf]
  exact hsend.congr rfl rfl rfl

/-- The MPDU at the offset `o` is the first complete one. -/
def FirstComplete (d : RxBaNodeDesc) (o : ℕ) : Prop :=
  (d.reorderBuffer ((d.winStart + o) % d.slots)).desc.last ∧
    ∀ j < o, ¬(d.reorderBuffer ((d.winStart + j) % d.slots)).desc.last

instance (d : RxBaNodeDesc) (o : ℕ) : Decidable (FirstComplete d o) :=
  inferInstanceAs (Decidable (_ ∧ ∀ j < o, _))

/-- The timer, with `winTail` at the end of what is buffered. -/
theorem moveWindow_recovers (h : Window hist d t) (ht : TailAt d t) (hcnt : 0 < d.buffCnt) :
    let pos := (getFirstSeqnoInBuff d).1
    ∃ k, 0 < k ∧ k < 4096 ∧ (moveWindow d pos).1.winStart = (d.winStart + k) % 4096 ∧
      (moveWindow d pos).1.buffCnt < d.buffCnt ∧
      ∀ o < d.winSize, FirstComplete d o → o < k ∧
        HandedOver (d.reorderBuffer ((d.winStart + o) % d.slots))
          (sendMsduWithGap d ((d.winStart + o) % 4096)).1
          (moveWindow d pos).2.up (moveWindow d pos).2.freed := by
  intro pos
  have hext := h.extent_le
  have hsize := h.size_le
  have hfit := h.size_slots
  have hslots := h.buffered.slots_pos
  obtain ⟨num, -, hnum, hpos, hlast, hnot⟩ :=
    getFirstSeqnoInBuffLoop_tail h ht 4096 (Nat.zero_le t) (by omega)
  rw [Nat.add_zero, Nat.mod_eq_of_lt h.start_lt] at hpos
  have hlt : pos < 4096 := by
    rw [show pos = _ from hpos]
    exact Nat.mod_lt _ (by decide)
  have hsub : seqnoSub pos d.winStart = num := by
    rw [show pos = _ from hpos, seqnoSub_add (by omega)]
  have hslot : pos % d.slots = (d.winStart + num) % d.slots := by
    rw [show pos = _ from hpos, Nat.mod_mod_of_dvd _ h.buffered.dvd]
  obtain ⟨k, hk, hk', hmv, hdrain⟩ := moveWindow_moved h.buffered h.start_lt hlt
  rw [hsub] at hk hk' hdrain
  rw [hslot] at hdrain
  rcases hnum.lt_or_eq with hlt' | rfl
  · -- There is a complete MPDU: it goes, and the window moves past it.
    obtain ⟨hnk, hless⟩ := hdrain (hlast hlt') (by omega)
    refine ⟨k, by omega, by omega, hmv.winStart, hless, fun o ho hfirst => ?_⟩
    obtain rfl : o = num := by
      rcases lt_trichotomy o num with hon | hon | hon
      · exact absurd hfirst.1 (hnot o (Nat.zero_le o) hon)
      · exact hon
      · exact absurd (hlast hlt') (hfirst.2 num hon)
    refine ⟨hnk, ?_⟩
    rw [← hslot, ← show pos = _ from hpos]
    exact moveWindow_handedOver h.buffered h.start_lt hlt (by omega) (hslot ▸ hlast hlt')
  · -- There is none: all that is buffered goes.
    have hempty : (moveWindow d pos).1.buffCnt = 0 := by
      refine hmv.buffered.cnt_eq_zero.2 fun i hi => ?_
      exact hmv.buffered.within.not_occ (by omega) hi
    have hpos' : 0 < num := by
      by_contra hz
      have hz' : num ≤ 0 := by omega
      exact hcnt.ne' (h.buffered.cnt_eq_zero.2 fun i hi => h.buffered.within.not_occ hz' hi)
    refine ⟨k, by omega, by omega, hmv.winStart, by omega, fun o ho hfirst => ?_⟩
    have hocc := h.buffered.occ_of_last (Nat.mod_lt _ hslots) hfirst.1
    have hon := (h.buffered.within.offset_eq h.buffered.hi_le (by omega) hocc).2.1
    exact absurd hfirst.1 (hnot o (Nat.zero_le o) hon)

end

/-! ## The tail along every run -/

instance (d : RxBaNodeDesc) (m : RxMsduDesc) : Decidable (PassesTail d m) :=
  inferInstanceAs (Decidable (_ → _))

instance (d : RxBaNodeDesc) (e : NodeEvent) : Decidable (KeepsTail d e) :=
  inferInstanceAs (Decidable (∀ m ∈ e.desc?, PassesTail d m))

/-- The events that keep the count of the MSDUs of their slot, and bring no MSDU past
    the window that compares as before `winTail`. -/
def Session.KeepsTail (s : Session) (e : NodeEvent) : Prop :=
  s.Counts e ∧ Reorder.KeepsTail s.node.rxBa e

instance (s : Session) (e : NodeEvent) : Decidable (s.KeepsTail e) :=
  inferInstanceAs (Decidable (_ ∧ _))

section

variable {staLutIndex tid winStart winSize : ℕ} {es : List NodeEvent} {s s' : Session}

/-- `winTail` is at the end of what is buffered along every run that keeps it. -/
theorem session_tail (hstart : winStart < 4096) (hpos : 1 ≤ winSize) (hle : winSize ≤ 1024)
    (hc : session.Along Session.KeepsTail (Session.start staLutIndex tid winStart winSize) es)
    (hrun : session.run (Session.start staLutIndex tid winStart winSize) es = some s)
    (hact : s.node.active) : ∃ t, s.Inv winStart t ∧ TailAt s.node.rxBa t := by
  refine Machine.invariant
    (I := fun s => s.node.active → ∃ t, s.Inv winStart t ∧ TailAt s.node.rxBa t) ?_
    (fun _ => ⟨0, start_inv hstart hpos hle⟩) hc hrun hact
  intro s e s' hI hk hstep hact
  have hact' := active_of_step hstep hact
  obtain ⟨t, hinv, ht⟩ := hI hact'
  obtain ⟨s'', hstep', -, t', hinv', htail⟩ := hinv.step hact' hk.1
  obtain rfl : s'' = s' := Option.some.inj (hstep'.symm.trans hstep)
  exact ⟨t', hinv', htail ht hk.2⟩

/-- The timer of an active session that has something buffered moves its window. -/
theorem step_timeout (hact : s.node.active) (hp : s.node.timerPending)
    (hcnt : 0 < s.node.rxBa.buffCnt) (hstep : session.step s .timeout = some s') :
    let pos := getFirstSeqnoInBuff s.node.rxBa
    s'.node.rxBa = (moveWindow s.node.rxBa pos.1).1 ∧
      s'.delivered = s.delivered ++ (pos.2 ++ (moveWindow s.node.rxBa pos.1).2).up ∧
      s'.freed = s.freed ++ (pos.2 ++ (moveWindow s.node.rxBa pos.1).2).freed := by
  intro pos
  obtain ⟨r, hr, rfl⟩ := session_step hstep
  rw [nodeStep, if_pos hp] at hr
  have hcases := baReorderTimeout_cases { s.node with timerPending := false }
  have hd : ({ s.node with timerPending := false } : RxBaNode).rxBa = s.node.rxBa := rfl
  rw [hd] at hcases
  rcases hcases with ⟨hno, -⟩ | ⟨hd, hout⟩
  · exact absurd ⟨hact, hcnt.ne', rfl⟩ hno
  · obtain ⟨-, hr⟩ := Option.ite_none_left_eq_some.1 hr
    rw [← Option.some.inj hr, Session.record, hout]
    exact ⟨hd, rfl, rfl⟩

/-- The timer made progress: the window moved, a slot was emptied, and the first
    complete MPDU, if there was one, was passed and handed over. -/
structure Recovers (s s' : Session) : Prop where
  advances : 0 < seqnoSub s'.node.rxBa.winStart s.node.rxBa.winStart
  removes : s'.node.rxBa.buffCnt < s.node.rxBa.buffCnt
  first : ∀ o < s.node.rxBa.winSize, FirstComplete s.node.rxBa o →
    o < seqnoSub s'.node.rxBa.winStart s.node.rxBa.winStart ∧
    ∃ up freed, s'.delivered = s.delivered ++ up ∧ s'.freed = s.freed ++ freed ∧
      HandedOver (s.node.rxBa.reorderBuffer ((s.node.rxBa.winStart + o) % s.node.rxBa.slots))
        (sendMsduWithGap s.node.rxBa ((s.node.rxBa.winStart + o) % 4096)).1 up freed

/-- `winTail` is between `winStart - 1` and `winLimit`, and the timer makes progress
    whenever something is buffered, along every run that keeps the tail. -/
theorem timeout_recovers (hstart : winStart < 4096) (hpos : 1 ≤ winSize) (hle : winSize ≤ 1024)
    (hc : session.Along Session.KeepsTail (Session.start staLutIndex tid winStart winSize) es)
    (hrun : session.run (Session.start staLutIndex tid winStart winSize) es = some s)
    (hact : s.node.active) :
    seqnoSub (s.node.rxBa.winTail + 1) s.node.rxBa.winStart ≤ s.node.rxBa.winSize ∧
      (s.node.timerPending → 0 < s.node.rxBa.buffCnt →
        ∃ s', session.step s .timeout = some s' ∧ Recovers s s') := by
  obtain ⟨t, hinv, ht⟩ := session_tail hstart hpos hle hc hrun hact
  refine ⟨?_, fun hp hcnt => ?_⟩
  · -- `winTail` is at the end of the extent, which is in the window.
    have hext := hinv.window.extent_le
    have hsize := hinv.window.size_le
    rw [ht]
    unfold seqnoSub
    omega
  · have hcounts : s.Counts .timeout := fun m hm => absurd hm (Option.not_mem_none m)
    obtain ⟨s', hstep, -⟩ := hinv.step hact hcounts
    obtain ⟨hd, hup, hfreed⟩ := step_timeout hact hp hcnt hstep
    obtain ⟨-, -, hsearch, -⟩ := moveWindow_timeout hinv.window
    rw [hsearch] at hup hfreed
    obtain ⟨k, hk, hk', hmove, hless, hfirst⟩ := moveWindow_recovers hinv.window ht hcnt
    have hadv : seqnoSub s'.node.rxBa.winStart s.node.rxBa.winStart = k := by
      rw [hd, hmove, seqnoSub_add hk']
    refine ⟨s', hstep, ⟨hadv ▸ hk, by rwa [hd], fun o ho hf => ?_⟩⟩
    obtain ⟨hok, hover⟩ := hfirst o ho hf
    exact ⟨by rwa [hadv], _, _, hup, hfreed, hover⟩

/-- A session with a gap, and the timer pending. -/
def gapEvents : List NodeEvent := [.msdu (wholeMpdu 0 0), .msdu (wholeMpdu 1 3), .filter 2]

theorem timeout_recovers_gap :
    ∃ s, session.run (Session.start 1 0 0 16) gapEvents = some s ∧ 0 < s.node.rxBa.buffCnt ∧
      ∃ s', session.step s .timeout = some s' ∧ Recovers s s' := by
  obtain ⟨s, hrun, hact, hp, hcnt⟩ : ∃ s, session.run (Session.start 1 0 0 16) gapEvents = some s ∧
      s.node.active ∧ s.node.timerPending ∧ 0 < s.node.rxBa.buffCnt :=
    Machine.exists_run (by decide)
  refine ⟨s, hrun, hcnt, (timeout_recovers ?_ ?_ ?_ ?_ hrun hact).2 hp hcnt⟩
  all_goals decide

end

/-! ## What goes wrong otherwise -/

/-- An MSDU of a CCMP MPDU of its own. -/
def ccmpMpdu (id seqNum pnL : ℕ) (h : pnL < 2 ^ 32) : Skb :=
  ⟨id, { filterDesc seqNum with cipherType := .ccmp, pnL := pnL, pnL_lt := h }⟩

/-- Half of the sequence space past the window, an MSDU leaves `winTail` behind, and
    the timer then neither moves the window nor empties the slot. Otherwise, the
    timer passes a complete MPDU that is a replay, and frees it. Runs in which
    `msdu_num` wraps are left out for another reason: `window_fails_on_wrap` is
    one of them. -/
theorem timeout_stalls :
    (∃ s s', session.run (Session.start 1 0 1 1024) [.msdu (wholeMpdu 0 2048)] = some s ∧
      session.step s .timeout = some s' ∧ s.node.active ∧ s'.node.active ∧
      s.node.timerPending ∧ s.node.rxBa.buffCnt = 1 ∧ s'.node.rxBa.buffCnt = 1 ∧
      ¬seqnoSub (s.node.rxBa.winTail + 1) s.node.rxBa.winStart ≤ s.node.rxBa.winSize ∧
      s'.node.rxBa.winStart = s.node.rxBa.winStart) ∧
    (∃ s s', session.run (Session.start 1 0 0 64) [.msdu (ccmpMpdu 0 0 5 (by decide)),
        .msdu (ccmpMpdu 1 2 3 (by decide))] = some s ∧
      session.step s .timeout = some s' ∧ s.node.active ∧ s'.node.active ∧
      s.node.timerPending ∧ FirstComplete s.node.rxBa 1 ∧ s.node.rxBa.winStart = 1 ∧
      s'.node.rxBa.winStart = 3 ∧ s'.delivered = s.delivered ∧
      s'.freed = s.freed ++ [ccmpMpdu 1 2 3 (by decide)]) := by
  constructor
  · exact Machine.exists_run_step (by decide +kernel)
  · exact Machine.exists_run_step (by decide +kernel)

end W132d.Reorder
