import W132d.Machine
import W132d.Reorder.Window

/-!
# Runs of a session

A session set up on a fresh node is a machine: it takes MSDUs, filter events and
timer expiries, in any order. Here are its runs, with a record of the MSDUs that
were received, handed up and freed.

* `nodeStep_window`: a step of an active session keeps its window;
* `Session.Inv.step`: an active session takes every step, and hands up, in order,
  MPDUs of the sequence numbers the step moves the window over;
* `session_window`: along every run, the window is as it is meant to be
  (`WindowOk`) and everything was handed up in sequence.

A slot counts its MSDUs in 16 bits, and a count that wraps to zero shows a slot
in use as an empty one. The runs are those whose events do not wrap a count
(`Session.Counts`), which needs 65536 MSDUs of one MPDU: `window_fails_on_wrap`.

How the theorem is proved: one step of a session is one of its functions, for an MSDU, for a filter
event or for the timer, and each of them has been shown to keep the window and to send in order
(`W132d.Reorder.Window`, `baReorderTimeout_cases`). So the step lemma is `nodeStep_window`, and
`Session.Inv.step` adds the record of what was received: an MSDU that is handed up is one that has
come, and the sequence numbers of what goes up are those that the window has moved over, counted
from the start of the session without wrapping (`InOrder`). The run lemma is an induction on the
events from it (`session_inv`).

The timer is the one function that looks for the first complete MPDU by itself. Its loop goes up to
`winTail`, so that it finds all that is buffered if `TailAt` holds, and may find nothing otherwise;
in both cases the window is kept, but in the second one the session may get stuck
(`W132d.Reorder.Recovery`).
-/

namespace W132d.Reorder

/-! ## The timer -/

section

variable {hist : List Skb} {d : RxBaNodeDesc} {t : ℕ}

/-- The search for a complete MPDU stays in the ring and the sequence space. -/
theorem getFirstSeqnoInBuffLoop_lt (h : Buffered hist d d.winStart 0 t) (fuel : ℕ) {seqno : ℕ}
    (hs : seqno < 4096) :
    (getFirstSeqnoInBuffLoop d fuel seqno).1 < 4096 ∧
      (getFirstSeqnoInBuffLoop d fuel seqno).2 = {} := by
  induction fuel generalizing seqno with
  | zero => exact ⟨hs, rfl⟩
  | succ fuel ih =>
    rw [getFirstSeqnoInBuffLoop]
    dsimp only
    rw [h.access_oob]
    split_ifs
    · exact ⟨hs, rfl⟩
    · obtain ⟨hlt, hout⟩ := ih (seqnoAdd_lt seqno 1)
      rw [hout]
      exact ⟨hlt, rfl⟩
    · exact ⟨hs, rfl⟩

/-- With `winTail` at the end of what is buffered, the search finds the first
    complete MPDU, or the end of what is buffered if there is none. -/
theorem getFirstSeqnoInBuffLoop_tail (h : Window hist d t) (ht : TailAt d t) (fuel : ℕ) {o : ℕ}
    (ho : o ≤ t) (hfuel : t < o + fuel) :
    ∃ num, o ≤ num ∧ num ≤ t ∧
      (getFirstSeqnoInBuffLoop d fuel ((d.winStart + o) % 4096)).1 = (d.winStart + num) % 4096 ∧
      (num < t → (d.reorderBuffer ((d.winStart + num) % d.slots)).desc.last) ∧
      ∀ j, o ≤ j → j < num → ¬(d.reorderBuffer ((d.winStart + j) % d.slots)).desc.last := by
  induction fuel generalizing o with
  | zero => omega
  | succ fuel ih =>
    have hext := h.extent_le
    have hsize := h.size_le
    have hleq : seqnoLeq ((d.winStart + o) % 4096) d.winTail ↔ o < t := by
      rw [seqnoLeq_iff (Nat.mod_lt _ (by decide)) (by rw [ht]; exact Nat.mod_lt _ (by decide)), ht]
      unfold seqnoSub
      omega
    have hidx : d.index ((d.winStart + o) % 4096) = (d.winStart + o) % d.slots := by
      rw [h.buffered.index_eq, Nat.mod_mod_of_dvd _ h.buffered.dvd]
    have hnext : seqnoAdd ((d.winStart + o) % 4096 : ℕ) 1 = (d.winStart + (o + 1)) % 4096 := by
      unfold seqnoAdd
      omega
    rw [getFirstSeqnoInBuffLoop]
    dsimp only
    rw [hidx, hnext]
    -- `winTail` is less than half of the sequence space away, so that the comparison
    -- is the one of the offsets.
    by_cases hlt : o < t
    · rw [if_pos (hleq.2 hlt)]
      by_cases hlast : (d.reorderBuffer ((d.winStart + o) % d.slots)).desc.last
      · rw [if_pos hlast]
        exact ⟨o, le_rfl, ho, rfl, fun _ => hlast, fun j _ _ => by omega⟩
      · rw [if_neg hlast]
        obtain ⟨num, hle, hnum, hpos, hl, hnot⟩ := ih hlt (by omega)
        refine ⟨num, by omega, hnum, hpos, hl, fun j hj hj' => ?_⟩
        rcases Nat.lt_or_ge o j with hoj | hoj
        · exact hnot j hoj hj'
        · rwa [show j = o by omega]
    · rw [if_neg fun hle => hlt (hleq.1 hle)]
      exact ⟨o, le_rfl, ho, rfl, fun h => absurd h hlt, fun j _ _ => by omega⟩

/-- The timer moves the window, to the first complete MPDU or past all that is
    buffered if `winTail` is at its end. -/
theorem moveWindow_timeout (h : Window hist d t) :
    let pos := getFirstSeqnoInBuff d
    ∃ k, k < 4096 ∧ pos.2 = {} ∧ Moved hist t k d (moveWindow d pos.1).1 (moveWindow d pos.1).2 ∧
      (TailAt d t → k ≤ t) := by
  intro pos
  obtain ⟨hlt, hout⟩ := getFirstSeqnoInBuffLoop_lt h.buffered 4096 h.start_lt
  obtain ⟨k, hk, hk', hmv, -⟩ := moveWindow_moved h.buffered h.start_lt hlt
  have hext := h.extent_le
  have hsize := h.size_le
  refine ⟨k, ?_, hout, hmv, fun ht => ?_⟩
  · have := seqnoSub_lt (getFirstSeqnoInBuffLoop d 4096 d.winStart).1 d.winStart
    omega
  · obtain ⟨num, -, hnum, hpos, -⟩ := getFirstSeqnoInBuffLoop_tail h ht 4096 (Nat.zero_le t)
      (by omega)
    rw [Nat.add_zero, Nat.mod_eq_of_lt h.start_lt] at hpos
    rw [hpos, seqnoSub_add (by omega)] at hk'
    omega

end

/-! ## A step of a session -/

/-- The descriptor an event is processed with, if any. -/
def NodeEvent.desc? : NodeEvent → Option RxMsduDesc
  | .msdu skb => some skb.desc
  | .filter seqNum => some (filterDesc seqNum)
  | .timeout => none

/-- The `sk_buff` an event brings, if any. -/
def NodeEvent.skb? : NodeEvent → Option Skb
  | .msdu skb => some skb
  | .filter _ => none
  | .timeout => none

/-- The event does not wrap the 16-bit count of the MSDUs of a slot to zero. -/
def Counts (d : RxBaNodeDesc) (e : NodeEvent) : Prop := ∀ m ∈ e.desc?, Fits d m

instance (d : RxBaNodeDesc) (m : RxMsduDesc) : Decidable (Fits d m) :=
  inferInstanceAs (Decidable (_ → _))

instance (d : RxBaNodeDesc) (e : NodeEvent) : Decidable (Counts d e) :=
  inferInstanceAs (Decidable (∀ m ∈ e.desc?, Fits d m))

/-- The event brings no MSDU past the window that compares as before `winTail`. -/
def KeepsTail (d : RxBaNodeDesc) (e : NodeEvent) : Prop := ∀ m ∈ e.desc?, PassesTail d m

section

variable {hist : List Skb} {n : RxBaNode} {t : ℕ} {e : NodeEvent}

theorem reorderMsduProcess_advanced {m : RxMsduDesc} (skb : Option Skb)
    (h : Window hist n.rxBa t) (hact : n.active) (hskb : ∀ x ∈ skb, x.desc = m)
    (hfits : Fits n.rxBa m) :
    ∃ r, reorderMsduProcess m skb n = some r ∧
      ∃ k t', Advanced (hist ++ skb.toList) k t' n.rxBa r.1.rxBa r.2 ∧
        (TailAt n.rxBa t → PassesTail n.rxBa m → TailAt r.1.rxBa t') := by
  obtain ⟨k, t', hadv, htail⟩ := reorderActive_advanced h hskb hfits
  refine ⟨reorderActive m skb n, ?_, k, t', hadv, htail⟩
  exact (if_pos hact).trans (if_neg (by simp [hadv.oob]))

/-- What a timer expiry does to the ring: nothing, or a move of the window. -/
theorem baReorderTimeout_cases (n : RxBaNode) :
    (¬(n.active ∧ n.rxBa.buffCnt ≠ 0 ∧ n.timerPending = false) ∧
        (baReorderTimeout n).1 = n ∧ (baReorderTimeout n).2 = {}) ∨
      ((baReorderTimeout n).1.rxBa = (moveWindow n.rxBa (getFirstSeqnoInBuff n.rxBa).1).1 ∧
        (baReorderTimeout n).2 = (getFirstSeqnoInBuff n.rxBa).2 ++
          (moveWindow n.rxBa (getFirstSeqnoInBuff n.rxBa).1).2) := by
  unfold baReorderTimeout
  dsimp only
  split_ifs with hfire
  · exact .inr ⟨modReorderTimer_rxBa _, rfl⟩
  · exact .inr ⟨modReorderTimer_rxBa _, rfl⟩
  · refine .inl ⟨fun ⟨hact, hcnt, hp⟩ => hfire ?_, rfl, rfl⟩
    simp [hact, hcnt, hp]

/-- A step of an active session keeps its window, through all paths. -/
theorem nodeStep_window (h : Window hist n.rxBa t) (hact : n.active) (hc : Counts n.rxBa e) :
    ∃ r, nodeStep n e = some r ∧
      ∃ k t', Advanced (hist ++ e.skb?.toList) k t' n.rxBa r.1.rxBa r.2 ∧
        (TailAt n.rxBa t → KeepsTail n.rxBa e → TailAt r.1.rxBa t') := by
  have hstay : n.rxBa.winStart = (n.rxBa.winStart + 0) % 4096 :=
    (Nat.mod_eq_of_lt h.start_lt).symm
  have hnil : hist ++ (none : Option Skb).toList = hist := List.append_nil hist
  cases e with
  | msdu skb =>
    obtain ⟨r, hr, k, t', hadv, htail⟩ := reorderMsduProcess_advanced (some skb) h hact
      (fun x hx => by rw [Option.mem_some.1 hx]) (hc _ rfl)
    exact ⟨r, hr, k, t', hadv, fun ht hk => htail ht (hk _ rfl)⟩
  | filter seqNum =>
    obtain ⟨r, hr, k, t', hadv, htail⟩ := reorderMsduProcess_advanced none h hact
      (fun x hx => absurd hx (Option.not_mem_none x)) (hc _ rfl)
    exact ⟨r, hr, k, t', hadv, fun ht hk => htail ht (hk _ rfl)⟩
  | timeout =>
    have hidle : Advanced hist 0 t n.rxBa n.rxBa {} := ⟨h, hstay, by decide, .nil, rfl⟩
    by_cases hp : n.timerPending
    swap
    · exact ⟨(n, {}), if_neg hp, 0, t, hnil.symm ▸ hidle, fun ht _ => ht⟩
    -- The window the handler finds is the one of the session.
    have hcases := baReorderTimeout_cases { n with timerPending := false }
    set r := baReorderTimeout { n with timerPending := false }
    -- The handler accesses no slot out of bounds, so that the step does not crash.
    have hstep : r.2.oob = false → nodeStep n .timeout = some r := fun hoob =>
      (if_pos hp).trans (if_neg (by rw [hoob]; exact Bool.false_ne_true))
    rcases hcases with ⟨-, hn, hout⟩ | ⟨hd, hout⟩
    · refine ⟨r, hstep (by rw [hout]), 0, t, ?_, fun ht _ => ?_⟩
      · rw [hn, hout, NodeEvent.skb?, hnil]
        exact hidle
      · rw [hn]
        exact ht
    · obtain ⟨k, hk, hpos, hmv, hkt⟩ := moveWindow_timeout h
      have hout' : r.2 = (moveWindow n.rxBa (getFirstSeqnoInBuff n.rxBa).1).2 := by
        rw [hout, hpos]
        rfl
      refine ⟨r, hstep (by rw [hout']; exact hmv.oob), k, t - k, ?_, fun ht _ => ?_⟩
      · rw [hd, hout', NodeEvent.skb?, hnil]
        exact ⟨h.of_moved hmv, hmv.winStart, hk, hmv.inOrder, hmv.oob⟩
      · rw [hd]
        exact ht.of_moved hmv (hkt ht)

/-- A session that is inactive stays so. -/
theorem nodeStep_inactive {r : RxBaNode × Out} (hact : n.active = false)
    (hr : nodeStep n e = some r) : r.1.active = false := by
  have hprocess : ∀ m skb, reorderMsduProcess m skb n = some r → r.1.active = false := by
    intro m skb hr
    have hna : ¬n.active := by
      rw [hact]
      exact Bool.false_ne_true
    cases skb with
    | none => exact absurd ((if_neg hna).symm.trans hr) (by simp)
    | some x =>
      rw [← Option.some.inj ((if_neg hna).symm.trans hr)]
      exact hact
  cases e with
  | msdu skb => exact hprocess _ _ hr
  | filter seqNum => exact hprocess _ _ hr
  | timeout =>
    have hidle : baReorderTimeout { n with timerPending := false } =
        ({ n with timerPending := false }, {}) := if_neg (by simp [hact])
    by_cases hp : n.timerPending
    · rw [nodeStep, if_pos hp, hidle] at hr
      rw [← Option.some.inj hr]
      exact hact
    · rw [nodeStep, if_neg hp] at hr
      rw [← Option.some.inj hr]
      exact hact

end

/-! ## Runs of a session -/

/-- A session with what it has received, handed up and freed, and how far its
    window has moved in all. -/
structure Session where
  node : RxBaNode
  arrived : List Skb
  delivered : List Skb
  freed : List Skb
  advance : ℕ

/-- A session set up by one ADDBA on a fresh node, and activated. -/
def Session.start (staLutIndex tid winStart winSize : ℕ) : Session where
  node := openSession staLutIndex tid winStart winSize
  arrived := []
  delivered := []
  freed := []
  advance := 0

/-- The session after an event. -/
def Session.record (s : Session) (e : NodeEvent) (r : RxBaNode × Out) : Session where
  node := r.1
  arrived := s.arrived ++ e.skb?.toList
  delivered := s.delivered ++ r.2.up
  freed := s.freed ++ r.2.freed
  advance := s.advance + seqnoSub r.1.rxBa.winStart s.node.rxBa.winStart

/-- The sessions, as a machine. -/
def session : Machine Session NodeEvent where
  step s e := (nodeStep s.node e).map (s.record e)

/-- The events that keep the count of the MSDUs of their slot. -/
def Session.Counts (s : Session) (e : NodeEvent) : Prop := Reorder.Counts s.node.rxBa e

instance (s : Session) (e : NodeEvent) : Decidable (s.Counts e) :=
  inferInstanceAs (Decidable (Reorder.Counts s.node.rxBa e))

section

variable {s s' : Session} {e : NodeEvent}

theorem session_step (h : session.step s e = some s') :
    ∃ r, nodeStep s.node e = some r ∧ s' = s.record e r := by
  obtain ⟨r, hr, rfl⟩ := Option.map_eq_some_iff.1 h
  exact ⟨r, hr, rfl⟩

/-- What holds of an active session that started at `winStart`, with MPDUs buffered
    at the offsets below `t`. -/
structure Session.Inv (winStart t : ℕ) (s : Session) : Prop where
  window : Window s.arrived s.node.rxBa t
  start : s.node.rxBa.winStart = (winStart + s.advance) % 4096
  inOrder : InOrder s.arrived winStart 0 s.advance s.delivered

/-- The MSDUs a step hands up are of sequence numbers it moves the window over. -/
def DeliversInOrder (s s' : Session) : Prop :=
  ∃ up, s'.delivered = s.delivered ++ up ∧
    InOrder s'.arrived s.node.rxBa.winStart 0
      (seqnoSub s'.node.rxBa.winStart s.node.rxBa.winStart) up

/-- An active session takes every step, keeping its invariant. -/
theorem Session.Inv.step {winStart t : ℕ} (h : s.Inv winStart t) (hact : s.node.active)
    (hc : s.Counts e) :
    ∃ s', session.step s e = some s' ∧ DeliversInOrder s s' ∧ ∃ t', s'.Inv winStart t' ∧
      (TailAt s.node.rxBa t → KeepsTail s.node.rxBa e → TailAt s'.node.rxBa t') := by
  obtain ⟨r, hr, k, t', hadv, htail⟩ := nodeStep_window h.window hact hc
  have hk : seqnoSub r.1.rxBa.winStart s.node.rxBa.winStart = k := by
    rw [hadv.winStart, seqnoSub_add hadv.lt]
  refine ⟨s.record e r, ?_, ⟨r.2.up, rfl, ?_⟩, t', ⟨hadv.window, ?_, ?_⟩, htail⟩
  · exact congrArg (Option.map (s.record e)) hr
  · rw [Session.record, hk]
    exact hadv.inOrder
  · rw [Session.record, hk, hadv.winStart, h.start, Nat.mod_add_mod, Nat.add_assoc]
  · -- What the step hands up is appended, seen from the start of the session.
    rw [Session.record, hk]
    exact (h.inOrder.mono (List.sublist_append_left _ _) le_rfl).append
      (hadv.inOrder.unshift h.start) (Nat.zero_le _) (Nat.le_add_right _ _)

/-- A session that is active after a step was active before it. -/
theorem active_of_step (h : session.step s e = some s') (hact : s'.node.active) :
    s.node.active := by
  obtain ⟨r, hr, rfl⟩ := session_step h
  by_contra hna
  have hfalse := nodeStep_inactive (Bool.eq_false_iff.2 hna) hr
  exact Bool.false_ne_true (hfalse.symm.trans hact)

end

/-! ## The start of a session -/

/-- Doubling until `size` fits gives the next power of two. -/
theorem getIndexSizeLoop_eq (size j fuel : ℕ) (hfuel : size ≤ 2 ^ (j + fuel)) :
    ∃ k, j ≤ k ∧ getIndexSizeLoop size fuel (2 ^ j) = 2 ^ k ∧ size ≤ 2 ^ k ∧
      (k = j ∨ 2 ^ (k - 1) < size) := by
  induction fuel generalizing j with
  | zero => exact ⟨j, le_rfl, rfl, hfuel, .inl rfl⟩
  | succ fuel ih =>
    rw [getIndexSizeLoop]
    by_cases hgt : size > 2 ^ j
    · rw [if_pos hgt, Nat.shiftLeft_eq, ← pow_add]
      obtain ⟨k, hjk, heq, hle, hmin⟩ := ih (j + 1) (by rwa [Nat.add_assoc, Nat.add_comm 1])
      refine ⟨k, (Nat.le_succ j).trans hjk, heq, hle, .inr ?_⟩
      rcases hmin with rfl | hmin
      · exact hgt
      · exact hmin
    · rw [if_neg hgt]
      exact ⟨j, le_rfl, rfl, not_lt.1 hgt, .inl rfl⟩

/-- The ring for a window of at most 1024 sequence numbers. -/
theorem getIndexSize_eq {winSize : ℕ} (h : winSize ≤ 1024) :
    ∃ k ≤ 12, getIndexSize (2 * winSize) = 2 ^ k ∧ 2 * winSize ≤ 2 ^ k := by
  obtain ⟨k, -, heq, hle, hmin⟩ := getIndexSizeLoop_eq (2 * winSize) 6 32 (by omega)
  refine ⟨k, ?_, heq, hle⟩
  rcases hmin with rfl | hmin
  · decide
  · by_contra hgt
    have : 2 ^ 12 ≤ 2 ^ (k - 1) := Nat.pow_le_pow_right (by decide) (by omega)
    omega

theorem start_inv {staLutIndex tid winStart winSize : ℕ} (hstart : winStart < 4096)
    (hpos : 1 ≤ winSize) (hle : winSize ≤ 1024) :
    (Session.start staLutIndex tid winStart winSize).Inv winStart 0 ∧
      TailAt (Session.start staLutIndex tid winStart winSize).node.rxBa 0 := by
  obtain ⟨k, hk, hpow, hfit⟩ := getIndexSize_eq hle
  set d := (Session.start staLutIndex tid winStart winSize).node.rxBa with hd
  have hslots : d.slots = getIndexSize (2 * winSize) := rfl
  have hnot : ∀ i, ¬d.Occ i := fun i => not_occ_of_zero rfl
  have hb : Buffered [] d d.winStart 0 0 := by
    refine ⟨?_, ⟨k, hk, hslots.trans hpow⟩, Nat.zero_le _, ?_, fun i _ hi => absurd hi (hnot i),
      fun i _ x hx => absurd hx List.not_mem_nil, fun i _ => List.Sublist.refl _, fun i _ _ => rfl⟩
    · have : 0 < 2 ^ k := Nat.two_pow_pos k
      change getIndexSize (2 * winSize) = getIndexSize (2 * winSize) - 1 + 1
      omega
    · rw [RxBaNodeDesc.occupied, Finset.filter_false_of_mem fun i _ => hnot i]
      rfl
  refine ⟨⟨⟨hstart, rfl, hpos, hle, ?_, Nat.zero_le _, hb⟩, ?_, .nil⟩, ?_⟩
  · rw [hslots, hpow]
    change winSize ≤ _
    omega
  · exact (Nat.mod_eq_of_lt hstart).symm
  · change seqnoSub winStart 1 = (winStart + 0 + 4095) % 4096
    unfold seqnoSub
    omega

/-! ## The window along every run -/

/-- The window of a session is as it is meant to be. -/
structure WindowOk (d : RxBaNodeDesc) : Prop where
  limit : d.winLimit = (d.winStart + d.winSize - 1) % 4096
  count : d.buffCnt = d.occupied.card
  slot : ∀ i < d.slots, d.Occ i → ∃ s < 4096, s &&& d.indexMask = i ∧
    seqnoSub s d.winStart < d.winSize ∧ (d.reorderBuffer i).desc.seq = s ∧
    ∀ x ∈ (d.reorderBuffer i).skb, x.desc.seqNum = s
  empty : ∀ i < d.slots, ¬d.Occ i → (d.reorderBuffer i).skb = []

theorem Window.ok {hist : List Skb} {d : RxBaNodeDesc} {t : ℕ} (h : Window hist d t) :
    WindowOk d where
  limit := by
    have hpos := h.size_pos
    rw [h.limit]
    unfold seqnoAdd
    omega
  count := h.buffered.cnt
  slot := fun i hi hocc => by
    obtain ⟨o, -, ho, hslot, hseq⟩ := h.buffered.within i hi hocc
    have hlt : o < 4096 := ho.trans_le (h.extent_le.trans (h.size_le.trans (by decide)))
    refine ⟨(d.winStart + o) % 4096, Nat.mod_lt _ (by decide), ?_, ?_, hseq, fun x hx => ?_⟩
    · change d.index _ = i
      rw [h.buffered.index_eq, Nat.mod_mod_of_dvd _ h.buffered.dvd, hslot]
    · rw [seqnoSub_add hlt]
      exact ho.trans_le h.extent_le
    · exact (h.buffered.seq i hi x hx).trans hseq
  empty := fun i hi hocc => by
    rw [h.buffered.zero i hi hocc]
    rfl

/-- The invariant along every run that keeps the counts. -/
theorem session_inv {staLutIndex tid winStart winSize : ℕ} (hstart : winStart < 4096)
    (hpos : 1 ≤ winSize) (hle : winSize ≤ 1024) {es : List NodeEvent} {s : Session}
    (hc : session.Along Session.Counts (Session.start staLutIndex tid winStart winSize) es)
    (hrun : session.run (Session.start staLutIndex tid winStart winSize) es = some s)
    (hact : s.node.active) : ∃ t, s.Inv winStart t := by
  refine Machine.invariant (I := fun s => s.node.active → ∃ t, s.Inv winStart t) ?_
    (fun _ => ⟨0, (start_inv hstart hpos hle).1⟩) hc hrun hact
  intro s e s' hI hc hstep hact
  -- The session was active before the step, so that its invariant held.
  have hact' := active_of_step hstep hact
  obtain ⟨t, hinv⟩ := hI hact'
  obtain ⟨s'', hstep', -, t', hinv', -⟩ := hinv.step hact' hc
  obtain rfl : s'' = s' := Option.some.inj (hstep'.symm.trans hstep)
  exact ⟨t', hinv'⟩

/-- A session that is active keeps its window, hands MSDUs up in sequence, at every
    step and from its start on, and takes every further step. -/
theorem session_window {staLutIndex tid winStart winSize : ℕ} (hstart : winStart < 4096)
    (hpos : 1 ≤ winSize) (hle : winSize ≤ 1024) {es : List NodeEvent} {s : Session}
    (hc : session.Along Session.Counts (Session.start staLutIndex tid winStart winSize) es)
    (hrun : session.run (Session.start staLutIndex tid winStart winSize) es = some s)
    (hact : s.node.active) :
    WindowOk s.node.rxBa ∧ InOrder s.arrived winStart 0 s.advance s.delivered ∧
      ∀ e, s.Counts e → ∃ s', session.step s e = some s' ∧ DeliversInOrder s s' := by
  obtain ⟨t, hinv⟩ := session_inv hstart hpos hle hc hrun hact
  refine ⟨hinv.window.ok, hinv.inOrder, fun e hc => ?_⟩
  obtain ⟨s', hstep, hdel, -⟩ := hinv.step hact hc
  exact ⟨s', hstep, hdel⟩

/-- An MSDU that is an MPDU of its own. -/
def wholeMpdu (id seqNum : ℕ) : Skb := ⟨id, filterDesc seqNum⟩

/-- A session across the wrap of the sequence space: an early MPDU, the one before
    it, one past the window, and the timer. -/
def wrapEvents : List NodeEvent :=
  [.msdu (wholeMpdu 0 4095), .msdu (wholeMpdu 1 4094), .msdu (wholeMpdu 2 40), .timeout]

theorem session_window_wrap :
    ∃ s, session.run (Session.start 1 0 4094 16) wrapEvents = some s ∧ s.node.active ∧
      WindowOk s.node.rxBa ∧ InOrder s.arrived 4094 0 s.advance s.delivered := by
  obtain ⟨s, hrun, hact⟩ : ∃ s, session.run (Session.start 1 0 4094 16) wrapEvents = some s ∧
      s.node.active := Machine.exists_run (by decide)
  have hwin := session_window (by decide) (by decide) (by decide) (by decide) hrun hact
  exact ⟨s, hrun, hact, hwin.1, hwin.2.1⟩

/-! ## Counts that wrap -/

/-- The MSDUs of an MPDU that never ends: sequence number 0, none of them the last. -/
def endlessDesc : RxMsduDesc := { filterDesc 0 with lastMsduOfMpdu := false }

/-- The first `n` MSDUs of an MPDU that never ends. -/
def endlessMsdus (n : ℕ) : List Skb := (List.range n).map fun id => ⟨id, endlessDesc⟩

/-- The slot of the MPDU with its first `n` MSDUs. -/
def endlessPkt (n : ℕ) : RxBaPkt where
  skb := endlessMsdus n
  desc := { RxBaPkt.zero.desc with msduNum := n % 2 ^ 16 }

/-- The session after them. -/
def endlessNode (n : ℕ) : RxBaNode :=
  let n₀ := openSession 0 0 0 16
  { n₀ with
    rxBa := { n₀.rxBa.setPkt 0 (endlessPkt n) with winTail := 0, buffCnt := 1 }
    timerPending := true }

theorem endlessPkt_succ (n : ℕ) :
    (endlessPkt n).join endlessDesc (some ⟨n, endlessDesc⟩) = endlessPkt (n + 1) := by
  have hskb : endlessMsdus (n + 1) = endlessMsdus n ++ [⟨n, endlessDesc⟩] := by
    rw [endlessMsdus, List.range_succ, List.map_append]
    rfl
  rw [endlessPkt, endlessPkt, hskb, RxBaPkt.join, Nat.mod_add_mod]
  rfl

theorem setPkt_endless (n : ℕ) :
    (endlessNode n).rxBa.setPkt 0 (endlessPkt (n + 1)) = (endlessNode (n + 1)).rxBa := by
  simp only [endlessNode, RxBaNodeDesc.setPkt, Function.update_idem]

theorem nodeStep_endless {n : ℕ} (hn : n % 2 ^ 16 ≠ 0) :
    nodeStep (endlessNode n) (.msdu ⟨n, endlessDesc⟩) = some (endlessNode (n + 1), {}) := by
  have hins : insertMsdu endlessDesc (some ⟨n, endlessDesc⟩) (endlessNode n).rxBa =
      (true, (endlessNode (n + 1)).rxBa, {}) := by
    have hidx : (endlessNode n).rxBa.index endlessDesc.seqNum = 0 := Nat.zero_and _
    have hpkt : (endlessNode n).rxBa.reorderBuffer 0 = endlessPkt n := by
      simp only [endlessNode, RxBaNodeDesc.setPkt, Function.update_self]
    have hcases := insertMsdu_cases endlessDesc (some ⟨n, endlessDesc⟩) (endlessNode n).rxBa
    simp only [RxBaNodeDesc.Occ, hidx, hpkt] at hcases
    -- The MSDU goes on with the MPDU, which neither ends nor changes its PN.
    rcases hcases with ⟨-, -, heq⟩ | ⟨-, hacc, -⟩ | ⟨hocc, -⟩
    · rw [heq, endlessPkt_succ, setPkt_endless]
      rfl
    · exact absurd rfl hacc
    · exact absurd hn hocc
  have hmsdu : reorderMsdu endlessDesc (some ⟨n, endlessDesc⟩) (endlessNode n).rxBa =
      (true, (endlessNode (n + 1)).rxBa, {}) := by
    have hroom : makeRoom (endlessNode n).rxBa endlessDesc.seqNum = ((endlessNode n).rxBa, {}) :=
      rfl
    rcases reorderMsdu_cases hroom hins with ⟨hg, -⟩ | ⟨-, -, -, hr⟩ | ⟨-, -, hg, -⟩ | ⟨-, hg, -⟩
    · exact absurd rfl hg
    · exact hr
    · exact absurd rfl hg
    · exact absurd hg.symm Bool.false_ne_true
  have hact : reorderActive endlessDesc (some ⟨n, endlessDesc⟩) (endlessNode n) =
      (endlessNode (n + 1), {}) := by
    rw [reorderActive, hmsdu]
    rfl
  have hactive : (endlessNode n).active := rfl
  rw [nodeStep, reorderMsduProcess, if_pos hactive, hact]
  rfl

/-- After `n + 1` of them, the session is still active, with one slot counted. -/
theorem run_endless (n : ℕ) (hn : n < 2 ^ 16) :
    ∃ s, session.run (Session.start 0 0 0 16) ((endlessMsdus (n + 1)).map .msdu) = some s ∧
      s.node = endlessNode (n + 1) := by
  induction n with
  | zero => exact ⟨_, rfl, rfl⟩
  | succ n ih =>
    obtain ⟨s, hrun, hs⟩ := ih (by omega)
    have hstep : session.step s (.msdu ⟨n + 1, endlessDesc⟩) =
        some (s.record (.msdu ⟨n + 1, endlessDesc⟩) (endlessNode (n + 1 + 1), {})) := by
      change Option.map _ (nodeStep s.node _) = _
      rw [hs, nodeStep_endless (by omega)]
      rfl
    refine ⟨s.record (.msdu ⟨n + 1, endlessDesc⟩) (endlessNode (n + 1 + 1), {}), ?_, rfl⟩
    rw [endlessMsdus, List.range_succ, List.map_append, List.map_append]
    exact Machine.run_concat hrun hstep

/-- The 65536th MSDU of one MPDU wraps the count of its slot to zero, so that the
    ring counts a slot that none of its slots shows to be in use. -/
theorem window_fails_on_wrap :
    ∃ s, session.run (Session.start 0 0 0 16) ((endlessMsdus (2 ^ 16)).map .msdu) = some s ∧
      s.node.active ∧ ¬WindowOk s.node.rxBa := by
  obtain ⟨s, hrun, hs⟩ := run_endless (2 ^ 16 - 1) (by omega)
  refine ⟨s, hrun, by rw [hs]; rfl, fun hok => ?_⟩
  have hnot : ∀ i, ¬s.node.rxBa.Occ i := fun i => by
    rw [hs]
    by_cases hi : i = 0
    · subst hi
      exact fun hocc => hocc rfl
    · exact fun hocc => (RxBaNodeDesc.occ_setPkt_of_ne hi).1 hocc rfl
  have hcnt := hok.count
  rw [RxBaNodeDesc.occupied, Finset.filter_false_of_mem fun i _ => hnot i, hs] at hcnt
  exact absurd hcnt (by decide)

end W132d.Reorder
