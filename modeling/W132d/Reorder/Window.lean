import W132d.Reorder.Ring

/-!
# The window of a session

A session keeps its window: its limit is `winSize - 1` after its start, the ring
holds MPDUs of the window only, each in its own slot, and what goes up goes up in
sequence. Here is what the functions that process an MSDU do to the window.

* `Window`: the invariant, with the extent `t` of what is buffered;
* `TailAt`: `winTail` is at the end of that extent, which makes the timer find
  everything. It stays there as long as every MSDU past the window compares as
  no earlier than `winTail` (`PassesTail`);
* `sendOrderMsdu_advanced`, `reorderMsdu_advanced`, `reorderActive_advanced`: an
  MSDU keeps the window, which moves over what goes up.

Sequence numbers are compared in half of their space, and not symmetrically: of
two numbers at a distance of exactly 2048, the smaller one is the later.

How an MSDU is processed: if it is past the window, this moves, so that the MSDU is the last one in
it, and what was left behind is sent (`makeRoom_moved`). The MSDU is then put into its slot
(`insertMsdu_window`), and if it is the one at the start of the window, all complete MPDUs from
there on are sent. Each of these keeps `Window` with another extent, and the lemmas are composed by
the extents: `Moved` (`W132d.Reorder.Ring`) for what is sent, and `Advanced` for a whole step.

What `TailAt` needs is more than the window: an MSDU past the window becomes `winTail` only if it
compares as later than that. As the comparison is by half of the sequence space, this is not so for
an MSDU that is too far ahead.
-/

namespace W132d.Reorder

/-! ## The invariant -/

/-- The window of a session, with MPDUs buffered at the offsets below `t`. -/
structure Window (hist : List Skb) (d : RxBaNodeDesc) (t : ℕ) : Prop where
  start_lt : d.winStart < 4096
  limit : d.winLimit = seqnoAdd d.winStart (d.winSize - 1)
  size_pos : 1 ≤ d.winSize
  size_le : d.winSize ≤ 1024
  size_slots : d.winSize ≤ d.slots
  extent_le : t ≤ d.winSize
  buffered : Buffered hist d d.winStart 0 t

/-- `winTail` is the last of the `t` sequence numbers from the start of the window. -/
def TailAt (d : RxBaNodeDesc) (t : ℕ) : Prop := d.winTail = (d.winStart + t + 4095) % 4096

/-- An MSDU past the window compares as no earlier than `winTail`. -/
def PassesTail (d : RxBaNodeDesc) (m : RxMsduDesc) : Prop :=
  seqnoGeq m.seqNum d.winStart → ¬seqnoLeq m.seqNum d.winLimit → seqnoGeq m.seqNum d.winTail

namespace Window

variable {hist hist' : List Skb} {d d' : RxBaNodeDesc} {out : Out} {t k : ℕ}

theorem mono_hist (h : Window hist d t) (hsub : hist.Sublist hist') : Window hist' d t :=
  { h with buffered := h.buffered.mono_hist hsub }

theorem of_moved (h : Window hist d t) (hm : Moved hist t k d d' out) : Window hist d' (t - k) where
  start_lt := by
    rw [hm.winStart]
    exact Nat.mod_lt _ (by decide)
  limit := hm.winLimit
  size_pos := by
    rw [hm.winSize]
    exact h.size_pos
  size_le := by
    rw [hm.winSize]
    exact h.size_le
  size_slots := by
    rw [hm.winSize, hm.slots]
    exact h.size_slots
  extent_le := by
    rw [hm.winSize]
    exact (Nat.sub_le _ _).trans h.extent_le
  buffered := hm.buffered

/-- The window of another ring, when it is the same one. -/
theorem of_same {t' : ℕ} (h : Window hist d t) (hw : SameWindow d d') (hext : t' ≤ d.winSize)
    (hb : Buffered hist' d' d.winStart 0 t') : Window hist' d' t' where
  start_lt := by
    rw [hw.winStart]
    exact h.start_lt
  limit := by
    rw [hw.winLimit, hw.winStart, hw.winSize]
    exact h.limit
  size_pos := by
    rw [hw.winSize]
    exact h.size_pos
  size_le := by
    rw [hw.winSize]
    exact h.size_le
  size_slots := by
    rw [hw.winSize, hw.slots]
    exact h.size_slots
  extent_le := by
    rw [hw.winSize]
    exact hext
  buffered := by
    rw [hw.winStart]
    exact hb

theorem setTail (h : Window hist d t) (seqNum : ℕ) : Window hist { d with winTail := seqNum } t :=
  { h with buffered := h.buffered.congr rfl rfl rfl rfl }

/-- The window that does not move. -/
theorem moved_zero (h : Window hist d t) : Moved hist t 0 d d {} :=
  ⟨(Nat.mod_eq_of_lt h.start_lt).symm, h.limit, rfl, rfl, rfl, rfl, le_rfl, h.buffered, .nil, rfl⟩

end Window

theorem TailAt.of_moved {hist : List Skb} {d d' : RxBaNodeDesc} {out : Out} {t k : ℕ}
    (h : TailAt d t) (hm : Moved hist t k d d' out) (hk : k ≤ t) : TailAt d' (t - k) := by
  rw [TailAt] at h
  rw [TailAt, hm.winTail, hm.winStart, h]
  omega

/-! ## Comparing with the window -/

section

variable {hist : List Skb} {d : RxBaNodeDesc} {t : ℕ} {s : ℕ}

theorem seqnoGeq_iff {a b : ℕ} (ha : a < 4096) (hb : b < 4096) :
    seqnoGeq a b ↔ seqnoSub a b < 2048 ∨ (seqnoSub a b = 2048 ∧ a < b) := seqnoLeq_iff hb ha

/-- A sequence number no earlier than the window and no later than its limit is
    in the window. -/
theorem Window.seqnoLeq_limit (h : Window hist d t) (hs : s < 4096) (hgeq : seqnoGeq s d.winStart) :
    seqnoLeq s d.winLimit ↔ seqnoSub s d.winStart < d.winSize := by
  have hl : d.winLimit < 4096 := by
    rw [h.limit]
    exact seqnoAdd_lt _ _
  have h₁ := h.start_lt
  have h₂ := h.size_pos
  have h₃ := h.size_le
  have h₄ := h.limit
  rw [seqnoGeq_iff hs h₁] at hgeq
  rw [seqnoLeq_iff hs hl]
  unfold seqnoSub seqnoAdd at *
  omega

theorem Window.seqnoSub_le (h : Window hist d t) (hs : s < 4096) (hgeq : seqnoGeq s d.winStart) :
    seqnoSub s d.winStart ≤ 2048 := by
  rcases (seqnoGeq_iff hs h.start_lt).1 hgeq with hlt | ⟨heq, -⟩ <;> omega

end

/-! ## A step -/

section

variable {hist : List Skb} {d : RxBaNodeDesc} {t : ℕ} {m : RxMsduDesc} {skb : Option Skb}

/-- Making room for an MSDU that is no earlier than the window: it is in the window
    that is left, and if the window moved, after all that is buffered. -/
theorem makeRoom_moved (h : Window hist d t) (hgeq : seqnoGeq m.seqNum d.winStart) :
    let r := makeRoom d m.seqNum
    ∃ k o, m.seqNum = (d.winStart + (k + o)) % 4096 ∧ o < d.winSize ∧ k + o ≤ 2048 ∧
      Moved hist t k d r.1 r.2 ∧
      (seqnoLeq m.seqNum d.winLimit ∧ k = 0 ∧ r = (d, {}) ∨
        ¬seqnoLeq m.seqNum d.winLimit ∧ d.winSize ≤ k + o) := by
  intro r
  have hs : m.seqNum < 4096 := m.seqNum_lt
  have hsum : (d.winStart + seqnoSub m.seqNum d.winStart) % 4096 = m.seqNum := add_seqnoSub hs
  have hle := h.seqnoSub_le hs hgeq
  have hlim := h.seqnoLeq_limit hs hgeq
  set o := seqnoSub m.seqNum d.winStart
  by_cases hin : seqnoLeq m.seqNum d.winLimit
  · -- In the window, which stays where it is.
    have hr : r = (d, {}) := if_neg (by simp [hin])
    rw [hr]
    refine ⟨0, o, by rw [Nat.zero_add, hsum], hlim.1 hin, by omega, h.moved_zero, ?_⟩
    exact .inl ⟨hin, rfl, rfl⟩
  · -- Past the window, whose new end it becomes, unless the start is complete then.
    have hge : d.winSize ≤ o := not_lt.1 fun hlt => hin (hlim.2 hlt)
    have hr : r = greaterThanSeqhi d m.seqNum := if_pos (by simp [hin])
    have h₁ := h.size_pos
    have h₂ := h.extent_le
    have hpos :
        seqnoSub (seqnoSub m.seqNum (d.winSize - 1) : ℕ) d.winStart = o - (d.winSize - 1) := by
      simp only [o, seqnoSub] at *
      omega
    obtain ⟨k, hk, hk', hm, -⟩ := moveWindow_moved h.buffered h.start_lt
      (seqnoSub_lt m.seqNum (d.winSize - 1))
    rw [hpos] at hk hk'
    rw [hr]
    refine ⟨k, o - k, ?_, by omega, by omega, hm, .inr ⟨hin, by omega⟩⟩
    rw [show k + (o - k) = o by omega, hsum]

/-- A step took the ring `d`, with MPDUs at the offsets below `t`, to `d'`: the
    window moved on by `k`, and what went up is in order. -/
structure Advanced (hist : List Skb) (k t' : ℕ) (d d' : RxBaNodeDesc) (out : Out) : Prop where
  window : Window hist d' t'
  winStart : d'.winStart = (d.winStart + k) % 4096
  lt : k < 4096
  inOrder : InOrder hist d.winStart 0 k out.up
  oob : out.oob = false

/-- Comparing with `winTail` finds which end of the extent an MSDU of the window is. -/
theorem TailAt.seqnoGeq_iff (ht : TailAt d t) (h : Window hist d t) {o : ℕ}
    (hm : m.seqNum = (d.winStart + o) % 4096) (ho : o < d.winSize) :
    seqnoGeq m.seqNum d.winTail ↔ t ≤ o + 1 := by
  have h₁ := h.size_le
  have h₂ := h.extent_le
  rw [TailAt] at ht
  have hs : m.seqNum < 4096 := m.seqNum_lt
  rw [Reorder.seqnoGeq_iff hs (by omega), ht]
  unfold seqnoSub
  omega

/-- An MSDU past all that is buffered starts its slot. -/
theorem Window.not_occ_of_le (h : Window hist d t) {o : ℕ} (ho : o < d.winSize) (hge : t ≤ o) :
    ¬d.Occ ((d.winStart + o) % d.slots) := fun hocc => by
  have hlt := (h.buffered.within.offset_eq h.buffered.hi_le (ho.trans_le h.size_slots) hocc).2.1
  omega

theorem Window.index_eq (h : Window hist d t) {o : ℕ} (hm : m.seqNum = (d.winStart + o) % 4096) :
    d.index m.seqNum = (d.winStart + o) % d.slots := by
  rw [h.buffered.index_eq, hm, Nat.mod_mod_of_dvd _ h.buffered.dvd]

theorem Window.fits_of_le (h : Window hist d t) {o : ℕ} (hm : m.seqNum = (d.winStart + o) % 4096)
    (ho : o < d.winSize) (hge : t ≤ o) : Fits d m := by
  intro _ hz
  have hzero := h.buffered.zero _ (Nat.mod_lt _ h.buffered.slots_pos) (h.not_occ_of_le ho hge)
  rw [h.index_eq hm, hzero] at hz
  exact absurd hz (by decide)

/-- Putting an MSDU of the window into its slot extends what is buffered to it. A
    refused one was buffered before. -/
theorem insertMsdu_window (h : Window hist d t) {o : ℕ} (hm : m.seqNum = (d.winStart + o) % 4096)
    (ho : o < d.winSize) (hskb : ∀ x ∈ skb, x.desc = m) (hfits : Fits d m) :
    let r := insertMsdu m skb d
    Window (hist ++ skb.toList) r.2.1 (max t (o + 1)) ∧ r.2.2 = {} ∧ SameWindow d r.2.1 ∧
      (r.1 = false → o < t) := by
  intro r
  have hb := h.buffered.extend (le_max_left t (o + 1))
    (max_le h.buffered.hi_le (Nat.succ_le_of_lt (ho.trans_le h.size_slots)))
  obtain ⟨hb', hout, hw, hfail⟩ := insertMsdu_buffered hb
    (lt_of_lt_of_le (Nat.lt_succ_self o) (le_max_right _ _)) hm hskb hfits
  refine ⟨h.of_same hw (max_le h.extent_le ho) hb', hout, hw, fun hr => ?_⟩
  by_contra hge
  exact h.not_occ_of_le ho (not_lt.1 hge) (hfail hr).2

/-- Buffering an MSDU keeps the window, and `winTail` at the end of the extent if
    an MSDU past the window compares as past it. -/
theorem reorderMsdu_advanced (h : Window hist d t) (hskb : ∀ x ∈ skb, x.desc = m)
    (hfits : Fits d m) :
    let r := reorderMsdu m skb d
    ∃ k t', k ≤ 2048 ∧ Advanced (hist ++ skb.toList) k t' d r.2.1 r.2.2 ∧
      (TailAt d t → PassesTail d m → TailAt r.2.1 t') := by
  intro r
  have hsub : hist.Sublist (hist ++ skb.toList) := List.sublist_append_left _ _
  by_cases hgeq : seqnoGeq m.seqNum d.winStart
  swap
  · rw [show r = _ from if_neg hgeq]
    refine ⟨0, t, by omega, ⟨h.mono_hist hsub, ?_, by omega, .nil, rfl⟩, fun ht _ => ht⟩
    rw [Nat.add_zero, Nat.mod_eq_of_lt h.start_lt]
  obtain ⟨k, o, hm, ho, hko, hmv, hcase⟩ := makeRoom_moved h hgeq
  set r₁ := makeRoom d m.seqNum with hr₁
  have hw₁ := h.of_moved hmv
  have hext := h.extent_le
  have hm₁ : m.seqNum = (r₁.1.winStart + o) % 4096 := by
    rw [hm, hmv.winStart, Nat.mod_add_mod, Nat.add_assoc]
  have ho₁ : o < r₁.1.winSize := by rwa [hmv.winSize]
  -- After a move of the window, the slot of the MSDU is empty.
  have hfits₁ : Fits r₁.1 m := by
    rcases hcase with ⟨-, -, hr₁⟩ | ⟨-, hge⟩
    · rwa [hr₁]
    · exact hw₁.fits_of_le hm₁ ho₁ (by omega)
  obtain ⟨hw₂, hout, hsame, hfail⟩ := insertMsdu_window hw₁ hm₁ ho₁ hskb hfits₁
  have hcases := reorderMsdu_cases hr₁.symm (Eq.refl (insertMsdu m skb r₁.1))
  set r₂ := insertMsdu m skb r₁.1
  rw [hout] at hcases
  have hstart : r₂.2.1.winStart = (d.winStart + k) % 4096 := hsame.winStart.trans hmv.winStart
  have htail : r₂.2.1.winTail = d.winTail := hsame.winTail.trans hmv.winTail
  have hup := hmv.inOrder.mono hsub le_rfl
  refine ⟨k, max (t - k) (o + 1), by omega, ?_⟩
  rcases hcases with ⟨hng, -⟩ | ⟨-, -, hg, hr⟩ | ⟨-, -, hg, hr⟩ | ⟨-, hok, hr⟩
  · exact absurd hgeq hng
  · -- The MSDU is the new tail, so nothing is buffered after it.
    rw [show r = _ from hr]
    refine ⟨⟨hw₂.setTail _, hstart, by omega, by simpa using hup, by simpa using hmv.oob⟩, ?_⟩
    intro ht _
    have hle : t ≤ k + o + 1 := by
      rcases hcase with ⟨-, hk, -⟩ | ⟨-, hge⟩
      · rw [hk, Nat.zero_add] at hm ⊢
        exact (ht.seqnoGeq_iff h hm ho).1 (htail ▸ hg)
      · omega
    rw [max_eq_right (by omega)]
    change m.seqNum = (r₂.2.1.winStart + (o + 1) + 4095) % 4096
    rw [hm, hstart]
    omega
  · -- Only an MSDU before the end of the extent leaves the tail.
    rw [show r = _ from hr]
    refine ⟨⟨hw₂, hstart, by omega, by simpa using hup, by simpa using hmv.oob⟩, ?_⟩
    intro ht hpass
    rcases hcase with ⟨-, hk, -⟩ | ⟨hnot, -⟩
    · rw [hk, Nat.zero_add] at hm
      have hlt : ¬t ≤ o + 1 := fun hle => hg (htail ▸ (ht.seqnoGeq_iff h hm ho).2 hle)
      rw [TailAt] at ht ⊢
      rw [htail, hstart, ht, hk, Nat.sub_zero, max_eq_left (by omega)]
      omega
    · exact absurd (htail ▸ hpass hgeq hnot) hg
  · -- A refused MSDU is before the end of the extent, so that the window did not move.
    rw [show r = _ from hr]
    refine ⟨⟨hw₂, hstart, by omega, by simpa using hup, by simpa using hmv.oob⟩, ?_⟩
    intro ht _
    have hlt := hfail hok
    rcases hcase with ⟨-, hk, -⟩ | ⟨-, hge⟩
    · rw [TailAt] at ht ⊢
      rw [htail, hstart, ht, hk, max_eq_left (by omega)]
      omega
    · omega

/-- What goes up at once leaves the ring alone. -/
theorem sendOrderMsdu_frame (m : RxMsduDesc) (skb : Option Skb) (d : RxBaNodeDesc) :
    let r := sendOrderMsdu m skb d
    r.1.winStart = seqnoAdd d.winStart 1 ∧ r.1.winLimit = seqnoAdd d.winLimit 1 ∧
      r.1.winTail = seqnoSub r.1.winStart 1 ∧ r.1.winSize = d.winSize ∧
      r.1.indexMask = d.indexMask ∧ r.1.slots = d.slots ∧ r.1.buffCnt = d.buffCnt ∧
      r.1.reorderBuffer = d.reorderBuffer ∧ r.2.oob = false ∧
      ((r.2.up = skb.toList ∧ r.2.freed = []) ∨ (r.2.up = [] ∧ r.2.freed = skb.toList)) := by
  intro r
  cases skb with
  | none => exact ⟨rfl, rfl, rfl, rfl, rfl, rfl, rfl, rfl, rfl, .inl ⟨rfl, rfl⟩⟩
  | some x =>
    have hf := replayDetection_frame (setBaPktDesc RxBaPkt.zero.desc m) { d with
      winStart := seqnoAdd d.winStart 1, winLimit := seqnoAdd d.winLimit 1,
      winTail := seqnoSub (seqnoAdd d.winStart 1) 1 }
    obtain ⟨hw, hc, hr⟩ := hf
    refine ⟨hw.winStart, hw.winLimit, ?_, hw.winSize, hw.indexMask, hw.slots, hc, hr, ?_⟩
    · rw [show r.1.winStart = _ from hw.winStart]
      exact hw.winTail
    · by_cases hreplay : (replayDetection (setBaPktDesc RxBaPkt.zero.desc m) { d with
          winStart := seqnoAdd d.winStart 1, winLimit := seqnoAdd d.winLimit 1,
          winTail := seqnoSub (seqnoAdd d.winStart 1) 1 }).1
      · rw [show r.2 = _ from if_pos hreplay]
        exact ⟨rfl, .inl ⟨rfl, rfl⟩⟩
      · rw [show r.2 = _ from if_neg hreplay]
        exact ⟨rfl, .inr ⟨rfl, rfl⟩⟩

/-- An MSDU in sequence, with nothing buffered, moves the window by one. -/
theorem sendOrderMsdu_advanced (h : Window hist d t) (hskb : ∀ x ∈ skb, x.desc = m)
    (hseq : m.seqNum = d.winStart) (hcnt : d.buffCnt = 0) :
    Advanced (hist ++ skb.toList) 1 0 d (sendOrderMsdu m skb d).1 (sendOrderMsdu m skb d).2 ∧
      TailAt (sendOrderMsdu m skb d).1 0 := by
  obtain ⟨hstart, hlimit, htail, hsize, hmask, hslots, hcnt', hring, hoob, hup⟩ :=
    sendOrderMsdu_frame m skb d
  set d' := (sendOrderMsdu m skb d).1
  have hlt := h.start_lt
  have hstart' : d'.winStart = (d.winStart + 1) % 4096 := by
    rw [hstart]
    unfold seqnoAdd
    omega
  -- Nothing is buffered, so that the ring is one of any window.
  have hb : Buffered (hist ++ skb.toList) d' d'.winStart 0 0 :=
    ((h.buffered.mono_hist (List.sublist_append_left _ _)).congr hslots hmask hcnt' hring).restart
      (hcnt'.trans hcnt) _
  refine ⟨⟨⟨?_, ?_, ?_, ?_, ?_, Nat.zero_le _, hb⟩, hstart', by decide, ?_, hoob⟩, ?_⟩
  · rw [hstart']
    exact Nat.mod_lt _ (by decide)
  · rw [hlimit, h.limit, hstart, hsize]
    unfold seqnoAdd
    omega
  · rw [hsize]
    exact h.size_pos
  · rw [hsize]
    exact h.size_le
  · rw [hsize, hslots]
    exact h.size_slots
  · -- The MSDU goes up, or is freed as a replay.
    rcases hup with ⟨hup, -⟩ | ⟨hup, -⟩
    · rw [hup]
      refine .single le_rfl Nat.one_pos (fun x hx => ?_) (List.sublist_append_right _ _)
      rw [hskb x (Option.mem_toList.1 hx), hseq, Nat.add_zero, Nat.mod_eq_of_lt hlt]
    · rw [hup]
      exact .nil
  · rw [TailAt, htail]
    unfold seqnoSub
    omega

/-- An MSDU of an active session. -/
theorem reorderActive_advanced {n : RxBaNode} (h : Window hist n.rxBa t)
    (hskb : ∀ x ∈ skb, x.desc = m) (hfits : Fits n.rxBa m) :
    let r := reorderActive m skb n
    ∃ k t', Advanced (hist ++ skb.toList) k t' n.rxBa r.1.rxBa r.2 ∧
      (TailAt n.rxBa t → PassesTail n.rxBa m → TailAt r.1.rxBa t') := by
  intro r
  rcases (reorderActive_cases m skb n).2 with ⟨hseq, hcnt, hd, hout⟩ | ⟨hd, hout⟩ | ⟨hd, hout⟩
  · rw [hd, hout]
    obtain ⟨hadv, htail⟩ := sendOrderMsdu_advanced h hskb hseq hcnt
    exact ⟨1, 0, hadv, fun _ _ => htail⟩
  · rw [hd, hout]
    obtain ⟨k, t', -, hadv, htail⟩ := reorderMsdu_advanced h hskb hfits
    exact ⟨k, t', hadv, htail⟩
  · -- The MSDU completed the start of the window, which moves once more.
    rw [hd, hout]
    obtain ⟨k, t', hk, hadv, htail⟩ := reorderMsdu_advanced h hskb hfits
    obtain ⟨k', hk', hmv, -⟩ := betweenSeqloSeqhi_moved hadv.window.buffered hadv.window.start_lt
    have hext := hadv.window.extent_le
    have hsize := hadv.window.size_le
    refine ⟨k + k', t' - k', ⟨hadv.window.of_moved hmv, ?_, by omega, ?_, ?_⟩, ?_⟩
    · rw [hmv.winStart, hadv.winStart, Nat.mod_add_mod, Nat.add_assoc]
    · exact hadv.inOrder.append (hmv.inOrder.unshift hadv.winStart) (Nat.zero_le _)
        (Nat.le_add_right _ _)
    · rw [Out.append_oob, hadv.oob, hmv.oob, Bool.or_self]
    · exact fun ht hpass => (htail ht hpass).of_moved hmv hk'

end

end W132d.Reorder
