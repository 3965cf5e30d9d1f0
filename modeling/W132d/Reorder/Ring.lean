import W132d.Reorder.Basic

/-!
# The ring of a session

What the functions of the reorder engine do to the ring of a session, as long as
the ring holds what it is meant to hold: MPDUs of a window of sequence numbers,
each in the slot of its own number, all of them counted (`Buffered`). The lists
they hand up are in sequence (`InOrder`).

* `Buffered.sendMsduWithGapLoop`, `Buffered.sendMsduInOrderLoop`: the two loops
  that send MPDUs empty the window from its start, in order;
* `betweenSeqloSeqhi_moved`, `moveWindow_moved`: the window moves on, over what
  is sent;
* `insertMsdu_buffered`: an MSDU is put into its slot of the window.

A ring has as many slots as the mask allows, and a sequence number is in the slot that the mask
yields. As the number of slots divides that of the sequence numbers, the numbers of a window that is
not longer than the ring are in different slots (`Buffered.index_eq`). So a slot is given by its
offset from the start of the window, and all of this module is about offsets, which do not wrap.

A loop over the window is an induction on the number of turns that are left. What it has done so far
is `Released`: the slots up to an offset were sent in order and are empty, and the others are as
they were. The steps of the induction are two, an empty slot (`Released.skip`) and one that is sent
(`Released.send`). Moving the window is one of these loops, or both (`Moved`).

`Buffered` is about the ring alone. That the window of the session is the one of the ring is said in
`W132d.Reorder.Window`.
-/

namespace W132d.Reorder

/-! ## Arithmetic -/

/-- The comparison, by the distance from one number to the other. At exactly half of the
    sequence space, the smaller number is the later one. -/
theorem seqnoLeq_iff {a b : ℕ} (ha : a < 4096) (hb : b < 4096) :
    seqnoLeq a b ↔ seqnoSub b a < 2048 ∨ (seqnoSub b a = 2048 ∧ b < a) := by
  unfold seqnoLeq maxSeqnoByTwo seqnoSub
  simp only [Bool.or_eq_true, Bool.and_eq_true, decide_eq_true_eq]
  omega

/-- The distance to a sequence number of the window. -/
theorem seqnoSub_add {w k : ℕ} (hk : k < 4096) : seqnoSub ((w + k) % 4096 : ℕ) w = k := by
  unfold seqnoSub; omega

theorem add_seqnoSub {w s : ℕ} (hs : s < 4096) : (w + seqnoSub s w) % 4096 = s := by
  unfold seqnoSub; omega

/-! ## Frames -/

/-- The window and the shape of the ring are the same. -/
structure SameWindow (d d' : RxBaNodeDesc) : Prop where
  winStart : d'.winStart = d.winStart
  winLimit : d'.winLimit = d.winLimit
  winTail : d'.winTail = d.winTail
  winSize : d'.winSize = d.winSize
  indexMask : d'.indexMask = d.indexMask
  slots : d'.slots = d.slots

/-- The window stays if nothing is done. -/
theorem SameWindow.refl (d : RxBaNodeDesc) : SameWindow d d := ⟨rfl, rfl, rfl, rfl, rfl, rfl⟩

theorem SameWindow.trans {d d' d'' : RxBaNodeDesc} (h : SameWindow d d') (h' : SameWindow d' d'') :
    SameWindow d d'' :=
  ⟨h'.1.trans h.1, h'.2.trans h.2, h'.3.trans h.3, h'.4.trans h.4, h'.5.trans h.5, h'.6.trans h.6⟩

/-- The replay check leaves the window and the ring. -/
theorem replayDetection_frame (p : RxBaPktDesc) (d : RxBaNodeDesc) :
    SameWindow d (replayDetection p d).2 ∧ (replayDetection p d).2.buffCnt = d.buffCnt ∧
      (replayDetection p d).2.reorderBuffer = d.reorderBuffer := by
  unfold replayDetection
  split_ifs <;> exact ⟨⟨rfl, rfl, rfl, rfl, rfl, rfl⟩, rfl, rfl⟩

theorem sendReorderSkb_frame (d : RxBaNodeDesc) (i : ℕ) :
    SameWindow d (sendReorderSkb d i).1 ∧ (sendReorderSkb d i).1.buffCnt = d.buffCnt ∧
      (sendReorderSkb d i).1.reorderBuffer = Function.update d.reorderBuffer i .zero := by
  obtain ⟨hw, hc, hr⟩ := replayDetection_frame (d.reorderBuffer i).desc d
  unfold sendReorderSkb
  by_cases he : (d.reorderBuffer i).skb.isEmpty
  · rw [if_pos he]
    exact ⟨⟨rfl, rfl, rfl, rfl, rfl, rfl⟩, rfl, rfl⟩
  · rw [if_neg he]
    exact ⟨⟨hw.1, hw.2, hw.3, hw.4, hw.5, hw.6⟩, hc, by simp only [RxBaNodeDesc.setPkt, hr]⟩

/-- Sending a slot clears it, and changes nothing else of the ring and the window. -/
theorem sendSlot_frame (d : RxBaNodeDesc) (i : ℕ) :
    SameWindow d (sendSlot d i).1 ∧ (sendSlot d i).1.buffCnt = d.buffCnt - 1 ∧
      (sendSlot d i).1.reorderBuffer = Function.update d.reorderBuffer i .zero := by
  obtain ⟨hw, hc, hr⟩ := sendReorderSkb_frame d i
  exact ⟨⟨hw.1, hw.2, hw.3, hw.4, hw.5, hw.6⟩, congrArg (· - 1) hc, hr⟩

/-- The MSDUs of a slot are sent together: handed up, or freed as a replay. -/
theorem sendSlot_out (d : RxBaNodeDesc) (i : ℕ) :
    (sendSlot d i).2 =
      if (replayDetection (d.reorderBuffer i).desc d).1 then { up := (d.reorderBuffer i).skb }
      else { freed := (d.reorderBuffer i).skb } := by
  unfold sendSlot sendReorderSkb
  by_cases he : (d.reorderBuffer i).skb.isEmpty
  · rw [if_pos he, List.isEmpty_iff.1 he]
    split_ifs <;> rfl
  · rw [if_neg he]

/-! ## In-order delivery -/

/-- The list `up` is made of MPDUs at increasing offsets `lo ≤ o < hi` from `w`,
    the MSDUs of each together and in their order in `hist`. -/
def InOrder (hist : List Skb) (w lo hi : ℕ) (up : List Skb) : Prop :=
  ∃ gs : List (ℕ × List Skb), up = gs.flatMap Prod.snd ∧ gs.Pairwise (fun g g' => g.1 < g'.1) ∧
    ∀ g ∈ gs, lo ≤ g.1 ∧ g.1 < hi ∧ (∀ x ∈ g.2, x.desc.seqNum = (w + g.1) % 4096) ∧
      g.2.Sublist hist

namespace InOrder

variable {hist hist' up up' : List Skb} {w lo mid hi : ℕ}

/-- Where nothing is delivered, everything is in order. -/
theorem nil : InOrder hist w lo hi [] := ⟨[], rfl, .nil, by simp⟩

/-- The MSDUs of one MPDU are in order. -/
theorem single {o : ℕ} (hlo : lo ≤ o) (hhi : o < hi)
    (hup : ∀ x ∈ up, x.desc.seqNum = (w + o) % 4096) (hsub : up.Sublist hist) :
    InOrder hist w lo hi up :=
  ⟨[(o, up)], by simp, List.pairwise_singleton _ _, by simpa using ⟨hlo, hhi, hup, hsub⟩⟩

/-- MPDUs before `mid`, then MPDUs from `mid` on. -/
theorem append (h : InOrder hist w lo mid up) (h' : InOrder hist w mid hi up') (hlm : lo ≤ mid)
    (hmh : mid ≤ hi) : InOrder hist w lo hi (up ++ up') := by
  obtain ⟨gs, rfl, hp, hg⟩ := h
  obtain ⟨gs', rfl, hp', hg'⟩ := h'
  refine ⟨gs ++ gs', List.flatMap_append.symm, List.pairwise_append.2 ⟨hp, hp', ?_⟩, ?_⟩
  · intro g hgs g' hgs'
    exact (hg g hgs).2.1.trans_le (hg' g' hgs').1
  · intro g hgs
    rcases List.mem_append.1 hgs with hgs | hgs
    · obtain ⟨h₁, h₂, h₃⟩ := hg g hgs
      exact ⟨h₁, h₂.trans_le hmh, h₃⟩
    · obtain ⟨h₁, h₂⟩ := hg' g hgs
      exact ⟨hlm.trans h₁, h₂⟩

theorem mono (h : InOrder hist w lo hi up) (hsub : hist.Sublist hist') (hle : hi ≤ mid) :
    InOrder hist' w lo mid up := by
  obtain ⟨gs, hup, hp, hg⟩ := h
  refine ⟨gs, hup, hp, fun g hgs => ?_⟩
  obtain ⟨h₁, h₂, h₃, h₄⟩ := hg g hgs
  exact ⟨h₁, h₂.trans_le hle, h₃, h₄.trans hsub⟩

/-- The same list, seen from an earlier base. -/
theorem unshift {w' k : ℕ} (h : InOrder hist w' lo hi up) (hw : w' = (w + k) % 4096) :
    InOrder hist w (k + lo) (k + hi) up := by
  obtain ⟨gs, rfl, hp, hg⟩ := h
  refine ⟨gs.map fun g => (k + g.1, g.2), ?_, ?_, ?_⟩
  · simp [List.flatMap_map]
  · rw [List.pairwise_map]
    exact hp.imp fun hlt => by simpa using hlt
  · intro g hgs
    obtain ⟨g, hmem, rfl⟩ := List.mem_map.1 hgs
    obtain ⟨h₁, h₂, h₃, h₄⟩ := hg g hmem
    refine ⟨by simpa using h₁, by simpa using h₂, fun x hx => ?_, h₄⟩
    rw [h₃ x hx, hw, Nat.mod_add_mod, Nat.add_assoc]

end InOrder

/-! ## The buffered MPDUs -/

/-- The ring holds MPDUs of the window at the offsets `lo ≤ o < hi` from `w`, each
    in its own slot, with MSDUs from `hist` in order, and counts them. -/
structure Buffered (hist : List Skb) (d : RxBaNodeDesc) (w lo hi : ℕ) : Prop where
  slots_eq : d.slots = d.indexMask + 1
  pow : ∃ k ≤ 12, d.slots = 2 ^ k
  hi_le : hi ≤ d.slots
  cnt : d.buffCnt = d.occupied.card
  within : Cyclic.Within 4096 d.slots w lo hi d.Occ fun i => (d.reorderBuffer i).desc.seq
  seq : ∀ i < d.slots, ∀ x ∈ (d.reorderBuffer i).skb,
    x.desc.seqNum = (d.reorderBuffer i).desc.seq
  sub : ∀ i < d.slots, (d.reorderBuffer i).skb.Sublist hist
  zero : ∀ i < d.slots, ¬d.Occ i → d.reorderBuffer i = .zero

/-- An empty slot has no MPDU. -/
theorem not_occ_of_zero {d : RxBaNodeDesc} {i : ℕ} (h : d.reorderBuffer i = .zero) : ¬d.Occ i := by
  rw [RxBaNodeDesc.Occ, h]
  exact fun hne => hne rfl

namespace Buffered

variable {hist : List Skb} {d : RxBaNodeDesc} {w lo hi : ℕ}

/-- The number of slots divides that of the sequence numbers. -/
theorem dvd (h : Buffered hist d w lo hi) : d.slots ∣ 4096 := by
  obtain ⟨k, hk, hs⟩ := h.pow
  rw [hs]
  exact Nat.pow_dvd_pow 2 hk

/-- There is a slot at least. -/
theorem slots_pos (h : Buffered hist d w lo hi) : 0 < d.slots := by
  rw [h.slots_eq]
  exact Nat.succ_pos _

/-- Masking a sequence number gives its slot. -/
theorem index_eq (h : Buffered hist d w lo hi) (s : ℕ) : d.index s = s % d.slots := by
  obtain ⟨k, _, hs⟩ := h.pow
  have hm : d.indexMask = 2 ^ k - 1 := by rw [← hs, h.slots_eq]; rfl
  rw [RxBaNodeDesc.index, hm, Nat.and_two_pow_sub_one_eq_mod, hs]

/-- The index of a sequence number is inside. -/
theorem index_lt (h : Buffered hist d w lo hi) (s : ℕ) : d.index s < d.slots := by
  rw [h.index_eq]
  exact Nat.mod_lt _ h.slots_pos

theorem access_oob (h : Buffered hist d w lo hi) (s : ℕ) : d.access (d.index s) = {} := by
  simp [RxBaNodeDesc.access, h.index_lt s]

/-- The slot of the sequence number at an offset, which the loops keep in 16 bits. -/
theorem index_add (h : Buffered hist d w lo hi) (o : ℕ) :
    d.index ((w + o) % 2 ^ 16) = (w + o) % d.slots := by
  rw [h.index_eq, Nat.mod_mod_of_dvd _ (h.dvd.trans (by norm_num))]

/-- What is buffered has come, also when more has. -/
theorem mono_hist {hist' : List Skb} (h : Buffered hist d w lo hi) (hsub : hist.Sublist hist') :
    Buffered hist' d w lo hi :=
  { h with sub := fun i hi => (h.sub i hi).trans hsub }

/-- Nothing is counted exactly when nothing is buffered. -/
theorem cnt_eq_zero (h : Buffered hist d w lo hi) :
    d.buffCnt = 0 ↔ ∀ i < d.slots, ¬d.Occ i := by
  rw [h.cnt, Finset.card_eq_zero, RxBaNodeDesc.occupied, Finset.filter_eq_empty_iff]
  simp

/-- A slot marked as complete is in use. -/
theorem occ_of_last (h : Buffered hist d w lo hi) {i : ℕ} (hi' : i < d.slots)
    (hl : (d.reorderBuffer i).desc.last = true) : d.Occ i := by
  by_contra hocc
  rw [h.zero i hi' hocc] at hl
  exact absurd hl (by decide)

/-- Only the ring and its count matter, not where the driver thinks the window is. -/
theorem congr {d' : RxBaNodeDesc} (h : Buffered hist d w lo hi) (hslots : d'.slots = d.slots)
    (hmask : d'.indexMask = d.indexMask) (hcnt : d'.buffCnt = d.buffCnt)
    (hring : d'.reorderBuffer = d.reorderBuffer) : Buffered hist d' w lo hi := by
  have hocc : d'.Occ = d.Occ := by
    funext i
    rw [RxBaNodeDesc.Occ, RxBaNodeDesc.Occ, hring]
  have hcard : d'.occupied = d.occupied := by
    ext i
    simp only [RxBaNodeDesc.occupied, hslots, hocc]
  obtain ⟨hse, hpow, hle, hc, hw, hseq, hsub, hzero⟩ := h
  rw [← hslots] at hse hpow hle hw hseq hsub hzero
  rw [← hring] at hw hseq hsub hzero
  rw [← hocc] at hw hzero
  exact ⟨hse.trans (by rw [hmask]), hpow, hle, hcnt.trans (hc.trans (by rw [hcard])), hw, hseq,
    hsub, hzero⟩

/-- With nothing buffered, the window may start anywhere. -/
theorem restart (h : Buffered hist d w lo hi) (hcnt : d.buffCnt = 0) (w' : ℕ) :
    Buffered hist d w' 0 0 :=
  { h with
    hi_le := Nat.zero_le _
    within := fun i hi hocc => absurd hocc (h.cnt_eq_zero.1 hcnt i hi) }

/-- Writing a slot with an MPDU of the window, or clearing it. -/
theorem setPkt {d' : RxBaNodeDesc} {i : ℕ} {p : RxBaPkt} (h : Buffered hist d w lo hi)
    (hslots : d'.slots = d.slots) (hmask : d'.indexMask = d.indexMask)
    (hring : d'.reorderBuffer = Function.update d.reorderBuffer i p)
    (hcnt : d'.buffCnt = d'.occupied.card)
    (hocc : p.desc.msduNum ≠ 0 →
      ∃ o, lo ≤ o ∧ o < hi ∧ i = (w + o) % d.slots ∧ p.desc.seq = (w + o) % 4096)
    (hseq : ∀ x ∈ p.skb, x.desc.seqNum = p.desc.seq) (hsub : p.skb.Sublist hist)
    (hzero : p.desc.msduNum = 0 → p = .zero) : Buffered hist d' w lo hi := by
  have hself : d'.reorderBuffer i = p := by rw [hring, Function.update_self]
  have hother : ∀ j, j ≠ i → d'.reorderBuffer j = d.reorderBuffer j :=
    fun j hj => by rw [hring, Function.update_of_ne hj]
  -- Each field: the slot that is written by the hypotheses, another one as it was.
  refine ⟨?_, ?_, ?_, hcnt, ?_, ?_, ?_, ?_⟩
  · rw [hslots, hmask]
    exact h.slots_eq
  · rw [hslots]
    exact h.pow
  · rw [hslots]
    exact h.hi_le
  · rw [hslots]
    intro j hj hj'
    rw [RxBaNodeDesc.Occ] at hj'
    by_cases hji : j = i
    · subst hji
      simp only [hself] at hj' ⊢
      exact hocc hj'
    · simp only [hother j hji] at hj' ⊢
      exact h.within j hj hj'
  · intro j hj
    by_cases hji : j = i
    · rw [hji, hself]
      exact hseq
    · rw [hother j hji]
      exact h.seq j (hslots ▸ hj)
  · intro j hj
    by_cases hji : j = i
    · rw [hji, hself]
      exact hsub
    · rw [hother j hji]
      exact h.sub j (hslots ▸ hj)
  · intro j hj hj'
    rw [RxBaNodeDesc.Occ] at hj'
    by_cases hji : j = i
    · rw [hji, hself] at hj' ⊢
      exact hzero (not_not.1 hj')
    · rw [hother j hji] at hj' ⊢
      exact h.zero j (hslots ▸ hj) hj'

/-- Moving on past an empty slot, or past the end of the window. -/
theorem skip (h : Buffered hist d w lo hi) (hemp : lo < d.slots → ¬d.Occ ((w + lo) % d.slots)) :
    Buffered hist d w (lo + 1) hi := by
  refine { h with within := ?_ }
  rcases Nat.lt_or_ge lo d.slots with hlt | hge
  · exact h.within.succ (hemp hlt)
  · exact fun i hi' hocc => absurd hocc (h.within.not_occ (h.hi_le.trans hge) hi')

/-- The window seen from the start of what is left of it. -/
theorem shift (h : Buffered hist d w lo hi) : Buffered hist d ((w + lo) % 4096) 0 (hi - lo) where
  slots_eq := h.slots_eq
  pow := h.pow
  hi_le := (Nat.sub_le _ _).trans h.hi_le
  cnt := h.cnt
  within := by simpa using h.within.shift h.dvd le_rfl
  seq := h.seq
  sub := h.sub
  zero := h.zero

theorem extend (h : Buffered hist d w lo hi) {hi' : ℕ} (hle : hi ≤ hi') (hs : hi' ≤ d.slots) :
    Buffered hist d w lo hi' :=
  { h with hi_le := hs, within := h.within.extend hle }

end Buffered

/-! ## Sending MPDUs from the start of the window -/

/-- From the ring `d`, the MPDUs at the offsets `lo ≤ o < mid` were sent, in
    order, and the ring `d'` is left; the other slots were not touched. -/
structure Released (hist : List Skb) (w lo mid hi : ℕ) (d d' : RxBaNodeDesc) (out : Out) :
    Prop where
  le : lo ≤ mid
  buffered : Buffered hist d' w mid hi
  inOrder : InOrder hist w lo mid out.up
  oob : out.oob = false
  window : SameWindow d d'
  cnt_le : d'.buffCnt ≤ d.buffCnt
  kept : ∀ o, mid ≤ o → o < lo + d.slots →
    d'.reorderBuffer ((w + o) % d.slots) = d.reorderBuffer ((w + o) % d.slots)

namespace Released

variable {hist : List Skb} {w lo mid hi lo' : ℕ} {d d' d'' : RxBaNodeDesc} {out out' : Out}

theorem refl (h : Buffered hist d w lo hi) : Released hist w lo lo hi d d {} :=
  ⟨le_rfl, h, .nil, rfl, .refl d, le_rfl, fun _ _ _ => rfl⟩

theorem trans (h : Released hist w lo mid hi d d' out)
    (h' : Released hist w mid lo' hi d' d'' out') :
    Released hist w lo lo' hi d d'' (out ++ out') := by
  refine ⟨h.le.trans h'.le, h'.buffered, h.inOrder.append h'.inOrder h.le h'.le, ?_,
    h.window.trans h'.window, h'.cnt_le.trans h.cnt_le, fun o ho ho' => ?_⟩
  · rw [Out.append_oob, h.oob, h'.oob, Bool.or_self]
  · have hkept := h'.kept o ho (by have := h.le; rw [h.window.slots]; omega)
    rw [h.window.slots] at hkept
    exact hkept.trans (h.kept o (h'.le.trans ho) ho')

/-- Passing an empty slot. -/
theorem skip (h : Buffered hist d w lo hi) (hemp : ¬d.Occ ((w + lo) % d.slots)) :
    Released hist w lo (lo + 1) hi d d {} :=
  ⟨Nat.le_succ _, h.skip fun _ => hemp, .nil, rfl, .refl d, le_rfl, fun _ _ _ => rfl⟩

/-- Sending the MPDU at the start of the window. -/
theorem send (h : Buffered hist d w lo hi) (hocc : d.Occ ((w + lo) % d.slots)) :
    Released hist w lo (lo + 1) hi d (sendSlot d ((w + lo) % d.slots)).1
      (sendSlot d ((w + lo) % d.slots)).2 := by
  obtain ⟨hw, hc, hr⟩ := sendSlot_frame d ((w + lo) % d.slots)
  have hout := sendSlot_out d ((w + lo) % d.slots)
  set r := sendSlot d ((w + lo) % d.slots)
  have hslot : (w + lo) % d.slots < d.slots := Nat.mod_lt _ h.slots_pos
  -- A slot in use is one of the window, so that the window is not empty.
  have hlo : lo < hi := by
    by_contra hge
    exact h.within.not_occ (not_lt.1 hge) hslot hocc
  obtain ⟨-, -, hseq⟩ := h.within.offset_eq h.hi_le (hlo.trans_le h.hi_le) hocc
  have hself : r.1.reorderBuffer ((w + lo) % d.slots) = .zero := by rw [hr, Function.update_self]
  have hiff : ∀ j < d.slots, r.1.Occ j ↔ j ≠ (w + lo) % d.slots ∧ d.Occ j := fun j _ => by
    by_cases hj : j = (w + lo) % d.slots
    · simp [hj, not_occ_of_zero hself]
    · simp [hj, RxBaNodeDesc.Occ, hr]
  have hcnt : r.1.buffCnt = r.1.occupied.card := by
    have hcard := Cyclic.card_filter_erase hslot hocc hiff
    have hd := h.cnt
    rw [RxBaNodeDesc.occupied] at hd ⊢
    rw [hw.slots, hc]
    omega
  refine ⟨Nat.le_succ _, ?_, ?_, ?_, hw, hc ▸ Nat.sub_le _ _, fun o ho ho' => ?_⟩
  · -- The slot is cleared, and the window moves past it.
    refine (h.setPkt hw.slots hw.indexMask hr hcnt (fun hp => absurd rfl hp) ?_
      (List.nil_sublist _) fun _ => rfl).skip fun _ => ?_
    · exact fun x hx => absurd hx List.not_mem_nil
    · rw [hw.slots]
      exact not_occ_of_zero hself
  · rw [hout]
    split_ifs
    · exact .single le_rfl (Nat.lt_succ_self _)
        (fun x hx => (h.seq _ hslot x hx).trans hseq) (h.sub _ hslot)
    · exact .nil
  · rw [hout]
    split_ifs <;> rfl
  · -- The slots of the later offsets are other ones.
    have hne : (w + o) % d.slots ≠ (w + lo) % d.slots := fun heq => by
      have hadd : (w + lo + (o - lo)) % d.slots = (w + lo + 0) % d.slots := by
        rw [show w + lo + (o - lo) = w + o by omega]
        exact heq
      have := Cyclic.offset_inj (by omega) h.slots_pos hadd
      omega
    rw [hr, Function.update_of_ne hne]

end Released

namespace Buffered

variable {hist : List Skb} {d : RxBaNodeDesc} {w lo hi : ℕ}

/-- Sending with gaps empties the window up to the number of turns. -/
theorem sendMsduWithGapLoop (num : ℕ) {d : RxBaNodeDesc} {lo : ℕ} (h : Buffered hist d w lo hi) :
    Released hist w lo (lo + num) hi d (Reorder.sendMsduWithGapLoop num ((w + lo) % 2 ^ 16) d).1
      (Reorder.sendMsduWithGapLoop num ((w + lo) % 2 ^ 16) d).2 := by
  induction num generalizing d lo with
  | zero => exact .refl h
  | succ num ih =>
    have hnext : ((w + lo) % 2 ^ 16 + 1) % 2 ^ 16 = (w + (lo + 1)) % 2 ^ 16 := by omega
    have hsum : lo + (num + 1) = lo + 1 + num := by omega
    have hacc : d.access ((w + lo) % d.slots) = {} := by rw [← h.index_add, h.access_oob]
    rw [Reorder.sendMsduWithGapLoop, h.index_add, hnext, hsum, hacc]
    by_cases hcnt : d.buffCnt = 0
    · -- Nothing is counted, so that the slot is empty, without the driver reading it.
      have hskip := Released.skip h (h.cnt_eq_zero.1 hcnt _ (Nat.mod_lt _ h.slots_pos))
      rw [if_pos hcnt]
      exact hskip.trans (ih hskip.buffered)
    · rw [if_neg hcnt]
      by_cases hnum : (d.reorderBuffer ((w + lo) % d.slots)).desc.msduNum = 0
      · have hskip := Released.skip h fun hocc => hocc hnum
        rw [if_pos hnum]
        exact hskip.trans (ih hskip.buffered)
      · have hsend := Released.send h hnum
        rw [if_neg hnum]
        exact hsend.trans (ih hsend.buffered)

/-- Sending in order stops at the first slot that is not complete. It gets past
    the first one if that is complete. -/
theorem sendMsduInOrderLoop (n : ℕ) {d : RxBaNodeDesc} {lo : ℕ} (h : Buffered hist d w lo hi)
    (hle : lo ≤ hi) :
    let r := Reorder.sendMsduInOrderLoop n ((w + lo) % 2 ^ 16) d
    ∃ k, r.1 = (w + (lo + k)) % 2 ^ 16 ∧ lo + k ≤ hi ∧
      Released hist w lo (lo + k) hi d r.2.1 r.2.2 ∧
      (n ≠ 0 → (d.reorderBuffer ((w + lo) % d.slots)).desc.last →
        0 < k ∧ r.2.1.buffCnt < d.buffCnt) := by
  -- By induction on the turns, the slots up to `lo` being behind the window.
  induction n generalizing d lo with
  | zero => exact ⟨0, rfl, hle, .refl h, fun hn => absurd rfl hn⟩
  | succ n ih =>
    have hnext : ((w + lo) % 2 ^ 16 + 1) % 2 ^ 16 = (w + (lo + 1)) % 2 ^ 16 := by omega
    have hslot : (w + lo) % d.slots < d.slots := Nat.mod_lt _ h.slots_pos
    have hacc : d.access ((w + lo) % d.slots) = {} := by rw [← h.index_add, h.access_oob]
    rw [Reorder.sendMsduInOrderLoop, h.index_add, hnext, hacc]
    by_cases hcnt : d.buffCnt = 0
    · rw [if_pos hcnt]
      exact ⟨0, rfl, hle, .refl h, fun _ hlast =>
        absurd (h.occ_of_last hslot hlast) (h.cnt_eq_zero.1 hcnt _ hslot)⟩
    · rw [if_neg hcnt]
      by_cases hlast : (d.reorderBuffer ((w + lo) % d.slots)).desc.last
      · -- The slot is complete: it is sent, and the loop goes on behind it.
        have hocc := h.occ_of_last hslot hlast
        have hlt : lo < hi := by
          by_contra hge
          exact h.within.not_occ (not_lt.1 hge) hslot hocc
        have hsend := Released.send h hocc
        obtain ⟨k, hk, hkhi, hr, -⟩ := ih hsend.buffered hlt
        rw [if_neg (by simp [hlast])]
        have hcnt' : (sendSlot d ((w + lo) % d.slots)).1.buffCnt < d.buffCnt := by
          rw [(sendSlot_frame d _).2.1]
          omega
        refine ⟨k + 1, ?_, by omega, ?_, fun _ _ => ⟨k.succ_pos, hr.cnt_le.trans_lt hcnt'⟩⟩
        · rw [show lo + (k + 1) = lo + 1 + k by omega]
          exact hk
        · rw [show lo + (k + 1) = lo + 1 + k by omega]
          exact hsend.trans hr
      · rw [if_pos (by simp [hlast])]
        exact ⟨0, rfl, hle, .refl h, fun _ hl => absurd hl hlast⟩

end Buffered

/-! ## Moving the window -/

/-- The window of `d`, with MPDUs at the offsets below `hi`, has moved on by `k`,
    and what it moved over was sent in order. -/
structure Moved (hist : List Skb) (hi k : ℕ) (d d' : RxBaNodeDesc) (out : Out) : Prop where
  winStart : d'.winStart = (d.winStart + k) % 4096
  winLimit : d'.winLimit = seqnoAdd d'.winStart (d'.winSize - 1)
  winTail : d'.winTail = d.winTail
  winSize : d'.winSize = d.winSize
  indexMask : d'.indexMask = d.indexMask
  slots : d'.slots = d.slots
  cnt_le : d'.buffCnt ≤ d.buffCnt
  buffered : Buffered hist d' d'.winStart 0 (hi - k)
  inOrder : InOrder hist d.winStart 0 k out.up
  oob : out.oob = false

section

variable {hist : List Skb} {d : RxBaNodeDesc} {hi : ℕ}

/-- The window moves past the complete MPDUs at its start, at least past the first
    one if that is complete. -/
theorem betweenSeqloSeqhi_moved (h : Buffered hist d d.winStart 0 hi) (hd : d.winStart < 4096) :
    ∃ k ≤ hi, Moved hist hi k d (betweenSeqloSeqhi d).1 (betweenSeqloSeqhi d).2 ∧
      ((d.reorderBuffer (d.winStart % d.slots)).desc.last →
        0 < k ∧ (betweenSeqloSeqhi d).1.buffCnt < d.buffCnt) := by
  have hmod : d.winStart = (d.winStart + 0) % 2 ^ 16 := by omega
  obtain ⟨k, hk, hle, hr, hlast⟩ := h.sendMsduInOrderLoop d.buffCnt (Nat.zero_le _)
  rw [← hmod] at hk hr
  rw [Nat.zero_add] at hk hle hr
  have hstart : (sendMsduInOrder d).1 = (d.winStart + k) % 4096 := by
    rw [sendMsduInOrder, hk]
    omega
  have hb : Buffered hist (betweenSeqloSeqhi d).1 (sendMsduInOrder d).1 0 (hi - k) := by
    rw [hstart]
    exact hr.buffered.shift.congr rfl rfl rfl rfl
  refine ⟨k, hle, ⟨hstart, rfl, hr.window.winTail, hr.window.winSize, hr.window.indexMask,
    hr.window.slots, hr.cnt_le, hb, hr.inOrder, hr.oob⟩, ?_⟩
  intro hl
  have hslot : d.winStart % d.slots < d.slots := Nat.mod_lt _ h.slots_pos
  rw [← hmod] at hlast
  refine hlast (fun hcnt => ?_) hl
  exact h.cnt_eq_zero.1 hcnt _ hslot (h.occ_of_last hslot hl)

/-- What sending with gaps up to `pos` leaves is a window from `pos` on, whose first slot was
    not touched. -/
theorem sendMsduWithGap_released (h : Buffered hist d d.winStart 0 hi) (hd : d.winStart < 4096)
    {pos : ℕ} (hpos : pos < 4096) :
    let r := sendMsduWithGap d pos
    Released hist d.winStart 0 (seqnoSub pos d.winStart) hi d r.1 r.2 ∧
      Buffered hist { r.1 with winStart := pos } pos 0 (hi - seqnoSub pos d.winStart) ∧
      (seqnoSub pos d.winStart < d.slots →
        r.1.reorderBuffer (pos % d.slots) = d.reorderBuffer (pos % d.slots)) := by
  intro r
  have hmod : d.winStart = (d.winStart + 0) % 2 ^ 16 := by omega
  have hgap := h.sendMsduWithGapLoop (seqnoSub pos d.winStart)
  rw [← hmod, Nat.zero_add] at hgap
  have hstart : (d.winStart + seqnoSub pos d.winStart) % 4096 = pos := add_seqnoSub hpos
  have hs := hgap.buffered.shift
  rw [hstart] at hs
  refine ⟨hgap, hs.congr rfl rfl rfl rfl, fun hlt => ?_⟩
  have hkept := hgap.kept _ le_rfl (by omega)
  rwa [← Nat.mod_mod_of_dvd _ h.dvd, hstart] at hkept

/-- Moving the window to a sequence number sends what is before it, and then
    what is complete from it on. -/
theorem moveWindow_moved (h : Buffered hist d d.winStart 0 hi) (hd : d.winStart < 4096)
    {pos : ℕ} (hpos : pos < 4096) :
    ∃ k, seqnoSub pos d.winStart ≤ k ∧ k ≤ max (seqnoSub pos d.winStart) hi ∧
      Moved hist hi k d (moveWindow d pos).1 (moveWindow d pos).2 ∧
      ((d.reorderBuffer (pos % d.slots)).desc.last → seqnoSub pos d.winStart < d.slots →
        seqnoSub pos d.winStart < k ∧ (moveWindow d pos).1.buffCnt < d.buffCnt) := by
  obtain ⟨hgap, hs, hkept⟩ := sendMsduWithGap_released h hd hpos
  obtain ⟨k, hk, hm, hlast⟩ := betweenSeqloSeqhi_moved hs hpos
  have hw := hgap.window
  have hstart : (d.winStart + seqnoSub pos d.winStart) % 4096 = pos := add_seqnoSub hpos
  refine ⟨seqnoSub pos d.winStart + k, Nat.le_add_right _ _, by omega, ?_, fun hl hlt => ?_⟩
  · -- Both parts of the move, seen from the old start of the window.
    refine ⟨?_, hm.winLimit, hm.winTail.trans hw.winTail, hm.winSize.trans hw.winSize,
      hm.indexMask.trans hw.indexMask, hm.slots.trans hw.slots, hm.cnt_le.trans hgap.cnt_le,
      ?_, ?_, ?_⟩
    · rw [← Nat.add_assoc, ← Nat.mod_add_mod, hstart]
      exact hm.winStart
    · rw [← Nat.sub_sub]
      exact hm.buffered
    · exact hgap.inOrder.append (hm.inOrder.unshift hstart.symm) (Nat.zero_le _)
        (Nat.le_add_right _ _)
    · exact (Bool.or_eq_false_iff).2 ⟨hgap.oob, hm.oob⟩
  · -- The slot of `pos` was not touched by what was sent before it.
    obtain ⟨hpos', hcnt⟩ := hlast (by
      change ((sendMsduWithGap d pos).1.reorderBuffer
        (pos % (sendMsduWithGap d pos).1.slots)).desc.last = true
      rw [hw.slots, hkept hlt]
      exact hl)
    exact ⟨by omega, hcnt.trans_le hgap.cnt_le⟩

/-! ## Buffering -/

/-- Counting an MSDU that goes on with the MPDU of its slot does not wrap the
    16-bit `msduNum` of the slot to zero. -/
def Fits (d : RxBaNodeDesc) (m : RxMsduDesc) : Prop :=
  let pkt := d.reorderBuffer (d.index m.seqNum)
  pkt.accepts m → (pkt.desc.msduNum + 1) % 2 ^ 16 ≠ 0

/-- What `insert_msdu` does: it goes on with an MPDU, refuses the MSDU, or starts
    an MPDU in an empty slot. -/
theorem insertMsdu_cases (m : RxMsduDesc) (skb : Option Skb) (d : RxBaNodeDesc) :
    let i := d.index m.seqNum
    let pkt := d.reorderBuffer i
    (d.Occ i ∧ pkt.accepts m ∧
      insertMsdu m skb d = (true, d.setPkt i (pkt.join m skb), d.access i)) ∨
    (d.Occ i ∧ ¬pkt.accepts m ∧ insertMsdu m skb d = (false, d, d.access i)) ∨
    (¬d.Occ i ∧
      insertMsdu m skb d = (true, (d.setPkt i (pkt.first m skb)).incBuffCnt, d.access i)) := by
  intro i pkt
  by_cases hocc : d.Occ i
  · by_cases hacc : pkt.accepts m
    · exact .inl ⟨hocc, hacc, (if_pos hocc).trans (if_pos hacc)⟩
    · exact .inr (.inl ⟨hocc, hacc, (if_pos hocc).trans (if_neg hacc)⟩)
  · exact .inr (.inr ⟨hocc, if_neg hocc⟩)

/-- An MSDU put into its slot of the window, or refused. -/
theorem insertMsdu_buffered {w o : ℕ} {m : RxMsduDesc} {skb : Option Skb}
    (h : Buffered hist d w 0 hi) (ho : o < hi) (hm : m.seqNum = (w + o) % 4096)
    (hskb : ∀ x ∈ skb, x.desc = m) (hfits : Fits d m) :
    let r := insertMsdu m skb d
    Buffered (hist ++ skb.toList) r.2.1 w 0 hi ∧ r.2.2 = {} ∧ SameWindow d r.2.1 ∧
      (r.1 = false → r.2.1 = d ∧ d.Occ ((w + o) % d.slots)) := by
  intro r
  have hslot : (w + o) % d.slots < d.slots := Nat.mod_lt _ h.slots_pos
  have hidx : d.index m.seqNum = (w + o) % d.slots := by
    rw [h.index_eq, hm, Nat.mod_mod_of_dvd _ h.dvd]
  have hnew : ∀ x ∈ skb.toList, x.desc.seqNum = m.seqNum := fun x hx => by
    rw [hskb x (Option.mem_toList.1 hx)]
  have h' := h.mono_hist (List.sublist_append_left hist skb.toList)
  have hsub : ((d.reorderBuffer ((w + o) % d.slots)).skb ++ skb.toList).Sublist
      (hist ++ skb.toList) := (h.sub _ hslot).append (List.Sublist.refl _)
  have hcases := insertMsdu_cases m skb d
  simp only [h.access_oob, Fits] at hcases hfits
  rw [hidx] at hcases hfits
  rcases hcases with ⟨hocc, hacc, heq⟩ | ⟨hocc, -, heq⟩ | ⟨hocc, heq⟩
  · -- One more MSDU of the MPDU in the slot: the slots in use are the same.
    obtain ⟨-, -, hseq⟩ := h.within.offset_eq h.hi_le (ho.trans_le h.hi_le) hocc
    rw [show r = _ from heq]
    refine ⟨h'.setPkt rfl rfl rfl ?_ (fun _ => ⟨o, Nat.zero_le _, ho, rfl, hseq⟩) ?_ hsub
      fun hz => absurd hz (hfits hacc), rfl, ⟨rfl, rfl, rfl, rfl, rfl, rfl⟩, by simp⟩
    · refine h.cnt.trans (congrArg Finset.card (Finset.filter_congr fun j _ => ?_))
      by_cases hj : j = (w + o) % d.slots
      · subst hj
        exact iff_of_true hocc (RxBaNodeDesc.occ_setPkt_self.2 (hfits hacc))
      · exact (RxBaNodeDesc.occ_setPkt_of_ne hj).symm
    · intro x hx
      simp only [RxBaPkt.accepts, Bool.and_eq_true, decide_eq_true_eq] at hacc
      rcases List.mem_append.1 hx with hx | hx
      · exact h.seq _ hslot x hx
      · exact (hnew x hx).trans hacc.1.1.symm
  · -- Refused: the ring is as it was.
    rw [show r = _ from heq]
    exact ⟨h', rfl, .refl d, fun _ => ⟨rfl, hocc⟩⟩
  · -- One more slot in use; the ring is too small for the count to wrap.
    have hle : d.occupied.card ≤ d.slots := (Finset.card_filter_le _ _).trans (by simp)
    have hmax : d.slots ≤ 4096 := Nat.le_of_dvd (by decide) h.dvd
    have hcnt := h.cnt
    rw [h.zero _ hslot hocc] at hsub heq
    rw [show r = _ from heq]
    refine ⟨h'.setPkt rfl rfl rfl ?_ (fun _ => ⟨o, Nat.zero_le _, ho, rfl, hm⟩) hnew hsub
      fun hz => absurd hz one_ne_zero, rfl, ⟨rfl, rfl, rfl, rfl, rfl, rfl⟩, by simp⟩
    refine Eq.trans ?_ (Cyclic.card_filter_insert hslot hocc fun j _ => ?_).symm
    · change (d.buffCnt + 1) % 2 ^ 16 = d.occupied.card + 1
      omega
    · by_cases hj : j = (w + o) % d.slots
      · subst hj
        exact iff_of_true (RxBaNodeDesc.occ_setPkt_self.2 one_ne_zero) (.inl rfl)
      · exact (RxBaNodeDesc.occ_setPkt_of_ne hj).trans (or_iff_right hj).symm

end

end W132d.Reorder
