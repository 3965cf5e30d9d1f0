import W132d.Reorder.Session

/-!
# The slots of a ring

What the functions of the reorder engine do to the slots of a ring, whatever the
window: even where the window is not what it is meant to be (e.g., after a second
ADDBA), MSDUs only leave a slot when all of it is sent, and an MSDU is put into
one slot, handed up or freed.

* `Sends`: slots in use are sent, one after the other; all functions that empty
  slots, except the flush, are of this kind;
* `RxBaNodeDesc.held`: the MSDUs in the ring, as a multiset;
* `Counted`: the ring has no more slots in use than `buffCnt`;
* `nodeStep_slots`: a step of a session conserves the MSDUs and keeps the count.

There is no window here, so that what is proved holds of a session in any state. A slot is written
in two ways only: an MSDU is put into it, or all of it is sent. `Sends` is the reflexive and
transitive closure of the second one, and an induction over it tells what is left, what was handed
up, and by how much the count has gone down (`Sends.held`, `Sends.counted`). Each of the loops is
such a sequence, by induction on the number of its turns; which slots it chooses does not matter.

`Counted` is an inequality: the ring has at most as many slots in use as `buffCnt` says. It survives
an ADDBA that moves the window over slots in use.
-/

namespace W132d.Reorder

/-! ## The slots in use -/

namespace RxBaNodeDesc

variable (d : RxBaNodeDesc)

/-- The MSDUs in the ring. -/
def held : Multiset Skb := ∑ i ∈ Finset.range d.slots, ↑(d.reorderBuffer i).skb

/-- The slots that are not blank. -/
def used : Finset ℕ := (Finset.range d.slots).filter fun i => d.reorderBuffer i ≠ .zero

end RxBaNodeDesc

/-- The ring is as large as the mask says, with no more slots in use than counted. -/
structure Counted (d : RxBaNodeDesc) : Prop where
  mask_lt : d.indexMask < d.slots
  card_le : d.used.card ≤ d.buffCnt

section

variable {d d' d'' : RxBaNodeDesc} {out out' : Out} {i : ℕ} {p : RxBaPkt}

/-- Writing a slot exchanges its MSDUs. -/
theorem held_update (hi : i < d.slots) (hslots : d'.slots = d.slots)
    (hring : d'.reorderBuffer = Function.update d.reorderBuffer i p) :
    d'.held + ↑(d.reorderBuffer i).skb = d.held + ↑p.skb := by
  rw [RxBaNodeDesc.held, RxBaNodeDesc.held, hslots, hring]
  exact Cyclic.sum_update (fun pkt : RxBaPkt => (↑pkt.skb : Multiset Skb)) _
    (Finset.mem_range.2 hi) p

/-- What the slots hold depends on the ring. -/
theorem held_congr (hslots : d'.slots = d.slots) (hring : d'.reorderBuffer = d.reorderBuffer) :
    d'.held = d.held := by
  rw [RxBaNodeDesc.held, RxBaNodeDesc.held, hslots, hring]

theorem used_congr (hslots : d'.slots = d.slots) (hring : d'.reorderBuffer = d.reorderBuffer) :
    d'.used = d.used := by
  rw [RxBaNodeDesc.used, RxBaNodeDesc.used, hslots, hring]

/-- Writing a slot uses at most one more. -/
theorem used_update_subset (hslots : d'.slots = d.slots)
    (hring : d'.reorderBuffer = Function.update d.reorderBuffer i p) :
    d'.used ⊆ insert i d.used := by
  intro j hj
  rw [RxBaNodeDesc.used, Finset.mem_filter, hslots, hring] at hj
  rw [Finset.mem_insert, RxBaNodeDesc.used, Finset.mem_filter]
  by_cases hji : j = i
  · exact .inl hji
  · rw [Function.update_of_ne hji] at hj
    exact .inr hj

/-! ## Sending slots -/

/-- Only the window, the PN or the like differ. -/
structure SameRing (d d' : RxBaNodeDesc) : Prop where
  reorderBuffer : d'.reorderBuffer = d.reorderBuffer
  buffCnt : d'.buffCnt = d.buffCnt
  indexMask : d'.indexMask = d.indexMask
  slots : d'.slots = d.slots

/-- Slots that are not blank are sent, one after the other. -/
inductive Sends : RxBaNodeDesc → RxBaNodeDesc → Out → Prop
  | keep {d d' : RxBaNodeDesc} (h : SameRing d d') : Sends d d' {}
  | send {d : RxBaNodeDesc} {i : ℕ} (hi : i < d.slots) (hmask : i ≤ d.indexMask)
      (hcnt : d.buffCnt ≠ 0) (hpkt : d.reorderBuffer i ≠ .zero) :
      Sends d (sendSlot d i).1 (sendSlot d i).2
  | trans {d d' d'' : RxBaNodeDesc} {out out' : Out} (h : Sends d d' out)
      (h' : Sends d' d'' out') : Sends d d'' (out ++ out')

/-- Nothing else matters to the count. -/
theorem SameRing.counted (h : SameRing d d') (hd : Counted d) : Counted d' := by
  refine ⟨?_, ?_⟩
  · rw [h.indexMask, h.slots]
    exact hd.mask_lt
  · rw [used_congr h.slots h.reorderBuffer, h.buffCnt]
    exact hd.card_le

namespace Sends

theorem refl (d : RxBaNodeDesc) : Sends d d {} := .keep ⟨rfl, rfl, rfl, rfl⟩

/-- Sending changes neither the ring's size nor its mask, and counts downwards. -/
theorem frame (h : Sends d d' out) :
    d'.slots = d.slots ∧ d'.indexMask = d.indexMask ∧ d'.buffCnt ≤ d.buffCnt := by
  induction h with
  | keep h => exact ⟨h.slots, h.indexMask, h.buffCnt.le⟩
  | @send d i hi hmask hcnt hpkt =>
    obtain ⟨hw, hc, -⟩ := sendSlot_frame d i
    exact ⟨hw.slots, hw.indexMask, hc ▸ Nat.sub_le _ _⟩
  | trans _ _ ih ih' =>
    exact ⟨ih'.1.trans ih.1, ih'.2.1.trans ih.2.1, ih'.2.2.trans ih.2.2⟩

/-- Only slots up to the mask are sent. -/
theorem kept (h : Sends d d' out) {i : ℕ} (hi : d.indexMask < i) :
    d'.reorderBuffer i = d.reorderBuffer i := by
  induction h with
  | keep h => rw [h.reorderBuffer]
  | @send d j _ hmask _ _ =>
    rw [(sendSlot_frame d j).2.2, Function.update_of_ne (by omega)]
  | trans h _ ih ih' =>
    rw [ih' (by rwa [h.frame.2.1]), ih hi]

/-- What leaves the ring is handed up or freed. -/
theorem held (h : Sends d d' out) : d'.held + ↑out.up + ↑out.freed = d.held := by
  induction h with
  | keep h => simp [held_congr h.slots h.reorderBuffer]
  | @send d i hi hmask hcnt hpkt =>
    obtain ⟨hw, -, hr⟩ := sendSlot_frame d i
    have hsum := held_update hi hw.slots hr
    rw [sendSlot_out]
    split_ifs
    · simpa [RxBaPkt.zero] using hsum
    · simpa [RxBaPkt.zero] using hsum
  | @trans d d' d'' out out' _ _ ih ih' =>
    rw [← ih, ← ih', Out.append_up, Out.append_freed, ← Multiset.coe_add, ← Multiset.coe_add]
    abel

/-- Every slot sent was one of those in use. -/
theorem counted (h : Sends d d' out) (hd : Counted d) : Counted d' := by
  induction h with
  | keep h => exact h.counted hd
  | @send d i hi hmask hcnt hpkt =>
    obtain ⟨hw, hc, hr⟩ := sendSlot_frame d i
    refine ⟨by rw [hw.indexMask, hw.slots]; exact hd.mask_lt, ?_⟩
    have hcard : (sendSlot d i).1.used.card + 1 = d.used.card := by
      rw [RxBaNodeDesc.used, RxBaNodeDesc.used, hw.slots]
      refine Cyclic.card_filter_erase hi hpkt fun j _ => ?_
      rw [hr]
      by_cases hj : j = i
      · simp [hj]
      · simp [hj]
    have hle := hd.card_le
    rw [hc]
    omega
  | trans _ _ ih ih' => exact ih' (ih hd)

end Sends

/-! ## The functions that send -/

/-- A slot with the last MSDU is not empty. -/
theorem ne_zero_of_last (h : (d.reorderBuffer i).desc.last = true) : d.reorderBuffer i ≠ .zero :=
  fun hz => by
    rw [hz] at h
    exact absurd h (by decide)

theorem ne_zero_of_occ (h : d.Occ i) : d.reorderBuffer i ≠ .zero := fun hz => not_occ_of_zero hz h

/-- A slot is read inside of the ring only. -/
theorem access_eq (h : (d.access i).oob = false) : i < d.slots ∧ d.access i = {} := by
  have hi : i < d.slots := by simpa [RxBaNodeDesc.access] using h
  exact ⟨hi, by simp [RxBaNodeDesc.access, hi]⟩

/-- The loop over the MPDUs in order sends them. -/
theorem sendMsduInOrderLoop_sends (n seqNum : ℕ) (d : RxBaNodeDesc)
    (h : (sendMsduInOrderLoop n seqNum d).2.2.oob = false) :
    Sends d (sendMsduInOrderLoop n seqNum d).2.1 (sendMsduInOrderLoop n seqNum d).2.2 := by
  induction n generalizing seqNum d with
  | zero => exact .refl d
  | succ n ih =>
    rw [sendMsduInOrderLoop] at h ⊢
    dsimp only at h ⊢
    split_ifs at h ⊢ with hcnt hlast
    · exact .refl d
    · rw [(access_eq h).2]
      exact .refl d
    · rw [Out.append_oob, Out.append_oob, Bool.or_eq_false_iff, Bool.or_eq_false_iff] at h
      obtain ⟨hi, hacc⟩ := access_eq h.1.1
      rw [hacc]
      exact (Sends.send hi Nat.and_le_right hcnt (ne_zero_of_last (by simpa using hlast))).trans
        (ih _ _ h.2)

theorem sendMsduWithGapLoop_sends (num seqNum : ℕ) (d : RxBaNodeDesc)
    (h : (sendMsduWithGapLoop num seqNum d).2.oob = false) :
    Sends d (sendMsduWithGapLoop num seqNum d).1 (sendMsduWithGapLoop num seqNum d).2 := by
  induction num generalizing seqNum d with
  | zero => exact .refl d
  | succ num ih =>
    rw [sendMsduWithGapLoop] at h ⊢
    dsimp only at h ⊢
    split_ifs at h ⊢ with hcnt hnum
    · exact ih _ _ h
    · -- The slot is read, but there is nothing to send.
      rw [Out.append_oob, Bool.or_eq_false_iff] at h
      rw [(access_eq h.1).2]
      exact (Sends.refl d).trans (ih _ _ h.2)
    · rw [Out.append_oob, Out.append_oob, Bool.or_eq_false_iff, Bool.or_eq_false_iff] at h
      obtain ⟨hi, hacc⟩ := access_eq h.1.1
      rw [hacc]
      exact (Sends.send hi Nat.and_le_right hcnt (ne_zero_of_occ hnum)).trans (ih _ _ h.2)

theorem betweenSeqloSeqhi_sends (h : (betweenSeqloSeqhi d).2.oob = false) :
    Sends d (betweenSeqloSeqhi d).1 (betweenSeqloSeqhi d).2 := by
  have hsends := sendMsduInOrderLoop_sends d.buffCnt d.winStart d h
  have hkeep : SameRing (sendMsduInOrder d).2.1 (betweenSeqloSeqhi d).1 := ⟨rfl, rfl, rfl, rfl⟩
  have hall := hsends.trans (.keep hkeep)
  rwa [Out.append_nil] at hall

theorem moveWindow_sends {pos : ℕ} (h : (moveWindow d pos).2.oob = false) :
    Sends d (moveWindow d pos).1 (moveWindow d pos).2 := by
  obtain ⟨hgap, hbetween⟩ := Bool.or_eq_false_iff.1 h
  have hkeep :
      SameRing (sendMsduWithGap d pos).1 { (sendMsduWithGap d pos).1 with winStart := pos } :=
    ⟨rfl, rfl, rfl, rfl⟩
  have hfirst := (sendMsduWithGapLoop_sends _ _ d hgap).trans (.keep hkeep)
  rw [Out.append_nil] at hfirst
  exact hfirst.trans (betweenSeqloSeqhi_sends hbetween)

theorem makeRoom_sends {seqNum : ℕ} (h : (makeRoom d seqNum).2.oob = false) :
    Sends d (makeRoom d seqNum).1 (makeRoom d seqNum).2 := by
  unfold makeRoom at h ⊢
  split_ifs at h ⊢
  · exact moveWindow_sends h
  · exact .refl d

/-! ## The functions that take an MSDU -/

/-- The ring `d'` has the MSDUs of `d` and `ins`, less those handed up or freed. -/
structure Conserves (ins : List Skb) (d d' : RxBaNodeDesc) (out : Out) : Prop where
  slots : d'.slots = d.slots
  held : d'.held + ↑out.up + ↑out.freed = d.held + ↑ins

/-- What is sent has left the ring. -/
theorem Sends.conserves (h : Sends d d' out) : Conserves [] d d' out :=
  ⟨h.frame.1, by rw [h.held, Multiset.coe_nil, add_zero]⟩

/-- Two steps have the MSDUs of both. -/
theorem Conserves.trans {ins ins' : List Skb} (h : Conserves ins d d' out)
    (h' : Conserves ins' d' d'' out') : Conserves (ins ++ ins') d d'' (out ++ out') := by
  refine ⟨h'.slots.trans h.slots, ?_⟩
  rw [Out.append_up, Out.append_freed, ← Multiset.coe_add, ← Multiset.coe_add,
    ← Multiset.coe_add, ← add_assoc d.held, ← h.held]
  calc d''.held + (↑out.up + ↑out'.up) + (↑out.freed + ↑out'.freed)
      = d''.held + ↑out'.up + ↑out'.freed + (↑out.up + ↑out.freed) := by abel
    _ = d'.held + ↑ins' + (↑out.up + ↑out.freed) := by rw [h'.held]
    _ = d'.held + ↑out.up + ↑out.freed + ↑ins' := by abel

variable {m : RxMsduDesc} {skb : Option Skb}

/-- An MSDU is put into its slot, or left to be freed. -/
theorem insertMsdu_conserves (h : (insertMsdu m skb d).2.2.oob = false) :
    (insertMsdu m skb d).2.2 = {} ∧
      ((insertMsdu m skb d).1 = true ∧
          Conserves skb.toList d (insertMsdu m skb d).2.1 (insertMsdu m skb d).2.2 ∨
        (insertMsdu m skb d).1 = false ∧ (insertMsdu m skb d).2.1 = d) := by
  have hput : ∀ (p : RxBaPkt) (d' : RxBaNodeDesc), d.index m.seqNum < d.slots →
      d'.slots = d.slots →
      d'.reorderBuffer = Function.update d.reorderBuffer (d.index m.seqNum) p →
      p.skb = (d.reorderBuffer (d.index m.seqNum)).skb ++ skb.toList →
      Conserves skb.toList d d' {} := by
    intro p d' hi hslots hring hp
    have hsum := held_update hi hslots hring
    rw [hp, ← Multiset.coe_add, add_comm (↑(d.reorderBuffer _).skb : Multiset Skb), ← add_assoc]
      at hsum
    exact ⟨hslots, by simpa using add_right_cancel hsum⟩
  rcases insertMsdu_cases m skb d with ⟨-, -, heq⟩ | ⟨-, -, heq⟩ | ⟨-, heq⟩
  · rw [heq] at h ⊢
    obtain ⟨hi, hacc⟩ := access_eq h
    rw [hacc]
    exact ⟨rfl, .inl ⟨rfl, hput _ _ hi rfl rfl rfl⟩⟩
  · rw [heq] at h ⊢
    exact ⟨(access_eq h).2, .inr ⟨rfl, rfl⟩⟩
  · rw [heq] at h ⊢
    obtain ⟨hi, hacc⟩ := access_eq h
    rw [hacc]
    exact ⟨rfl, .inl ⟨rfl, hput _ _ hi rfl rfl rfl⟩⟩

/-- Putting an MSDU into a slot uses at most one more, which is counted. -/
theorem insertMsdu_counted (hd : Counted d) (hcnt : d.buffCnt < 2 ^ 16 - 1) :
    Counted (insertMsdu m skb d).2.1 := by
  rcases insertMsdu_cases m skb d with ⟨hocc, -, heq⟩ | ⟨-, -, heq⟩ | ⟨-, heq⟩
  · rw [heq]
    have hsub : (d.setPkt (d.index m.seqNum) ((d.reorderBuffer (d.index m.seqNum)).join m
        skb)).used ⊆ insert (d.index m.seqNum) d.used := used_update_subset rfl rfl
    -- The slot was in use before.
    have hmem : d.index m.seqNum ∈ d.used := by
      rw [RxBaNodeDesc.used, Finset.mem_filter, Finset.mem_range]
      exact ⟨Nat.and_le_right.trans_lt hd.mask_lt, ne_zero_of_occ hocc⟩
    rw [Finset.insert_eq_of_mem hmem] at hsub
    exact ⟨hd.mask_lt, (Finset.card_le_card hsub).trans hd.card_le⟩
  · rw [heq]
    exact hd
  · rw [heq]
    refine ⟨hd.mask_lt, ?_⟩
    have hsub : ((d.setPkt (d.index m.seqNum) ((d.reorderBuffer (d.index m.seqNum)).first m
        skb)).incBuffCnt).used ⊆ insert (d.index m.seqNum) d.used := used_update_subset rfl rfl
    have hle := (Finset.card_le_card hsub).trans (Finset.card_insert_le _ _)
    have hmod : (d.buffCnt + 1) % 2 ^ 16 = d.buffCnt + 1 := Nat.mod_eq_of_lt (by omega)
    change _ ≤ (d.buffCnt + 1) % 2 ^ 16
    rw [hmod]
    exact hle.trans (Nat.succ_le_succ hd.card_le)

/-- An MSDU that leaves the ring alone. -/
theorem SameRing.conserves {ins : List Skb} (h : SameRing d d')
    (hout : (↑out.up : Multiset Skb) + ↑out.freed = ↑ins) : Conserves ins d d' out := by
  refine ⟨h.slots, ?_⟩
  rw [held_congr h.slots h.reorderBuffer, add_assoc, hout]

/-- An MSDU is sent, buffered or freed. -/
theorem reorderMsdu_conserves (h : (reorderMsdu m skb d).2.2.oob = false) :
    Conserves skb.toList d (reorderMsdu m skb d).2.1 (reorderMsdu m skb d).2.2 := by
  have hcases := reorderMsdu_cases (Eq.refl (makeRoom d m.seqNum))
    (Eq.refl (insertMsdu m skb (makeRoom d m.seqNum).1))
  rcases hcases with ⟨-, heq⟩ | ⟨-, hok, -, heq⟩ | ⟨-, hok, -, heq⟩ | ⟨-, hok, heq⟩
  · rw [heq]
    exact SameRing.conserves ⟨rfl, rfl, rfl, rfl⟩ (by simp)
  · rw [heq] at h ⊢
    obtain ⟨hroom, hins⟩ := Bool.or_eq_false_iff.1 h
    obtain ⟨-, ⟨-, hput⟩ | ⟨hno, -⟩⟩ := insertMsdu_conserves hins
    · have hall := (makeRoom_sends hroom).conserves.trans hput
      exact ⟨hall.slots, hall.held⟩
    · exact absurd (hok.symm.trans hno) (by decide)
  · rw [heq] at h ⊢
    obtain ⟨hroom, hins⟩ := Bool.or_eq_false_iff.1 h
    obtain ⟨-, ⟨-, hput⟩ | ⟨hno, -⟩⟩ := insertMsdu_conserves hins
    · exact (makeRoom_sends hroom).conserves.trans hput
    · exact absurd (hok.symm.trans hno) (by decide)
  · rw [heq] at h ⊢
    obtain ⟨hroom, hins⟩ := Bool.or_eq_false_iff.1 (Bool.or_eq_false_iff.1 h).1
    obtain ⟨hout, ⟨hyes, -⟩ | ⟨-, hd⟩⟩ := insertMsdu_conserves hins
    · exact absurd (hok.symm.trans hyes) (by decide)
    · -- The MSDU was refused, and is freed.
      have hfree : Conserves skb.toList (makeRoom d m.seqNum).1 (makeRoom d m.seqNum).1
          { freed := skb.toList } := SameRing.conserves ⟨rfl, rfl, rfl, rfl⟩ (by simp)
      rw [hout, hd, Out.append_nil]
      exact (makeRoom_sends hroom).conserves.trans hfree

theorem reorderMsdu_counted (h : (reorderMsdu m skb d).2.2.oob = false) (hd : Counted d)
    (hcnt : d.buffCnt < 2 ^ 16 - 1) : Counted (reorderMsdu m skb d).2.1 := by
  have hcases := reorderMsdu_cases (Eq.refl (makeRoom d m.seqNum))
    (Eq.refl (insertMsdu m skb (makeRoom d m.seqNum).1))
  have hput : (makeRoom d m.seqNum).2.oob = false →
      Counted (insertMsdu m skb (makeRoom d m.seqNum).1).2.1 := fun hroom =>
    have hs := makeRoom_sends hroom
    insertMsdu_counted (hs.counted hd) (hs.frame.2.2.trans_lt hcnt)
  rcases hcases with ⟨-, heq⟩ | ⟨-, -, -, heq⟩ | ⟨-, -, -, heq⟩ | ⟨-, -, heq⟩
  · rw [heq]
    exact hd
  · rw [heq] at h ⊢
    have hc := hput (Bool.or_eq_false_iff.1 h).1
    exact ⟨hc.mask_lt, hc.card_le⟩
  · rw [heq] at h ⊢
    exact hput (Bool.or_eq_false_iff.1 h).1
  · rw [heq] at h ⊢
    exact hput (Bool.or_eq_false_iff.1 (Bool.or_eq_false_iff.1 h).1).1

/-- The search of the timer takes nothing out of the ring. -/
theorem getFirstSeqnoInBuffLoop_out (fuel seqno : ℕ)
    (h : (getFirstSeqnoInBuffLoop d fuel seqno).2.oob = false) :
    (getFirstSeqnoInBuffLoop d fuel seqno).2 = {} := by
  induction fuel generalizing seqno with
  | zero => rfl
  | succ fuel ih =>
    rw [getFirstSeqnoInBuffLoop] at h ⊢
    dsimp only at h ⊢
    split_ifs at h ⊢
    · exact (access_eq h).2
    · obtain ⟨hacc, hrest⟩ := Bool.or_eq_false_iff.1 h
      rw [(access_eq hacc).2, ih _ hrest]
      rfl
    · rfl

/-! ## A step of a session -/

/-- In an active session, an MSDU is sent, buffered or freed, and the slots stay counted. -/
theorem reorderActive_slots {n : RxBaNode} (h : (reorderActive m skb n).2.oob = false) :
    Conserves skb.toList n.rxBa (reorderActive m skb n).1.rxBa (reorderActive m skb n).2 ∧
      (Counted n.rxBa → n.rxBa.buffCnt < 2 ^ 16 - 1 →
        Counted (reorderActive m skb n).1.rxBa) := by
  rcases (reorderActive_cases m skb n).2 with ⟨-, -, hd, hout⟩ | ⟨hd, hout⟩ | ⟨hd, hout⟩
  · obtain ⟨-, -, -, -, hmask, hslots, hcnt, hring, -, hskb⟩ := sendOrderMsdu_frame m skb n.rxBa
    have hsame : SameRing n.rxBa (sendOrderMsdu m skb n.rxBa).1 := ⟨hring, hcnt, hmask, hslots⟩
    rw [hd, hout]
    refine ⟨hsame.conserves ?_, fun hc _ => hsame.counted hc⟩
    rcases hskb with ⟨hup, hfreed⟩ | ⟨hup, hfreed⟩
    · rw [hup, hfreed, Multiset.coe_nil, add_zero]
    · rw [hup, hfreed, Multiset.coe_nil, zero_add]
  · rw [hout] at h
    rw [hd, hout]
    exact ⟨reorderMsdu_conserves h, reorderMsdu_counted h⟩
  · rw [hout] at h
    rw [hd, hout]
    obtain ⟨hmsdu, hbetween⟩ := Bool.or_eq_false_iff.1 h
    have hsends := betweenSeqloSeqhi_sends hbetween
    have hall := (reorderMsdu_conserves hmsdu).trans hsends.conserves
    rw [List.append_nil] at hall
    exact ⟨hall, fun hc hlt => hsends.counted (reorderMsdu_counted hmsdu hc hlt)⟩

theorem reorderMsduProcess_slots {n : RxBaNode} {r : RxBaNode × Out}
    (h : reorderMsduProcess m skb n = some r) :
    Conserves skb.toList n.rxBa r.1.rxBa r.2 ∧
      (Counted n.rxBa → n.rxBa.buffCnt < 2 ^ 16 - 1 → Counted r.1.rxBa) := by
  by_cases hact : n.active
  · obtain ⟨hoob, hr⟩ := Option.ite_none_left_eq_some.1 ((if_pos hact).symm.trans h)
    rw [← Option.some.inj hr]
    exact reorderActive_slots (Bool.eq_false_iff.2 hoob)
  · cases skb with
    | none => exact absurd ((if_neg hact).symm.trans h) (by simp)
    | some x =>
      rw [← Option.some.inj ((if_neg hact).symm.trans h)]
      exact ⟨SameRing.conserves ⟨rfl, rfl, rfl, rfl⟩ (by simp), fun hc _ => hc⟩

/-- A step of a session conserves the MSDUs, and counts the slots in use unless an
    MSDU comes with `buffCnt` at its maximum. -/
theorem nodeStep_slots {n : RxBaNode} {e : NodeEvent} {r : RxBaNode × Out}
    (h : nodeStep n e = some r) :
    Conserves e.skb?.toList n.rxBa r.1.rxBa r.2 ∧
      (Counted n.rxBa → (e.desc?.isSome → n.rxBa.buffCnt < 2 ^ 16 - 1) → Counted r.1.rxBa) := by
  cases e with
  | msdu skb =>
    obtain ⟨hc, hcount⟩ := reorderMsduProcess_slots h
    exact ⟨hc, fun hn hlt => hcount hn (hlt rfl)⟩
  | filter seqNum =>
    obtain ⟨hc, hcount⟩ := reorderMsduProcess_slots h
    exact ⟨hc, fun hn hlt => hcount hn (hlt rfl)⟩
  | timeout =>
    by_cases hp : n.timerPending
    · obtain ⟨hoob, hr⟩ := Option.ite_none_left_eq_some.1 ((if_pos hp).symm.trans h)
      rw [← Option.some.inj hr]
      have hcases := baReorderTimeout_cases { n with timerPending := false }
      have hrx : ({ n with timerPending := false } : RxBaNode).rxBa = n.rxBa := rfl
      rw [hrx] at hcases
      rcases hcases with ⟨-, hn, hout⟩ | ⟨hd, hout⟩
      · rw [hn, hout]
        exact ⟨SameRing.conserves ⟨rfl, rfl, rfl, rfl⟩ rfl, fun hc _ => hc⟩
      · rw [hout] at hoob
        obtain ⟨hsearch, hmove⟩ := Bool.or_eq_false_iff.1 (Bool.eq_false_iff.2 hoob)
        have hsends := moveWindow_sends hmove
        rw [hd, hout, getFirstSeqnoInBuff, getFirstSeqnoInBuffLoop_out _ _ hsearch]
        exact ⟨hsends.conserves, fun hc _ => hsends.counted hc⟩
    · rw [← Option.some.inj ((if_neg hp).symm.trans h)]
      exact ⟨SameRing.conserves ⟨rfl, rfl, rfl, rfl⟩ rfl, fun hc _ => hc⟩

end

end W132d.Reorder
