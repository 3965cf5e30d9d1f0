import W132d.Machine
import W132d.Rundown

/-!
# Withdrawal of the card

A thread transfers between `sdiohal_card_lock` and `sdiohal_card_unlock`. `xmit_cnt` tells how many
threads there are, and has `SDIOHAL_REMOVE_CARD_VAL` added to it while the card is withdrawn: when
it was removed or not found yet, and while the system is suspended. `sdiohal_remove_card` waits for
the transfers after it has withdrawn the card, and `sdiohal_runtime_put` after it has cleared
`xmit_start`, without which no transfer begins.

* `Card`: the two variables, and where each thread is;
* `card`: any number of threads, one operation on a variable at a time;
* `Serial`: the functions that withdraw the card or bring it back do so one at a time, and none of
  them brings it back while it is removed;
* `Unprobed`: the card is not probed while it is powered down;
* `CardInv`: the invariant, and `step_cardInv`: a step meeting `Serial` keeps it, with what it says
  about powering down if the step meets `Unprobed`;
* `removed_quiet`: nobody transfers from when `sdiohal_remove_card` has waited until it returns;
* `powered_down`: nor from when `sdiohal_runtime_put` has waited, unless the card was withdrawn in
  the meantime;
* `xmitCnt_of_idle`: no transfer, refused or not, leaves anything behind in `xmit_cnt`.
-/

namespace W132d.Sdio

open Rundown

/-- `SDIOHAL_REMOVE_CARD_VAL`. -/
def removeCardVal : ℤ := 0x8000

/-- The functions that use the two variables. -/
inductive CardFunc
  /-- A transfer, between `sdiohal_card_lock` and `sdiohal_card_unlock`. -/
  | transfer
  | removeCard
  | remove
  | suspend
  | resume
  | probe
  | runtimePut
  deriving DecidableEq, Repr

/-- Where a thread is. -/
inductive CardPc
  | idle
  /-- In `sdiohal_card_lock`, counted; `xmit_start` is read next. -/
  | counted
  /-- In `sdiohal_card_lock`, before `atomic_dec`. -/
  | refused
  /-- Between `sdiohal_card_lock` and `sdiohal_card_unlock`. -/
  | locked
  /-- The card exists, before `atomic_add`. -/
  | withdraw (f : CardFunc)
  /-- The card does not exist, before `atomic_sub`. -/
  | restore
  /-- In the loop of `sdiohal_remove_card`. -/
  | drain
  /-- In `sdiohal_remove_card`, after its loop. -/
  | removed
  /-- In `sdiohal_probe`, after `xmit_start` was set. -/
  | probing
  /-- In `sdiohal_runtime_put`, before `xmit_start` is cleared. -/
  | put
  /-- In its loop. -/
  | quiesce
  /-- After it, with the last value of `xmit_cnt`. -/
  | powerDown (xmitCnt : ℤ)
  deriving DecidableEq, Repr

namespace CardPc

/-- The thread is counted in `xmit_cnt`. -/
def user : CardPc → Bool
  | counted | refused | locked => true
  | _ => false

/-- The thread has seen whether the card exists, and is about to change that. -/
def changes : CardPc → Bool
  | withdraw _ | restore => true
  | _ => false

/-- The thread removes the card, and has withdrawn it. -/
def removes : CardPc → Bool
  | drain | removed => true
  | _ => false

/-- The thread powers the card down, and has cleared `xmit_start`. -/
def stops : CardPc → Bool
  | quiesce | powerDown _ => true
  | _ => false

end CardPc

/-- The two variables of `struct sdiohal_data_t`, and where the threads are. -/
@[ext] structure Card (T : Type) where
  xmitCnt : ℤ
  xmitStart : Bool
  pc : T → CardPc

namespace Card

variable {T : Type}

/-- After `sdiohal_init`. -/
def init : Card T where
  xmitCnt := removeCardVal
  xmitStart := false
  pc _ := .idle

/-- `WCN_CARD_EXIST`. -/
def exist (s : Card T) : Bool := decide (s.xmitCnt < removeCardVal)

variable [DecidableEq T] (s : Card T) (t : T)

/-- The thread goes on to another place. -/
def goto (pc : CardPc) : Card T := { s with pc := Function.update s.pc t pc }

/-- A thread starts a function, and takes the first operation of it. -/
def start : CardFunc → Card T
  | .transfer =>
    -- `atomic_inc_return`
    { s with xmitCnt := s.xmitCnt + 1 }.goto t
      (if s.xmitCnt + 1 ≥ removeCardVal then .refused else .counted)
  | .removeCard => if s.exist then s.goto t (.withdraw .removeCard) else s
  | .remove => if s.exist then s.goto t (.withdraw .remove) else s
  | .suspend => if s.exist then s.goto t (.withdraw .suspend) else s
  | .resume => if s.exist then s else s.goto t .restore
  | .probe => { s with xmitStart := true }.goto t .probing
  | .runtimePut => if s.exist then s.goto t .put else s

/-- The next operation of a thread. -/
def operate : CardPc → Card T
  | .idle => s
  | .counted => s.goto t (if s.xmitStart then .locked else .refused)
  | .refused => { s with xmitCnt := s.xmitCnt - 1 }.goto t .idle
  | .locked => { s with xmitCnt := s.xmitCnt - 1 }.goto t .idle
  | .withdraw f =>
    { s with xmitCnt := s.xmitCnt + removeCardVal }.goto t
      (if f = CardFunc.removeCard then .drain else .idle)
  | .restore => { s with xmitCnt := s.xmitCnt - removeCardVal }.goto t .idle
  | .drain => if s.xmitCnt > removeCardVal then s else s.goto t .removed
  | .removed =>
    -- `sdio_unregister_driver` calls `sdiohal_remove`.
    s.goto t (if s.exist then .withdraw .remove else .idle)
  | .probing => s.goto t (if s.exist then .idle else .restore)
  | .put => { s with xmitStart := false }.goto t .quiesce
  | .quiesce =>
    if s.xmitCnt > 0 ∧ s.xmitCnt < removeCardVal then s else s.goto t (.powerDown s.xmitCnt)
  | .powerDown _ => s.goto t .idle

end Card

/-- What happens: a thread that has nothing to do starts a function, or one goes on. -/
inductive CardEvent (T : Type)
  | start (t : T) (f : CardFunc)
  | step (t : T)

/-- The card, as a machine. -/
def card (T : Type) [DecidableEq T] : Machine (Card T) (CardEvent T) where
  step s
    | .start t f => some (if s.pc t = .idle then s.start t f else s)
    | .step t => some (s.operate t (s.pc t))

/-- The function looks whether the card exists in order to change that. -/
def CardFunc.tests : CardFunc → Bool
  | removeCard | remove | suspend | resume => true
  | transfer | probe | runtimePut => false

/-- The next operation looks whether the card exists in order to change that. -/
def CardPc.tests : CardPc → Bool
  | removed | probing => true
  | _ => false

/-- No thread has a property. -/
def Card.Free {T : Type} (s : Card T) (p : CardPc → Bool) : Prop := ∀ t, p (s.pc t) = false

/-- No thread looks whether the card exists when another one is about to change that, and the card
    is not brought back while it is removed. -/
def Serial {T : Type} (s : Card T) : CardEvent T → Prop
  | .start _ f => f.tests = true → s.Free CardPc.changes
  | .step t =>
    ((s.pc t).tests = true → s.Free CardPc.changes) ∧ (s.pc t = .restore → s.Free CardPc.removes)

/-- `sdiohal_probe` does not set `xmit_start` while `sdiohal_runtime_put` waits, or has waited. -/
def Unprobed {T : Type} (s : Card T) : CardEvent T → Prop
  | .start _ f => f = .probe → s.Free CardPc.stops
  | .step _ => True

instance {T : Type} [Fintype T] (s : Card T) (p : CardPc → Bool) : Decidable (s.Free p) :=
  inferInstanceAs (Decidable (∀ t, p (s.pc t) = false))

instance {T : Type} [Fintype T] (s : Card T) : DecidablePred (Serial s)
  | .start _ _ => inferInstanceAs (Decidable (_ → _))
  | .step _ => inferInstanceAs (Decidable (_ ∧ _))

instance {T : Type} [Fintype T] (s : Card T) : DecidablePred (Unprobed s)
  | .start _ _ => inferInstanceAs (Decidable (_ → _))
  | .step _ => inferInstanceAs (Decidable True)

/-! ## The invariant -/

/-- What a thread knows; `P` says that the card is not probed while it is powered down. -/
def CardPc.Knows (P : Prop) (marks : ℤ) (xmitStart : Bool) : CardPc → Prop
  | withdraw _ => marks = 0
  | restore | drain | removed => marks = 1
  | quiesce => P → xmitStart = false
  | powerDown n => (P → xmitStart = false) ∧ (n = 0 ∨ removeCardVal ≤ n)
  | _ => True

/-- A thread that removes the card, or powers it down, and another one that does not use it; two
    threads do not change whether it exists. -/
structure CardPc.Apart (P : Prop) (pc pc' : CardPc) : Prop where
  changes : pc.changes = true → pc'.changes = false
  removed : pc = .removed → pc' ≠ .counted ∧ pc' ≠ .locked
  powerDown : P → ∀ n, pc = .powerDown n → n < removeCardVal → pc' ≠ .locked

/-- The invariant: the card is withdrawn `marks` times. -/
structure CardInv {T : Type} [Fintype T] (P : Prop) (marks : ℤ) (s : Card T) : Prop where
  counts : Counts removeCardVal CardPc.user marks s.xmitCnt s.pc
  once : marks = 0 ∨ marks = 1
  knows : ∀ t, (s.pc t).Knows P marks s.xmitStart
  apart : ∀ t t', t ≠ t' → (s.pc t).Apart P (s.pc t')

namespace CardPc.Knows

variable {P : Prop} {marks : ℤ} {start : Bool} {pc : CardPc}

/-- The variables are not started while a thread powers the card down. -/
theorem started (h : pc.Knows P marks start) (hstops : P → pc.stops = false) :
    pc.Knows P marks true := by
  cases pc with
  | quiesce => exact fun hP => absurd (hstops hP) (by simp [stops])
  | powerDown _ => exact ⟨fun hP => absurd (hstops hP) (by simp [stops]), h.2⟩
  | _ => exact h

theorem stopped (h : pc.Knows P marks start) : pc.Knows P marks false := by
  cases pc with
  | quiesce => exact fun _ => rfl
  | powerDown n => exact ⟨fun _ => rfl, h.2⟩
  | _ => exact h

/-- The card is withdrawn while no other thread changes that. -/
theorem marked (h : pc.Knows P marks start) (hchanges : pc.changes = false) :
    pc.Knows P 1 start := by
  cases pc with
  | withdraw f => exact absurd hchanges (by simp [changes])
  | restore | drain | removed => rfl
  | _ => exact h

/-- The card is brought back while no other thread changes that, or removes it. -/
theorem unmarked (h : pc.Knows P marks start) (hchanges : pc.changes = false)
    (hremoves : pc.removes = false) : pc.Knows P 0 start := by
  cases pc with
  | restore => exact absurd hchanges (by decide)
  | drain | removed => exact absurd hremoves (by decide)
  | withdraw f => rfl
  | _ => exact h

end CardPc.Knows

/-- Nobody is kept away from a thread at such a place, and the thread from nobody. -/
def CardPc.neutral : CardPc → Bool
  | idle | refused | drain | probing | put | quiesce => true
  | _ => false

theorem CardPc.neutral_apart {P : Prop} {pc pc' : CardPc} (h : pc.neutral = true) :
    pc.Apart P pc' ∧ pc'.Apart P pc := by
  constructor
  · constructor
    · intro hc
      cases pc <;> simp [neutral, changes] at h hc
    · rintro rfl
      simp [neutral] at h
    · rintro _ n rfl
      simp [neutral] at h
  · constructor
    · intro _
      cases pc <;> first | rfl | simp [neutral] at h
    · intro _
      constructor <;> rintro rfl <;> simp [neutral] at h
    · rintro _ _ _ _ rfl
      simp [neutral] at h

section

variable {T : Type} [Fintype T] {s s' : Card T} {t : T} {P : Prop} {marks marks' : ℤ} {pc : CardPc}
  {cnt : ℤ} {xmitStart : Bool}

/-- The card exists. -/
theorem CardInv.marks_eq_zero (h : CardInv P marks s) (hlt : s.xmitCnt < removeCardVal) :
    marks = 0 := by
  have hle := h.counts.marks_nonpos (by decide) hlt
  have hmarks := h.once
  omega

/-- The card does not exist. -/
theorem CardInv.marks_eq_one (h : CardInv P marks s) (hT : (Fintype.card T : ℤ) < removeCardVal)
    (hle : removeCardVal ≤ s.xmitCnt) : marks = 1 := by
  have hlt := h.counts.marks_pos hT hle
  have hmarks := h.once
  omega

theorem CardInv.nonneg (h : CardInv P marks s) : 0 ≤ s.xmitCnt := by
  have hle := h.counts.le_count
  rcases h.once with hm | hm <;> rw [hm] at hle <;> simp [removeCardVal] at hle <;> omega

variable [DecidableEq T]

/-- A thread goes on to another place, and may change the variables. -/
theorem CardInv.update (h : CardInv P marks s)
    (hcounts : Counts removeCardVal CardPc.user marks' cnt (Function.update s.pc t pc))
    (hmarks : marks' = 0 ∨ marks' = 1) (hself : pc.Knows P marks' xmitStart)
    (hother : ∀ t', t' ≠ t → (s.pc t').Knows P marks' xmitStart)
    (hapart : ∀ t', t' ≠ t → pc.Apart P (s.pc t') ∧ (s.pc t').Apart P pc) :
    CardInv P marks' ⟨cnt, xmitStart, Function.update s.pc t pc⟩ where
  counts := hcounts
  once := hmarks
  knows t' := by
    dsimp only
    by_cases ht : t' = t
    · rwa [ht, Function.update_self]
    · rw [Function.update_of_ne ht]
      exact hother t' ht
  apart t₁ t₂ hne := by
    dsimp only
    by_cases h₁ : t₁ = t
    · have h₂ : t₂ ≠ t := fun h₂ => hne (h₁.trans h₂.symm)
      rw [h₁, Function.update_self, Function.update_of_ne h₂]
      exact (hapart t₂ h₂).1
    · rw [Function.update_of_ne h₁]
      by_cases h₂ : t₂ = t
      · rw [h₂, Function.update_self]
        exact (hapart t₁ h₁).2
      · rw [Function.update_of_ne h₂]
        exact h.apart t₁ t₂ hne

/-- A thread goes on to another place, and counts itself if it becomes a user, or ceases to be one.
    -/
theorem CardInv.goto (h : CardInv P marks s) (hself : pc.Knows P marks s.xmitStart)
    (hcnt : cnt = s.xmitCnt - (s.pc t).user.toInt + pc.user.toInt)
    (hapart : ∀ t', t' ≠ t → pc.Apart P (s.pc t') ∧ (s.pc t').Apart P pc) :
    CardInv P marks ⟨cnt, s.xmitStart, Function.update s.pc t pc⟩ :=
  h.update (h.counts.update hcnt) h.once hself (fun t' _ => h.knows t') hapart

/-- A thread that has seen that the card exists, while no other one changes that. -/
theorem CardInv.withdraw (h : CardInv P marks s) (hpc : (s.pc t).user = false)
    (hfree : s.Free CardPc.changes) (hexist : s.exist = true) (f : CardFunc) :
    CardInv P marks (s.goto t (.withdraw f)) := by
  refine h.goto (h.marks_eq_zero (of_decide_eq_true hexist)) (by rw [hpc]; simp [CardPc.user]) ?_
  intro t' _
  refine ⟨⟨fun _ => hfree t', by simp, by simp⟩, ?_, by simp, by simp⟩
  intro hc
  exact absurd (hc.symm.trans (hfree t')) (by decide)

/-- A thread that has seen that it does not. -/
theorem CardInv.restore (h : CardInv P marks s) (hT : (Fintype.card T : ℤ) < removeCardVal)
    (hpc : (s.pc t).user = false) (hfree : s.Free CardPc.changes) (hexist : s.exist = false) :
    CardInv P marks (s.goto t .restore) := by
  have hle : removeCardVal ≤ s.xmitCnt := not_lt.1 (of_decide_eq_false hexist)
  refine h.goto (h.marks_eq_one hT hle) (by rw [hpc]; simp [CardPc.user]) ?_
  intro t' _
  refine ⟨⟨fun _ => hfree t', by simp, by simp⟩, ?_, by simp, by simp⟩
  intro hc
  exact absurd (hc.symm.trans (hfree t')) (by decide)

/-- A thread goes on to a place from which nobody is kept away. -/
theorem CardInv.neutral (h : CardInv P marks s) (hn : pc.neutral = true)
    (hself : pc.Knows P marks s.xmitStart)
    (hcnt : cnt = s.xmitCnt - (s.pc t).user.toInt + pc.user.toInt) :
    CardInv P marks ⟨cnt, s.xmitStart, Function.update s.pc t pc⟩ :=
  h.goto hself hcnt fun _ _ => pc.neutral_apart hn

/-- `sdiohal_card_lock`: a thread that is not refused has found that the card exists. -/
theorem CardInv.transfer (h : CardInv P marks s) (ht : s.pc t = .idle) :
    CardInv P marks (s.start t .transfer) := by
  rw [Card.start]
  split_ifs with hlt
  · refine h.neutral rfl trivial ?_
    rw [ht]
    simp [CardPc.user]
  · have hzero : marks = 0 := h.marks_eq_zero (by omega)
    refine h.goto trivial (by rw [ht]; simp [CardPc.user]) fun t' _ => ?_
    refine ⟨⟨by simp [CardPc.changes], by simp, by simp⟩, fun _ => rfl, ?_, by simp⟩
    intro hr
    -- The card would be withdrawn.
    have hone := h.knows t'
    rw [hr, CardPc.Knows, hzero] at hone
    exact absurd hone (by decide)

/-- `xmit_start` is looked at after that. -/
theorem CardInv.counted (h : CardInv P marks s) (ht : s.pc t = .counted) :
    CardInv P marks (s.operate t .counted) := by
  rw [Card.operate]
  split_ifs with hstart
  · refine h.goto trivial (by rw [ht]; simp [CardPc.user]) fun t' hne => ?_
    refine ⟨⟨by simp [CardPc.changes], by simp, by simp⟩, fun _ => rfl, ?_, ?_⟩
    · intro hr
      exact absurd ht ((h.apart t' t hne).removed hr).1
    · intro hP n hn
      have hstop := h.knows t'
      rw [hn, CardPc.Knows, hstart] at hstop
      exact absurd (hstop.1 hP) (by decide)
  · exact h.neutral rfl trivial (by rw [ht]; simp [CardPc.user])

/-- A function starts. -/
theorem CardInv.start (h : CardInv P marks s) (hT : (Fintype.card T : ℤ) < removeCardVal)
    (ht : s.pc t = .idle) {f : CardFunc} (hG : Serial s (.start t f))
    (hP : P → Unprobed s (.start t f)) : CardInv P marks (s.start t f) := by
  have huser : (s.pc t).user = false := by rw [ht]; rfl
  cases f with
  | transfer => exact h.transfer ht
  | removeCard | remove | suspend =>
    rw [Card.start]
    split_ifs with hexist
    · exact h.withdraw huser (hG rfl) hexist _
    · exact h
  | resume =>
    rw [Card.start]
    split_ifs with hexist
    · exact h
    · exact h.restore hT huser (hG rfl) (Bool.not_eq_true _ ▸ hexist)
  | probe =>
    refine h.update (h.counts.update ?_) h.once trivial ?_ fun _ _ => CardPc.neutral_apart rfl
    · rw [huser]
      simp [CardPc.user]
    · intro t' _
      exact (h.knows t').started fun hp => hP hp rfl t'
  | runtimePut =>
    rw [Card.start]
    split_ifs
    · exact h.neutral rfl trivial (by rw [huser]; simp [CardPc.user])
    · exact h

/-- The card is withdrawn. -/
theorem CardInv.add (h : CardInv P marks s) {f : CardFunc} (ht : s.pc t = .withdraw f) :
    ∃ marks', CardInv P marks' (s.operate t (.withdraw f)) := by
  have hzero : marks = 0 := by
    have hself := h.knows t
    rwa [ht] at hself
  refine ⟨1, h.update ?_ (.inr rfl) ?_ ?_ fun t' _ => CardPc.neutral_apart ?_⟩
  · have hmark := h.counts.mark 1
    rw [hzero, zero_add, mul_one] at hmark
    refine hmark.update ?_
    rw [ht]
    split_ifs <;> simp [CardPc.user]
  · split_ifs
    · rfl
    · trivial
  · intro t' hne
    have hfree := (h.apart t t' hne.symm).changes (by rw [ht]; rfl)
    exact (h.knows t').marked hfree
  · split_ifs <;> rfl

/-- The card is brought back. -/
theorem CardInv.sub (h : CardInv P marks s) (ht : s.pc t = .restore)
    (hfree : s.Free CardPc.removes) : ∃ marks', CardInv P marks' (s.operate t .restore) := by
  have hone : marks = 1 := by
    have hself := h.knows t
    rwa [ht] at hself
  refine ⟨0, h.update ?_ (.inl rfl) trivial ?_ fun t' _ => CardPc.neutral_apart rfl⟩
  · have hmark := h.counts.mark (-1)
    rw [hone] at hmark
    refine hmark.update ?_
    rw [ht]
    simp [CardPc.user]
    ring
  · intro t' hne
    have hchanges := (h.apart t t' hne.symm).changes (by rw [ht]; rfl)
    exact (h.knows t').unmarked hchanges (hfree t')

/-- The loop of `sdiohal_remove_card`. -/
theorem CardInv.drain (h : CardInv P marks s) (ht : s.pc t = .drain) :
    CardInv P marks (s.operate t .drain) := by
  have hone : marks = 1 := by
    have hself := h.knows t
    rwa [ht] at hself
  rw [Card.operate]
  split_ifs with hgt
  · exact h
  · have hnone := (h.counts.drained (by decide) (by omega) (by omega)).2
    refine h.goto hone (by rw [ht]; simp [CardPc.user]) fun t' _ => ?_
    refine ⟨⟨by simp [CardPc.changes], fun _ => ⟨?_, ?_⟩, by simp⟩, fun _ => rfl, by simp, by simp⟩
    · intro ht'
      exact absurd (hnone t') (by rw [ht']; decide)
    · intro ht'
      exact absurd (hnone t') (by rw [ht']; decide)

/-- The loop of `sdiohal_runtime_put`. -/
theorem CardInv.quiesce (h : CardInv P marks s) (ht : s.pc t = .quiesce) :
    CardInv P marks (s.operate t .quiesce) := by
  have hstop : P → s.xmitStart = false := by
    have hself := h.knows t
    rwa [ht] at hself
  rw [Card.operate]
  split_ifs with hwait
  · exact h
  · have hnonneg : 0 ≤ s.xmitCnt := h.nonneg
    refine h.goto ⟨hstop, by omega⟩ (by rw [ht]; simp [CardPc.user]) fun t' _ => ?_
    refine ⟨⟨by simp [CardPc.changes], by simp, ?_⟩, fun _ => rfl, by simp, by simp⟩
    rintro _ n hn hlt ht'
    obtain rfl := CardPc.powerDown.inj hn
    have hle : s.xmitCnt ≤ removeCardVal * marks := by
      rcases h.once with hm | hm <;> rw [hm] <;> omega
    exact absurd (h.counts.none_of_le hle t') (by rw [ht']; decide)

/-- The next operation of a thread. -/
theorem CardInv.operate (h : CardInv P marks s) (hT : (Fintype.card T : ℤ) < removeCardVal)
    (hG : Serial s (.step t)) : ∃ marks', CardInv P marks' (s.operate t (s.pc t)) := by
  cases ht : s.pc t with
  | idle => exact ⟨marks, h⟩
  | counted => exact ⟨marks, h.counted ht⟩
  | refused | locked => exact ⟨marks, h.neutral rfl trivial (by rw [ht]; simp [CardPc.user])⟩
  | withdraw f => exact h.add ht
  | restore => exact h.sub ht (hG.2 ht)
  | drain => exact ⟨marks, h.drain ht⟩
  | removed =>
    have hfree := hG.1 (by rw [ht]; rfl)
    rw [Card.operate]
    split_ifs with hexist
    · exact ⟨marks, h.withdraw (by rw [ht]; rfl) hfree hexist _⟩
    · exact ⟨marks, h.neutral rfl trivial (by rw [ht]; simp [CardPc.user])⟩
  | probing =>
    have hfree := hG.1 (by rw [ht]; rfl)
    rw [Card.operate]
    split_ifs with hexist
    · exact ⟨marks, h.neutral rfl trivial (by rw [ht]; simp [CardPc.user])⟩
    · exact ⟨marks, h.restore hT (by rw [ht]; rfl) hfree (Bool.not_eq_true _ ▸ hexist)⟩
  | put =>
    refine ⟨marks, h.update (h.counts.update ?_) h.once (fun _ => rfl) ?_ fun _ _ =>
      CardPc.neutral_apart rfl⟩
    · rw [ht]
      simp [CardPc.user]
    · exact fun t' _ => (h.knows t').stopped
  | quiesce => exact ⟨marks, h.quiesce ht⟩
  | powerDown n => exact ⟨marks, h.neutral rfl trivial (by rw [ht]; simp [CardPc.user])⟩

end

/-! ## Every run -/

theorem cardInv_init {T : Type} [Fintype T] (P : Prop) : CardInv P 1 (Card.init (T := T)) where
  counts := counts_of_forall 1 fun _ => rfl
  once := .inr rfl
  knows _ := trivial
  apart _ _ _ := (CardPc.neutral_apart rfl).1

section

variable {T : Type} [Fintype T] [DecidableEq T] {s s' : Card T} {evs : List (CardEvent T)}
  {P : Prop}

/-- A step that meets the condition keeps the invariant. -/
theorem step_cardInv (hT : (Fintype.card T : ℤ) < removeCardVal) {ev : CardEvent T}
    (h : ∃ marks, CardInv P marks s) (hG : Serial s ev) (hP : P → Unprobed s ev)
    (hstep : (card T).step s ev = some s') : ∃ marks, CardInv P marks s' := by
  obtain ⟨marks, h⟩ := h
  cases ev with
  | start t f =>
    rw [← Option.some.inj hstep]
    split_ifs with ht
    · exact ⟨marks, h.start hT ht hG hP⟩
    · exact ⟨marks, h⟩
  | step t =>
    rw [← Option.some.inj hstep]
    exact h.operate hT hG

/-- The invariant holds in all states of a run. -/
theorem always_cardInv (hT : (Fintype.card T : ℤ) < removeCardVal)
    {G : Card T → CardEvent T → Prop} (hserial : ∀ s ev, G s ev → Serial s ev)
    (hP : P → ∀ s ev, G s ev → Unprobed s ev) (hG : (card T).Along G Card.init evs) :
    (card T).Always (fun s => ∃ marks, CardInv P marks s) Card.init evs :=
  Machine.always_of_along (fun s ev _ h hG hstep =>
    step_cardInv hT h (hserial s ev hG) (fun hp => hP hp s ev hG) hstep) ⟨1, cardInv_init P⟩ hG

end

/-- From when `sdiohal_remove_card` has waited until it returns, no thread is between
    `sdiohal_card_lock` and `sdiohal_card_unlock`, or gets there. -/
theorem removed_quiet {T : Type} [Fintype T] [DecidableEq T]
    (hT : (Fintype.card T : ℤ) < removeCardVal) (evs : List (CardEvent T))
    (hG : (card T).Along Serial Card.init evs) :
    (card T).Always (fun s => ∀ t, s.pc t = .removed → ∀ t', s.pc t' ≠ .counted ∧ s.pc t' ≠ .locked)
      Card.init evs := by
  refine (always_cardInv hT (fun _ _ h => h) False.elim hG).imp ?_
  rintro s ⟨marks, h⟩ t ht t'
  by_cases hne : t = t'
  · rw [← hne, ht]
    exact ⟨by simp, by simp⟩
  · exact (h.apart t t' hne).removed ht

/-- The numbers of three threads. -/
local instance neZeroThree : NeZero 3 := ⟨by decide⟩

/-- The card is found, and removed during a transfer and a refused one. -/
def removing : List (CardEvent (Fin 3)) :=
  [.start 0 .probe, .step 0, .step 0, .start 1 .transfer, .step 1, .start 0 .removeCard, .step 0,
    .start 2 .transfer, .step 0, .step 1, .step 2, .step 0]

theorem removed_quiet_removing :
    (∃ s, (card (Fin 3)).run Card.init removing = some s ∧ s.pc 0 = .removed) ∧
    (card (Fin 3)).Always
      (fun s => ∀ t, s.pc t = .removed → ∀ t', s.pc t' ≠ .counted ∧ s.pc t' ≠ .locked)
      Card.init removing :=
  ⟨Machine.exists_run (by decide), removed_quiet (by decide) removing (by decide)⟩

/-- The system resumes while the card is removed: another transfer begins. -/
example : ∃ s, (card (Fin 3)).run Card.init (removing ++
    [.start 1 .resume, .step 1, .start 2 .transfer, .step 2]) = some s ∧
      s.pc 0 = .removed ∧ s.pc 2 = .locked :=
  Machine.exists_run (by decide)

/-- From when `sdiohal_runtime_put` has waited until it returns, no thread is between
    `sdiohal_card_lock` and `sdiohal_card_unlock`, unless the card was withdrawn before it had
    waited for all of them. -/
theorem powered_down {T : Type} [Fintype T] [DecidableEq T]
    (hT : (Fintype.card T : ℤ) < removeCardVal) (evs : List (CardEvent T))
    (hG : (card T).Along (fun s ev => Serial s ev ∧ Unprobed s ev) Card.init evs) :
    (card T).Always (fun s => ∀ t n, s.pc t = .powerDown n →
      (n = 0 ∧ ∀ t', s.pc t' ≠ .locked) ∨ removeCardVal ≤ n) Card.init evs := by
  refine (always_cardInv hT (fun _ _ h => h.1) (fun (_ : True) _ _ h => h.2) hG).imp ?_
  rintro s ⟨marks, h⟩ t n ht
  have hself := h.knows t
  rw [ht] at hself
  refine hself.2.imp (fun hn => ⟨hn, fun t' ht' => ?_⟩) id
  by_cases hne : t = t'
  · rw [← hne, ht] at ht'
    exact absurd ht' (by simp)
  · exact (h.apart t t' hne).powerDown trivial n ht (by rw [hn]; decide) ht'

/-- The chip is powered down during a transfer, and while another one begins. -/
def poweringDown : List (CardEvent (Fin 3)) :=
  [.start 0 .probe, .step 0, .step 0, .start 1 .transfer, .step 1, .start 0 .runtimePut, .step 0,
    .start 2 .transfer, .step 0, .step 1, .step 2, .step 2, .step 0]

theorem powered_down_poweringDown :
    (∃ s, (card (Fin 3)).run Card.init poweringDown = some s ∧ s.pc 0 = .powerDown 0) ∧
    (card (Fin 3)).Always (fun s => ∀ t n, s.pc t = .powerDown n →
      (n = 0 ∧ ∀ t', s.pc t' ≠ .locked) ∨ removeCardVal ≤ n) Card.init poweringDown :=
  ⟨Machine.exists_run (by decide), powered_down (by decide) poweringDown (by decide)⟩

/-- The card is probed while the chip is powered down: another transfer begins. -/
example : ∃ s, (card (Fin 3)).run Card.init (poweringDown ++
    [.start 1 .probe, .step 1, .start 2 .transfer, .step 2]) = some s ∧
      s.pc 0 = .powerDown 0 ∧ s.pc 2 = .locked :=
  Machine.exists_run (by decide)

/-- While no thread is in `sdiohal_card_lock` or after it, `xmit_cnt` tells nothing but whether the
    card is withdrawn, whatever transfers there were and whatever became of them. -/
theorem xmitCnt_of_idle {T : Type} [Fintype T] [DecidableEq T]
    (hT : (Fintype.card T : ℤ) < removeCardVal) (evs : List (CardEvent T))
    (hG : (card T).Along Serial Card.init evs) :
    (card T).Always (fun s => s.Free CardPc.user → s.xmitCnt = if s.exist then 0 else removeCardVal)
      Card.init evs := by
  refine (always_cardInv hT (fun _ _ h => h) False.elim hG).imp ?_
  rintro s ⟨marks, h⟩ hfree
  have hcnt := h.counts.count_eq hfree
  rw [Card.exist]
  rcases h.once with hm | hm <;> rw [hm] at hcnt <;> rw [hcnt] <;> decide

end W132d.Sdio
