import W132d.Descents
import W132d.Reorder.Checked
import W132d.Reorder.Life

/-!
# Replays

The PNs of the MPDUs that pass the check of a session go up, but for one step back after each
`reset_pn`.

* `Checks.descents_le`: a step back takes the reset;
* `replay_bounded`: along every life of a node, there are no more steps back than resets;
* `rekey_accepts_iff`: after a reset, an MPDU is accepted unless its PN has a smaller `pn_h` and a
  larger `pn_l`. Both words are compared on their own then (`not_rekey_accepts`).
-/

namespace W132d.Reorder

/-! ## PNs -/

/-- The PNs, of a `pn_h` and a `pn_l`, in their order. -/
abbrev Pn := ℕ ×ₗ ℕ

def RxBaPktDesc.pn (p : RxBaPktDesc) : Pn := toLex (p.pnH, p.pnL)

def RxBaNodeDesc.pn (d : RxBaNodeDesc) : Pn := toLex (d.pnH, d.pnL)

section

variable {p : RxBaPktDesc} {d d' : RxBaNodeDesc} {l : List Checked}

/-- With a `pn_l` of 32 bits, the order is that of the numbers of 48 bits. -/
theorem RxBaPktDesc.pn_lt_iff {q : RxBaPktDesc} (hp : p.pnL < 2 ^ 32) (hq : q.pnL < 2 ^ 32) :
    p.pn < q.pn ↔ p.pnH * 2 ^ 32 + p.pnL < q.pnH * 2 ^ 32 + q.pnL := by
  rw [pn, pn, Prod.Lex.toLex_lt_toLex]
  dsimp only
  omega

theorem pn_lt_pn_iff : d.pn < p.pn ↔ d.pnH < p.pnH ∨ d.pnH = p.pnH ∧ d.pnL < p.pnL := by
  rw [RxBaNodeDesc.pn, RxBaPktDesc.pn, Prod.Lex.toLex_lt_toLex]

/-- What the check of an MPDU does: it fails or checks no PN, and leaves all as it is; or the PN
    is taken over, which is greater, or takes the reset. -/
theorem replayDetection_cases (p : RxBaPktDesc) (d : RxBaNodeDesc) :
    (¬(p.cipherType.checksPn ∧ (replayDetection p d).1) ∧ SamePn d (replayDetection p d).2) ∨
    (p.cipherType.checksPn ∧ (replayDetection p d).1 ∧ (replayDetection p d).2.pn = p.pn ∧
      ((d.pn < p.pn ∧ (replayDetection p d).2.resetPn = d.resetPn) ∨
        (d.resetPn ∧ (replayDetection p d).2.resetPn = false))) := by
  unfold replayDetection
  split_ifs with hcipher hreset hgt
  · rw [Bool.and_eq_true, Bool.and_eq_true] at hreset
    exact .inr ⟨hcipher, rfl, rfl, .inr ⟨hreset.1.1, rfl⟩⟩
  · refine .inr ⟨hcipher, rfl, rfl, .inl ⟨pn_lt_pn_iff.2 ?_, rfl⟩⟩
    simp only [Bool.or_eq_true, Bool.and_eq_true, decide_eq_true_eq] at hgt
    exact hgt.symm
  · exact .inl ⟨fun h => h.2.elim, .refl d⟩
  · exact .inl ⟨fun h => hcipher h.1, .refl d⟩

/-! ## The PNs that pass -/

/-- The PN of an MPDU that passed a check of it. -/
def Checked.accepted? (c : Checked) : Option Pn :=
  if c.pkt.desc.cipherType.checksPn ∧ c.passed then some c.pkt.desc.pn else none

/-- The PNs of the TKIP and CCMP MPDUs that passed. -/
def accepted (l : List Checked) : List Pn := l.filterMap Checked.accepted?

/-- Behind the stored PN, a step back takes the reset; the last PN is stored. -/
theorem Checks.descents_le (h : Checks d d' l) :
    descentsFrom d.pn (accepted l) + d'.resetPn.toNat ≤ d.resetPn.toNat ∧
      (accepted l).getLastD d.pn = d'.pn := by
  -- By induction on the checks: a packet number that descends uses up the permission to be reset.
  induction h with
  | @keep d d' h =>
    refine ⟨?_, ?_⟩
    · rw [h.resetPn, accepted, List.filterMap_nil, descentsFrom, Nat.zero_add]
    · rw [accepted, List.filterMap_nil, List.getLastD_nil, RxBaNodeDesc.pn, RxBaNodeDesc.pn,
        h.pnH, h.pnL]
  | @check d d' pkt hne h =>
    have hpn : d'.pn = (replayDetection pkt.desc d).2.pn := by
      rw [RxBaNodeDesc.pn, RxBaNodeDesc.pn, h.pnH, h.pnL]
    rw [h.resetPn, hpn]
    rcases replayDetection_cases pkt.desc d with ⟨hno, hsame⟩ | ⟨hcipher, hok, hstored, hcase⟩
    · have hnone : accepted [Reorder.check pkt d] = [] :=
        List.filterMap_cons_none (if_neg hno)
      rw [hnone, descentsFrom, Nat.zero_add, List.getLastD_nil, hsame.resetPn]
      exact ⟨le_rfl, by rw [RxBaNodeDesc.pn, RxBaNodeDesc.pn, hsame.pnH, hsame.pnL]⟩
    · have hone : accepted [Reorder.check pkt d] = [pkt.desc.pn] :=
        List.filterMap_cons_some (if_pos ⟨hcipher, hok⟩)
      rw [hone, descentsFrom, descentsFrom, Nat.add_zero]
      refine ⟨?_, hstored.symm⟩
      rcases hcase with ⟨hlt, hreset⟩ | ⟨hreset, hcleared⟩
      · -- The number is above the last one.
        rw [if_pos hlt, Nat.zero_add, hreset]
      · -- The number was reset, which was allowed once.
        rw [hreset, hcleared]
        split_ifs <;> decide
  | @trans d d' d'' l l' _ _ ih ih' =>
    obtain ⟨hle, hlast⟩ := ih
    obtain ⟨hle', hlast'⟩ := ih'
    have happ : accepted (l ++ l') = accepted l ++ accepted l' := List.filterMap_append
    rw [happ, descentsFrom_append, hlast]
    refine ⟨by omega, ?_⟩
    rw [getLastD_append, hlast, hlast']

end

/-! ## Along the life of a node -/

/-- The MPDUs that are checked in a step. -/
def lifeChecks (n : RxBaNode) : LifeEvent → List Checked
  | .node e => nodeChecks n e
  | .addba _ _ | .activate | .resetPn => []
  | .endSession drain => endSessionChecks drain n

section

variable {n n' : RxBaNode} {e : LifeEvent} {es : List LifeEvent}

/-- What a step checks, against the PN that the steps before it left; only `reset_pn` makes a
    reset. -/
theorem lifeChecks_checks (h : life.step n e = some n') :
    Checks n.rxBa n'.rxBa (lifeChecks n e) ∨
      (e = .resetPn ∧ n'.rxBa.pn = n.rxBa.pn ∧ n'.rxBa.resetPn = true) := by
  cases e with
  | node e =>
    obtain ⟨r, hr, rfl⟩ := Option.map_eq_some_iff.1 h
    exact .inl (nodeChecks_checks hr)
  | addba winStart winSize =>
    rw [← Option.some.inj h]
    exact .inl (.keep ⟨rfl, rfl, rfl⟩)
  | activate =>
    rw [← Option.some.inj h]
    exact .inl (.refl _)
  | resetPn =>
    rw [← Option.some.inj h]
    exact .inr ⟨rfl, rfl, rfl⟩
  | endSession drain =>
    rw [← Option.some.inj h]
    exact .inl (endSession_passes drain n).checks

/-- The steps back so far, and the reset that is left, are no more than the resets made. -/
structure Replays (n₀ : RxBaNode) (es : List LifeEvent) (n : RxBaNode) : Prop where
  run : life.run n₀ es = some n
  le : descentsFrom n₀.rxBa.pn (accepted (life.outputs lifeChecks n₀ es)) + n.rxBa.resetPn.toNat ≤
    es.count .resetPn + n₀.rxBa.resetPn.toNat
  last : (accepted (life.outputs lifeChecks n₀ es)).getLastD n₀.rxBa.pn = n.rxBa.pn

theorem Replays.step {n₀ : RxBaNode} (h : Replays n₀ es n) (hstep : life.step n e = some n') :
    Replays n₀ (es ++ [e]) n' := by
  have hle := h.le
  have hout : accepted (life.outputs lifeChecks n₀ (es ++ [e])) =
      accepted (life.outputs lifeChecks n₀ es) ++ accepted (lifeChecks n e) := by
    rw [Machine.outputs_concat h.run]
    exact List.filterMap_append
  refine ⟨Machine.run_concat h.run hstep, ?_, ?_⟩
  · rw [hout, descentsFrom_append, h.last, List.count_append]
    rcases lifeChecks_checks hstep with hchecks | ⟨rfl, -, hreset⟩
    · have := hchecks.descents_le.1
      omega
    · rw [hreset]
      change _ + 0 + 1 ≤ _ + 1 + _
      omega
  · rw [hout, getLastD_append, h.last]
    rcases lifeChecks_checks hstep with hchecks | ⟨rfl, hpn, -⟩
    · exact hchecks.descents_le.2
    · exact hpn.symm

/-- Along every life of a node, the PNs of the TKIP and CCMP MPDUs that pass go up, but for one
    step back for each call of `reset_pn`. -/
theorem replay_bounded (staLutIndex tid slots : ℕ)
    (h : life.run (createBaNode staLutIndex tid slots) es = some n) :
    descents (accepted (life.outputs lifeChecks (createBaNode staLutIndex tid slots) es)) ≤
      es.count .resetPn := by
  have hinit : Replays (createBaNode staLutIndex tid slots) []
      (createBaNode staLutIndex tid slots) := ⟨rfl, le_rfl, rfl⟩
  have hreplays : Replays (createBaNode staLutIndex tid slots) es n :=
    Machine.invariant_history (fun _ _ _ _ hI _ hstep => hI.step hstep) hinit
      Machine.along_true h
  exact (descents_le _ _).trans ((Nat.le_add_right _ _).trans hreplays.le)

/-- An MSDU of a CCMP MPDU of its own. -/
def ccmpMsdu (seqNum pnH pnL : ℕ) (hh : pnH < 2 ^ 16) (hl : pnL < 2 ^ 32) : Skb :=
  ⟨seqNum, { filterDesc seqNum with
    cipherType := .ccmp, pnH := pnH, pnL := pnL, pnH_lt := hh, pnL_lt := hl }⟩

theorem replay_bounded_armed :
    descents (accepted (life.outputs lifeChecks (createBaNode 0 0 2)
      [.addba 0 2, .activate, .node (.msdu (ccmpMsdu 0 0 7 (by decide) (by decide))), .resetPn,
        .node (.msdu (ccmpMsdu 1 0 1 (by decide) (by decide)))])) ≤ 1 :=
  replay_bounded 0 0 2 (by rfl)

end

/-! ## After a reset -/

section

variable {p : RxBaPktDesc} {d : RxBaNodeDesc}

/-- When a reset is armed, a TKIP or CCMP MPDU is accepted, and its PN stored, unless its `pn_h`
    is smaller than that stored and its `pn_l` is larger. -/
theorem rekey_accepts_iff (hcipher : p.cipherType.checksPn = true) (hreset : d.resetPn = true) :
    ((replayDetection p d).1 = true ∧ (replayDetection p d).2.pn = p.pn) ↔
      ¬(p.pnH < d.pnH ∧ d.pnL < p.pnL) := by
  unfold replayDetection
  rw [if_pos hcipher, hreset, Bool.true_and]
  split_ifs with harmed hgt
  · rw [Bool.and_eq_true, decide_eq_true_eq, decide_eq_true_eq] at harmed
    exact iff_of_true ⟨rfl, rfl⟩ fun h => h.2.not_ge harmed.1
  · simp only [Bool.or_eq_true, Bool.and_eq_true, decide_eq_true_eq] at hgt
    exact iff_of_true ⟨rfl, rfl⟩ (by omega)
  · -- Neither word order is that of the branches: the words compare in opposite directions.
    simp only [Bool.or_eq_true, Bool.and_eq_true, decide_eq_true_eq] at harmed hgt
    exact iff_of_false (fun h => h.1.elim) (by omega)

/-- A session that stored a PN and had its reset armed. -/
def armedAt (pnH pnL : ℕ) : RxBaNodeDesc :=
  { (createBaNode 0 0 64).rxBa with pnH := pnH, pnL := pnL, resetPn := true }

/-- The slot of an MPDU that came under CCMP. -/
def ccmpDesc (pnH pnL : ℕ) : RxBaPktDesc :=
  { RxBaPkt.zero.desc with cipherType := .ccmp, pnH := pnH, pnL := pnL }

theorem rekey_accepts_fresh :
    (replayDetection (ccmpDesc 0 1) (armedAt 1 5)).1 = true ∧
      (replayDetection (ccmpDesc 0 1) (armedAt 1 5)).2.pn = (ccmpDesc 0 1).pn :=
  (rekey_accepts_iff rfl rfl).2 (by decide)

/-- The first MPDU after a rekey is dropped when the stored PN has just carried into `pn_h`. -/
theorem not_rekey_accepts :
    ¬∀ (p : RxBaPktDesc) (d : RxBaNodeDesc), p.cipherType.checksPn = true → d.resetPn = true →
      (replayDetection p d).1 = true ∧ (replayDetection p d).2.pn = p.pn := fun h =>
  absurd (h (ccmpDesc 0 1) (armedAt 1 0) rfl rfl).1 (by decide)

end

end W132d.Reorder
