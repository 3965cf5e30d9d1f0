import W132d.TxPool.Basic

/-!
# An interface is closed

When an interface is closed and another one is still open, `handle_tx_status_after_close` is to
give the colours of its mode to the others, and to flush its lists. The loop that looks for an open
mode leaves its variable at the mode it found, and this is the mode whose lists are flushed if it
is closed: no lists ever are.

* `handleTxStatusAfterClose`: the function, with the flush;
* `close_step`: it is what the machine of the pool does, which flushes nothing;
* `flushed_iff`: the lists of the closed mode are empty afterwards exactly if they were before.
-/

namespace W132d.TxPool

open Credit (Mode allClosed modes)

/-! ## The function -/

/-- The loop of `handle_tx_status_after_close`: the mode it stops at, which is none if all of them
    are closed. -/
def firstOpen (priv : Credit.Priv) : Option Mode :=
  modes.find? fun mode => priv.fwStat mode ≠ .close

/-- `handle_tx_status_after_close`, of an interface of mode `vifMode`. -/
def handleTxStatusAfterClose (vifMode : Mode) (s : State) : State :=
  let s' := { s with credits := Credit.txStatusAfterClose s.priv s.credits vifMode }
  match firstOpen s.priv with
  | none => s'
  | some mode =>
    -- This is the mode that the loop stopped at, not the one that was closed.
    if s.priv.fwStat mode = .close ∧ (s.txList mode).modeListNum ≠ 0 then flushModeTxlist mode s'
    else s'

/-- After the close of an interface: its lists are empty, it has no colour, and the lists and the
    colours of the other modes that are not closed are as they were. -/
structure Flushed (vifMode : Mode) (s s' : State) : Prop where
  empty : ∀ q, (s'.list vifMode q).headList = []
  colours : ∀ i, (s'.credits.flowCtrl i).mode ≠ vifMode
  lists : ∀ mode, s.priv.fwStat mode ≠ .close → s'.txList mode = s.txList mode
  credits : ∀ mode, mode ≠ .none → s.priv.fwStat mode ≠ .close → ∀ i,
    (s.credits.flowCtrl i).mode = mode ∨ (s'.credits.flowCtrl i).mode = mode →
      s'.credits.flowCtrl i = s.credits.flowCtrl i

section

variable {s : State} {vifMode : Mode}

/-- The loop does not stop at a closed mode. -/
theorem fwStat_firstOpen {priv : Credit.Priv} {mode : Mode} (h : firstOpen priv = some mode) :
    priv.fwStat mode ≠ .close := by
  have hopen := List.find?_some h
  exact of_decide_eq_true hopen

/-- Nothing is flushed. -/
theorem handleTxStatusAfterClose_eq (vifMode : Mode) (s : State) :
    handleTxStatusAfterClose vifMode s =
      { s with credits := Credit.txStatusAfterClose s.priv s.credits vifMode } := by
  unfold handleTxStatusAfterClose
  dsimp only
  split
  · rfl
  · rename_i mode hmode
    exact if_neg fun h => fwStat_firstOpen hmode h.1

/-- The function is the step of the machine. -/
theorem close_step (vifMode : Mode) (s : State) :
    pool.step s (.close vifMode) = some (handleTxStatusAfterClose vifMode s) := by
  rw [handleTxStatusAfterClose_eq]
  rfl

/-- With another mode open, the colours of the closed one are given up, and no others. -/
theorem flowCtrl_afterClose {tx : Credit.TxMsg} {priv : Credit.Priv}
    (hopen : allClosed priv = false) (i : Fin Credit.maxColorBit) :
    (Credit.txStatusAfterClose priv tx vifMode).flowCtrl i =
      if (tx.flowCtrl i).mode = vifMode then { tx.flowCtrl i with mode := .none }
      else tx.flowCtrl i := by
  rw [Credit.txStatusAfterClose, if_neg (Bool.eq_false_iff.1 hopen)]

/-- When an interface was closed while another one is open, its lists are empty, it has no colour
    and the other modes keep what they have, exactly if its lists were empty before. -/
theorem flushed_iff (hmode : vifMode ≠ .none) (hclosed : s.priv.fwStat vifMode = .close)
    (hopen : ∃ mode ∈ modes, mode ≠ vifMode ∧ s.priv.fwStat mode ≠ .close) :
    Flushed vifMode s (handleTxStatusAfterClose vifMode s) ↔
      ∀ q, (s.list vifMode q).headList = [] := by
  have hall : allClosed s.priv = false := by
    obtain ⟨mode, hmem, -, hstat⟩ := hopen
    rw [allClosed, List.all_eq_false]
    exact ⟨mode, hmem, fun h => hstat (of_decide_eq_true h)⟩
  rw [handleTxStatusAfterClose_eq]
  refine ⟨fun h => h.empty, fun hempty => ⟨hempty, fun i => ?_, fun mode _ => rfl, ?_⟩⟩
  · rw [flowCtrl_afterClose hall]
    split_ifs with hcolour
    · exact hmode.symm
    · exact hcolour
  · intro mode hnone hstat i hcolour
    change (Credit.txStatusAfterClose s.priv s.credits vifMode).flowCtrl i = _
    rw [flowCtrl_afterClose hall] at hcolour ⊢
    refine if_neg fun hvif => ?_
    rw [if_pos hvif] at hcolour
    -- The colour of an open mode is not that of the closed one.
    rcases hcolour with hcolour | hcolour
    · exact hstat (hcolour ▸ hvif ▸ hclosed)
    · exact hnone hcolour.symm

end

/-- A station and an access point are opened, and a packet comes in for the access point, which is
    closed then. -/
def apClosed : List Event :=
  [.setStat .station .open, .setStat .ap .open, .getMsgBuf .ap true,
    .txMsgFunc 0 ⟨100, 0, ⟨6, six_lt_maxLutNum⟩, some .be⟩ 0, .setStat .ap .close]

/-- Without the packet, there is nothing to flush. -/
theorem flushed_idle :
    ∃ s, pool.run (State.init false false 0) (apClosed.eraseIdx 3) = some s ∧
      Flushed .ap s (handleTxStatusAfterClose .ap s) :=
  ⟨_, rfl, (flushed_iff (by decide) (by rfl) ⟨.station, by decide, by decide, by decide⟩).2
    fun _ => rfl⟩

/-- The packet stays in the lists of the access point. -/
theorem not_flushed : ¬∀ (es : List Event) (s : State) (vifMode : Mode),
    pool.run (State.init false false 0) es = some s → vifMode ≠ .none →
      s.priv.fwStat vifMode = .close →
      (∃ mode ∈ modes, mode ≠ vifMode ∧ s.priv.fwStat mode = .open) →
        Flushed vifMode s (handleTxStatusAfterClose vifMode s) := fun h => by
  have hflushed := h apClosed _ .ap rfl (by decide) (by rfl)
    ⟨.station, by decide, by decide, by rfl⟩
  have hempty := hflushed.empty (.be, ⟨6, by decide⟩)
  rw [handleTxStatusAfterClose_eq] at hempty
  exact absurd hempty (List.cons_ne_nil _ _)

end W132d.TxPool
