import W132d.Machine

/-!
# Credits for transmission

The firmware gives the host credits of four colours, one of which every packet takes
(`tx_msg.c`). A batch of packets is sent in steps, between which credits come and go:

* `getSendNum`: how many packets of a mode can be sent, and the number of each colour
  that they take (`colorNum`);
* `setColorBit`: the colour of each packet, while the packets are pushed;
* `handleTxReturn`: the credits are taken, by `colorNum`.

The firmware adds credits or resets all of them, clearing `colorNum` too
(`processCredit`). When the last interface closes, the driver also resets the credits, but
not `colorNum` (`txStatusAfterClose`), so that a batch in the making takes credits that are
gone (`credits_taken_twice`). In runs where this does not happen and the counters do not
overflow, no colour has a negative number of credits (`credits_nonneg`).

Integers of the source are those of ℤ, wrapped to their width (`s32`, `u32`, `u8`).

The loops go over the colours in their order. What a batch takes of a colour is `colorNum`, which
begins as zero and is filled in the same order, so that each number is at most the credits that
there are (`Covered`). This is kept until the batch takes its credits, unless they are reset in
between without `colorNum`. That the credits are numbers of an `int` (`IsInt`) is kept by every
function, without a condition.
-/

namespace W132d.Credit

/-! ## Data -/

/-- A value as an `int`. -/
def s32 (x : ℤ) : ℤ := (x + 2 ^ 31) % 2 ^ 32 - 2 ^ 31

/-- A value as an `unsigned int`. -/
def u32 (x : ℤ) : ℤ := x % 2 ^ 32

/-- A value as a `u8`. -/
def u8 (x : ℤ) : ℤ := x % 2 ^ 8

/-- `enum sprdwl_mode`. -/
inductive Mode where
  | none
  | station
  | ap
  | p2pDevice
  | p2pClient
  | p2pGo
  | ibss
  deriving DecidableEq, Repr

/-- The modes from `SPRDWL_MODE_STATION` on. -/
def modes : List Mode := [.station, .ap, .p2pDevice, .p2pClient, .p2pGo, .ibss]

/-- The values of `fw_stat`. -/
inductive FwStat where
  | close
  | open
  | closing
  deriving DecidableEq, Repr

/-- `MAX_COLOR_BIT`. -/
def maxColorBit : ℕ := 4

/-- `struct sprdwl_flow_control`. -/
structure FlowControl where
  mode : Mode
  colorBit : ℕ
  flow : ℤ
  deriving DecidableEq, Repr

/-- The credits of `struct sprdwl_tx_msg`. -/
structure TxMsg where
  flowCtrl : Fin maxColorBit → FlowControl
  colorNum : Fin maxColorBit → ℤ
  ringCp : UInt64
  ringAp : UInt64

/-- What the driver knows of the device (`struct sprdwl_priv`): whether it is a PCIe one
    (`hw_type`), whether it takes no credits (`credit_capa`), and the state of each mode. -/
structure Priv where
  pcie : Bool
  noCredit : Bool
  fwStat : Mode → FwStat

/-- The first colour. -/
def firstColor : Fin maxColorBit := ⟨0, Nat.zero_lt_succ _⟩

/-- The colours, in the order of the loops. -/
def colors : List (Fin maxColorBit) := List.finRange maxColorBit

/-! ## Batches -/

section

variable (priv : Priv) (tx : TxMsg)

/-- `sprdwl_fc_find_color_per_mode`: the colour of a mode, which is assigned if the mode is
    a new one and there is a colour left. -/
def findColorPerMode (mode : Mode) : TxMsg × Option (Fin maxColorBit) :=
  match colors.find? fun i => (tx.flowCtrl i).mode = mode with
  | some i => (tx, some i)
  | none =>
    -- The colours of closed modes are free.
    let tx :=
      { tx with
        flowCtrl := fun i =>
          let fc := tx.flowCtrl i
          if fc.mode ≠ .none ∧ priv.fwStat fc.mode = .close then { fc with mode := .none }
          else fc }
    match colors.find? fun i => (tx.flowCtrl i).mode = .none with
    | some i =>
      let fc := { tx.flowCtrl i with mode := mode, colorBit := i }
      ({ tx with flowCtrl := Function.update tx.flowCtrl i fc }, some i)
    | none => (tx, none)

/-- The loop of `sprdwl_fc_get_shared_num`: `colorNum` and the number of shared credits. -/
def sharedLoop (num : ℤ) :
    List (Fin maxColorBit) → (Fin maxColorBit → ℤ) → ℤ → (Fin maxColorBit → ℤ) × ℤ
  | [], colorNum, shared => (colorNum, shared)
  | i :: is, colorNum, shared =>
    let colorFlow := u32 (tx.flowCtrl i).flow
    if (tx.flowCtrl i).mode = .none ∧ colorFlow ≠ 0 then
      if u32 (num - shared) ≤ colorFlow then
        (Function.update colorNum i (u8 (num - shared)), shared + (num - shared))
      else
        sharedLoop num is (Function.update colorNum i (u8 colorFlow)) (s32 (shared + colorFlow))
    else sharedLoop num is colorNum shared

/-- `sprdwl_fc_get_shared_num`. -/
def getSharedNum (num : ℤ) : TxMsg × ℤ :=
  let (colorNum, shared) := sharedLoop tx num colors tx.colorNum 0
  ({ tx with colorNum := colorNum }, shared)

/-- `ENOMEM`. -/
def enomem : ℤ := 12

/-- The credits that a batch of the mode with colour `i` takes, in
    `sprdwl_fc_get_send_num`. -/
def takeCredits (i : Fin maxColorBit) (dataNum : ℤ) : TxMsg × ℤ :=
  let excusive := (tx.flowCtrl i).flow
  if excusive ≥ dataNum then
    -- The mode's own credits are enough.
    ({ tx with colorNum := Function.update tx.colorNum i (u8 dataNum) }, u8 dataNum)
  else
    let (tx, shared) := getSharedNum tx (u8 (dataNum - excusive))
    ({ tx with colorNum := Function.update tx.colorNum i (u8 excusive) }, s32 (excusive + shared))

/-- `sprdwl_fc_get_send_num`. -/
def getSendNum (mode : Mode) (dataNum : ℤ) : TxMsg × ℤ :=
  if dataNum ≤ 0 ∨ mode = .none then (tx, 0)
  else if priv.pcie then (tx, dataNum)
  else
    let dataNum := min dataNum 100
    if priv.noCredit then (tx, dataNum)
    else
      match findColorPerMode priv { tx with colorNum := fun _ => 0 } mode with
      | (tx, none) => (tx, -enomem)
      | (tx, some i) =>
        let (tx, sendNum) := takeCredits tx i dataNum
        if sendNum ≤ 0 then (tx, -enomem) else (tx, sendNum)

/-- `sprdwl_fc_test_shared_num`. -/
def testSharedNum : ℤ :=
  colors.foldl
    (fun shared i =>
      let colorFlow := u32 (tx.flowCtrl i).flow
      if (tx.flowCtrl i).mode = .none ∧ colorFlow ≠ 0 then s32 (shared + colorFlow) else shared) 0

/-- `sprdwl_fc_test_send_num`. -/
def testSendNum (mode : Mode) (dataNum : ℤ) : TxMsg × ℤ :=
  if dataNum ≤ 0 ∨ mode = .none then (tx, 0)
  else if priv.pcie then (tx, dataNum)
  else
    let dataNum := min dataNum 100
    if priv.noCredit then (tx, dataNum)
    else
      match findColorPerMode priv tx mode with
      | (tx, none) => (tx, -enomem)
      | (tx, some i) =>
        let sendNum := s32 ((tx.flowCtrl i).flow + testSharedNum tx)
        if sendNum ≤ 0 then (tx, -enomem) else (tx, min sendNum dataNum)

/-- The loop of `sprdwl_fc_set_clor_bit`. -/
def colorBitLoop (num : ℤ) : List (Fin maxColorBit) → ℤ → ℕ
  | [], _ => maxColorBit
  | i :: is, count =>
    let count := count + tx.colorNum i
    if num ≤ count then i else colorBitLoop num is count

/-- `sprdwl_fc_set_clor_bit`: the colour of the `num`th packet of a batch. -/
def setColorBit (num : ℤ) : ℕ :=
  if priv.noCredit then 0 else colorBitLoop tx num colors 0

/-- `sprdwl_handle_tx_return`, after the packets were pushed with the result `ret`. -/
def handleTxReturn (sendNum ret : ℤ) : TxMsg :=
  if ret ≠ 0 then { tx with colorNum := fun _ => 0 }
  else
    let tx := { tx with ringAp := tx.ringAp + UInt64.ofInt sendNum }
    if priv.noCredit then tx
    else
      { tx with
        flowCtrl := fun i =>
          let fc := tx.flowCtrl i
          if tx.colorNum i = 0 then fc else { fc with flow := s32 (fc.flow - tx.colorNum i) } }

/-! ## Credits that come and go -/

/-- A turn of the loop that resets the credits for the firmware. -/
def resetColor (tx : TxMsg) (i : Fin maxColorBit) : TxMsg :=
  let fc := tx.flowCtrl i
  { tx with
    ringCp := if tx.ringCp ≠ 0 then tx.ringCp - UInt64.ofInt fc.flow else tx.ringCp
    flowCtrl := Function.update tx.flowCtrl i { fc with flow := 0 }
    colorNum := Function.update tx.colorNum i 0 }

/-- `sprdwl_sdio_process_credit`, of the four numbers `flow` in an event or with data. -/
def processCredit (event : Bool) (flow : Fin maxColorBit → UInt8) : TxMsg :=
  let tx' :=
    { tx with
      flowCtrl := fun i =>
        let fc := tx.flowCtrl i
        if flow i = 0 then fc else { fc with flow := s32 (fc.flow + (flow i).toNat) } }
  let inCount := (colors.map fun i => (flow i).toNat).sum
  if inCount ≠ 0 then { tx' with ringCp := tx'.ringCp + UInt64.ofNat inCount }
  else if event then colors.foldl resetColor tx'
  else tx'

/-- Every mode is closed. -/
def allClosed : Bool := modes.all fun mode => priv.fwStat mode = .close

/-- The credits in `handle_tx_status_after_close`, of an interface of mode `mode`. -/
def txStatusAfterClose (mode : Mode) : TxMsg :=
  if allClosed priv then
    { tx with
      ringCp := 0
      ringAp := 0
      flowCtrl := fun i => ⟨.none, i, 0⟩ }
  else
    { tx with
      flowCtrl := fun i =>
        let fc := tx.flowCtrl i
        if fc.mode = mode then { fc with mode := .none } else fc }

/-- `sprdwl_fc_add_share_credit`, of an interface of mode `mode`. -/
def addShareCredit (mode : Mode) : TxMsg :=
  match colors.find? fun i => (tx.flowCtrl i).mode = mode with
  | some i =>
    { tx with
      flowCtrl := Function.update tx.flowCtrl i { tx.flowCtrl i with mode := .none } }
  | none => tx

end

/-! ## The machine -/

/-- A batch in the making: the number of its packets, and the colours of those that were
    tagged. -/
structure Batch where
  sendNum : ℤ
  tags : List ℕ

/-- The state of the transmit path. -/
structure State where
  priv : Priv
  tx : TxMsg
  batch : Option Batch

/-- What happens on the transmit path. -/
inductive Event where
  /-- A batch is planned (`sprdwl_fc_test_send_num`). -/
  | test (mode : Mode) (total : ℤ)
  /-- A batch of at most `toSendNum` packets begins (`sprdwl_fc_get_send_num`). -/
  | compute (mode : Mode) (toSendNum : ℤ)
  /-- The next packet of the batch is tagged. -/
  | tag
  /-- The batch was pushed (`sprdwl_handle_tx_return`). -/
  | account (ret : ℤ)
  /-- The firmware gives or resets credits. -/
  | credit (event : Bool) (flow : Fin maxColorBit → UInt8)
  /-- A mode changes its state. -/
  | setStat (mode : Mode) (stat : FwStat)
  /-- An interface was closed (`handle_tx_status_after_close`). -/
  | close (mode : Mode)
  /-- An interface was disconnected (`sprdwl_fc_add_share_credit`). -/
  | disconnect (mode : Mode)

/-- What an event does. Batches are sent one at a time. -/
def State.step (s : State) : Event → Option State
  | .test mode total => some { s with tx := (testSendNum s.priv s.tx mode total).1 }
  | .compute mode toSendNum =>
    match s.batch with
    | some _ => none
    | none =>
      let (tx, credit) := getSendNum s.priv s.tx mode toSendNum
      some { s with tx := tx, batch := if credit ≤ 0 then none else some ⟨credit, []⟩ }
  | .tag =>
    match s.batch with
    | none => none
    | some ⟨sendNum, tags⟩ =>
      if tags.length < sendNum then
        let tag := setColorBit s.priv s.tx (tags.length + 1)
        some { s with batch := some ⟨sendNum, tags ++ [tag]⟩ }
      else none
  | .account ret =>
    match s.batch with
    | none => none
    | some batch =>
      some { s with tx := handleTxReturn s.priv s.tx batch.sendNum ret, batch := none }
  | .credit event flow => some { s with tx := processCredit s.tx event flow }
  | .setStat mode stat =>
    some { s with priv := { s.priv with fwStat := Function.update s.priv.fwStat mode stat } }
  | .close mode => some { s with tx := txStatusAfterClose s.priv s.tx mode }
  | .disconnect mode => some { s with tx := addShareCredit s.tx mode }

/-- The machine of the transmit path. -/
def transmit : Machine State Event where
  step := State.step

/-- An SDIO device that takes credits, none of which it has given yet. -/
def State.init : State where
  priv := ⟨false, false, fun _ => .close⟩
  tx := ⟨fun i => ⟨.none, i, 0⟩, fun _ => 0, 0, 0⟩
  batch := none

/-! ## Credits that are not negative -/

/-- No colour has a negative number of credits. -/
def NonNeg (tx : TxMsg) : Prop := ∀ i, 0 ≤ (tx.flowCtrl i).flow ∧ (tx.flowCtrl i).flow < 2 ^ 31

/-- A batch takes credits that there are. -/
def Covered (tx : TxMsg) : Prop := ∀ i, 0 ≤ tx.colorNum i ∧ tx.colorNum i ≤ (tx.flowCtrl i).flow

/-- The condition of a step: the counters do not overflow, and when the last interface
    closes, no batch in the making takes credits. -/
def Clean (s : State) : Event → Prop
  | .credit _ flow => ∀ i, (s.tx.flowCtrl i).flow + (flow i).toNat < 2 ^ 31
  | .close _ => allClosed s.priv = true → s.batch.isNone = true ∨ ∀ i, s.tx.colorNum i = 0
  | _ => True

instance (s : State) : ∀ e, Decidable (Clean s e)
  | .credit _ flow =>
    inferInstanceAs (Decidable (∀ i, (s.tx.flowCtrl i).flow + (flow i).toNat < 2 ^ 31))
  | .close _ =>
    inferInstanceAs
      (Decidable (allClosed s.priv = true → s.batch.isNone = true ∨ ∀ i, s.tx.colorNum i = 0))
  | .test .. | .compute .. | .tag | .account _ | .setStat .. | .disconnect _ => .isTrue trivial

variable {priv : Priv} {tx tx' : TxMsg} {mode : Mode} {s s' : State} {e : Event}

/-- A number that an `int` has room for is not changed. -/
theorem s32_eq {x : ℤ} (h : -2 ^ 31 ≤ x) (h' : x < 2 ^ 31) : s32 x = x := by
  unfold s32
  omega

theorem u32_eq {x : ℤ} (h : 0 ≤ x) (h' : x < 2 ^ 32) : u32 x = x := by
  unfold u32
  omega

theorem u8_eq {x : ℤ} (h : 0 ≤ x) (h' : x < 2 ^ 8) : u8 x = x := by
  unfold u8
  omega

/-- The credits of a state depend on its numbers only, not on the modes of the colours. -/
theorem NonNeg.congr (h : NonNeg tx) (hflow : ∀ i, (tx'.flowCtrl i).flow = (tx.flowCtrl i).flow) :
    NonNeg tx' := fun i => by
  rw [hflow i]
  exact h i

/-- Whether the colors are covered depends on the credits only. -/
theorem Covered.congr (h : Covered tx)
    (hflow : ∀ i, (tx'.flowCtrl i).flow = (tx.flowCtrl i).flow)
    (hnum : tx'.colorNum = tx.colorNum) : Covered tx' := fun i => by
  rw [hflow i, hnum]
  exact h i

/-- Finding the colour of a mode assigns colours only. -/
theorem findColorPerMode_flow (i : Fin maxColorBit) :
    ((findColorPerMode priv tx mode).1.flowCtrl i).flow = (tx.flowCtrl i).flow ∧
      (findColorPerMode priv tx mode).1.colorNum = tx.colorNum := by
  rw [findColorPerMode]
  split
  · exact ⟨rfl, rfl⟩
  dsimp only
  split
  · refine ⟨?_, rfl⟩
    dsimp only
    rename_i k _
    rcases eq_or_ne i k with rfl | hi
    · rw [Function.update_self]
      split_ifs <;> rfl
    · rw [Function.update_of_ne hi]
      split_ifs <;> rfl
  · refine ⟨?_, rfl⟩
    dsimp only
    split_ifs <;> rfl

/-- A write of one colour's number that there are credits for. -/
theorem covered_update {colorNum : Fin maxColorBit → ℤ} {k : Fin maxColorBit} {n : ℤ}
    (hcolor : ∀ i, 0 ≤ colorNum i ∧ colorNum i ≤ (tx.flowCtrl i).flow) (hn : 0 ≤ n)
    (hn' : n ≤ (tx.flowCtrl k).flow) (i : Fin maxColorBit) :
    0 ≤ Function.update colorNum k n i ∧
      Function.update colorNum k n i ≤ (tx.flowCtrl i).flow := by
  rcases eq_or_ne i k with rfl | hi
  · rw [Function.update_self]
    exact ⟨hn, hn'⟩
  · rw [Function.update_of_ne hi]
    exact hcolor i

/-- The credits that a batch shares are there. -/
theorem sharedLoop_covered {num : ℤ} (hnum : num < 2 ^ 8) (h : NonNeg tx)
    {is : List (Fin maxColorBit)} {colorNum : Fin maxColorBit → ℤ} {shared : ℤ}
    (hcolor : ∀ i, 0 ≤ colorNum i ∧ colorNum i ≤ (tx.flowCtrl i).flow)
    (hpos : 0 ≤ shared) (hle : shared ≤ num) (i : Fin maxColorBit) :
    0 ≤ (sharedLoop tx num is colorNum shared).1 i ∧
      (sharedLoop tx num is colorNum shared).1 i ≤ (tx.flowCtrl i).flow := by
  induction is generalizing colorNum shared with
  | nil => exact hcolor i
  | cons k is ih =>
    obtain ⟨hk, hk'⟩ := h k
    rw [sharedLoop, u32_eq hk (by omega), u32_eq (by omega) (by omega), u8_eq (by omega) (by omega)]
    split_ifs with hshared henough
    · exact covered_update hcolor (by omega) henough i
    · rw [u8_eq hk (by omega), s32_eq (by omega) (by omega)]
      exact ih (covered_update hcolor hk le_rfl) (by omega) (by omega)
    · exact ih hcolor hpos hle

/-- A batch takes credits that there are. -/
theorem takeCredits_covered (h : NonNeg tx) (hnum : tx.colorNum = fun _ => 0)
    {k : Fin maxColorBit} {dataNum : ℤ} (hpos : 0 < dataNum) (hle : dataNum ≤ 100) :
    (takeCredits tx k dataNum).1.flowCtrl = tx.flowCtrl ∧ Covered (takeCredits tx k dataNum).1 := by
  obtain ⟨hk, hk'⟩ := h k
  have hzero : ∀ i, 0 ≤ tx.colorNum i ∧ tx.colorNum i ≤ (tx.flowCtrl i).flow := fun i => by
    rw [hnum]
    exact ⟨le_rfl, (h i).1⟩
  rw [takeCredits]
  dsimp only
  split_ifs with henough
  · rw [u8_eq hpos.le (by omega)]
    exact ⟨rfl, covered_update hzero hpos.le henough⟩
  · rw [u8_eq hk (by omega), u8_eq (by omega) (by omega)]
    have hshared := @sharedLoop_covered tx (dataNum - (tx.flowCtrl k).flow) (by omega) h colors
      tx.colorNum 0 hzero le_rfl (by omega)
    exact ⟨rfl, covered_update hshared hk le_rfl⟩

/-- A batch begins with credits that there are, which it leaves. -/
theorem getSendNum_covered {dataNum : ℤ} (hpcie : priv.pcie = false)
    (hcredit : priv.noCredit = false) (h : NonNeg tx) (hdata : 0 < dataNum)
    (hmode : mode ≠ .none) :
    (∀ i, ((getSendNum priv tx mode dataNum).1.flowCtrl i).flow = (tx.flowCtrl i).flow) ∧
      Covered (getSendNum priv tx mode dataNum).1 := by
  have hcond : ¬(dataNum ≤ 0 ∨ mode = .none) := by
    rintro (hle | heq)
    · omega
    · exact hmode heq
  have hflow := fun i => (@findColorPerMode_flow priv { tx with colorNum := fun _ => 0 } mode i).1
  have hnum := fun i => (@findColorPerMode_flow priv { tx with colorNum := fun _ => 0 } mode i).2
  rw [getSendNum, if_neg hcond, hpcie, hcredit]
  simp only [Bool.false_eq_true, if_false]
  split
  · rename_i tx' hfind
    rw [hfind] at hflow hnum
    exact ⟨hflow, fun i => by rw [hnum i, hflow i]; exact ⟨le_rfl, (h i).1⟩⟩
  · rename_i tx' k hfind
    rw [hfind] at hflow hnum
    obtain ⟨hsame, hcovered⟩ := @takeCredits_covered tx' (h.congr hflow) (hnum k) k
      (min dataNum 100) (by omega) (by omega)
    have htake : ∀ p : TxMsg × ℤ, p.1.flowCtrl = tx'.flowCtrl → Covered p.1 →
        (∀ i, ((if p.2 ≤ 0 then (p.1, -enomem) else (p.1, p.2)).1.flowCtrl i).flow =
          (tx.flowCtrl i).flow) ∧ Covered (if p.2 ≤ 0 then (p.1, -enomem) else (p.1, p.2)).1 := by
      intro p hp hcov
      split_ifs
      · exact ⟨fun i => by rw [hp]; exact hflow i, hcov⟩
      · exact ⟨fun i => by rw [hp]; exact hflow i, hcov⟩
    exact htake _ hsame hcovered

/-- The invariant: no colour has a negative number of credits, and a batch in the making
    takes credits that there are. -/
structure Inv (s : State) : Prop where
  pcie : s.priv.pcie = false
  noCredit : s.priv.noCredit = false
  nonneg : NonNeg s.tx
  covered : s.batch.isSome = true → Covered s.tx

/-- A step that changes neither the credits nor what the batch takes. -/
theorem Inv.congr (h : Inv s) (hpcie : s'.priv.pcie = s.priv.pcie)
    (hcredit : s'.priv.noCredit = s.priv.noCredit)
    (hflow : ∀ i, (s'.tx.flowCtrl i).flow = (s.tx.flowCtrl i).flow)
    (hnum : s'.tx.colorNum = s.tx.colorNum)
    (hbatch : s'.batch.isSome = true → s.batch.isSome = true) : Inv s' :=
  ⟨hpcie.trans h.pcie, hcredit.trans h.noCredit, h.nonneg.congr hflow,
    fun hb => (h.covered (hbatch hb)).congr hflow hnum⟩

/-- Asking how many packets may be sent leaves the credits. -/
theorem testSendNum_flow {dataNum : ℤ} (i : Fin maxColorBit) :
    ((testSendNum priv tx mode dataNum).1.flowCtrl i).flow = (tx.flowCtrl i).flow ∧
      (testSendNum priv tx mode dataNum).1.colorNum = tx.colorNum := by
  have hfind := @findColorPerMode_flow priv tx mode i
  rw [testSendNum]
  split_ifs
  · exact ⟨rfl, rfl⟩
  · exact ⟨rfl, rfl⟩
  · exact ⟨rfl, rfl⟩
  · split
    · rename_i tx' heq
      rw [heq] at hfind
      exact hfind
    · rename_i tx' k heq
      rw [heq] at hfind
      dsimp only
      split_ifs
      · exact hfind
      · exact hfind

theorem addShareCredit_flow (i : Fin maxColorBit) :
    ((addShareCredit tx mode).flowCtrl i).flow = (tx.flowCtrl i).flow ∧
      (addShareCredit tx mode).colorNum = tx.colorNum := by
  rw [addShareCredit]
  split
  · rename_i k _
    refine ⟨?_, rfl⟩
    dsimp only
    rcases eq_or_ne i k with rfl | hi
    · rw [Function.update_self]
    · rw [Function.update_of_ne hi]
  · exact ⟨rfl, rfl⟩

/-- Taking the credits of a batch leaves no negative number of them. -/
theorem handleTxReturn_nonneg {sendNum ret : ℤ} (h : NonNeg tx) (hcovered : Covered tx) :
    NonNeg (handleTxReturn priv tx sendNum ret) := by
  rw [handleTxReturn]
  split_ifs
  · exact h
  · exact h
  · intro i
    obtain ⟨hi, hi'⟩ := h i
    obtain ⟨hc, hc'⟩ := hcovered i
    dsimp only
    split_ifs
    · exact ⟨hi, hi'⟩
    · dsimp only
      rw [s32_eq (by omega) (by omega)]
      omega

/-- Resetting a colour takes its credits and what a batch takes of them. -/
theorem resetColor_covered {k : Fin maxColorBit} (h : NonNeg tx) :
    NonNeg (resetColor tx k) ∧ (Covered tx → Covered (resetColor tx k)) := by
  refine ⟨fun i => ?_, fun hc i => ?_⟩
  all_goals
    rw [resetColor]
    dsimp only
    rcases eq_or_ne i k with rfl | hi
  · rw [Function.update_self]
    exact ⟨le_rfl, by norm_num⟩
  · rw [Function.update_of_ne hi]
    exact h i
  · rw [Function.update_self, Function.update_self]
    exact ⟨le_rfl, le_rfl⟩
  · rw [Function.update_of_ne hi, Function.update_of_ne hi]
    exact hc i

/-- Colors that are reset have no credit, and none is missing. -/
theorem resetColors_covered {is : List (Fin maxColorBit)} (h : NonNeg tx) :
    NonNeg (is.foldl resetColor tx) ∧ (Covered tx → Covered (is.foldl resetColor tx)) := by
  induction is generalizing tx with
  | nil => exact ⟨h, id⟩
  | cons k is ih =>
    obtain ⟨hk, hk'⟩ := @resetColor_covered tx k h
    exact ⟨(ih hk).1, fun hc => (ih hk).2 (hk' hc)⟩

/-- What the firmware gives or resets covers what was covered. -/
theorem processCredit_covered (event : Bool) {flow : Fin maxColorBit → UInt8} (h : NonNeg tx)
    (hflow : ∀ i, (tx.flowCtrl i).flow + (flow i).toNat < 2 ^ 31) :
    NonNeg (processCredit tx event flow) ∧
      (Covered tx → Covered (processCredit tx event flow)) := by
  -- The credits of the firmware are added first.
  set tx' : TxMsg := { tx with
    flowCtrl := fun i =>
      let fc := tx.flowCtrl i
      if flow i = 0 then fc else { fc with flow := s32 (fc.flow + (flow i).toNat) } } with htx'
  have hadd : ∀ i, (tx'.flowCtrl i).flow = (tx.flowCtrl i).flow + (flow i).toNat := by
    intro i
    have hi := h i
    have hlt := hflow i
    rw [htx']
    dsimp only
    split_ifs with hzero
    · rw [hzero]
      exact (add_zero _).symm
    · exact s32_eq (by omega) hlt
  have hnn : NonNeg tx' := fun i => by
    have hi := h i
    have hlt := hflow i
    rw [hadd i]
    omega
  have hcov : Covered tx → Covered tx' := fun hc i => by
    have hi := hc i
    rw [hadd i]
    exact ⟨hi.1, by change tx.colorNum i ≤ _; omega⟩
  -- After a reset of the firmware, the credits of these colors are cleared.
  rw [processCredit]
  dsimp only
  rw [← htx']
  split_ifs
  · exact ⟨hnn, hcov⟩
  · obtain ⟨hreset, hreset'⟩ := @resetColors_covered tx' colors hnn
    exact ⟨hreset, fun hc => hreset' (hcov hc)⟩
  · exact ⟨hnn, hcov⟩

/-- The close of the last interface takes all credits, the close of another one none. -/
theorem txStatusAfterClose_covered (priv : Priv) (mode : Mode) (h : NonNeg tx) :
    NonNeg (txStatusAfterClose priv tx mode) ∧
      ((allClosed priv = true → ∀ i, tx.colorNum i = 0) → Covered tx →
        Covered (txStatusAfterClose priv tx mode)) := by
  rw [txStatusAfterClose]
  split_ifs with hclosed
  · refine ⟨fun _ => ⟨le_rfl, by norm_num⟩, fun hnum _ i => ?_⟩
    change 0 ≤ tx.colorNum i ∧ tx.colorNum i ≤ 0
    rw [hnum hclosed i]
    exact ⟨le_rfl, le_rfl⟩
  · have hflow : ∀ i, (if (tx.flowCtrl i).mode = mode then
        { tx.flowCtrl i with mode := .none } else tx.flowCtrl i).flow = (tx.flowCtrl i).flow := by
      intro i
      split_ifs <;> rfl
    exact ⟨h.congr hflow, fun _ hc => hc.congr hflow rfl⟩

/-- What one step preserves. -/
theorem step_inv (h : Inv s) (hclean : Clean s e) (hs : s.step e = some s') : Inv s' := by
  cases e with
  | test mode total =>
    cases hs
    exact h.congr rfl rfl (fun i => (testSendNum_flow i).1) (testSendNum_flow firstColor).2 id
  | compute mode toSendNum =>
    rw [State.step] at hs
    split at hs
    · cases hs
    · generalize hr : getSendNum s.priv s.tx mode toSendNum = r at hs
      obtain ⟨tx, credit⟩ := r
      cases hs
      by_cases hcond : toSendNum ≤ 0 ∨ mode = .none
      · -- Nothing is sent, and no batch begins.
        rw [getSendNum, if_pos hcond] at hr
        cases hr
        exact ⟨h.pcie, h.noCredit, h.nonneg, fun hb => absurd hb Bool.false_ne_true⟩
      · -- A batch begins, which takes no more than there is.
        obtain ⟨hpos, hmode⟩ := not_or.1 hcond
        obtain ⟨hflow, hcovered⟩ :=
          getSendNum_covered h.pcie h.noCredit h.nonneg (not_le.1 hpos) hmode
        rw [hr] at hflow hcovered
        exact ⟨h.pcie, h.noCredit, h.nonneg.congr hflow, fun _ => hcovered⟩
  | tag =>
    rw [State.step] at hs
    split at hs
    · cases hs
    · rename_i hbatch
      split_ifs at hs
      cases hs
      exact h.congr rfl rfl (fun _ => rfl) rfl (fun _ => by rw [hbatch]; rfl)
  | account ret =>
    rw [State.step] at hs
    split at hs
    · cases hs
    · -- The batch is there, so that what it takes is covered.
      rename_i hbatch
      cases hs
      have hcovered := h.covered (by rw [hbatch]; rfl)
      exact ⟨h.pcie, h.noCredit, handleTxReturn_nonneg h.nonneg hcovered,
        fun hb => absurd hb Bool.false_ne_true⟩
  | credit event flow =>
    cases hs
    obtain ⟨hnn, hcov⟩ := processCredit_covered event h.nonneg hclean
    exact ⟨h.pcie, h.noCredit, hnn, fun hb => hcov (h.covered hb)⟩
  | setStat mode stat =>
    cases hs
    exact h.congr rfl rfl (fun _ => rfl) rfl id
  | close mode =>
    cases hs
    obtain ⟨hnn, hcov⟩ := txStatusAfterClose_covered s.priv mode h.nonneg
    refine ⟨h.pcie, h.noCredit, hnn, fun hb => hcov (fun hclosed => ?_) (h.covered hb)⟩
    -- The last interface closes: no batch is in the making, or it takes nothing.
    rcases hclean hclosed with hnone | hzero
    · rw [Option.isNone_iff_eq_none] at hnone
      dsimp only at hb
      rw [hnone] at hb
      exact absurd hb Bool.false_ne_true
    · exact hzero
  | disconnect mode =>
    cases hs
    exact h.congr rfl rfl (fun i => (addShareCredit_flow i).1)
      (addShareCredit_flow firstColor).2 id

/-- In runs where the counters do not overflow, and where no batch in the making takes
    credits when the last interface closes, no colour has a negative number of credits, and
    a batch that begins takes no more of a colour than there are. -/
theorem credits_nonneg {es : List Event} (hclean : transmit.Along Clean .init es)
    (hrun : transmit.run .init es = some s) :
    (∀ i, 0 ≤ (s.tx.flowCtrl i).flow) ∧
      ∀ mode ≠ .none, ∀ dataNum > 0, ∀ i,
        (getSendNum s.priv s.tx mode dataNum).1.colorNum i ≤ (s.tx.flowCtrl i).flow := by
  have hinit : Inv .init :=
    ⟨rfl, rfl, fun _ => ⟨le_rfl, by change (0 : ℤ) < 2 ^ 31; norm_num⟩,
      fun hb => absurd hb Bool.false_ne_true⟩
  have hinv := Machine.invariant (I := Inv) (fun s e s' h hG hs => step_inv h hG hs) hinit
    hclean hrun
  refine ⟨fun i => (hinv.nonneg i).1, fun mode hmode dataNum hdata i => ?_⟩
  obtain ⟨hflow, hcovered⟩ :=
    getSendNum_covered hinv.pcie hinv.noCredit hinv.nonneg hdata hmode
  exact hflow i ▸ (hcovered i).2

/-! ## Credits that are integers of 32 bits -/

/-- The credits are values of an `int`. -/
def IsInt (tx : TxMsg) : Prop := ∀ i, -2 ^ 31 ≤ (tx.flowCtrl i).flow ∧ (tx.flowCtrl i).flow < 2 ^ 31

theorem s32_isInt (x : ℤ) : -2 ^ 31 ≤ s32 x ∧ s32 x < 2 ^ 31 := by
  unfold s32
  omega

/-- Whether the credits are depends on them only. -/
theorem IsInt.congr (h : IsInt tx) (hflow : ∀ i, (tx'.flowCtrl i).flow = (tx.flowCtrl i).flow) :
    IsInt tx' := fun i => by
  rw [hflow i]
  exact h i

/-- No more credits are shared than a batch needs. -/
theorem sharedLoop_le {num : ℤ} (hnum : num < 2 ^ 8) {is : List (Fin maxColorBit)}
    {colorNum : Fin maxColorBit → ℤ} {shared : ℤ} (hpos : 0 ≤ shared) (hle : shared ≤ num) :
    0 ≤ (sharedLoop tx num is colorNum shared).2 ∧
      (sharedLoop tx num is colorNum shared).2 ≤ num := by
  induction is generalizing colorNum shared with
  | nil => exact ⟨hpos, hle⟩
  | cons k is ih =>
    have hflow : 0 ≤ u32 (tx.flowCtrl k).flow := Int.emod_nonneg _ (by norm_num)
    rw [sharedLoop, u32_eq (x := num - shared) (by omega) (by omega)]
    split_ifs with hshared henough
    · exact ⟨by omega, by omega⟩
    · rw [s32_eq (by omega) (by omega)]
      exact ih (by omega) (by omega)
    · exact ih hpos hle

/-- A batch takes no more credits than it has packets. -/
theorem takeCredits_le (h : IsInt tx) {k : Fin maxColorBit} {dataNum : ℤ} (hpos : 0 < dataNum)
    (hle : dataNum ≤ 100) :
    (takeCredits tx k dataNum).1.flowCtrl = tx.flowCtrl ∧
      (takeCredits tx k dataNum).2 ≤ dataNum := by
  obtain ⟨hk, hk'⟩ := h k
  rw [takeCredits]
  dsimp only
  split_ifs with henough
  · exact ⟨rfl, (u8_eq hpos.le (by omega)).le⟩
  · have hneed : 0 ≤ u8 (dataNum - (tx.flowCtrl k).flow) ∧
        u8 (dataNum - (tx.flowCtrl k).flow) ≤ dataNum - (tx.flowCtrl k).flow ∧
        u8 (dataNum - (tx.flowCtrl k).flow) < 2 ^ 8 := by
      unfold u8
      omega
    obtain ⟨hshared, hshared'⟩ := @sharedLoop_le tx (u8 (dataNum - (tx.flowCtrl k).flow))
      hneed.2.2 colors tx.colorNum 0 le_rfl hneed.1
    refine ⟨rfl, ?_⟩
    rw [getSharedNum]
    dsimp only
    rw [s32_eq (by omega) (by omega)]
    omega

/-- A batch is of no more packets than there are, and leaves the credits. -/
theorem getSendNum_le (priv : Priv) (mode : Mode) (h : IsInt tx) {dataNum : ℤ}
    (hdata : 0 < dataNum) :
    (∀ i, ((getSendNum priv tx mode dataNum).1.flowCtrl i).flow = (tx.flowCtrl i).flow) ∧
      (getSendNum priv tx mode dataNum).2 ≤ dataNum := by
  have hflow := fun i => (@findColorPerMode_flow priv { tx with colorNum := fun _ => 0 } mode i).1
  have hnone : -enomem ≤ dataNum := (neg_nonpos.2 (by decide)).trans hdata.le
  rw [getSendNum]
  split_ifs
  · exact ⟨fun _ => rfl, hdata.le⟩
  · exact ⟨fun _ => rfl, le_rfl⟩
  · exact ⟨fun _ => rfl, min_le_left ..⟩
  · split
    · rename_i tx' hfind
      rw [hfind] at hflow
      exact ⟨hflow, hnone⟩
    · rename_i tx' k hfind
      rw [hfind] at hflow
      obtain ⟨hsame, hle⟩ :=
        takeCredits_le (h.congr hflow) (k := k) (lt_min hdata (by norm_num)) (min_le_right ..)
      dsimp only
      split_ifs
      · exact ⟨fun i => by rw [hsame]; exact hflow i, hnone⟩
      · exact ⟨fun i => by rw [hsame]; exact hflow i, hle.trans (min_le_left ..)⟩

/-- The credits are numbers of an `int` after packets were sent. -/
theorem handleTxReturn_isInt {sendNum ret : ℤ} (h : IsInt tx) :
    IsInt (handleTxReturn priv tx sendNum ret) := by
  rw [handleTxReturn]
  split_ifs
  · exact h
  · exact h
  · intro i
    dsimp only
    split_ifs
    · exact h i
    · exact s32_isInt _

theorem resetColors_isInt {is : List (Fin maxColorBit)} (h : IsInt tx) :
    IsInt (is.foldl resetColor tx) := by
  induction is generalizing tx with
  | nil => exact h
  | cons k is ih =>
    refine ih fun i => ?_
    rw [resetColor]
    rcases eq_or_ne i k with rfl | hi
    · simp
    · simpa [hi] using h i

theorem processCredit_isInt (event : Bool) {flow : Fin maxColorBit → UInt8} (h : IsInt tx) :
    IsInt (processCredit tx event flow) := by
  have hadd : IsInt { tx with
      flowCtrl := fun i =>
        let fc := tx.flowCtrl i
        if flow i = 0 then fc else { fc with flow := s32 (fc.flow + (flow i).toNat) } } := by
    intro i
    dsimp only
    split_ifs
    · exact h i
    · exact s32_isInt _
  rw [processCredit]
  dsimp only
  split_ifs
  · exact hadd
  · exact resetColors_isInt hadd
  · exact hadd

theorem txStatusAfterClose_isInt (priv : Priv) (mode : Mode) (h : IsInt tx) :
    IsInt (txStatusAfterClose priv tx mode) := by
  rw [txStatusAfterClose]
  split_ifs
  · exact fun i => by simp
  · exact h.congr fun i => by
      dsimp only
      split_ifs <;> rfl

/-! ## A batch in the making -/

/-- The firmware gives ten credits of the first colour. -/
def tenCredits : Event := .credit true fun i => if i = firstColor then 10 else 0

/-- A station sends a batch of five packets, of which the first one is tagged. -/
def batch : List Event :=
  [tenCredits, .setStat .station .open, .test .station 5, .compute .station 5, .tag]

/-- Five credits are left after the batch. -/
theorem credits_nonneg_batch : ∃ s, transmit.run .init (batch ++ [.account 0]) = some s ∧
    (s.tx.flowCtrl firstColor).flow = 5 ∧ (∀ i, 0 ≤ (s.tx.flowCtrl i).flow) ∧
    ∀ mode ≠ .none, ∀ dataNum > 0, ∀ i,
      (getSendNum s.priv s.tx mode dataNum).1.colorNum i ≤ (s.tx.flowCtrl i).flow := by
  obtain ⟨s, hs, hflow⟩ : ∃ s, transmit.run .init (batch ++ [.account 0]) = some s ∧
      (s.tx.flowCtrl firstColor).flow = 5 := Machine.exists_run (by decide +kernel)
  exact ⟨s, hs, hflow, credits_nonneg (by decide +kernel) hs⟩

/-- The station closes, as the last interface, before the batch takes its credits. -/
theorem credits_taken_twice : ∃ s, transmit.run .init
      (batch ++ [.setStat .station .close, .close .station, .account 0]) = some s ∧
    (s.tx.flowCtrl firstColor).flow = -5 ∧
    (getSendNum s.priv s.tx .station 1).1.colorNum firstColor = 251 :=
  Machine.exists_run (by decide +kernel)

end W132d.Credit
