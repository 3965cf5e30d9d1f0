import W132d.Reorder.Entry

/-!
# Works of the sessions

The receive path answers the ADDBAs of the firmware, and asks for a DELBA when the timer of a
session has fired too often. Both are commands to the chip, which take too long for the receive
path. It queues them as works (`SPRDWL_WORK_BA_MGMT`), to be executed one after another by a thread
of their own (`sprdwl_do_work`), which then activates the session.

* `SprdwlWork`: a work has the bytes of what was queued. The response to an ADDBA is queued with
  its session (`SprdwlBaEventData`), a DELBA is not (`SprdwlCmdBa`);
* `SprdwlWork.baMgmt`: executing either, as a response;
* `asQueued_iff`: a work is executed as it was queued exactly if it is a response granting the
  ADDBA and the chip takes the command.

The queue is in `W132d.Reorder.WorkQueue`.
-/

namespace W132d.Reorder

/-! ## What is queued -/

/-- An `unsigned char`. -/
abbrev Byte := Fin (2 ^ 8)

/-- A pointer, as the bytes it is stored in. -/
abbrev Ptr := Fin 8 → Byte

/-- `struct sprdwl_cmd_ba`. -/
structure SprdwlCmdBa where
  type : Byte
  tid : Byte
  da : Fin 6 → Byte
  success : Byte
  deriving DecidableEq

/-- `struct sprdwl_ba_event_data`. -/
structure SprdwlBaEventData where
  addbaRsp : SprdwlCmdBa
  baEntry : Ptr
  staLutIndex : Byte
  deriving DecidableEq

/-- `SPRDWL_ADDBA_RSP_CMD`. -/
def addbaRspCmd : Byte := 1

/-- `SPRDWL_DELBA_CMD`. -/
def delbaCmd : Byte := 2

/-- The size of `struct sprdwl_cmd_ba`, which is packed. -/
def sizeofCmdBa : ℕ := 9

/-- The offset of `sta_lut_index` in `struct sprdwl_ba_event_data`, behind a pointer. -/
def offsetofStaLutIndex : ℕ := sizeofCmdBa + 8

/-- A command as it is stored. -/
def SprdwlCmdBa.bytes (c : SprdwlCmdBa) : List Byte :=
  [c.type, c.tid, c.da 0, c.da 1, c.da 2, c.da 3, c.da 4, c.da 5, c.success]

/-- A response and its session as they are stored. -/
def SprdwlBaEventData.bytes (d : SprdwlBaEventData) : List Byte :=
  d.addbaRsp.bytes ++ [d.baEntry 0, d.baEntry 1, d.baEntry 2, d.baEntry 3, d.baEntry 4, d.baEntry 5,
    d.baEntry 6, d.baEntry 7] ++ [d.staLutIndex]

/-- The command that memory holds. -/
def SprdwlCmdBa.ofMem (mem : ℕ → Byte) : SprdwlCmdBa where
  type := mem 0
  tid := mem 1
  da i := mem (2 + i)
  success := mem 8

/-- The response and its session that memory holds. -/
def SprdwlBaEventData.ofMem (mem : ℕ → Byte) : SprdwlBaEventData where
  addbaRsp := .ofMem mem
  baEntry i := mem (sizeofCmdBa + i)
  staLutIndex := mem offsetofStaLutIndex

/-- What `send_addba_rsp` and `send_delba` queue. -/
inductive BaMgmt
  | addbaRsp (d : SprdwlBaEventData)
  | delba (c : SprdwlCmdBa)
  deriving DecidableEq

namespace BaMgmt

/-- The data of the work. -/
def bytes : BaMgmt → List Byte
  | addbaRsp d => d.bytes
  | delba c => c.bytes

/-- The command. -/
def cmd : BaMgmt → SprdwlCmdBa
  | addbaRsp d => d.addbaRsp
  | delba c => c

/-- A response that grants the ADDBA. -/
def Granted : BaMgmt → Prop
  | addbaRsp d => d.addbaRsp.success = 1
  | delba _ => False

/-- The sessions that are to be activated: that of a granted ADDBA. -/
def calls : BaMgmt → List (Ptr × Byte × Byte)
  | addbaRsp d =>
    if d.addbaRsp.success = 1 then [(d.baEntry, d.staLutIndex, d.addbaRsp.tid)] else []
  | delba _ => []

end BaMgmt

/-- `struct sprdwl_work`, for a virtual interface (by its `ctx_id`). -/
structure SprdwlWork where
  vif : Byte
  id : Byte
  data : List Byte
  deriving DecidableEq

/-- `len`. -/
def SprdwlWork.len (w : SprdwlWork) : ℕ := w.data.length

/-- `SPRDWL_WORK_BA_MGMT`. -/
def sprdwlWorkBaMgmt : Byte := 6

/-- The memory from the data of a work on, and `beyond` it. -/
def SprdwlWork.mem (w : SprdwlWork) (beyond : ℕ → Byte) (i : ℕ) : Byte :=
  w.data.getD i (beyond i)

/-- What was done for a work: the offsets in its data that were read, the commands that were sent
    for an interface, and the calls of `sprdwl_active_ba_node`. -/
structure Handled where
  work : SprdwlWork
  read : List ℕ
  sent : List (Byte × SprdwlCmdBa)
  calls : List (Ptr × Byte × Byte)
  deriving DecidableEq

/-- The case of `SPRDWL_WORK_BA_MGMT` in `sprdwl_do_work`, up to the call of
    `sprdwl_active_ba_node`. In `sprdwl_send_ba_mgmt`, there may be no buffer for the command, or
    the chip does not take it. -/
def SprdwlWork.baMgmt (w : SprdwlWork) (ok : Bool) (beyond : ℕ → Byte) : Handled :=
  let baData := SprdwlBaEventData.ofMem (w.mem beyond)
  { work := w
    -- The command, then the arguments of the call: the pointer, the station and the TID.
    read := (if ok then List.range sizeofCmdBa else []) ++
      List.range' sizeofCmdBa 8 ++ [offsetofStaLutIndex, 1]
    sent := if ok then [(w.vif, baData.addbaRsp)] else []
    calls := [(baData.baEntry, baData.staLutIndex, baData.addbaRsp.tid)] }

/-- The work was executed as `b`. -/
structure Handled.As (h : Handled) (b : BaMgmt) : Prop where
  inside : ∀ i ∈ h.read, i < h.work.len
  sends : h.sent = [(h.work.vif, b.cmd)]
  activates : h.calls = b.calls

/-- The work was executed as what was queued. -/
def Handled.AsQueued (h : Handled) : Prop := ∀ b : BaMgmt, h.work.data = b.bytes → h.As b

section

variable {w : SprdwlWork} {b : BaMgmt} {ok : Bool} {beyond : ℕ → Byte}

theorem ofMem_cmd {c : SprdwlCmdBa} {rest : List Byte} (hw : w.data = c.bytes ++ rest) :
    SprdwlCmdBa.ofMem (w.mem beyond) = c := by
  obtain ⟨type, tid, da, success⟩ := c
  rw [SprdwlCmdBa.ofMem, SprdwlCmdBa.mk.injEq]
  simp only [SprdwlWork.mem, hw]
  refine ⟨rfl, rfl, ?_, rfl⟩
  funext i
  fin_cases i <;> rfl

theorem ofMem_data {d : SprdwlBaEventData} (hw : w.data = d.bytes) :
    SprdwlBaEventData.ofMem (w.mem beyond) = d := by
  have hcmd : SprdwlCmdBa.ofMem (w.mem beyond) = d.addbaRsp := by
    rw [SprdwlBaEventData.bytes, List.append_assoc] at hw
    exact ofMem_cmd hw
  obtain ⟨addbaRsp, baEntry, staLutIndex⟩ := d
  rw [SprdwlBaEventData.ofMem, hcmd]
  simp only [SprdwlWork.mem, hw]
  refine congrArg₂ (SprdwlBaEventData.mk addbaRsp) ?_ rfl
  funext i
  fin_cases i <;> rfl

/-- The bytes of a work tell what was queued. -/
theorem BaMgmt.bytes_injective : Function.Injective BaMgmt.bytes := by
  intro b b' h
  cases b with
  | addbaRsp d =>
    cases b' with
    | addbaRsp d' =>
      have hd : SprdwlBaEventData.ofMem (SprdwlWork.mem ⟨0, 0, d.bytes⟩ fun _ => 0) = d :=
        ofMem_data rfl
      have hd' : SprdwlBaEventData.ofMem (SprdwlWork.mem ⟨0, 0, d.bytes⟩ fun _ => 0) = d' :=
        ofMem_data h
      rw [← hd, hd']
    | delba c' =>
      have hlen : 18 = 9 := congrArg List.length h
      exact absurd hlen (by decide)
  | delba c =>
    cases b' with
    | addbaRsp d' =>
      have hlen : 9 = 18 := congrArg List.length h
      exact absurd hlen (by decide)
    | delba c' =>
      have hc : SprdwlCmdBa.ofMem (SprdwlWork.mem ⟨0, 0, c.bytes⟩ fun _ => 0) = c :=
        ofMem_cmd (List.append_nil _).symm
      have hc' : SprdwlCmdBa.ofMem (SprdwlWork.mem ⟨0, 0, c.bytes⟩ fun _ => 0) = c' :=
        ofMem_cmd (h.trans (List.append_nil _).symm)
      rw [← hc, hc']

theorem asQueued_iff_as (hw : w.data = b.bytes) :
    (w.baMgmt ok beyond).AsQueued ↔ (w.baMgmt ok beyond).As b :=
  ⟨fun h => h b hw, fun h _ hb' => BaMgmt.bytes_injective (hw.symm.trans hb') ▸ h⟩

/-- What a response with its session is executed as. -/
theorem as_addbaRsp_iff {d : SprdwlBaEventData} (hw : w.data = d.bytes) :
    (w.baMgmt ok beyond).As (.addbaRsp d) ↔ ok ∧ d.addbaRsp.success = 1 := by
  have hd : SprdwlBaEventData.ofMem (w.mem beyond) = d := ofMem_data hw
  constructor
  · intro h
    have hsends := h.sends
    have hactivates := h.activates
    simp only [SprdwlWork.baMgmt, BaMgmt.calls, hd] at hsends hactivates
    refine ⟨?_, ?_⟩
    · by_contra hok
      rw [if_neg hok] at hsends
      exact List.cons_ne_nil _ _ hsends.symm
    · by_contra hgranted
      rw [if_neg hgranted] at hactivates
      exact List.cons_ne_nil _ _ hactivates
  · rintro ⟨hok, hgranted⟩
    refine ⟨?_, ?_, ?_⟩
    · intro i hi
      have hlen : w.len = 18 := congrArg List.length hw
      simp only [SprdwlWork.baMgmt, if_pos hok, sizeofCmdBa, offsetofStaLutIndex, List.mem_append,
        List.mem_range, List.mem_range'_1, List.mem_cons, List.not_mem_nil, or_false] at hi
      change i < w.len
      omega
    · simp only [SprdwlWork.baMgmt, if_pos hok, hd, BaMgmt.cmd]
    · simp only [SprdwlWork.baMgmt, BaMgmt.calls, if_pos hgranted, hd]

/-- A DELBA is not: the session is read from beyond its data. -/
theorem not_as_delba {c : SprdwlCmdBa} (hw : w.data = c.bytes) :
    ¬(w.baMgmt ok beyond).As (.delba c) := by
  intro h
  have hlen : w.len = 9 := congrArg List.length hw
  have hlt : offsetofStaLutIndex < w.len := by
    refine h.inside _ (List.mem_append_right _ ?_)
    exact List.mem_cons_self
  rw [hlen] at hlt
  exact absurd hlt (by decide)

/-- A work is executed as it was queued exactly if it grants an ADDBA and the command is sent. -/
theorem asQueued_iff (hw : w.data = b.bytes) :
    (w.baMgmt ok beyond).AsQueued ↔ ok ∧ b.Granted := by
  rw [asQueued_iff_as hw]
  cases b with
  | addbaRsp d => exact as_addbaRsp_iff hw
  | delba c => exact iff_of_false (not_as_delba hw) And.right

end

end W132d.Reorder
