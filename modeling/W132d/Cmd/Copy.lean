import W132d.Cmd.Basic
import W132d.Peek

/-!
# Copies of a response

`sprdwl_rx_rsp_process` stores a response of which the header says that it has `plen` bytes in a
block of that size, and compares `plen` only with what it may be at most. `sprdwl_cmd_send_recv`
reads `plen` again in the block, and copies what is behind the header to the buffer of its caller:
as many bytes as `plen` less the size of the header, in 16 bits, if there is room for them.

* `rxRspProcess`: what is stored of a response;
* `copyRsp`: what the caller gets;
* `CopyBounded`: it gets bytes of the response;
* `copy_bounded_iff`: it does if the header says that the response has a header.
-/

namespace W132d.Cmd

open Peek

variable {T : Type*}

/-- The size of a `struct sprdwl_cmd_hdr`. -/
def sizeofCmdHdr : ℕ := 12

/-- `WIFI_CMD_OPEN`. -/
def wifiCmdOpen : UInt8 := 3

/-- `WIFI_CMD_DOWNLOAD_INI`. -/
def wifiCmdDownloadIni : UInt8 := 76

/-- `SPRDWL_CMD_STATUS_CRC_ERROR`. -/
def cmdStatusCrcError : Int8 := -9

/-- `SPRDWL_CMD_STATUS_INI_INDEX_ERROR`. -/
def cmdStatusIniIndexError : Int8 := -10

/-- `SPRDWL_CMD_STATUS_LENGTH_ERROR`. -/
def cmdStatusLengthError : Int8 := -11

/-! ## The response is stored -/

/-- What the header of a response says. -/
def rspOf (msg : ℕ → UInt8) : Rsp where
  ctxId := msg 0 >>> 5
  cmdId := msg 1
  plen := UInt16.ofNat (numAt msg 2 2)
  mstime := UInt32.ofNat (numAt msg 4 4)

/-- `handle_rsp_status_err`: whether the status is one to assert for. -/
def handleRspStatusErr (cmdId : UInt8) (status : Int8) : Bool :=
  cmdId = wifiCmdDownloadIni ∧ (status = cmdStatusCrcError ∨ status = cmdStatusIniIndexError ∨
    status = cmdStatusLengthError)

/-- A block of memory that was allocated: its size, and what is in memory from where it begins. -/
structure Block where
  size : ℕ
  mem : ℕ → UInt8

/-- The block that a response is stored in, with what is in memory from where it begins. -/
def stored (msg mem : ℕ → UInt8) : Block :=
  ⟨(rspOf msg).plen.toNat, fun i => if i < (rspOf msg).plen.toNat then msg i else mem i⟩

/-- What `sprdwl_rx_rsp_process` does with a response: the length it returns, the block that is
    stored if the slot takes it, and whether to assert. -/
structure Processed where
  ret : UInt16
  data : Option Block
  assert : Bool

/-- `sprdwl_rx_rsp_process`, with what is in memory from where `kmalloc` finds a block, if it
    does. -/
def rxRspProcess (cmd : SprdwlCmd T) (kmalloc : Option (ℕ → UInt8)) (msg : ℕ → UInt8) :
    Processed :=
  if ¬cmd.initOk then ⟨0, none, false⟩
  else
    let hdr := rspOf msg
    if ¬hdr.valid then ⟨0, none, false⟩
    else if cmd.refcnt + 1 ≥ sprdwlCmdExitVal then ⟨0, none, false⟩
    else
      match kmalloc with
      | none => ⟨hdr.plen, none, false⟩
      | some mem =>
        if cmd.takes hdr then
          let status := (msg 8).toInt8
          ⟨hdr.plen, some (stored msg mem), status ≠ 0 ∧ handleRspStatusErr hdr.cmdId status⟩
        else ⟨hdr.plen, none, false⟩

/-! ## The response is copied -/

/-- The buffer of a caller, and its length. -/
structure Caller where
  rbuf : ℕ → UInt8
  rlen : UInt16

/-- What `sprdwl_cmd_send_recv` copies of the block to a caller that has a buffer. It cannot read a
    block of no bytes, which has the address `ZERO_SIZE_PTR`. -/
def copyRsp (cmdId : UInt8) (data : Block) (caller : Caller) : Option Caller :=
  if caller.rlen = 0 then some caller
  else if data.size = 0 then none
  else
    let plen := UInt16.ofNat (numAt data.mem 2 2) - UInt16.ofNat sizeofCmdHdr
    let rlen := min caller.rlen plen
    let rbuf : ℕ → UInt8 := fun i =>
      if i < rlen.toNat then data.mem (sizeofCmdHdr + i) else caller.rbuf i
    let rbuf := if cmdId = wifiCmdOpen then Function.update rbuf 0 (data.mem 0 >>> 5) else rbuf
    some ⟨rbuf, rlen⟩

/-! ## What is right -/

/-- What is copied is the payload of the response, from its begin on, and the rest of the buffer is
    left alone. But for a command that opens, the first byte may be another one. -/
structure CopyBounded (cmdId : UInt8) (msg : ℕ → UInt8) (caller copied : Caller) : Prop where
  rlen : copied.rlen.toNat ≤ caller.rlen.toNat
  payload : copied.rlen.toNat ≤ (rspOf msg).plen.toNat - sizeofCmdHdr
  bytes : ∀ i < copied.rlen.toNat, cmdId = wifiCmdOpen ∧ i = 0 ∨
    copied.rbuf i = msg (sizeofCmdHdr + i)
  rest : ∀ i, copied.rlen.toNat ≤ i → cmdId = wifiCmdOpen ∧ i = 0 ∨ copied.rbuf i = caller.rbuf i

/-- A response that is stored if there is memory for it. -/
structure Accepted (cmd : SprdwlCmd T) (rsp : Rsp) : Prop where
  initOk : cmd.initOk
  valid : rsp.valid
  refcnt : cmd.refcnt + 1 < sprdwlCmdExitVal
  takes : cmd.takes rsp

/-- The block has the whole header. Or nothing is copied of it, since the caller has no room, the
    block has no bytes, or what is read as its length is that of a header. -/
def Copyable (caller : Caller) (data : Block) : Prop :=
  caller.rlen = 0 ∨ data.size = 0 ∨ sizeofCmdHdr ≤ data.size ∨
    data.size < 4 ∧ numAt data.mem 2 2 = sizeofCmdHdr

instance (caller : Caller) (data : Block) : Decidable (Copyable caller data) :=
  inferInstanceAs (Decidable (_ ∨ _ = _ ∨ _ ≤ _ ∨ _ < _ ∧ _ = _))

variable {cmd : SprdwlCmd T} {kmalloc : Option (ℕ → UInt8)} {msg mem : ℕ → UInt8} {data : Block}
  {cmdId : UInt8} {caller copied : Caller}

/-- The check of the header, the count and the slot decide whether a response is stored. -/
theorem data_eq [Decidable (Accepted cmd (rspOf msg))] :
    (rxRspProcess cmd kmalloc msg).data =
      if Accepted cmd (rspOf msg) then kmalloc.map (stored msg) else none := by
  rw [rxRspProcess]
  dsimp only
  by_cases hinit : cmd.initOk
  swap
  · rw [if_pos hinit, if_neg fun h => hinit h.initOk]
  by_cases hvalid : (rspOf msg).valid
  swap
  · rw [if_neg (not_not.2 hinit), if_pos hvalid, if_neg fun h => hvalid h.valid]
  by_cases hrefcnt : cmd.refcnt + 1 < sprdwlCmdExitVal
  swap
  · rw [if_neg (not_not.2 hinit), if_neg (not_not.2 hvalid), if_pos (not_lt.1 hrefcnt),
      if_neg fun h => hrefcnt h.refcnt]
  rw [if_neg (not_not.2 hinit), if_neg (not_not.2 hvalid), if_neg (not_le.2 hrefcnt)]
  by_cases htakes : cmd.takes (rspOf msg)
  · rw [if_pos ⟨hinit, hvalid, hrefcnt, htakes⟩]
    cases kmalloc with
    | none => rfl
    | some mem =>
      dsimp only
      rw [if_pos htakes]
      rfl
  · rw [if_neg fun h => htakes h.takes]
    cases kmalloc with
    | none => rfl
    | some mem =>
      dsimp only
      rw [if_neg htakes]

theorem mem_data_iff : data ∈ (rxRspProcess cmd kmalloc msg).data ↔
    Accepted cmd (rspOf msg) ∧ ∃ mem ∈ kmalloc, data = stored msg mem := by
  classical
  rw [data_eq]
  split_ifs with haccepted
  · simp [haccepted, eq_comm]
  · simp [haccepted]

/-- The length that is read back is that of the response if the block has it. -/
theorem numAt_stored (h : 4 ≤ (stored msg mem).size) :
    numAt (stored msg mem).mem 2 2 = (stored msg mem).size := by
  have hread : numAt (stored msg mem).mem 2 2 = numAt msg 2 2 :=
    numAt_congr fun i hi => if_pos (by rw [stored] at h; dsimp only at h; omega)
  rw [hread]
  exact (Nat.mod_eq_of_lt (numAt_lt msg 2 2)).symm

/-- The length that the copy is made with. -/
def copyLen (caller : Caller) (data : Block) : UInt16 :=
  min caller.rlen (UInt16.ofNat (numAt data.mem 2 2) - UInt16.ofNat sizeofCmdHdr)

theorem copyLen_toNat (caller : Caller) (data : Block) : (copyLen caller data).toNat =
    min caller.rlen.toNat
      (UInt16.ofNat (numAt data.mem 2 2) - UInt16.ofNat sizeofCmdHdr).toNat := by
  rw [copyLen]
  change (if _ ≤ _ then _ else _ : UInt16).toNat = _
  split_ifs with hle
  · exact (min_eq_left (UInt16.le_iff_toNat_le.1 hle)).symm
  · exact (min_eq_right (UInt16.le_iff_toNat_le.1 (UInt16.le_of_lt (UInt16.not_le.1 hle)))).symm

/-- What is copied, but for the first byte of a command that opens. -/
theorem copyRsp_eq (hrlen : caller.rlen ≠ 0) (h : copied ∈ copyRsp cmdId data caller) :
    copied.rlen = copyLen caller data ∧ ∀ i, cmdId = wifiCmdOpen ∧ i = 0 ∨ copied.rbuf i =
      if i < (copyLen caller data).toNat then data.mem (sizeofCmdHdr + i) else caller.rbuf i := by
  rw [copyRsp, if_neg hrlen] at h
  by_cases hsize : data.size = 0
  · rw [if_pos hsize] at h
    exact absurd h (Option.not_mem_none _)
  · rw [if_neg hsize] at h
    rw [← Option.some.inj h]
    refine ⟨rfl, fun i => ?_⟩
    by_cases hopen : cmdId = wifiCmdOpen
    · by_cases hi : i = 0
      · exact .inl ⟨hopen, hi⟩
      · right
        dsimp only
        rw [if_pos hopen, Function.update_of_ne hi]
        rfl
    · right
      dsimp only
      rw [if_neg hopen]
      rfl

/-- What is copied is bounded if it is not more than the payload. -/
theorem copyBounded_iff (hrlen : caller.rlen ≠ 0)
    (h : copied ∈ copyRsp cmdId (stored msg mem) caller) :
    CopyBounded cmdId msg caller copied ↔
      (copyLen caller (stored msg mem)).toNat ≤ (stored msg mem).size - sizeofCmdHdr := by
  obtain ⟨heq, hrbuf⟩ := copyRsp_eq hrlen h
  constructor
  · exact fun hbounded => heq ▸ hbounded.payload
  · intro hle
    refine ⟨?_, heq ▸ hle, fun i hi => (hrbuf i).imp_right fun hi' => ?_,
      fun i hi => (hrbuf i).imp_right fun hi' => ?_⟩
    · rw [heq, copyLen_toNat]
      exact min_le_left _ _
    · have hsize : (stored msg mem).size = (rspOf msg).plen.toNat := rfl
      rw [hsize] at hle
      rw [heq] at hi
      rw [hi', if_pos hi]
      exact if_pos (by omega)
    · rw [heq] at hi
      rw [hi', if_neg (not_lt.2 hi)]

/-- A response can be copied exactly if what is copied is bounded. -/
theorem copyable_iff : (∀ copied ∈ copyRsp cmdId (stored msg mem) caller,
    CopyBounded cmdId msg caller copied) ↔ Copyable caller (stored msg mem) := by
  by_cases hrlen : caller.rlen = 0
  · refine iff_of_true (fun copied h => ?_) (.inl hrlen)
    rw [copyRsp, if_pos hrlen] at h
    rw [← Option.some.inj h]
    refine ⟨le_rfl, ?_, fun i hi => ?_, fun i hi => .inr rfl⟩
    · rw [hrlen]
      exact Nat.zero_le _
    · rw [hrlen] at hi
      exact absurd hi (Nat.not_lt_zero _)
  by_cases hsize : (stored msg mem).size = 0
  · refine iff_of_true (fun copied h => ?_) (.inr (.inl hsize))
    rw [copyRsp, if_neg hrlen, if_pos hsize] at h
    exact absurd h (Option.not_mem_none _)
  have hpos : 0 < caller.rlen.toNat :=
    Nat.pos_of_ne_zero fun h => hrlen (UInt16.toNat_inj.1 h)
  have hlt := numAt_lt (stored msg mem).mem 2 2
  have hlen := copyLen_toNat caller (stored msg mem)
  rw [UInt16.toNat_sub, UInt16.toNat_ofNat', UInt16.toNat_ofNat', sizeofCmdHdr] at hlen
  have hiff : Copyable caller (stored msg mem) ↔
      (copyLen caller (stored msg mem)).toNat ≤ (stored msg mem).size - sizeofCmdHdr := by
    rw [Copyable, or_iff_right hrlen, or_iff_right hsize, hlen, sizeofCmdHdr]
    by_cases hle : 4 ≤ (stored msg mem).size
    · rw [numAt_stored hle] at hlt ⊢
      omega
    · omega
  rw [hiff]
  constructor
  · intro h
    -- Otherwise a response is copied, and no more of it than was stored.
    have hcopied : ∃ copied, copied ∈ copyRsp cmdId (stored msg mem) caller := by
      rw [copyRsp, if_neg hrlen, if_neg hsize]
      exact ⟨_, rfl⟩
    obtain ⟨copied, hcopied⟩ := hcopied
    exact (copyBounded_iff hrlen hcopied).1 (h copied hcopied)
  · exact fun hle copied h => (copyBounded_iff hrlen h).2 hle

/-- For all responses and for all callers, what is copied is the payload of the response, exactly
    if the response has a header, or nothing is copied. -/
theorem copy_bounded_iff (cmd : SprdwlCmd T) (kmalloc : Option (ℕ → UInt8)) (msg : ℕ → UInt8)
    (caller : Caller) :
    (∀ data ∈ (rxRspProcess cmd kmalloc msg).data, ∀ copied ∈ copyRsp cmd.cmdId data caller,
        CopyBounded cmd.cmdId msg caller copied) ↔
      (Accepted cmd (rspOf msg) → ∀ mem ∈ kmalloc, Copyable caller (stored msg mem)) := by
  constructor
  · intro h haccepted mem hmem
    exact copyable_iff.1 (h _ (mem_data_iff.2 ⟨haccepted, mem, hmem, rfl⟩))
  · intro h data hdata
    obtain ⟨haccepted, mem, hmem, rfl⟩ := mem_data_iff.1 hdata
    exact copyable_iff.2 (h haccepted mem hmem)

/-- A response of eight bytes to `WIFI_CMD_GET_INFO`: as many bytes are copied as the caller has
    room for. -/
theorem not_copy_bounded : ¬∀ (cmd : SprdwlCmd Unit) kmalloc msg caller,
    ∀ data ∈ (rxRspProcess cmd kmalloc msg).data, ∀ copied ∈ copyRsp cmd.cmdId data caller,
      CopyBounded cmd.cmdId msg caller copied := by
  intro h
  set msg : ℕ → UInt8 := fun i => if i = 1 then 1 else if i = 2 then 8 else 0 with hmsg
  have hcopyable := copyable_iff.1 (h { SprdwlCmd.init with cmdId := 1 } (some fun _ => 0) msg
    ⟨fun _ => 0, 383⟩ (stored msg fun _ => 0) (mem_data_iff.2 ⟨⟨rfl, by decide, by decide,
      by decide⟩, _, rfl, rfl⟩))
  exact absurd hcopyable (by decide)

end W132d.Cmd
