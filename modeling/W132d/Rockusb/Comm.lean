import W132d.Footprint
import W132d.Layout

/-!
# Commands over USB

The flashing tool sends a command block to the device, then data to it or from it, and reads a
status (`RKComm.cpp`). A transfer may fail; then the tool gives up.

* `Cbw`: a command block. The numbers of the command in it are big-endian, all others
  little-endian; `ofBytes_toBytes`: it is read as it was written;
* `Usb`: the transfers, which do anything to the state of the device;
* `rkuReadLba`, `rkuWriteLba`, `rkuEraseLba`: the commands to sectors;
* `Obeys`: a device that follows the protocol. It knows what comes next (`Phase`), changes only the
  sectors that a command names, and returns what its sectors hold;
* `rkuReadLba_touches`, `rkuWriteLba_touches`: what the commands then do, also when they fail;
* `Device`: a device that obeys.

What is proved of a command is a Hoare triple over the transfers: from a device that waits for a
command, the command ends, with its data or with an error, and the device has changed only the
sectors that the command names. A transfer that fails leaves the device in whatever phase it is in,
and the tool then does not go on. The triple is put together from those of the three transfers of a
command, its block, its data and its status (`block_ends`, `dataIn_ends`, `dataOut_ends`,
`rkuStatus_ends`), so that the commands differ in their data only. A device that is not `durable`
may lose what is written, but does not write anywhere else.
-/

namespace W132d.Rockusb

open Raising Peek Layout

/-! ## Command blocks -/

/-- `USB_OPERATION_CODE`, as far as sectors go. -/
inductive OperationCode where
  | readLba
  | writeLba
  | eraseLba
  deriving DecidableEq, Repr

/-- The code of an operation. -/
def OperationCode.code : OperationCode → UInt8
  | .readLba => 0x14
  | .writeLba => 0x15
  | .eraseLba => 0x25

/-- `CBW`, of the unit 0. -/
structure Cbw where
  dwCbwTag : ℕ
  dwCbwTransferLength : ℕ
  ucCbwFlags : UInt8
  ucCbwCbLength : UInt8
  ucOperCode : OperationCode
  ucReserved : UInt8
  dwAddress : ℕ
  usLength : ℕ
  deriving DecidableEq, Repr

/-- `CBW_SIGN`. -/
def cbwSign : ℕ := 0x43425355

/-- `CSW_SIGN`. -/
def cswSign : ℕ := 0x53425355

/-- `sizeof(CSW)`. -/
def cswSize : ℕ := 13

namespace Cbw

/-- The block in memory. The address and the length were swapped. -/
def toBytes (cbw : Cbw) : List UInt8 :=
  leBytes 4 cbwSign ++ leBytes 4 cbw.dwCbwTag ++ leBytes 4 cbw.dwCbwTransferLength ++
    [cbw.ucCbwFlags, 0, cbw.ucCbwCbLength, cbw.ucOperCode.code, cbw.ucReserved] ++
    (leBytes 4 cbw.dwAddress).reverse ++ [0] ++ (leBytes 2 cbw.usLength).reverse ++
    List.replicate 7 0

/-- The numbers fit their fields. -/
structure Valid (cbw : Cbw) : Prop where
  dwCbwTag : cbw.dwCbwTag < 2 ^ 32
  dwCbwTransferLength : cbw.dwCbwTransferLength < 2 ^ 32
  dwAddress : cbw.dwAddress < 2 ^ 32
  usLength : cbw.usLength < 2 ^ 16

/-- The block that a device reads. -/
def ofBytes : List UInt8 → Option Cbw
  | [s₀, s₁, s₂, s₃, t₀, t₁, t₂, t₃, l₀, l₁, l₂, l₃, ucCbwFlags, _, ucCbwCbLength, code, ucReserved,
      a₀, a₁, a₂, a₃, _, n₀, n₁, _, _, _, _, _, _, _] => do
    guard (Bytes.le [s₀, s₁, s₂, s₃] = cbwSign)
    let ucOperCode ← [OperationCode.readLba, .writeLba, .eraseLba].find? (·.code = code)
    some {
      dwCbwTag := Bytes.le [t₀, t₁, t₂, t₃]
      dwCbwTransferLength := Bytes.le [l₀, l₁, l₂, l₃]
      ucCbwFlags, ucCbwCbLength, ucOperCode, ucReserved
      dwAddress := Bytes.le [a₃, a₂, a₁, a₀]
      usLength := Bytes.le [n₁, n₀] }
  | _ => none

/-- A device reads the block that was written. -/
theorem ofBytes_toBytes {cbw : Cbw} (h : cbw.Valid) : ofBytes cbw.toBytes = some cbw := by
  have htag := (le_leBytes 4 _).trans (Nat.mod_eq_of_lt h.dwCbwTag)
  have hlen := (le_leBytes 4 _).trans (Nat.mod_eq_of_lt h.dwCbwTransferLength)
  have haddr := (le_leBytes 4 _).trans (Nat.mod_eq_of_lt h.dwAddress)
  have hcount := (le_leBytes 2 _).trans (Nat.mod_eq_of_lt h.usLength)
  have hsign : Bytes.le (leBytes 4 cbwSign) = cbwSign := by decide
  have hcode : [OperationCode.readLba, .writeLba, .eraseLba].find?
      (·.code = cbw.ucOperCode.code) = some cbw.ucOperCode := by
    cases cbw.ucOperCode <;> rfl
  simp only [leBytes] at htag hlen haddr hcount hsign
  simp only [toBytes, leBytes, List.reverse_cons, List.reverse_nil, List.nil_append,
    List.cons_append, List.replicate, ofBytes, hsign, hcode, htag, hlen, haddr, hcount, guard]
  rfl

/-- The sectors of a command are set, and how many bytes are transferred. -/
def setSectors (cbw : Cbw) (dwCbwTransferLength dwAddress usLength : ℕ) : Cbw :=
  { cbw with dwCbwTransferLength, dwAddress, usLength }

section

variable (cbw : Cbw) (dwCbwTransferLength dwAddress usLength : ℕ)

/-- The sectors of a command leave its operation. -/
@[simp] theorem setSectors_ucOperCode :
    (cbw.setSectors dwCbwTransferLength dwAddress usLength).ucOperCode = cbw.ucOperCode := rfl

@[simp] theorem setSectors_dwAddress :
    (cbw.setSectors dwCbwTransferLength dwAddress usLength).dwAddress = dwAddress := rfl

@[simp] theorem setSectors_usLength :
    (cbw.setSectors dwCbwTransferLength dwAddress usLength).usLength = usLength := rfl

end

/-- The bytes that a command may change. -/
def changes (cbw : Cbw) : Set ℕ :=
  match cbw.ucOperCode with
  | .readLba => ∅
  | .writeLba | .eraseLba => Set.Ico (cbw.dwAddress * 512) ((cbw.dwAddress + cbw.usLength) * 512)

end Cbw

/-! ## Transfers -/

variable {σ : Type}

/-- Transfers, which change the state of the device. -/
structure Usb (σ : Type) where
  /-- `libusb_bulk_transfer` to the device, and whether it took all. -/
  bulkOut : List UInt8 → σ → Bool × σ
  /-- `libusb_bulk_transfer` from the device, if it sent as much as was asked for. -/
  bulkIn : ℕ → σ → Option (List UInt8) × σ
  /-- `MakeCBWTag`. -/
  makeCbwTag : σ → ℕ × σ

/-- `ERR_DEVICE_WRITE_FAILED` and the others, and why the tool ends without one. -/
inductive Err where
  | deviceWriteFailed
  | deviceReadFailed
  | cmdNotmatch
  | failed
  | eatFailed
  | dividedByZero
  deriving DecidableEq, Repr

section

variable (usb : Usb σ)

/-- `RKU_Write`. -/
def rkuWrite (bytes : List UInt8) : Raising σ Err Unit := do
  if ← modifyGet (usb.bulkOut bytes) then return () else throw .deviceWriteFailed

/-- `RKU_Read`. -/
def rkuRead (dwSize : ℕ) : Raising σ Err (List UInt8) := do
  match ← modifyGet (usb.bulkIn dwSize) with
  | some bytes => return bytes
  | none => throw .deviceReadFailed

/-- `InitializeCBW`. -/
def initializeCbw (code : OperationCode) : Raising σ Err Cbw := do
  let dwCbwTag ← modifyGet usb.makeCbwTag
  return {
    dwCbwTag
    dwCbwTransferLength := 0
    ucCbwFlags := if code = .readLba then 0x80 else 0
    ucCbwCbLength := 0x0a
    ucOperCode := code
    ucReserved := 0
    dwAddress := 0
    usLength := 0 }

/-- `UFI_CHECK_SIGN`. -/
def checkSign (cbw : Cbw) (csw : List UInt8) : Bool :=
  Bytes.le (csw.take 4) = cswSign ∧ Bytes.le ((csw.drop 4).take 4) = cbw.dwCbwTag

/-- The end of a command: its status. -/
def rkuStatus (cbw : Cbw) : Raising σ Err Unit := do
  let csw ← rkuRead usb cswSize
  if checkSign cbw csw = false then throw .cmdNotmatch
  else if csw[12]? = some 1 then throw .failed
  else return ()

/-- `RKU_ReadLBA`. -/
def rkuReadLba (dwPos dwCount : ℕ) : Raising σ Err (List UInt8) := do
  let usSectorLen := dwCount % 2 ^ 16
  let cbw ← initializeCbw usb .readLba
  let cbw := cbw.setSectors (dwCount * 512 % 2 ^ 32) dwPos usSectorLen
  rkuWrite usb cbw.toBytes
  let lpBuffer ← rkuRead usb (usSectorLen * 512)
  rkuStatus usb cbw
  return lpBuffer

/-- `RKU_WriteLBA`. -/
def rkuWriteLba (dwPos dwCount : ℕ) (lpBuffer : List UInt8) : Raising σ Err Unit := do
  let usCount := dwCount % 2 ^ 16
  let cbw ← initializeCbw usb .writeLba
  let cbw := cbw.setSectors (dwCount * 512 % 2 ^ 32) dwPos usCount
  rkuWrite usb cbw.toBytes
  rkuWrite usb (lpBuffer.take (usCount * 512))
  rkuStatus usb cbw

/-- `RKU_EraseLBA`. -/
def rkuEraseLba (dwPos dwCount : ℕ) : Raising σ Err Unit := do
  let usCount := dwCount % 2 ^ 16
  let cbw ← initializeCbw usb .eraseLba
  let cbw := cbw.setSectors cbw.dwCbwTransferLength dwPos usCount
  rkuWrite usb cbw.toBytes
  rkuStatus usb cbw

end

/-! ## Devices that obey -/

/-- What a device waits for. -/
inductive Phase where
  | command
  | dataIn (cbw : Cbw)
  | dataOut (cbw : Cbw)
  /-- A status is read; the data of the command were these. -/
  | status (cbw : Cbw) (data : List UInt8)
  deriving DecidableEq

/-- What follows a command block. -/
def Cbw.next (cbw : Cbw) : Phase :=
  match cbw.ucOperCode with
  | .readLba => .dataIn cbw
  | .writeLba => .dataOut cbw
  | .eraseLba => .status cbw []

/-- What a command has done with its data. A device that is not durable may lose what is written. -/
def Cbw.Done (cbw : Cbw) (durable : Prop) (data : List UInt8) (mem : ℕ → UInt8) : Prop :=
  match cbw.ucOperCode with
  | .readLba => data = bytesAt mem (cbw.dwAddress * 512) (cbw.usLength * 512)
  | .writeLba => durable → Holds mem (cbw.dwAddress * 512) data
  | .eraseLba => True

/-- A device that follows the protocol, where `storage` is what it holds and `phase` what it waits
    for. It knows no other status than 0 and 1. -/
structure Obeys (usb : Usb σ) (storage : σ → ℕ → UInt8) (phase : σ → Phase) (durable : Prop) :
    Prop where
  /-- Tags have 32 bits. -/
  tag_lt : ∀ s, (usb.makeCbwTag s).1 < 2 ^ 32
  tag_storage : ∀ s, storage (usb.makeCbwTag s).2 = storage s
  tag_phase : ∀ s, phase (usb.makeCbwTag s).2 = phase s
  /-- A command block is taken. -/
  command : ∀ {s} {cbw : Cbw}, phase s = .command → cbw.Valid →
    Set.EqOn (storage (usb.bulkOut cbw.toBytes s).2) (storage s) cbw.changesᶜ ∧
      ((usb.bulkOut cbw.toBytes s).1 = true → phase (usb.bulkOut cbw.toBytes s).2 = cbw.next)
  /-- Data are taken. -/
  dataOut : ∀ {s} {cbw : Cbw} {data}, phase s = .dataOut cbw →
    data.length = cbw.usLength * 512 →
    Set.EqOn (storage (usb.bulkOut data s).2) (storage s) cbw.changesᶜ ∧
      ((usb.bulkOut data s).1 = true → phase (usb.bulkOut data s).2 = .status cbw data)
  /-- Data are sent. -/
  dataIn : ∀ {s} {cbw : Cbw}, phase s = .dataIn cbw →
    Set.EqOn (storage (usb.bulkIn (cbw.usLength * 512) s).2) (storage s) cbw.changesᶜ ∧
      ∀ data, (usb.bulkIn (cbw.usLength * 512) s).1 = some data →
        phase (usb.bulkIn (cbw.usLength * 512) s).2 = .status cbw data
  /-- A status is sent. If it belongs to the command and is not 1, the command was executed. -/
  status : ∀ {s} {cbw : Cbw} {data}, phase s = .status cbw data →
    Set.EqOn (storage (usb.bulkIn cswSize s).2) (storage s) cbw.changesᶜ ∧
      ∀ csw, (usb.bulkIn cswSize s).1 = some csw → checkSign cbw csw = true →
        csw[12]? ≠ some 1 → phase (usb.bulkIn cswSize s).2 = .command ∧
          cbw.Done durable data (storage (usb.bulkIn cswSize s).2)

/-! ## A device -/

/-- A device that executes a command when its status is read. -/
structure Device where
  storage : ℕ → UInt8
  phase : Phase
  /-- The loader runs. -/
  loader : Bool

namespace Device

/-- The data of a command are those that it transfers. -/
def accepts (dev : Device) (cbw : Cbw) (data : List UInt8) : Bool :=
  match cbw.ucOperCode with
  | .readLba => data = bytesAt dev.storage (cbw.dwAddress * 512) (cbw.usLength * 512)
  | .writeLba => data.length = cbw.usLength * 512
  | .eraseLba => true

/-- What the device holds after a command. -/
def execute (dev : Device) (cbw : Cbw) (data : List UInt8) : ℕ → UInt8 :=
  match cbw.ucOperCode with
  | .readLba => dev.storage
  | .writeLba => put dev.storage (cbw.dwAddress * 512) data
  | .eraseLba =>
    put dev.storage (cbw.dwAddress * 512) (List.replicate (cbw.usLength * 512) 0xff)

/-- The status of a command. -/
def csw (cbw : Cbw) (status : UInt8) : List UInt8 :=
  leBytes 4 cswSign ++ leBytes 4 cbw.dwCbwTag ++ leBytes 4 0 ++ [status]

/-- The transfers of the device. -/
def usb : Usb Device where
  bulkOut bytes dev :=
    match dev.phase, Cbw.ofBytes bytes with
    | .command, some cbw => (true, { dev with phase := cbw.next })
    | .dataOut cbw, _ => (true, { dev with phase := .status cbw bytes })
    | _, _ => (false, dev)
  bulkIn dwSize dev :=
    match dev.phase with
    | .dataIn cbw =>
      let data := bytesAt dev.storage (cbw.dwAddress * 512) dwSize
      (some data, { dev with phase := .status cbw data })
    | .status cbw data =>
      if dev.accepts cbw data then
        (some (csw cbw 0), { dev with storage := dev.execute cbw data, phase := .command })
      else (some (csw cbw 1), { dev with phase := .command })
    | _ => (none, dev)
  makeCbwTag dev := (1, dev)

/-- A command that is executed changes the sectors that it names. -/
theorem execute_same {dev : Device} {cbw : Cbw} {data : List UInt8}
    (h : dev.accepts cbw data = true) :
    Set.EqOn (dev.execute cbw data) dev.storage cbw.changesᶜ := by
  have hput {bs : List UInt8} (hlen : bs.length = cbw.usLength * 512) :
      Set.EqOn (put dev.storage (cbw.dwAddress * 512) bs) dev.storage
        (Set.Ico (cbw.dwAddress * 512) ((cbw.dwAddress + cbw.usLength) * 512))ᶜ := by
    intro a ha
    rw [Set.mem_compl_iff, Set.mem_Ico, not_and] at ha
    rw [put]
    split
    case isTrue hle =>
      have hge := ha hle
      have hlate : bs.length ≤ a - cbw.dwAddress * 512 := by omega
      rw [List.getD_eq_getElem?_getD, List.getElem?_eq_none hlate, Option.getD_none]
    case isFalse => rfl
  rw [execute, Cbw.changes]
  rw [accepts] at h
  cases hcode : cbw.ucOperCode with
  | readLba => exact Set.eqOn_refl _ _
  | writeLba =>
    rw [hcode] at h
    exact hput (of_decide_eq_true h)
  | eraseLba => exact hput List.length_replicate

/-- A command that is executed has done what it is for. -/
theorem execute_done {dev : Device} {cbw : Cbw} {data : List UInt8}
    (h : dev.accepts cbw data = true) : cbw.Done True data (dev.execute cbw data) := by
  rw [execute, Cbw.Done]
  rw [accepts] at h
  cases hcode : cbw.ucOperCode with
  | readLba =>
    rw [hcode] at h
    exact of_decide_eq_true h
  | writeLba =>
    intro _
    have hput := bytesAt_put dev.storage data (le_refl (cbw.dwAddress * 512))
    rwa [Nat.sub_self, Nat.zero_add] at hput
  | eraseLba => trivial

/-- The device does what it is told, and keeps what is written. -/
theorem usb_obeys : Obeys usb storage phase True where
  tag_lt _ := Nat.one_lt_two_pow (by decide)
  tag_storage _ := rfl
  tag_phase _ := rfl
  command {s cbw} hphase hvalid := by
    simp only [usb, hphase, Cbw.ofBytes_toBytes hvalid]
    exact ⟨Set.eqOn_refl _ _, fun _ => trivial⟩
  dataOut {s cbw data} hphase _ := by
    simp only [usb, hphase]
    exact ⟨Set.eqOn_refl _ _, fun _ => trivial⟩
  dataIn {s cbw} hphase := by
    simp only [usb, hphase]
    exact ⟨Set.eqOn_refl _ _, fun data hdata => by rw [Option.some.inj hdata]⟩
  status {s cbw data} hphase := by
    simp only [usb, hphase]
    split
    case isTrue haccepts =>
      exact ⟨execute_same haccepts, fun _ _ _ _ => ⟨rfl, execute_done haccepts⟩⟩
    case isFalse =>
      refine ⟨Set.eqOn_refl _ _, fun answer hanswer _ hstatus => ?_⟩
      rw [← Option.some.inj hanswer] at hstatus
      exact absurd rfl hstatus

end Device

/-! ## What the commands do -/

/-- The device waits for `p`, and holds `mem` outside `A`. -/
structure At (storage : σ → ℕ → UInt8) (phase : σ → Phase) (p : Phase) (A : Set ℕ)
    (mem : ℕ → UInt8) (s : σ) : Prop where
  phase : phase s = p
  same : Set.EqOn (storage s) mem Aᶜ

variable {usb : Usb σ} {storage : σ → ℕ → UInt8} {phase : σ → Phase} {durable : Prop}
  {mem : ℕ → UInt8} {I J K : σ → Prop} {cbw : Cbw} {bytes data : List UInt8}
  {dwPos dwCount : ℕ}

/-- A transfer to the device ends where the device says. -/
theorem rkuWrite_ends (h : ∀ s, I s → K (usb.bulkOut bytes s).2 ∧
      ((usb.bulkOut bytes s).1 = true → J (usb.bulkOut bytes s).2)) :
    Ends I (rkuWrite usb bytes) (fun _ => J) K := by
  intro s hs
  obtain ⟨hfail, hok⟩ := h s hs
  rw [rkuWrite, runFrom_bind, runFrom_modifyGet]
  cases htaken : (usb.bulkOut bytes s).1 with
  | true => exact hok htaken
  | false => exact hfail

theorem rkuRead_ends {dwSize : ℕ} {J : List UInt8 → σ → Prop}
    (h : ∀ s, I s → K (usb.bulkIn dwSize s).2 ∧
      ∀ data, (usb.bulkIn dwSize s).1 = some data → J data (usb.bulkIn dwSize s).2) :
    Ends I (rkuRead usb dwSize) J K := by
  intro s hs
  obtain ⟨hfail, hok⟩ := h s hs
  rw [rkuRead, runFrom_bind, runFrom_modifyGet]
  cases hsent : (usb.bulkIn dwSize s).1 with
  | some data => exact hok data hsent
  | none => exact hfail

section

variable (h : Obeys usb storage phase durable)

include h

/-- The device has the command then. -/
theorem command_ends (hvalid : cbw.Valid) :
    Ends (At storage phase .command cbw.changes mem) (rkuWrite usb cbw.toBytes)
      (fun _ => At storage phase cbw.next cbw.changes mem)
      (fun s => Set.EqOn (storage s) mem cbw.changesᶜ) :=
  rkuWrite_ends fun _ hs =>
    have ⟨hsame, hphase⟩ := h.command hs.phase hvalid
    ⟨hsame.trans hs.same, fun htaken => ⟨hphase htaken, hsame.trans hs.same⟩⟩

theorem dataOut_ends (hdata : data.length = cbw.usLength * 512) :
    Ends (At storage phase (.dataOut cbw) cbw.changes mem) (rkuWrite usb data)
      (fun _ => At storage phase (.status cbw data) cbw.changes mem)
      (fun s => Set.EqOn (storage s) mem cbw.changesᶜ) :=
  rkuWrite_ends fun _ hs =>
    have ⟨hsame, hphase⟩ := h.dataOut hs.phase hdata
    ⟨hsame.trans hs.same, fun htaken => ⟨hphase htaken, hsame.trans hs.same⟩⟩

theorem dataIn_ends :
    Ends (At storage phase (.dataIn cbw) cbw.changes mem) (rkuRead usb (cbw.usLength * 512))
      (fun data => At storage phase (.status cbw data) cbw.changes mem)
      (fun s => Set.EqOn (storage s) mem cbw.changesᶜ) :=
  rkuRead_ends fun _ hs =>
    have ⟨hsame, hphase⟩ := h.dataIn hs.phase
    ⟨hsame.trans hs.same, fun data hsent => ⟨hphase data hsent, hsame.trans hs.same⟩⟩

theorem rkuStatus_ends :
    Ends (At storage phase (.status cbw data) cbw.changes mem) (rkuStatus usb cbw)
      (fun _ s => At storage phase .command cbw.changes mem s ∧ cbw.Done durable data (storage s))
      (fun s => Set.EqOn (storage s) mem cbw.changesᶜ) := by
  have hread : Ends (At storage phase (.status cbw data) cbw.changes mem) (rkuRead usb cswSize)
      (fun csw s => Set.EqOn (storage s) mem cbw.changesᶜ ∧ (checkSign cbw csw = true →
        csw[12]? ≠ some 1 → phase s = .command ∧ cbw.Done durable data (storage s)))
      (fun s => Set.EqOn (storage s) mem cbw.changesᶜ) :=
    rkuRead_ends fun _ hs =>
      have ⟨hsame, hdone⟩ := h.status hs.phase
      ⟨hsame.trans hs.same, fun csw hsent => ⟨hsame.trans hs.same, hdone csw hsent⟩⟩
  refine hread.bind fun csw => Ends.ite (fun _ s hs => hs.1) fun hsign => Ends.ite
    (fun _ s hs => hs.1) fun hstatus s hs => ?_
  obtain ⟨hphase, hdone⟩ := hs.2 (Bool.eq_true_of_not_eq_false hsign) hstatus
  exact ⟨⟨hphase, hs.1⟩, hdone⟩

/-- Making up a command changes nothing. -/
theorem initializeCbw_ends (code : OperationCode) :
    Ends (fun s => phase s = .command ∧ storage s = mem) (initializeCbw usb code)
      (fun cbw s => (phase s = .command ∧ storage s = mem) ∧ cbw.ucOperCode = code ∧
        cbw.dwCbwTransferLength = 0 ∧ cbw.dwCbwTag < 2 ^ 32) K :=
  fun s hs => ⟨⟨(h.tag_phase s).trans hs.1, (h.tag_storage s).trans hs.2⟩, rfl, rfl, h.tag_lt s⟩

/-- A command, after its block. -/
theorem block_ends {α : Type} {J : α → σ → Prop} {rest : Raising σ Err α} (hvalid : cbw.Valid)
    (hrest : Ends (At storage phase cbw.next cbw.changes mem) rest J
      (fun s => Set.EqOn (storage s) mem cbw.changesᶜ)) :
    Ends (fun s => phase s = .command ∧ storage s = mem)
      (rkuWrite usb cbw.toBytes >>= fun _ => rest) J
      (fun s => Set.EqOn (storage s) mem cbw.changesᶜ) :=
  fun s hs => ((command_ends h hvalid).bind fun _ => hrest) s ⟨hs.1, fun a _ => congrFun hs.2 a⟩

/-- What is read is what the device holds. -/
theorem rkuReadLba_touches (hpos : dwPos < 2 ^ 32) (hcount : dwCount < 2 ^ 16) :
    Touches (phase · = .command) storage ∅ (rkuReadLba usb dwPos dwCount)
      fun data mem => data = bytesAt mem (dwPos * 512) (dwCount * 512) := by
  intro mem
  rw [rkuReadLba, Nat.mod_eq_of_lt hcount]
  refine (initializeCbw_ends h OperationCode.readLba).bind fun cbw =>
    ends_and fun ⟨hcode, _, htag⟩ => ?_
  set block := cbw.setSectors (dwCount * 512 % 2 ^ 32) dwPos dwCount with hblock
  have hvalid : block.Valid := ⟨htag, Nat.mod_lt _ (by decide), hpos, hcount⟩
  have hchanges : block.changes = ∅ := by simp [Cbw.changes, hblock, hcode]
  have hnext : block.next = .dataIn block := by simp [Cbw.next, hblock, hcode]
  rw [← hchanges]
  refine block_ends h hvalid ?_
  rw [hnext]
  refine (dataIn_ends h).bind fun data => (rkuStatus_ends h).bind fun _ => ?_
  refine ends_pure _ fun s hs => ⟨hs.1.phase, hs.1.same, ?_⟩
  simpa [Cbw.Done, hblock, hcode] using hs.2

/-- A write changes the sectors that it names only. -/
theorem rkuWriteLba_touches (hpos : dwPos < 2 ^ 32) (hcount : dwCount < 2 ^ 16)
    (hdata : dwCount * 512 ≤ data.length) :
    Touches (phase · = .command) storage (Set.Ico (dwPos * 512) ((dwPos + dwCount) * 512))
      (rkuWriteLba usb dwPos dwCount data)
      fun _ mem => durable → Holds mem (dwPos * 512) (data.take (dwCount * 512)) := by
  intro mem
  rw [rkuWriteLba, Nat.mod_eq_of_lt hcount]
  refine (initializeCbw_ends h OperationCode.writeLba).bind fun cbw =>
    ends_and fun ⟨hcode, _, htag⟩ => ?_
  set block := cbw.setSectors (dwCount * 512 % 2 ^ 32) dwPos dwCount with hblock
  have hvalid : block.Valid := ⟨htag, Nat.mod_lt _ (by decide), hpos, hcount⟩
  have hchanges : block.changes = Set.Ico (dwPos * 512) ((dwPos + dwCount) * 512) := by
    simp [Cbw.changes, hblock, hcode]
  have hnext : block.next = .dataOut block := by simp [Cbw.next, hblock, hcode]
  have hlen : (data.take (dwCount * 512)).length = block.usLength * 512 :=
    List.length_take_of_le hdata
  rw [← hchanges]
  refine block_ends h hvalid ?_
  rw [hnext]
  refine (dataOut_ends h hlen).bind fun _ => (rkuStatus_ends h).mono fun _ s hs => ?_
  refine ⟨hs.1.phase, hs.1.same, ?_⟩
  simpa [Cbw.Done, hblock, hcode] using hs.2

/-- An erase changes the sectors that it names only. -/
theorem rkuEraseLba_touches (hpos : dwPos < 2 ^ 32) (hcount : dwCount < 2 ^ 16) :
    Touches (phase · = .command) storage (Set.Ico (dwPos * 512) ((dwPos + dwCount) * 512))
      (rkuEraseLba usb dwPos dwCount) fun _ _ => True := by
  intro mem
  rw [rkuEraseLba, Nat.mod_eq_of_lt hcount]
  refine (initializeCbw_ends h OperationCode.eraseLba).bind fun cbw =>
    ends_and fun ⟨hcode, htotal, htag⟩ => ?_
  set block := cbw.setSectors cbw.dwCbwTransferLength dwPos dwCount with hblock
  have hvalid : block.Valid := ⟨htag, htotal ▸ by decide, hpos, hcount⟩
  have hchanges : block.changes = Set.Ico (dwPos * 512) ((dwPos + dwCount) * 512) := by
    simp [Cbw.changes, hblock, hcode]
  have hnext : block.next = .status block [] := by simp [Cbw.next, hblock, hcode]
  rw [← hchanges]
  refine block_ends h hvalid ?_
  rw [hnext]
  exact (rkuStatus_ends h).mono fun _ _ hs => ⟨hs.1.phase, hs.1.same, trivial⟩

end

end W132d.Rockusb
