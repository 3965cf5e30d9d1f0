import W132d.Peek

/-!
# The firmware

The firmware of the chip is in a file. It may be one image, a pack of images for several chips
(`WCNM`), of which the one for this chip is selected, or a combination of images that all go to the
chip (`WCNE`), and a mask of eight bytes may be in front. `marlin_request_firmware` reads the begin
of the file. If the image ends behind it, `marlin_firmware_parse_image` reads the image alone, but
looks for it as if there was no mask. `marlin_firmware_write` sends the images in packets.

* `btwifiDownloadFirmware`: the functions of `wcn_boot.c`, with bounds on what they read;
* `images`: where the images of a file are, and where they go to;
* `Downloaded`: nothing outside the buffer is read, and the images are written if it succeeds;
* `Sound`: the condition, and `downloaded_iff`: it is exact for the files that are well-formed.
-/

namespace W132d.Wcn.Firmware

open Peek

/-! ## The chip -/

inductive Model
  | marlin3
  | marlin3l
  | marlin3e
  deriving DecidableEq

inductive Revision
  | aa
  | ab
  | ac
  | ad
  deriving DecidableEq

/-- The chip that was found. The revision may be unknown. -/
structure Chip where
  model : Model
  revision : Option Revision

/-- `FIRMWARE_MAX_SIZE`. -/
def Model.firmwareMaxSize : Model → ℕ
  | marlin3l => 0xe7400
  | _ => 0xf0c00

/-- `IMG_MARLIN3_AA_TAG`, and so on. -/
def tag : Model → Revision → List UInt8
  | .marlin3, .aa => [0x33, 0x30, 0x41, 0x41]
  | .marlin3, .ab => [0x33, 0x30, 0x41, 0x42]
  | .marlin3, .ac => [0x33, 0x30, 0x41, 0x43]
  | .marlin3, .ad => [0x33, 0x30, 0x41, 0x44]
  | .marlin3l, .aa => [0x33, 0x4c, 0x41, 0x41]
  | .marlin3l, .ab => [0x33, 0x4c, 0x41, 0x42]
  | .marlin3l, .ac => [0x33, 0x4c, 0x41, 0x43]
  | .marlin3l, .ad => [0x33, 0x4c, 0x41, 0x44]
  | .marlin3e, .aa => [0x33, 0x45, 0x41, 0x41]
  | .marlin3e, .ab => [0x33, 0x45, 0x41, 0x42]
  | .marlin3e, .ac => [0x33, 0x45, 0x41, 0x43]
  | .marlin3e, .ad => [0x33, 0x45, 0x41, 0x44]

/-- The tags that `marlin_judge_images` looks for. Two chips may have the same image. -/
def Chip.tags (chip : Chip) : List (List UInt8) :=
  match chip.revision with
  | none => []
  | some revision =>
    match chip.model, revision with
    | .marlin3, .ac | .marlin3, .ad => [tag .marlin3 .ac, tag .marlin3 .ad]
    | .marlin3e, .aa | .marlin3e, .ab => [tag .marlin3e .aa, tag .marlin3e .ab]
    | model, revision => [tag model revision]

/-- `IMG_HEAD_MAGIC`, `WCNM`. -/
def imgHeadMagic : List UInt8 := [0x57, 0x43, 0x4e, 0x4d]

/-- `IMG_HEAD_MAGIC_COMBINE`, `WCNE`. -/
def imgHeadMagicCombine : List UInt8 := [0x57, 0x43, 0x4e, 0x45]

/-- `CP_START_ADDR`. -/
def cpStartAddr : ℕ := 0x40500000

/-- `PACKET_SIZE`. -/
def packetSize : ℕ := 32 * 1024

/-! ## Memory -/

/-- A byte outside the buffer is read, or the function returns an error. -/
inductive Stop
  | outside
  | failed
  deriving DecidableEq

/-- A pointer into a buffer: where in the file the byte is from that it points to, and how many
    bytes the buffer has from there on. -/
structure Data where
  base : ℕ
  room : ℕ

/-- The bytes of a file, and what the memory had behind them. -/
def contents (file : List UInt8) (junk : ℕ → UInt8) (pos : ℕ) : UInt8 := file.getD pos (junk pos)

namespace Data

def advance (data : Data) (n : ℕ) : Data := ⟨data.base + n, data.room - n⟩

/-- Bytes behind the pointer. -/
def bytes (data : Data) (mem : ℕ → UInt8) (pos len : ℕ) : Except Stop (List UInt8) :=
  if pos + len ≤ data.room then .ok (bytesAt mem (data.base + pos) len) else .error .outside

/-- An `unsigned int`. -/
def u32 (data : Data) (mem : ℕ → UInt8) (pos : ℕ) : Except Stop ℕ :=
  if pos + 4 ≤ data.room then .ok (numAt mem (data.base + pos) 4) else .error .outside

/-- `bin_magic_is`. -/
def magicIs (data : Data) (mem : ℕ → UInt8) (magic : List UInt8) : Except Stop Bool := do
  return (← data.bytes mem 0 4) = magic

/-- `marlin_fw_get_img_count`, as an `int`. -/
def imgCount (data : Data) (mem : ℕ → UInt8) : Except Stop ℕ := do
  return (Int.bmod (← data.u32 mem 8) (2 ^ 32)).toNat

end Data

/-- `struct marlin_firmware`, with the memory that it is in. -/
structure Fw where
  mem : ℕ → UInt8
  data : Data
  size : ℕ

/-- A packet: the bytes from a position of the file on. -/
structure Write where
  addr : ℕ
  len : ℕ
  pos : ℕ

/-! ## The functions -/

/-- `marlin_request_firmware`: the buffer, behind the mask if there is one. -/
def requestFirmware (maxSize : ℕ) (file : List UInt8) (junk : ℕ → UInt8) (alloc : Bool) :
    Except Stop Fw := do
  if alloc = false then throw .failed
  let mem := contents file junk
  let data : Data := ⟨0, maxSize⟩
  let functionmask ← data.bytes mem 0 8
  if functionmask.getD 0 0 = 0 ∧ functionmask.getD 1 0 = 0 then
    return ⟨mem, data.advance 8, maxSize - 8⟩
  return ⟨mem, data, maxSize⟩

/-- The loop of `marlin_imageinfo_get_from_data`, with `n` images left from the `i`-th on. -/
def imageinfoLoop (data : Data) (mem : ℕ → UInt8) (tag : List UInt8) :
    ℕ → ℕ → Except Stop (Option ℕ)
  | _, 0 => return none
  | i, n + 1 => do
    if (← data.bytes mem (12 + 12 * i) 4) = tag then return some i
    imageinfoLoop data mem tag (i + 1) n

/-- `marlin_imageinfo_get_from_data`. -/
def imageinfoGetFromData (data : Data) (mem : ℕ → UInt8) (tag : List UInt8) :
    Except Stop (Option ℕ) := do
  imageinfoLoop data mem tag 0 (← data.imgCount mem)

/-- `marlin_judge_images`: the image of the first tag that there is one of. -/
def judgeImages (data : Data) (mem : ℕ → UInt8) : List (List UInt8) → Except Stop (Option ℕ)
  | [] => return none
  | tag :: tags => do
    match ← imageinfoGetFromData data mem tag with
    | some i => return some i
    | none => judgeImages data mem tags

/-- `load_firmware_data_path`, with the offset and the size in an `int`. -/
def loadFirmwareData (file : List UInt8) (junk : ℕ → UInt8) (alloc : Bool) (offset size : ℕ) :
    Except Stop ((ℕ → UInt8) × Data) :=
  if alloc = false ∨ Int.bmod size (2 ^ 32) ≤ 0 then throw .failed
  else if Int.bmod offset (2 ^ 32) < 0 then return (junk, ⟨offset, size⟩)
  else return (contents file junk, ⟨offset, size⟩)

/-- `marlin_firmware_parse_image`, but for the second read: the firmware, and the offset and the
    size that the image has. -/
def findImage (chip : Chip) (fw : Fw) : Except Stop (Fw × ℕ × ℕ) := do
  if ← fw.data.magicIs fw.mem imgHeadMagic then
    match ← judgeImages fw.data fw.mem chip.tags with
    | none => throw .failed
    | some i =>
      let size ← fw.data.u32 fw.mem (12 + 12 * i + 8)
      let offset ← fw.data.u32 fw.mem (12 + 12 * i + 4)
      return (⟨fw.mem, fw.data.advance offset, size⟩, offset, size)
  else if ← fw.data.magicIs fw.mem imgHeadMagicCombine then
    -- The last entry, in front of which there is the header if there is none.
    let imgCount ← fw.data.imgCount fw.mem
    let size ← fw.data.u32 fw.mem (12 * imgCount + 8)
    let offset ← fw.data.u32 fw.mem (12 * imgCount + 4)
    let real := (size + offset) % 2 ^ 32
    return (⟨fw.mem, fw.data, (Int.bmod real (2 ^ 32) % 2 ^ 64).toNat⟩, 0, real)
  else return (fw, 0, 0)

/-- `marlin_firmware_parse_image`. -/
def parseImage (chip : Chip) (file : List UInt8) (junk : ℕ → UInt8) (alloc : Bool) (fw : Fw) :
    Except Stop Fw := do
  let oldSize := fw.size
  let (fw, offset, size) ← findImage chip fw
  if Int.bmod (offset + size) (2 ^ 32) > oldSize then
    let (mem, data) ← loadFirmwareData file junk alloc offset size
    return ⟨mem, data, fw.size⟩
  return fw

/-- The loop of `sprdwcn_bus_direct_write_dispack`, with `size` bytes left at `offset`. The writes
    that are `done` tell what the bus returns. -/
def dispackLoop (bus : List Write → ℤ) (data : Data) (addr pos offset size : ℕ)
    (done : List Write) (ret : ℤ) : Except Stop (List Write × ℤ) :=
  if size = 0 then return (done, ret)
  else
    let tempSize := min packetSize size
    if pos + offset + tempSize ≤ data.room then
      let done := done ++ [⟨(addr + offset) % 2 ^ 32, tempSize, data.base + (pos + offset)⟩]
      if bus done < 0 then throw .failed
      else dispackLoop bus data addr pos (offset + tempSize) (size - tempSize) done (bus done)
    else throw .outside
termination_by size
decreasing_by
  have : 0 < packetSize := by decide
  omega

/-- `sprdwcn_bus_direct_write_dispack`, of `size` bytes at `pos`, where its callers fail too if it
    fails. -/
def dispack (bus : List Write → ℤ) (data : Data) (addr pos size : ℕ) (done : List Write) :
    Except Stop (List Write) := do
  let (done, ret) ← dispackLoop bus data addr pos 0 size done 0
  if ret ≠ 0 then throw .failed
  return done

/-- The loop of `marlin_firmware_write`, with `n` images left from the `i`-th on. -/
def combineLoop (bus : List Write → ℤ) (fw : Fw) : ℕ → ℕ → List Write → Except Stop (List Write)
  | _, 0, done => return done
  | i, n + 1, done => do
    let size ← fw.data.u32 fw.mem (12 + 12 * i + 8)
    let offset ← fw.data.u32 fw.mem (12 + 12 * i + 4)
    if (size + offset) % 2 ^ 32 > fw.size then throw .failed
    let addr ← fw.data.u32 fw.mem (12 + 12 * i)
    let done ← dispack bus fw.data addr offset size done
    combineLoop bus fw (i + 1) n done

/-- `marlin_firmware_write`. -/
def firmwareWrite (bus : List Write → ℤ) (fw : Fw) : Except Stop (List Write) := do
  if ← fw.data.magicIs fw.mem imgHeadMagicCombine then
    let imgCount ← fw.data.imgCount fw.mem
    combineLoop bus fw 0 imgCount []
  else dispack bus fw.data cpStartAddr 0 fw.size []

/-- What of the world matters to a download: what the memory had, whether there is memory, and what
    the bus returns. -/
structure World where
  junk : ℕ → UInt8
  junk' : ℕ → UInt8
  alloc : Bool
  alloc' : Bool
  bus : List Write → ℤ

/-- `btwifi_download_firmware`. -/
def btwifiDownloadFirmware (chip : Chip) (file : List UInt8) (w : World) :
    Except Stop (List Write) := do
  let fw ← requestFirmware chip.model.firmwareMaxSize file w.junk w.alloc
  let fw ← parseImage chip file w.junk' w.alloc' fw
  firmwareWrite w.bus fw

/-! ## Images -/

/-- Where an image goes to, and where it is in the file. -/
structure Image where
  addr : ℕ
  pos : ℕ
  size : ℕ

/-- The packets of an image, one behind the other. -/
inductive Covers : Image → List Write → Prop
  | nil (addr pos : ℕ) : Covers ⟨addr, pos, 0⟩ []
  | cons {addr pos size len : ℕ} {ws : List Write} (hpos : 0 < len) (hpacket : len ≤ packetSize)
      (hle : len ≤ size) (hrest : Covers ⟨addr + len, pos + len, size - len⟩ ws) :
      Covers ⟨addr, pos, size⟩ (⟨addr, len, pos⟩ :: ws)

/-- The packets of each image. -/
def Written (images : List Image) (ws : List Write) : Prop :=
  ∃ parts, ws = parts.flatten ∧ List.Forall₂ Covers images parts

section Images

variable (mem : ℕ → UInt8)

def magicAt (pos : ℕ) : List UInt8 := bytesAt mem pos 4

def countAt (pos : ℕ) : ℕ := numAt mem (pos + 8) 4

/-- An image of a combination. -/
def combineImage (pos i : ℕ) : Image where
  addr := numAt mem (pos + (12 + 12 * i)) 4
  pos := pos + numAt mem (pos + (12 + 12 * i + 4)) 4
  size := numAt mem (pos + (12 + 12 * i + 8)) 4

/-- The images of a combination. -/
def combine (pos : ℕ) : List Image := (List.range (countAt mem pos)).map (combineImage mem pos)

/-- The images that an image has. -/
def imagesAt (pos size : ℕ) : List Image :=
  if magicAt mem pos = imgHeadMagicCombine then combine mem pos else [⟨cpStartAddr, pos, size⟩]

/-- The image of a pack with a tag. -/
def indexOf (pos : ℕ) (tag : List UInt8) : Option ℕ :=
  (List.range (countAt mem pos)).find? fun i => bytesAt mem (pos + (12 + 12 * i)) 4 = tag

/-- The image of a pack that is selected. -/
def selected (pos : ℕ) (tags : List (List UInt8)) : Option ℕ := tags.findSome? (indexOf mem pos)

/-- How many entries of a pack are compared until it is found. -/
def looked (pos : ℕ) : List (List UInt8) → ℕ
  | [] => 0
  | tag :: _ => ((indexOf mem pos tag).map (· + 1)).getD (countAt mem pos)

def offsetAt (pos i : ℕ) : ℕ := numAt mem (pos + (12 + 12 * i + 4)) 4

def sizeAt (pos i : ℕ) : ℕ := numAt mem (pos + (12 + 12 * i + 8)) 4

/-- A combination of at least one image, all of which are behind the table. -/
structure CombineWellFormed (pos len : ℕ) : Prop where
  count : 0 < countAt mem pos
  table : 12 + 12 * countAt mem pos ≤ len
  behind : ∀ i < countAt mem pos, 12 + 12 * countAt mem pos ≤ offsetAt mem pos i
  inside : ∀ i < countAt mem pos, offsetAt mem pos i + sizeAt mem pos i ≤ len
  addr : ∀ i < countAt mem pos, (combineImage mem pos i).addr + sizeAt mem pos i ≤ 2 ^ 32

/-- A pack of images. None is shorter than a magic number. -/
structure PackWellFormed (pos len : ℕ) : Prop where
  table : 12 + 12 * countAt mem pos ≤ len
  inside : ∀ i < countAt mem pos, offsetAt mem pos i + sizeAt mem pos i ≤ len
  size : ∀ i < countAt mem pos, 4 ≤ sizeAt mem pos i
  combine : ∀ i < countAt mem pos, magicAt mem (pos + offsetAt mem pos i) = imgHeadMagicCombine →
    CombineWellFormed mem (pos + offsetAt mem pos i) (sizeAt mem pos i)

end Images

/-- The bytes of a file. -/
abbrev fileMem (file : List UInt8) : ℕ → UInt8 := contents file fun _ => 0

/-- The length of the mask. -/
def skip (file : List UInt8) : ℕ := if file.getD 0 0 = 0 ∧ file.getD 1 0 = 0 then 8 else 0

/-- A firmware file. What is in it can be counted with an `int`. -/
structure WellFormed (file : List UInt8) : Prop where
  length : skip file + 4 ≤ file.length
  length_lt : file.length < 2 ^ 31
  pack : magicAt (fileMem file) (skip file) = imgHeadMagic →
    PackWellFormed (fileMem file) (skip file) (file.length - skip file)
  combine : magicAt (fileMem file) (skip file) = imgHeadMagicCombine →
    CombineWellFormed (fileMem file) (skip file) (file.length - skip file)

/-- The images that are for the chip. -/
def images (chip : Chip) (file : List UInt8) : List Image :=
  if magicAt (fileMem file) (skip file) = imgHeadMagic then
    match selected (fileMem file) (skip file) chip.tags with
    | none => []
    | some i =>
      imagesAt (fileMem file) (skip file + offsetAt (fileMem file) (skip file) i)
        (sizeAt (fileMem file) (skip file) i)
  else imagesAt (fileMem file) (skip file) (file.length - skip file)

/-! ## Conditions -/

/-- Nothing outside the buffer is read, and if it ends well, the result has a property. -/
def Safe {α : Type} (m : Except Stop α) (P : α → Prop) : Prop :=
  m ≠ .error .outside ∧ ∀ a, m = .ok a → P a

/-- The images are downloaded, or an error is returned. -/
def Downloaded (chip : Chip) (file : List UInt8) : Prop :=
  ∀ w, Safe (btwifiDownloadFirmware chip file w) (Written (images chip file))

/-- The bytes begin like a combination, and the first of its images that does not end there is said
    to end behind them. -/
def Refused (mem : ℕ → UInt8) (pos size : ℕ) : Prop :=
  magicAt mem pos = imgHeadMagicCombine ∧ ∃ i < (Int.bmod (countAt mem pos) (2 ^ 32)).toNat,
    24 + 12 * i ≤ size ∧ size < (sizeAt mem pos i + offsetAt mem pos i) % 2 ^ 32 ∧
      ∀ j < i, sizeAt mem pos j + offsetAt mem pos j ≤ size

/-- The conditions of a download, with `room` bytes behind the mask in the first buffer. -/
structure Sound (chip : Chip) (file : List UInt8) (room : ℕ) : Prop where
  /-- The entries that are looked at are in the buffer. -/
  looked : magicAt (fileMem file) (skip file) = imgHeadMagic →
    12 * looked (fileMem file) (skip file) chip.tags + 4 ≤ room
  /-- The image is in the buffer, or there is no mask. Otherwise what is read instead is eight bytes
      in front of it, which may be refused. -/
  pack : magicAt (fileMem file) (skip file) = imgHeadMagic →
    ∀ i ∈ selected (fileMem file) (skip file) chip.tags, 24 + 12 * i ≤ room ∧
      (skip file = 0 ∨
        offsetAt (fileMem file) (skip file) i + sizeAt (fileMem file) (skip file) i ≤ room ∨
        Refused (fileMem file) (offsetAt (fileMem file) (skip file) i)
          (sizeAt (fileMem file) (skip file) i))
  /-- The combination is in the buffer, or its table is, and there is no mask. -/
  combine : magicAt (fileMem file) (skip file) = imgHeadMagicCombine →
    12 + 12 * countAt (fileMem file) (skip file) ≤ room ∧
      (skip file = 0 ∨
        offsetAt (fileMem file) (skip file) (countAt (fileMem file) (skip file) - 1) +
          sizeAt (fileMem file) (skip file) (countAt (fileMem file) (skip file) - 1) ≤ room)
  /-- A single image has the size of the buffer. -/
  raw : magicAt (fileMem file) (skip file) ≠ imgHeadMagic →
    magicAt (fileMem file) (skip file) ≠ imgHeadMagicCombine → file.length = room + skip file

end W132d.Wcn.Firmware
