import W132d.Commands

/-!
# Flashing an image

An image for the board is flashed in two segments, before and after a range of sectors that
is reserved for the board's own data (`flash.py`).

* `validate`: the check of a manifest against the files it names;
* `flash`: writing the segments to the device and reading them back, or only reading
  (`verifyOnly`).

The tool that talks to the device is the environment of a program (`W132d.Commands`): it
replies anything to a command. Parameters are the hash function, and what the regular
expressions find in the output of the tool.
-/

namespace W132d.Flash

/-! ## Manifests -/

/-- A segment of the image. -/
structure Segment where
  file : String
  sector : ℤ
  size : ℤ
  sha256 : String
  deriving DecidableEq, Repr

/-- A boot component, which is a part of a segment. -/
structure BootComponent where
  sector : ℤ
  size : ℤ
  sha256 : String
  deriving DecidableEq, Repr

/-- The layout of the boot components. -/
structure Layout where
  idbloaderSector : ℤ
  ubootSector : ℤ
  partitionOffsetMib : ℤ
  deriving DecidableEq, Repr

/-- The fields of `flash-manifest.json` that are read here. -/
structure Manifest where
  schema : ℤ
  sectorSize : ℤ
  preserveSectors : List ℤ
  imageSize : ℤ
  segments : List Segment
  bootComponents : List (String × BootComponent)
  layout : Layout
  loaderFile : String
  loaderSha256 : String
  deriving DecidableEq, Repr

/-- The files of a directory: the contents of the one that a name stands for, if it is one
    inside the directory. -/
abbrev Directory := String → Option (List UInt8)

/-- `contained`. -/
def contained (d : Directory) (name : String) : Except String (List UInt8) :=
  match d name with
  | some data => .ok data
  | none => .error ("Missing or unsafe artifact path: " ++ name)

/-- `if p: raise ValueError(msg)`. -/
def raiseIf (p : Prop) [Decidable p] (msg : String) : Except String Unit :=
  if p then .error msg else .ok ()

section

variable (sha256 : List UInt8 → String) (d : Directory)

/-- A turn of the loop over the segments in `validate`: where the segment ends. -/
def checkSegment (low high stop : ℤ) (item : Segment) : Except String ℤ := do
  let p ← contained d item.file
  raiseIf (p.length ≠ item.size ∨ sha256 p ≠ item.sha256)
    ("Artifact checksum or size mismatch: " ++ item.file)
  raiseIf (item.sector < stop ∨ item.size % 512 ≠ 0 ∨ item.size ≤ 0)
    "Overlapping or unaligned flash segments"
  let stop := item.sector + item.size / 512
  raiseIf (item.sector < high ∧ stop > low) "Flash segment overlaps reserved device storage"
  return stop

/-- The checks of the segments in `validate`, which returns them in the order of their
    sectors, with the start of the reserved range. -/
def checkSegments (manifest : Manifest) : Except String (ℤ × List Segment) := do
  raiseIf (manifest.schema ≠ 1 ∨ manifest.sectorSize ≠ 512) "Unsupported flash manifest"
  match manifest.preserveSectors with
  | [low, high] =>
    raiseIf (¬(0 < low ∧ low < high) ∨ manifest.imageSize ≤ high * 512)
      "Invalid reserved storage range or image size"
    let segments := manifest.segments.insertionSort (fun s s' => s.sector ≤ s'.sector)
    match segments with
    | [head, system] =>
      raiseIf (head.sector ≠ 0 ∨ system.sector ≠ high)
        "Expected the native image split around reserved storage"
      let stop ← segments.foldlM (checkSegment sha256 d low high) 0
      raiseIf (head.size ≠ low * 512 ∨ stop * 512 ≠ manifest.imageSize)
        "Flash segments do not cover the complete native image"
      return (low, segments)
    | _ => .error "Expected the native image split around reserved storage"
  | _ => .error "not enough or too many values to unpack (expected 2)"

/-- A turn of the loop over the boot components in `validate`, of the one that the layout
    has at `sector` and that has to end before the byte `limit`. -/
def checkComponent (manifest : Manifest) (segments : List Segment) (name : String)
    (sector limit : ℤ) : Except String Unit :=
  match manifest.bootComponents.lookup name with
  | none => .error name
  | some item => do
    let start := item.sector * 512
    raiseIf (item.sector ≠ sector ∨ start < 0 ∨ item.size ≤ 0 ∨ start + item.size > limit)
      ("Boot component exceeds its layout bounds: " ++ name)
    match segments.find? fun s =>
        s.sector * 512 ≤ start ∧ start + item.size ≤ s.sector * 512 + s.size with
    | none => .error ("Boot component is outside the flashed image: " ++ name)
    | some segment =>
      let source ← contained d segment.file
      let data := (source.drop (start - segment.sector * 512).toNat).take item.size.toNat
      raiseIf (sha256 data ≠ item.sha256) ("Boot component checksum mismatch: " ++ name)

/-- `validate`, of a manifest that was read. -/
def validate (manifest : Manifest) : Except String Unit := do
  let (low, segments) ← checkSegments sha256 d manifest
  let names := ["idbloader.img", "u-boot.itb"]
  let components := manifest.bootComponents.map Prod.fst
  raiseIf (¬(components ⊆ names ∧ names ⊆ components)) "Missing boot components"
  checkComponent sha256 d manifest segments "idbloader.img" manifest.layout.idbloaderSector
    (low * 512)
  checkComponent sha256 d manifest segments "u-boot.itb" manifest.layout.ubootSector
    (manifest.layout.partitionOffsetMib * 1024 ^ 2)
  let loader ← contained d manifest.loaderFile
  raiseIf (sha256 loader ≠ manifest.loaderSha256) "Loader checksum mismatch"

end

/-! ## The device -/

/-- A command of the tool, with the contents of the file it is given. -/
inductive Command where
  | ld
  | rd (mode : Option ℕ)
  | db (file : List UInt8)
  | rfi
  | wl (sector : ℤ) (file : List UInt8)
  | rl (sector count : ℤ)
  deriving DecidableEq, Repr

/-- What the tool replies: whether it failed, its output, and the file that `rl` is told to
    write, if it is there afterwards. -/
structure Reply where
  failed : Bool
  output : String
  readback : Option (List UInt8)

/-- What the regular expressions find: the lines of a listing with `DevNo =`, how often it
    occurs there, and the numbers in `Flash Size: … Sectors`. -/
structure Patterns where
  devices : String → List String
  devNo : String → ℕ
  flashSizes : String → List ℕ

/-- The mode of a device. -/
inductive Mode where
  | maskrom
  | loader
  deriving DecidableEq, Repr

/-- The name of a mode. -/
def Mode.name : Mode → String
  | .maskrom => "maskrom"
  | .loader => "loader"

/-- `sub in s`. -/
def isIn (sub s : String) : Bool := decide (sub.toList <:+: s.toList)

section

variable (env : List Command → Reply) (re : Patterns)

/-- `Device.run`. -/
def run (c : Command) : Prog Command String Reply := do
  let reply ← Prog.issue env c
  if reply.failed then throw ("rkdeveloptool failed: " ++ reply.output) else return reply

/-- `Device.one`. -/
def one : Prog Command String Mode := do
  let listing ← run env .ld
  match re.devices listing.output with
  | [device] =>
    if isIn "Maskrom" device || isIn "MaskROM" device then return .maskrom
    else if isIn "Loader" device then return .loader
    else throw ("Unsupported device mode: " ++ device)
  | devices =>
    throw ("Expected exactly one Rockchip device; found " ++ toString devices.length)

/-- `Device.wait`, with a number of attempts left. -/
def wait (mode : Mode) : ℕ → Prog Command String Unit
  | 0 => throw ("Device did not enter " ++ mode.name ++ " mode")
  | attempts + 1 => do
    let listing ← run env .ld
    let count := re.devNo listing.output
    if count > 1 then throw "Multiple devices appeared during mode transition"
    else if count = 1 then do
      let now ← one env re
      if now = mode then return () else wait mode attempts
    else wait mode attempts

variable (d : Directory) (verifyOnly : Bool)

/-- The start of `flash`: the loader runs afterwards. -/
def enterLoader (manifest : Manifest) : Prog Command String Unit := do
  let mode ← one env re
  if verifyOnly then
    if mode = .loader then return ()
    else throw "Readback requires the verified loader to be running"
  else do
    if mode = .loader then do
      let _ ← run env (.rd (some 3))
      wait env re .maskrom 20
    let loader ← MonadExcept.ofExcept (contained d manifest.loaderFile)
    let _ ← run env (.db loader)
    wait env re .loader 20

/-- The check of the capacity in `flash`. -/
def checkCapacity (manifest : Manifest) : Prog Command String Unit := do
  let reply ← run env .rfi
  match re.flashSizes reply.output with
  | [capacity] =>
    if capacity * 512 < manifest.imageSize then
      throw "Cannot confirm sufficient device capacity; no image data was written"
    else return ()
  | _ => throw "Cannot confirm sufficient device capacity; no image data was written"

/-- The size of what is read back at once. -/
def readbackSize : ℤ := 16 * 1024 * 1024

/-- The loop that reads a segment back, from the byte `offset` on. -/
def readBack (item : Segment) (expected : List UInt8) (offset : ℤ) :
    Prog Command String Unit :=
  if _h : offset < item.size then do
    let size := min readbackSize (item.size - offset)
    let reply ← run env (.rl (item.sector + offset / 512) (size / 512))
    match reply.readback with
    | some rb =>
      if rb.length ≠ size ∨ rb ≠ (expected.drop offset.toNat).take size.toNat then
        throw "Readback mismatch; device has NOT been rebooted"
      else readBack item expected (offset + size)
    | none => throw "Readback mismatch; device has NOT been rebooted"
  else return ()
termination_by (item.size - offset).toNat
decreasing_by
  have hpos : 0 < readbackSize := by decide
  omega

/-- A turn of the loop over the segments in `flash`. -/
def flashSegment (item : Segment) : Prog Command String Unit := do
  let path ← MonadExcept.ofExcept (contained d item.file)
  let mode ← one env re
  if mode ≠ .loader then throw "Loader disappeared before flashing"
  else do
    if !verifyOnly then do
      let _ ← run env (.wl item.sector path)
    readBack env item path 0

/-- The loop over the segments in `flash`. -/
def flashSegments : List Segment → Prog Command String Unit
  | [] => return ()
  | item :: items => do
    flashSegment env re d verifyOnly item
    flashSegments items

/-- The end of `flash`: the device reboots. -/
def reboot : Prog Command String Unit := do
  if !verifyOnly then do
    let _ ← one env re
    let _ ← run env (.rd none)

/-- `flash`. -/
def flash (manifest : Manifest) : Prog Command String Unit := do
  enterLoader env re d verifyOnly manifest
  checkCapacity env re manifest
  flashSegments env re d verifyOnly manifest.segments
  reboot env re verifyOnly

end

end W132d.Flash
