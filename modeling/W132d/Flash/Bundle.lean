import W132d.Flash.Segments

/-!
# The bundle that is flashed

The segments of a flash bundle are cut from the image (`tools/w132dlib/release.py`).

* `copyImage_eq`, `sliceImage_eq`: the slice is the range of the image, for any size of it;
* `bundleSegments_eq`, `checkSegments_bundle`: the segments of a bundle are the two parts of
  the image around the reserved range, and pass their checks;
* `write_parts`: the contents of the device after the two parts were written.

The copy is a loop over pieces of eight megabytes, and what it writes does not depend on their size.
The segments are cut one behind the other, with the reserved range in between, so that their sizes
and sectors are those that `validate` asks for (`W132d.Flash.Segments`), in either order of the
checks.
-/

namespace W132d.Flash

/-! ## Cutting the image -/

/-- The size of what is copied at once. -/
def copySize : ℕ := 8 * 1024 * 1024

/-- The loop in `slice_image`, with `left` bytes to copy from the rest `src` of the image. -/
def copyImage (src : List UInt8) (left : ℕ) (target : List UInt8) :
    Except String (List UInt8) :=
  if _h : left ≠ 0 then
    let chunk := src.take (min left copySize)
    if _hchunk : chunk ≠ [] then
      copyImage (src.drop (min left copySize)) (left - chunk.length) (target ++ chunk)
    else .error "Image segment extends beyond the image"
  else .ok target
termination_by left
decreasing_by
  exact Nat.sub_lt (Nat.pos_of_ne_zero _h) (List.length_pos_of_ne_nil _hchunk)

variable (sha256 : List UInt8 → String)

/-- `slice_image`: the segment, and what is written to its file. -/
def sliceImage (image : List UInt8) (dest : String) (start length : ℤ) :
    Except String (Segment × List UInt8) := do
  raiseIf (¬(start % 512 = 0 ∧ length > 0 ∧ length % 512 = 0)) "Unaligned image segment"
  raiseIf (start < 0) "Invalid argument"
  let target ← copyImage (image.drop start.toNat) length.toNat []
  return (⟨dest, start / 512, length, sha256 target⟩, target)

/-- The fields of the lock file that are read here. -/
structure Lock where
  layout : Layout
  reservedStartSector : ℤ
  reservedEndSector : ℤ

/-- The report on the verification of the image. -/
structure Report where
  sha256 : String
  bootComponents : List (String × BootComponent)

/-- The segments in `flash_bundle`, with the contents of their files. -/
def bundleSegments (image : List UInt8) (low high : ℤ) :
    Except String (List (Segment × List UInt8)) := do
  let head ← sliceImage sha256 image "image-head.bin" 0 (low * 512)
  let system ← sliceImage sha256 image "image-system.bin" (high * 512)
    (image.length - high * 512)
  return [head, system]

/-- The directory of a bundle: the files of the segments, and the others. -/
def bundleFiles (work : Directory) (segments : List (Segment × List UInt8)) : Directory :=
  segments.foldl (fun work segment => Function.update work segment.1.file (some segment.2)) work

/-- The manifest of a bundle. -/
def bundleManifest (image : List UInt8) (lock : Lock) (report : Report) (loader : List UInt8)
    (segments : List (Segment × List UInt8)) : Manifest where
  schema := 1
  sectorSize := 512
  preserveSectors := [lock.reservedStartSector, lock.reservedEndSector]
  imageSize := image.length
  segments := segments.map Prod.fst
  bootComponents := report.bootComponents
  layout := lock.layout
  loaderFile := "loader.bin"
  loaderSha256 := sha256 loader

/-- `flash_bundle`, of an image, with the other files of the bundle. -/
def flashBundle (image : List UInt8) (lock : Lock) (report : Report) (loader : List UInt8)
    (work : Directory) : Except String (Manifest × Directory) := do
  raiseIf (sha256 image ≠ report.sha256) "Image changed after verification"
  raiseIf (image.length ≤ lock.reservedEndSector * 512) "Image is too small"
  let segments ← bundleSegments sha256 image lock.reservedStartSector lock.reservedEndSector
  let manifest := bundleManifest sha256 image lock report loader segments
  let files := bundleFiles work segments
  validate sha256 files manifest
  return (manifest, files)

variable {sha256}

/-- What the loop copies, however many turns it takes. -/
theorem copyImage_eq {src : List UInt8} {left : ℕ} (hleft : left ≤ src.length)
    (target : List UInt8) : copyImage src left target = .ok (target ++ src.take left) := by
  induction left using Nat.strong_induction_on generalizing src target with
  | _ left ih =>
    rw [copyImage]
    split
    case isTrue hpos =>
      -- A turn copies the least of what is left and the size of a chunk.
      have hsize : 0 < copySize := by decide
      have hmin : min left copySize ≤ src.length := by omega
      have hchunk : (src.take (min left copySize)).length = min left copySize :=
        List.length_take_of_le hmin
      have hne : src.take (min left copySize) ≠ [] :=
        List.ne_nil_of_length_pos (by omega)
      dsimp only
      rw [dif_pos hne, hchunk, ih (left - min left copySize) (by omega)
        (by rw [List.length_drop]; omega), List.append_assoc, ← List.take_add]
      congr 3
      omega
    case isFalse hzero =>
      rw [not_not.1 hzero, List.take_zero, List.append_nil]

/-- A part of the image that starts at a sector and consists of sectors. -/
theorem sliceImage_eq {image : List UInt8} {start length : ℤ} (dest : String)
    (hstart : 0 ≤ start) (haligned : start % 512 = 0) (hpos : 0 < length)
    (hunit : length % 512 = 0) (hend : start + length ≤ image.length) :
    sliceImage sha256 image dest start length =
      let target := (image.drop start.toNat).take length.toNat
      .ok (⟨dest, start / 512, length, sha256 target⟩, target) := by
  have hcopy : length.toNat ≤ (image.drop start.toNat).length := by
    rw [List.length_drop]
    omega
  rw [sliceImage, raiseIf, if_neg (by omega), raiseIf, if_neg (by omega), copyImage_eq hcopy]
  rfl

/-! ## Its two parts -/

/-- The part of the image before the reserved range, and its segment. -/
def headPart (sha256 : List UInt8 → String) (image : List UInt8) (low : ℤ) :
    Segment × List UInt8 :=
  let data := image.take (low * 512).toNat
  (⟨"image-head.bin", 0, low * 512, sha256 data⟩, data)

/-- The part of the image after the reserved range, and its segment. -/
def systemPart (sha256 : List UInt8 → String) (image : List UInt8) (high : ℤ) :
    Segment × List UInt8 :=
  let data := image.drop (high * 512).toNat
  (⟨"image-system.bin", high, image.length - high * 512, sha256 data⟩, data)

/-- The files of two segments are there, unless they are the same file. -/
theorem bundleFiles_pair (work : Directory) (head system : Segment × List UInt8)
    (hne : head.1.file ≠ system.1.file) :
    bundleFiles work [head, system] head.1.file = some head.2 ∧
      bundleFiles work [head, system] system.1.file = some system.2 :=
  ⟨(Function.update_of_ne hne ..).trans (Function.update_self ..), Function.update_self ..⟩

section

variable {image : List UInt8} {low high : ℤ} (hunit : image.length % 512 = 0) (hlow : 0 < low)
  (hhigh : low < high) (himage : high * 512 < image.length)

include hunit hlow hhigh himage

/-- The segments of a bundle are the two parts of the image. -/
theorem bundleSegments_eq :
    bundleSegments sha256 image low high =
      .ok [headPart sha256 image low, systemPart sha256 image high] := by
  have hrest : (image.drop (high * 512).toNat).take (image.length - high * 512).toNat =
      image.drop (high * 512).toNat := by
    refine List.take_of_length_le ?_
    rw [List.length_drop]
    omega
  rw [bundleSegments, sliceImage_eq _ (by omega) (by omega) (by omega) (by omega) (by omega),
    sliceImage_eq _ (by omega) (by omega) (by omega) (by omega) (by omega), hrest]
  simp only [Int.toNat_zero, List.drop_zero, Int.zero_ediv,
    Int.mul_ediv_cancel high (by decide : (512 : ℤ) ≠ 0)]
  rfl

/-- The two parts of the image pass the checks of the segments. -/
theorem checkSegments_bundle {lock : Lock} (report : Report) (loader : List UInt8)
    (work : Directory) (hstart : lock.reservedStartSector = low)
    (hend : lock.reservedEndSector = high) :
    let segments := [headPart sha256 image low, systemPart sha256 image high]
    checkSegments sha256 (bundleFiles work segments)
      (bundleManifest sha256 image lock report loader segments) =
        .ok (low, segments.map Prod.fst) := by
  have hfiles := bundleFiles_pair work (headPart sha256 image low) (systemPart sha256 image high)
    (by simp [headPart, systemPart])
  refine checkSegments_eq_ok.2 ⟨high, _, _, rfl, ?_⟩
  exact
    { schema := rfl
      sectorSize := rfl
      preserveSectors := by rw [bundleManifest, hstart, hend]
      low_pos := hlow
      low_lt := hhigh
      segments := List.Perm.refl _
      head_sector := rfl
      head_size := rfl
      system_sector := rfl
      system_pos := by simp only [systemPart]; omega
      system_unit := by simp only [systemPart]; omega
      imageSize := by simp only [systemPart, bundleManifest]; omega
      stored := by
        simp only [List.forall_mem_cons]
        refine ⟨⟨_, hfiles.1, ?_, rfl⟩, ⟨_, hfiles.2, ?_, rfl⟩, nofun⟩
        · simp only [headPart, List.length_take]
          omega
        · simp only [systemPart, List.length_drop]
          omega }

end

/-! ## The device -/

/-- The contents of a device, byte by byte. -/
abbrev Storage := ℕ → UInt8

/-- A file as sectors: the last one is filled with zeros (`write_lba`). -/
def inSectors (file : List UInt8) : List UInt8 :=
  file ++ List.replicate ((512 - file.length % 512) % 512) 0

/-- The device after a write of a file from a sector on. -/
def write (storage : Storage) (w : ℤ × List UInt8) : Storage := fun a =>
  if w.1 * 512 ≤ a then ((inSectors w.2)[(a - w.1 * 512).toNat]?).getD (storage a)
  else storage a

theorem inSectors_eq {file : List UInt8} (h : file.length % 512 = 0) : inSectors file = file := by
  rw [inSectors, h]
  exact List.append_nil file

section

variable {image : List UInt8} {low high : ℤ} (hunit : image.length % 512 = 0) (hlow : 0 < low)
  (hhigh : low < high) (himage : high * 512 < image.length)

include hunit hlow hhigh himage

/-- The device after both parts of the image were written: it is the image outside the
    reserved range, and what it was inside it (and after the image). -/
theorem write_parts (storage : Storage) (a : ℕ) :
    ([headPart sha256 image low, systemPart sha256 image high].map fun part =>
        (part.1.sector, part.2)).foldl write storage a =
      if low * 512 ≤ a ∧ a < high * 512 then storage a else (image[a]?).getD (storage a) := by
  have hhead : inSectors (image.take (low * 512).toNat) = image.take (low * 512).toNat :=
    inSectors_eq (by rw [List.length_take]; omega)
  have hsystem : inSectors (image.drop (high * 512).toNat) = image.drop (high * 512).toNat :=
    inSectors_eq (by rw [List.length_drop]; omega)
  simp only [List.map_cons, List.map_nil, List.foldl_cons, List.foldl_nil, headPart, systemPart]
  rcases lt_or_ge (a : ℤ) (high * 512) with ha | ha
  · -- Only the first part can be here.
    rw [write, if_neg (by omega), write, if_pos (by omega), hhead]
    simp only [zero_mul, sub_zero, Int.toNat_natCast]
    rcases lt_or_ge (a : ℤ) (low * 512) with ha' | ha'
    · rw [if_neg (by omega), List.getElem?_take_of_lt (by omega)]
    · rw [if_pos ⟨ha', ha⟩, List.getElem?_eq_none (by rw [List.length_take]; omega),
        Option.getD_none]
  · -- The first part ends before the reserved range.
    have hfirst : write storage (0, image.take (low * 512).toNat) a = storage a := by
      rw [write, if_pos (by omega), hhead, List.getElem?_eq_none (by rw [List.length_take]; omega),
        Option.getD_none]
    have hindex : (high * 512).toNat + (a - high * 512).toNat = a := by omega
    rw [write, if_pos (by omega), if_neg (by omega), hsystem, List.getElem?_drop, hindex, hfirst]

end

end W132d.Flash
