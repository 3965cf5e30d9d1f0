import W132d.Flash.Bundle
import W132d.Flash.Writes

/-!
# The reserved range

Flashing never touches the sectors that are reserved for the board's own data.

* `Safe`: what a flash may write, and when;
* `Split.safe`: a flash of a valid manifest is safe, whatever the device replies;
* `flash_reserved`: and the two parts that a bundle cuts from an image are valid segments that
  restore the image around the reserved range.

What is written is known from `W132d.Flash.Writes`: the segments in their order, or a first part of
them. By `W132d.Flash.Segments`, these are the two parts of the image around the range, so that a
write is in front of the range or behind it (`sectors_head`, `sectors_system`), and inside of the
image, which fits on the device whose capacity was reported.

The second part of the theorem is about `flash_bundle`, which cuts the image into these two parts:
they pass the checks, and writing them over any content of the device restores the image.
-/

namespace W132d.Flash

open Prog

/-- The sectors of a write. -/
def sectors (w : ℤ × List UInt8) : Set ℤ := Set.Ico w.1 (w.1 + (w.2.length + 511) / 512)

/-- The result of a flash and the commands that it issued are safe for a range of sectors
    `[low, high)`. -/
structure Safe (env : List Command → Reply) (re : Patterns) (manifest : Manifest) (low high : ℤ)
    (verifyOnly : Bool) (run : Except String Unit × List Command) : Prop where
  disjoint : (writes run.2).Pairwise fun w w' => sectors w ∩ sectors w' = ∅
  subset : ∀ w ∈ writes run.2,
    sectors w ⊆ Set.Ico 0 low ∪ Set.Ico high (manifest.imageSize / 512)
  covers : run.1 = .ok () → verifyOnly = false →
    ⋃ w ∈ writes run.2, sectors w = Set.Ico 0 low ∪ Set.Ico high (manifest.imageSize / 512)
  confirmed : ∀ pre sector file post, run.2 = pre ++ .wl sector file :: post →
    ∃ capacity, Reported env re pre capacity ∧ manifest.imageSize ≤ capacity * 512 ∧
      sectors (sector, file) ⊆ Set.Iio (capacity : ℤ)
  unchanged : verifyOnly = true → ∀ c ∈ run.2, c.changes = false

variable {sha256 : List UInt8 → String} {d : Directory} {manifest : Manifest}
  {env : List Command → Reply} {re : Patterns} {verifyOnly : Bool}

theorem Wrote.isPrefix {α : Type} {ws : List (ℤ × List UInt8)} {cs : List Command}
    {r : Except String α} (h : Wrote verifyOnly ws cs r) : writes cs <+: ws := by
  cases verifyOnly with
  | true =>
    have hnil : writes cs = [] := writes_eq_nil.2 fun c hc => by
      have hchanges := h c hc
      cases c <;> first | rfl | cases hchanges
    exact hnil ▸ List.nil_prefix
  | false => exact h.1

section

variable {low high : ℤ} {head system : Segment} {dataHead dataSystem : List UInt8}

/-- The sectors before the reserved range. -/
theorem sectors_head (h : Split sha256 d manifest low high head system)
    (hhead : Stored sha256 d head dataHead) :
    sectors (head.sector, dataHead) = Set.Ico 0 low := by
  have := h.head_size
  have := hhead.2.1
  rw [sectors, h.head_sector]
  congr 1
  dsimp only
  omega

/-- The sectors after the reserved range. -/
theorem sectors_system (h : Split sha256 d manifest low high head system)
    (hsystem : Stored sha256 d system dataSystem) :
    sectors (system.sector, dataSystem) = Set.Ico high (manifest.imageSize / 512) := by
  have := h.system_unit
  have := h.imageSize
  have := hsystem.2.1
  rw [sectors, h.system_sector]
  congr 1
  dsimp only
  omega

/-- A flash of the native image, split around the reserved range, is safe. -/
theorem Split.safe (h : Split sha256 d manifest low high head system) :
    Safe env re manifest low high verifyOnly
      ((flash env re d verifyOnly manifest).after []) := by
  obtain ⟨dataHead, hhead⟩ := h.stored head (by simp)
  obtain ⟨dataSystem, hsystem⟩ := h.stored system (by simp)
  let data (item : Segment) : List UInt8 := (d item.file).getD []
  have hdataHead : data head = dataHead := by simp only [data, hhead.1, Option.getD_some]
  have hdataSystem : data system = dataSystem := by simp only [data, hsystem.1, Option.getD_some]
  have hdata : ∀ item ∈ manifest.segments, d item.file = some (data item) := by
    intro item hitem
    rcases List.mem_pair.1 (h.segments.subset hitem) with rfl | rfl
    · rw [hdataHead, hhead.1]
    · rw [hdataSystem, hsystem.1]
  have hperm := h.segments.map fun item => (item.sector, data item)
  simp only [List.map_cons, List.map_nil, hdataHead, hdataSystem] at hperm
  -- The sectors of all segments, in the order of the manifest.
  have hdisjoint : (manifest.segments.map fun item => (item.sector, data item)).Pairwise
      fun w w' => sectors w ∩ sectors w' = ∅ := by
    refine (hperm.pairwise_iff fun h => Set.inter_comm _ _ ▸ h).2 (List.pairwise_pair.2 ?_)
    rw [sectors_head h hhead, sectors_system h hsystem]
    exact Set.disjoint_iff_inter_eq_empty.1
      (Set.Ico_disjoint_Ico_same.mono_right (Set.Ico_subset_Ico_left h.low_lt.le))
  have hsubset : ∀ w ∈ manifest.segments.map fun item => (item.sector, data item),
      sectors w ⊆ Set.Ico 0 low ∪ Set.Ico high (manifest.imageSize / 512) := by
    intro w hw
    rcases List.mem_pair.1 (hperm.subset hw) with rfl | rfl
    · exact sectors_head h hhead ▸ Set.subset_union_left
    · exact sectors_system h hsystem ▸ Set.subset_union_right
  have hwrites : Writes verifyOnly _ (flash env re d verifyOnly manifest) := flash_writes hdata
  obtain ⟨cs, r, heq, hwrote, hreported⟩ := hwrites.and (flash_reported hdata) []
  rw [heq, List.nil_append]
  exact
    { disjoint := hdisjoint.sublist hwrote.isPrefix.sublist
      subset := fun w hw => hsubset w (hwrote.isPrefix.subset hw)
      covers := by
        rintro rfl rfl
        rw [hwrote.2 () rfl]
        simp only [hperm.mem_iff, List.mem_pair, Set.iUnion_iUnion_eq_or_left,
          Set.iUnion_iUnion_eq_left, sectors_head h hhead, sectors_system h hsystem]
      confirmed := by
        intro pre sector file post hcs
        change cs = _ at hcs
        obtain ⟨capacity, hcapacity, hsize⟩ := hreported pre _ post hcs nofun
        have hmem : (sector, file) ∈ writes cs := List.mem_filterMap.2
          ⟨.wl sector file, hcs ▸ List.mem_append_right _ List.mem_cons_self, rfl⟩
        refine ⟨capacity, hcapacity, hsize, fun x hx => ?_⟩
        have hlt := h.low_lt
        have hend := h.imageSize
        have hpos := h.system_pos
        rw [Set.mem_Iio]
        rcases hsubset _ (hwrote.isPrefix.subset hmem) hx with ⟨-, hx⟩ | ⟨-, hx⟩
        · omega
        · omega
      unchanged := by
        rintro rfl
        exact hwrote }

end

/-- A flash of a valid manifest is safe for the range that the manifest reserves, and the two
    parts that a bundle cuts from an image pass the checks of the segments; once written, they
    restore the image around the reserved range, which they leave unchanged. -/
theorem flash_reserved (sha256 : List UInt8 → String) :
    (∀ (d : Directory) (manifest : Manifest) (env : List Command → Reply) (re : Patterns)
        (verifyOnly : Bool), validate sha256 d manifest = .ok () →
      ∃ low high, manifest.preserveSectors = [low, high] ∧ 0 < low ∧ low < high ∧
        Safe env re manifest low high verifyOnly
          ((flash env re d verifyOnly manifest).after [])) ∧
    (∀ (image : List UInt8) (lock : Lock) (report : Report) (loader : List UInt8)
        (work : Directory), image.length % 512 = 0 → 0 < lock.reservedStartSector →
      lock.reservedStartSector < lock.reservedEndSector →
      lock.reservedEndSector * 512 < image.length →
      ∃ head system, bundleSegments sha256 image lock.reservedStartSector
          lock.reservedEndSector = .ok [head, system] ∧
        checkSegments sha256 (bundleFiles work [head, system])
            (bundleManifest sha256 image lock report loader [head, system]) =
          .ok (lock.reservedStartSector, [head.1, system.1]) ∧
        ∀ (storage : Storage) (a : ℕ),
          ([head, system].map fun part => (part.1.sector, part.2)).foldl write storage a =
            if lock.reservedStartSector * 512 ≤ a ∧ a < lock.reservedEndSector * 512 then
              storage a
            else (image[a]?).getD (storage a)) := by
  constructor
  · intro d manifest env re verifyOnly h
    obtain ⟨low, high, head, system, hsplit⟩ := split_of_validate h
    exact ⟨low, high, hsplit.preserveSectors, hsplit.low_pos, hsplit.low_lt, hsplit.safe⟩
  · intro image lock report loader work hunit hlow hhigh himage
    exact ⟨headPart sha256 image lock.reservedStartSector,
      systemPart sha256 image lock.reservedEndSector,
      bundleSegments_eq hunit hlow hhigh himage,
      checkSegments_bundle hunit hlow hhigh himage report loader work rfl rfl,
      write_parts hunit hlow hhigh himage⟩

/-! ## A fixture -/

/-- The hashes of the files and components of the fixture. -/
def fixtureSha256 (data : List UInt8) : String :=
  if data = List.replicate 1024 65 then
    "6ab72eeb9e77b07540897e0c8d6d23ec8eef0f8c3a47e1b3f4e93443d9536bed"
  else if data = List.replicate 1024 66 then
    "9b6ce55f379e9771551de6939556a7e6b949814ae27c2f5cfd5dbeb378ce7c2a"
  else if data = List.replicate 400 65 then
    "87bc15638540621224fcbd0f2fd0a73267465418b9b2897ea2fe5b977b990c35"
  else if data = List.replicate 512 66 then
    "4391da166394eb9d592a66cdb937c0aa011b9fd54cb2fa0e7f5c7a6648c6625a"
  else if data = [108, 111, 97, 100, 101, 114] then
    "d47712cceb4c780603026e6325221c1bcff90679ebc076baa51c71ebe796717c"
  else ""

/-- The files of the fixture. -/
def fixtureFiles (name : String) : Option (List UInt8) :=
  if name = "head.bin" then some (List.replicate 1024 65)
  else if name = "system.bin" then some (List.replicate 1024 66)
  else if name = "loader.bin" then some [108, 111, 97, 100, 101, 114]
  else none

/-- A manifest that reserves two sectors (`fixture` of the tests). -/
def fixture : Manifest where
  schema := 1
  sectorSize := 512
  preserveSectors := [2, 4]
  imageSize := 3072
  layout := ⟨1, 4, 1⟩
  bootComponents := [
    ("idbloader.img", ⟨1, 400, fixtureSha256 (List.replicate 400 65)⟩),
    ("u-boot.itb", ⟨4, 512, fixtureSha256 (List.replicate 512 66)⟩)]
  segments := [
    ⟨"head.bin", 0, 1024, fixtureSha256 (List.replicate 1024 65)⟩,
    ⟨"system.bin", 4, 1024, fixtureSha256 (List.replicate 1024 66)⟩]
  loaderFile := "loader.bin"
  loaderSha256 := fixtureSha256 [108, 111, 97, 100, 101, 114]

/-- A device of six sectors that is in loader mode, unless it was reset, and reads back what the
    fixture writes. -/
def fixtureDevice (cs : List Command) : Reply :=
  match cs.getLast? with
  | some .ld =>
    let reset := (cs.filter Command.changes).getLast? = some (.rd (some 3))
    ⟨false, if reset then "DevNo=1 Mode=Maskrom" else "DevNo=1 Mode=Loader", none⟩
  | some .rfi => ⟨false, "Flash Size: 6 Sectors", none⟩
  | some (.rl sector count) =>
    ⟨false, "", some (List.replicate (count.toNat * 512) (if sector = 0 then 65 else 66))⟩
  | _ => ⟨false, "", none⟩

/-- What the regular expressions find in the output of the device. -/
def fixturePatterns : Patterns where
  devices listing := [listing]
  devNo _ := 1
  flashSizes output := if output = "Flash Size: 6 Sectors" then [6] else []

/-- The fixture is valid, so that flashing it is safe; and it returns normally. -/
theorem flash_reserved_fixture :
    validate fixtureSha256 fixtureFiles fixture = .ok () ∧
      ((flash fixtureDevice fixturePatterns fixtureFiles false fixture).after []).1 = .ok () ∧
      ∃ low high, fixture.preserveSectors = [low, high] ∧ 0 < low ∧ low < high ∧
        Safe fixtureDevice fixturePatterns fixture low high false
          ((flash fixtureDevice fixturePatterns fixtureFiles false fixture).after []) := by
  have hvalid : validate fixtureSha256 fixtureFiles fixture = .ok () := by decide +kernel
  exact ⟨hvalid, by decide +kernel, (flash_reserved fixtureSha256).1 _ _ _ _ _ hvalid⟩

end W132d.Flash
