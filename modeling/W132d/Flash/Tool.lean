import W132d.Flash.Verified
import W132d.Rockusb.Sparse

/-!
# The tool and the device

`flash.py` runs the tool once for each command. What the tool then does to a device that follows the
protocol is known (`W132d.Rockusb.Lba`), so that it is known what a flash does to the device.

* `Tool.wl`, `Tool.step`: a run of the tool (`handle_command` of `main.cpp`);
* `Attached`: what is assumed of the device, and of the commands that name no sectors;
* `stateAfter_same`: commands change the sectors that they write only;
* `ReadBack.holds`, `Verified.holds`: what is read back is what the device holds;
* `flash_device`: a flash leaves the reserved range and all that is not in the image as it was, and
  the device holds the segments when it is rebooted, also one that may lose what is written;
* `flash_bundle_device`: a device that a bundle was flashed to has the image around that range.

There are three levels: what `flash.py` does is a list of commands for the tool and what it makes of
their replies (`W132d.Flash.Writes`, `W132d.Flash.Verified`); what the tool does with a command is a
sequence of transfers over the bus (`W132d.Rockusb.Lba`); and what the device does with a transfer
is an assumption (`Attached`), by which it may refuse it, but not write anywhere else. This module
puts them together, so that the theorems of the first level become ones about the bytes of the
device.

How the theorem is proved: a command changes only the sectors that it writes (`step_same`), and by
induction on the commands, so does the whole flash (`stateAfter_same`). The writes of a flash are
segments of the manifest, which are outside of the reserved range and inside of the image if
`validate` has accepted it. What was read back is what the device held there (`ReadBack.holds`), and
the segments do not overlap, so that none of them is changed by the writes of a later one
(`Verified.holds`).
-/

namespace W132d.Flash

open Rockusb Raising Peek Prog

/-! ## The tool -/

/-- The tool, and what it finds on the bus. -/
structure Tool (σ : Type) where
  usb : Usb σ
  /-- The search for a device, `check_device_type` and `CRKUsbComm`: whether there is one. -/
  attach : σ → Bool × σ
  /-- `erase_ubi_block`, after that. -/
  eraseUbiBlock : ℕ → σ → Bool × σ
  /-- The commands that name no sectors. -/
  other : Command → σ → Reply × σ
  /-- What the others print. -/
  output : Command → σ → String

/-- `strtoul` of the text of a number, as a `UINT`. A `long` has 64 bits. -/
def strtoul (n : ℤ) : ℕ := if 2 ^ 64 ≤ n.natAbs then 2 ^ 32 - 1 else (n % 2 ^ 32).toNat

/-- `is_sparse_image`. -/
def isSparseImage (file : List UInt8) : Bool := 28 ≤ file.length ∧ numIn file 0 4 = Image.magic

/-- `is_ubifs_image`. -/
def isUbifsImage (file : List UInt8) : Bool := 4 ≤ file.length ∧ numIn file 0 4 = 0x23494255

variable {σ : Type}

namespace Tool

variable (tool : Tool σ)

/-- `WL`, for a device that was found. -/
def wl (uiBegin : ℕ) (file : List UInt8) : Raising σ Err Unit :=
  if isSparseImage file then writeSparseLba tool.usb uiBegin (2 ^ 32 - 1) file
  else if isUbifsImage file then do
    if ← modifyGet (tool.eraseUbiBlock uiBegin) then writeLba tool.usb uiBegin file
    else throw .failed
  else writeLba tool.usb uiBegin file

/-- A run of the tool. What `RL` has written to the file stays there if it fails. -/
def step (c : Command) (s : σ) : Reply × σ :=
  match c with
  | .wl sector file =>
    if (tool.attach s).1 then
      let r := (tool.wl (strtoul sector) file).runFrom (tool.attach s).2
      (⟨!r.1.isOk, tool.output c r.2, none⟩, r.2)
    else (⟨true, tool.output c (tool.attach s).2, none⟩, (tool.attach s).2)
  | .rl sector count =>
    if (tool.attach s).1 then
      let r := (readLba tool.usb (strtoul sector) (strtoul count) 0 []).runFrom (tool.attach s).2
      (⟨!r.1.isOk, tool.output c r.2, some (match r.1 with | .ok file | .error file => file)⟩, r.2)
    else (⟨true, tool.output c (tool.attach s).2, none⟩, (tool.attach s).2)
  | .ld | .rd _ | .db _ | .rfi => tool.other c s

end Tool

instance : Inhabited Reply := ⟨⟨true, "", none⟩⟩

/-- What is assumed of the device: it follows the protocol, waits for a command when the tool opens
    it, and the commands that name no sectors leave its storage as it is. -/
structure Attached (tool : Tool σ) (storage : σ → ℕ → UInt8) (phase : σ → Phase) (durable : Prop) :
    Prop where
  obeys : Obeys tool.usb storage phase durable
  attach_storage : ∀ s, storage (tool.attach s).2 = storage s
  attach_phase : ∀ s, (tool.attach s).1 = true → phase (tool.attach s).2 = .command
  other_storage : ∀ c s, storage (tool.other c s).2 = storage s

/-- A write of a file as it is, to sectors that have numbers. -/
structure Fits (w : ℤ × List UInt8) : Prop where
  pos : 0 ≤ w.1
  end_le : w.1 + (w.2.length + 511) / 512 ≤ 2 ^ 32
  nonempty : w.2 ≠ []
  raw : isSparseImage w.2 = false ∧ isUbifsImage w.2 = false

/-- A sector that 32 bits have room for is read as it is. -/
theorem strtoul_eq {n : ℤ} (hpos : 0 ≤ n) (hlt : n < 2 ^ 32) : strtoul n = n.toNat := by
  rw [strtoul, if_neg (by omega), Int.emod_eq_of_lt hpos hlt]

/-! ## What a run of the tool does -/

variable {tool : Tool σ} {storage : σ → ℕ → UInt8} {phase : σ → Phase} {durable : Prop} {s : σ}
  {d : Directory} {verifyOnly : Bool}

/-- The bytes of a write. -/
def bytesOf (w : ℤ × List UInt8) : Set ℕ := fileSectors w.1.toNat w.2

section

variable (h : Attached tool storage phase durable)

include h

/-- A write touches the bytes of its sectors. -/
theorem wl_touches {w : ℤ × List UInt8} (hw : Fits w) :
    Touches (phase · = .command) storage (bytesOf w) (tool.wl (strtoul w.1) w.2)
      fun _ mem => durable → Holds mem (w.1.toNat * 512) w.2 := by
  have hlen := List.length_pos_of_ne_nil hw.nonempty
  have hpos := hw.pos
  have hend := hw.end_le
  rw [Tool.wl, hw.raw.1, hw.raw.2, strtoul_eq hpos (by omega), if_neg Bool.false_ne_true,
    if_neg Bool.false_ne_true]
  exact writeLba_touches h.obeys (by omega)

theorem step_same {c : Command} (hc : ∀ w, c.write? = some w → Fits w) :
    Set.EqOn (storage (tool.step c s).2) (storage s)
      {a | ∀ w, c.write? = some w → a ∉ bytesOf w} := by
  have hattach := h.attach_storage s
  have hphase := h.attach_phase s
  cases c with
  | wl sector file =>
    rw [Tool.step]
    split
    case isTrue hok =>
      rw [← hattach]
      exact ((wl_touches h (hc _ rfl)).view_eq (hphase hok)).mono fun a ha => ha _ rfl
    case isFalse =>
      dsimp only
      rw [hattach]
      exact Set.eqOn_refl _ _
  | rl sector count =>
    rw [Tool.step]
    split
    case isTrue hok =>
      rw [← hattach]
      exact ((readLba_same h.obeys).view_eq (hphase hok)).mono fun _ _ => Set.notMem_empty _
    case isFalse =>
      dsimp only
      rw [hattach]
      exact Set.eqOn_refl _ _
  | ld | rd _ | db _ | rfi => exact fun a _ => congrFun (h.other_storage _ s) a

/-- Commands change the sectors that they write only. -/
theorem stateAfter_same {cs : List Command} (hcs : ∀ w ∈ writes cs, Fits w) :
    Set.EqOn (storage (stateAfter tool.step s cs)) (storage s)
      {a | ∀ w ∈ writes cs, a ∉ bytesOf w} := by
  induction cs generalizing s with
  | nil => exact Set.eqOn_refl _ _
  | cons c cs ih =>
    have hmem {w : ℤ × List UInt8} (hw : c.write? = some w) : w ∈ writes (c :: cs) :=
      List.mem_filterMap.2 ⟨c, List.mem_cons_self, hw⟩
    have htail {w : ℤ × List UInt8} (hw : w ∈ writes cs) : w ∈ writes (c :: cs) := by
      rw [← List.singleton_append, writes_append]
      exact List.mem_append_right _ hw
    have hfirst := step_same h (s := s) fun w hw => hcs w (hmem hw)
    refine ((ih fun w hw => hcs w (htail hw)).mono ?_).trans (hfirst.mono ?_)
    · exact fun a ha w hw => ha w (htail hw)
    · exact fun a ha w hw => ha w (hmem hw)

/-- Commands that write nothing. -/
theorem stateAfter_eq {cs : List Command} (hcs : writes cs = []) :
    storage (stateAfter tool.step s cs) = storage s :=
  funext fun _ => stateAfter_same h (hcs ▸ fun _ hw => absurd hw List.not_mem_nil)
    (hcs ▸ fun _ hw => absurd hw List.not_mem_nil)

/-- What a run of `RL` leaves in the file is what the device holds. -/
theorem step_rl {sector count : ℤ} (hsector : 0 ≤ sector) (hcount : 0 < count)
    (hlt : count < 2 ^ 32) (hend : sector + count ≤ 2 ^ 32)
    (hok : (tool.step (.rl sector count) s).1.failed = false) :
    (tool.step (.rl sector count) s).1.readback =
      some (bytesAt (storage s) (sector.toNat * 512) (count.toNat * 512)) := by
  rw [Tool.step, strtoul_eq hsector (by omega), strtoul_eq hcount.le hlt] at hok ⊢
  rw [← h.attach_storage s]
  -- A tool that does not find the device fails. One that finds it reads, and leaves the storage.
  split
  case isFalse hnot =>
    rw [if_neg hnot] at hok
    cases hok
  case isTrue hattach =>
    rw [if_pos hattach] at hok
    have hphase := h.attach_phase s hattach
    have hbound : sector.toNat + 0 + count.toNat ≤ 2 ^ 32 := by omega
    have hread : Touches (phase · = .command) storage ∅
        (readLba tool.usb sector.toNat count.toNat 0 []) fun file mem =>
          file = [] ++ bytesAt mem ((sector.toNat + 0) * 512) (count.toNat * 512) :=
      readLba_touches h.obeys hbound
    have hsame := hread.view_eq hphase
    dsimp only at hok ⊢
    cases hfile : ((readLba tool.usb sector.toNat count.toNat 0 []).runFrom
        (tool.attach s).2).1 with
    | error file =>
      rw [hfile] at hok
      cases hok
    | ok file =>
      obtain ⟨-, hdata⟩ := hread.of_ok hphase hfile
      have hmem : storage ((readLba tool.usb sector.toNat count.toNat 0 []).runFrom
          (tool.attach s).2).2 = storage (tool.attach s).2 :=
        funext fun a => hsame (Set.notMem_empty a)
      rw [hdata, hmem, List.nil_append, Nat.add_zero]

end

/-! ## What is read back -/

section

variable {item : Segment} {data : List UInt8} {past cs : List Command} {offset : ℤ}
  {env : List Command → Reply} {items : List Segment}

/-- A size of whole sectors is the same in bytes again. -/
theorem toNat_div_mul {n : ℤ} (hunit : n % 512 = 0) : (n / 512).toNat * 512 = n.toNat := by
  omega

theorem toNat_add_mul {n k : ℤ} (hn : 0 ≤ n) (hk : 0 ≤ k) (hunit : k % 512 = 0) :
    (n + k / 512).toNat * 512 = n.toNat * 512 + k.toNat := by
  omega

/-- Reading back writes nothing. -/
theorem ReadBack.writes_eq_nil (hread : ReadBack env item data past offset cs) :
    writes cs = [] := by
  induction hread with
  | done => rfl
  | piece _ _ _ _ _ ih => exact ih

theorem ReadBack.le_size (hread : ReadBack env item data past offset cs) :
    offset ≤ item.size := by
  induction hread with
  | done => exact le_rfl
  | piece hpos _ _ _ _ ih => omega

/-- A segment that lies on the device. -/
structure Lies (item : Segment) (data : List UInt8) : Prop where
  sector : 0 ≤ item.sector
  length : data.length = item.size
  pos : 0 < item.size
  unit : item.size % 512 = 0
  size_lt : item.size < 2 ^ 32 * 512
  end_le : item.sector * 512 + item.size ≤ 2 ^ 32 * 512

variable (h : Attached tool storage phase durable)

include h

/-- A segment that was read back is on the device. -/
theorem ReadBack.holds (hlies : Lies item data)
    (hread : ReadBack (replies tool.step s) item data past offset cs) (hoffset : 0 ≤ offset)
    (hunit : offset % 512 = 0) :
    Holds (storage (stateAfter tool.step s past)) (item.sector.toNat * 512 + offset.toNat)
      (data.drop offset.toNat) := by
  have hlen := hlies.length
  have hsector := hlies.sector
  have hlt := hlies.size_lt
  have hend := hlies.end_le
  -- By induction on the pieces that are read back: each one is what the device holds there, and
  -- reading changes nothing.
  induction hread with
  | done =>
    have hnil : data.drop item.size.toNat = [] := List.drop_eq_nil_of_le (by omega)
    rw [hnil]
    rfl
  | @piece past cs offset size hpos hsize hok hback hrest ih =>
    have hle := hrest.le_size
    rw [replies_append] at hok hback
    have hfrom : 0 ≤ item.sector + offset / 512 := by omega
    have hcount : 0 < size / 512 ∧ size / 512 < 2 ^ 32 := by omega
    have hto : item.sector + offset / 512 + size / 512 ≤ 2 ^ 32 := by omega
    rw [step_rl h hfrom hcount.1 hcount.2 hto hok, Option.some.injEq,
      toNat_add_mul hsector hoffset hunit, toNat_div_mul hsize] at hback
    have hfirst : Holds (storage (stateAfter tool.step s past))
        (item.sector.toNat * 512 + offset.toNat) ((data.drop offset.toNat).take size.toNat) := by
      rw [← hback, Holds, length_bytesAt]
    have hnext := ih (by omega) (by omega)
    rw [stateAfter_append, stateAfter_eq h rfl] at hnext
    have hsum : (offset + size).toNat = offset.toNat + size.toNat := by omega
    have htake : ((data.drop offset.toNat).take size.toNat).length = size.toNat := by
      rw [← hback, length_bytesAt]
    -- The first piece and the rest are side by side.
    rw [hsum, ← Nat.add_assoc, ← List.drop_drop] at hnext
    rw [← List.take_append_drop size.toNat (data.drop offset.toNat)]
    exact holds_append.2 ⟨hfirst, htake.symm ▸ hnext⟩

omit h in
/-- The writes of commands that verify segments are those of the segments. -/
theorem Verified.mem_writes {w : ℤ × List UInt8}
    (hverified : Verified env d verifyOnly past items cs) (hw : w ∈ writes cs) :
    ∃ item ∈ items, ∃ data, d item.file = some data ∧ w = (item.sector, data) := by
  induction hverified with
  | nil => cases hw
  | @cons past reads cs item items data hdata _ hreads _ ih =>
    rw [writes_append, writes_append, hreads.writes_eq_nil, List.append_nil, List.mem_append] at hw
    rcases hw with hw | hw
    · have hw' : w = (item.sector, data) := by
        cases verifyOnly with
        | true => cases hw
        | false => exact List.mem_singleton.1 hw
      exact ⟨item, List.mem_cons_self, data, hdata, hw'⟩
    · obtain ⟨item', hitem', hrest⟩ := ih hw
      exact ⟨item', List.mem_cons_of_mem _ hitem', hrest⟩

/-- All segments that were verified are on the device, if none of them overlap. -/
theorem Verified.holds (hverified : Verified (replies tool.step s) d verifyOnly past items cs)
    (hlies : ∀ item ∈ items, ∀ data, d item.file = some data →
      Lies item data ∧ Fits (item.sector, data))
    (hdisjoint : items.Pairwise fun item item' => ∀ data data', d item.file = some data →
      d item'.file = some data' →
        ∀ a ∈ bytesOf (item.sector, data), a ∉ bytesOf (item'.sector, data')) :
    ∀ item ∈ items, ∀ data, d item.file = some data →
      Holds (storage (stateAfter tool.step s (past ++ cs))) (item.sector.toNat * 512) data := by
  induction hverified with
  | nil => exact fun _ hitem => absurd hitem List.not_mem_nil
  | @cons past reads cs item items data hdata _ hreads hrest ih =>
    rw [List.forall_mem_cons] at hlies
    rw [List.pairwise_cons] at hdisjoint
    rw [← List.append_assoc]
    refine List.forall_mem_cons.2 ⟨fun data' hdata' => ?_, ih hlies.2 hdisjoint.2⟩
    obtain rfl : data = data' := Option.some.inj (hdata.symm.trans hdata')
    have hback := hreads.holds h (hlies.1 data hdata).1 le_rfl rfl
    rw [← stateAfter_eq h hreads.writes_eq_nil, ← stateAfter_append, List.append_assoc,
      Int.toNat_zero, List.drop_zero, Nat.add_zero] at hback
    have hwrites : ∀ w ∈ writes cs, Fits w ∧ ∀ a ∈ bytesOf (item.sector, data), a ∉ bytesOf w := by
      intro w hw
      obtain ⟨item', hitem', data', hdata', rfl⟩ := hrest.mem_writes hw
      exact ⟨(hlies.2 item' hitem' data' hdata').2,
        hdisjoint.1 item' hitem' data data' hdata hdata'⟩
    have hfits : ∀ w ∈ writes cs, Fits w := fun w hw => (hwrites w hw).1
    rw [stateAfter_append]
    have hsub : fileSectors item.sector.toNat data ⊆ {a | ∀ w ∈ writes cs, a ∉ bytesOf w} :=
      fun a ha w hw => (hwrites w hw).2 a ha
    exact holds_local _ data ((stateAfter_same h hfits).mono hsub) hback

end

/-! ## A flash -/

section

variable {sha256 : List UInt8 → String} {manifest : Manifest} {low high : ℤ}
  {head system item item' : Segment} {data data' : List UInt8}

/-- The segments of a valid manifest lie on a device of 2^32 sectors. -/
theorem Split.lies (hsplit : Split sha256 d manifest low high head system)
    (hsize : manifest.imageSize ≤ 2 ^ 32 * 512) (hitem : item ∈ [head, system])
    (hdata : d item.file = some data) : Lies item data := by
  obtain ⟨data', hdata', hlen, -⟩ := hsplit.stored item hitem
  obtain rfl : data = data' := Option.some.inj (hdata.symm.trans hdata')
  have hlow := hsplit.low_pos
  have hhigh := hsplit.low_lt
  have hend := hsplit.imageSize
  rcases List.mem_pair.1 hitem with rfl | rfl
  · have hsector := hsplit.head_sector
    have hhead := hsplit.head_size
    have hpos := hsplit.system_pos
    exact ⟨by omega, hlen, by omega, by omega, by omega, by omega⟩
  · have hsector := hsplit.system_sector
    exact ⟨by omega, hlen, hsplit.system_pos, hsplit.system_unit, by omega, by omega⟩

/-- The bytes of a segment that lies on the device. -/
theorem Lies.mem_bytesOf (hlies : Lies item data) {a : ℕ} :
    a ∈ bytesOf (item.sector, data) ↔
      item.sector * 512 ≤ a ∧ a < item.sector * 512 + item.size := by
  have hlen := hlies.length
  have hsector := hlies.sector
  have hunit := hlies.unit
  rw [bytesOf, fileSectors, Set.mem_Ico]
  dsimp only
  omega

/-- A file that is written raw fits where it lies. -/
theorem Lies.fits (hlies : Lies item data)
    (hraw : isSparseImage data = false ∧ isUbifsImage data = false) :
    Fits (item.sector, data) := by
  have hlen := hlies.length
  have hpos := hlies.pos
  have hend := hlies.end_le
  refine ⟨hlies.sector, ?_, ?_, hraw⟩
  · dsimp only
    omega
  · rintro rfl
    rw [List.length_nil] at hlen
    omega

/-- The segments of a valid manifest do not overlap. -/
theorem Split.pairwise_notMem (hsplit : Split sha256 d manifest low high head system)
    (hsize : manifest.imageSize ≤ 2 ^ 32 * 512) :
    manifest.segments.Pairwise fun item item' => ∀ data data', d item.file = some data →
      d item'.file = some data' →
        ∀ a ∈ bytesOf (item.sector, data), a ∉ bytesOf (item'.sector, data') := by
  refine (hsplit.segments.pairwise_iff fun hdis data data' hdata hdata' a ha ha' =>
    hdis data' data hdata' hdata a ha' ha).2 (List.pairwise_pair.2 ?_)
  intro data data' hdata hdata' a ha ha'
  have hhead := hsplit.lies hsize List.mem_cons_self hdata
  have hsystem := hsplit.lies hsize (List.mem_cons_of_mem _ List.mem_cons_self) hdata'
  have hlt := hsplit.low_lt
  have hsector := hsplit.head_sector
  have hlow := hsplit.head_size
  have hhigh := hsplit.system_sector
  rw [hhead.mem_bytesOf] at ha
  rw [hsystem.mem_bytesOf] at ha'
  omega

/-- Nothing of a segment is in the reserved range or behind the image. -/
theorem Split.notMem_bytesOf (hsplit : Split sha256 d manifest low high head system)
    (hitem : item ∈ [head, system]) (hlies : Lies item data) {a : ℕ}
    (ha : low * 512 ≤ a ∧ a < high * 512 ∨ manifest.imageSize ≤ a) :
    a ∉ bytesOf (item.sector, data) := by
  have hlt := hsplit.low_lt
  have hend := hsplit.imageSize
  have hpos := hsplit.system_pos
  rw [hlies.mem_bytesOf]
  rcases List.mem_pair.1 hitem with rfl | rfl
  · have hsector := hsplit.head_sector
    have hhead := hsplit.head_size
    omega
  · have hsector := hsplit.system_sector
    omega

/-- What a flash leaves on a device: the reserved range and what is behind the image as they were,
    everything if the device is only read, and the segments if it returns or reboots the device. -/
def Leaves (d : Directory) (verifyOnly : Bool) (manifest : Manifest) (low high : ℤ)
    (run : Except String Unit × List Command) (before left : ℕ → UInt8) : Prop :=
  (∀ a : ℕ, low * 512 ≤ a ∧ a < high * 512 ∨ manifest.imageSize ≤ a → left a = before a) ∧
  (verifyOnly = true → left = before) ∧
  (run.1 = .ok () ∨ .rd none ∈ run.2 → ∀ item ∈ manifest.segments, ∀ data,
    d item.file = some data → Holds left (item.sector.toNat * 512) data)

/-- What is written of the two parts leaves the rest. -/
theorem Split.leaves (h : Attached tool storage phase durable)
    (hvalid : validate sha256 d manifest = .ok ())
    (hsplit : Split sha256 d manifest low high head system)
    (hsize : manifest.imageSize ≤ 2 ^ 32 * 512)
    (hraw : ∀ item ∈ manifest.segments, ∀ data, d item.file = some data →
      isSparseImage data = false ∧ isUbifsImage data = false)
    (re : Patterns) (verifyOnly : Bool) (s : σ) :
    Leaves d verifyOnly manifest low high
      ((flash (replies tool.step s) re d verifyOnly manifest).after []) (storage s)
      (storage (stateAfter tool.step s
        ((flash (replies tool.step s) re d verifyOnly manifest).after []).2)) := by
  -- A segment lies where the image has it, and is written raw, so that its sectors are known.
  have hlies : ∀ item ∈ manifest.segments, ∀ data, d item.file = some data →
      Lies item data ∧ Fits (item.sector, data) := by
    intro item hitem data hdata
    have hitem' := hsplit.lies hsize (hsplit.segments.subset hitem) hdata
    exact ⟨hitem', hitem'.fits (hraw item hitem data hdata)⟩
  let data (item : Segment) : List UInt8 := (d item.file).getD []
  have hdata : ∀ item ∈ manifest.segments, d item.file = some (data item) := by
    intro item hitem
    obtain ⟨bytes, hbytes, -⟩ := segments_of_validate hvalid item hitem
    simp only [data, hbytes, Option.getD_some]
  -- Both facts are about the run of `flash`: what it writes, and how it ends.
  have hwrites : Writes verifyOnly _ (flash (replies tool.step s) re d verifyOnly manifest) :=
    flash_writes hdata
  have hemits : Emits (flash (replies tool.step s) re d verifyOnly manifest) fun past cs r =>
      past = [] → Ending (replies tool.step s) d verifyOnly manifest cs r :=
    flash_emits (segments_of_validate hvalid)
  obtain ⟨cs, r, hrun, hwrote, hending⟩ := hwrites.and hemits []
  rw [hrun, List.nil_append]
  dsimp only
  -- What is written are segments of the manifest, in their order.
  have hmem : ∀ w ∈ writes cs, ∃ item ∈ manifest.segments, w = (item.sector, data item) := by
    intro w hw
    obtain ⟨item, hitem, rfl⟩ := List.mem_map.1 (hwrote.isPrefix.subset hw)
    exact ⟨item, hitem, rfl⟩
  have hfits : ∀ w ∈ writes cs, Fits w := by
    intro w hw
    obtain ⟨item, hitem, rfl⟩ := hmem w hw
    exact (hlies item hitem _ (hdata item hitem)).2
  -- Once every segment was verified, the device holds it: segments do not overlap, so that none
  -- overwrites another.
  have hholds {cs : List Command}
      (hall : AllVerified (replies tool.step s) d verifyOnly manifest cs) :
      ∀ item ∈ manifest.segments, ∀ data, d item.file = some data →
        Holds (storage (stateAfter tool.step s cs)) (item.sector.toNat * 512) data := by
    obtain ⟨setup, segments, rfl, -, hverified⟩ := hall
    exact hverified.holds h hlies (hsplit.pairwise_notMem hsize)
  -- The three parts of the claim: the rest is untouched, verifying writes nothing, and success
  -- means that all is there.
  refine ⟨fun a ha => stateAfter_same h hfits fun w hw => ?_, fun hverify => ?_, fun hdone => ?_⟩
  · obtain ⟨item, hitem, rfl⟩ := hmem w hw
    exact hsplit.notMem_bytesOf (hsplit.segments.subset hitem)
      (hlies item hitem _ (hdata item hitem)).1 ha
  · subst hverify
    refine stateAfter_eq h (writes_eq_nil.2 fun c hc => ?_)
    have hchanges := hwrote c hc
    cases c <;> first | rfl | cases hchanges
  · cases hending rfl with
    | failed hrd =>
      rcases hdone with hok | hmem'
      · cases hok
      · exact absurd hmem' hrd
    | verified _ _ hall => exact hholds hall
    | rebooted _ _ hall =>
      rw [stateAfter_append, stateAfter_eq h rfl]
      exact hholds hall

/-- A flash of a valid manifest does not change the reserved range nor what is behind the image, and
    nothing at all if the device is only read; and if it returns, or reboots the device, the device
    holds the segments. So it is whether or not the device keeps what is written to it. -/
theorem flash_device (h : Attached tool storage phase durable)
    (hvalid : validate sha256 d manifest = .ok ()) (hsize : manifest.imageSize ≤ 2 ^ 32 * 512)
    (hraw : ∀ item ∈ manifest.segments, ∀ data, d item.file = some data →
      isSparseImage data = false ∧ isUbifsImage data = false)
    (re : Patterns) (verifyOnly : Bool) (s : σ) :
    ∃ low high, manifest.preserveSectors = [low, high] ∧
      let run := (flash (replies tool.step s) re d verifyOnly manifest).after []
      let left := storage (stateAfter tool.step s run.2)
      (∀ a : ℕ, low * 512 ≤ a ∧ a < high * 512 ∨ manifest.imageSize ≤ a → left a = storage s a) ∧
      (verifyOnly = true → left = storage s) ∧
      (run.1 = .ok () ∨ .rd none ∈ run.2 → ∀ item ∈ manifest.segments, ∀ data,
        d item.file = some data → Holds left (item.sector.toNat * 512) data) := by
  obtain ⟨low, high, head, system, hsplit⟩ := split_of_validate hvalid
  exact ⟨low, high, hsplit.preserveSectors, hsplit.leaves h hvalid hsize hraw re verifyOnly s⟩

/-- A bundle has the two parts of the image around the reserved range. -/
theorem parts_of_flashBundle {image loader : List UInt8} {lock : Lock} {report : Report}
    {work files : Directory}
    (hbundle : flashBundle sha256 image lock report loader work = .ok (manifest, files)) :
    validate sha256 files manifest = .ok () ∧
      (∃ head system, Split sha256 files manifest lock.reservedStartSector
        lock.reservedEndSector head system) ∧
      manifest.imageSize = image.length ∧
      manifest.segments = [(headPart sha256 image lock.reservedStartSector).1,
        (systemPart sha256 image lock.reservedEndSector).1] ∧
      files "image-head.bin" = some (headPart sha256 image lock.reservedStartSector).2 ∧
      files "image-system.bin" = some (systemPart sha256 image lock.reservedEndSector).2 := by
  simp only [flashBundle, bind_eq_ok, raiseIf_eq_ok] at hbundle
  obtain ⟨_, -, _, hlong, segments, hsegments, _, hvalid, hpair⟩ := hbundle
  cases hpair
  obtain ⟨low, high, head, system, hsplit⟩ := split_of_validate hvalid
  have hpreserve := hsplit.preserveSectors
  simp only [bundleManifest, List.cons.injEq, and_true] at hpreserve
  obtain ⟨rfl, rfl⟩ := hpreserve
  have hsize := hsplit.imageSize
  have hunit := hsplit.system_unit
  have hlow' := hsplit.low_pos
  have hhigh' := hsplit.low_lt
  rw [bundleManifest] at hsize
  dsimp only at hsize
  rw [bundleSegments_eq (by omega) (by omega) (by omega) (by omega)] at hsegments
  cases hsegments
  have hfiles := bundleFiles_pair work (headPart sha256 image lock.reservedStartSector)
    (systemPart sha256 image lock.reservedEndSector) (by simp [headPart, systemPart])
  exact ⟨hvalid, ⟨head, system, hsplit⟩, rfl, rfl, hfiles.1, hfiles.2⟩

/-- A device that a bundle was flashed to has the image, but for the reserved range, which is as it
    was. -/
theorem flash_bundle_device (h : Attached tool storage phase durable)
    {image loader : List UInt8} {lock : Lock} {report : Report} {work files : Directory}
    (hbundle : flashBundle sha256 image lock report loader work = .ok (manifest, files))
    (hsize : image.length ≤ 2 ^ 32 * 512)
    (hraw : ∀ item ∈ manifest.segments, ∀ data, files item.file = some data →
      isSparseImage data = false ∧ isUbifsImage data = false)
    (re : Patterns) (verifyOnly : Bool) (s : σ) :
    let run := (flash (replies tool.step s) re files verifyOnly manifest).after []
    run.1 = .ok () ∨ .rd none ∈ run.2 → ∀ a : ℕ,
      storage (stateAfter tool.step s run.2) a =
        if lock.reservedStartSector * 512 ≤ a ∧ a < lock.reservedEndSector * 512 then storage s a
        else (image[a]?).getD (storage s a) := by
  intro run hdone a
  obtain ⟨hvalid, ⟨head, system, hsplit⟩, himage, hsegments, hhead, hsystem⟩ :=
    parts_of_flashBundle hbundle
  have hleaves := hsplit.leaves h hvalid (himage ▸ Int.ofNat_le.2 hsize) hraw re verifyOnly s
  have hlow := hsplit.low_pos
  have hhigh := hsplit.low_lt
  have hend := hsplit.imageSize
  have hpos := hsplit.system_pos
  have hholds := hleaves.2.2 hdone
  rw [hsegments, List.forall_mem_cons] at hholds
  split
  case isTrue hreserved => exact hleaves.1 a (.inl hreserved)
  case isFalse hreserved =>
    cases hbyte : image[a]? with
    | none =>
      have hlen : image.length ≤ a := List.getElem?_eq_none_iff.1 hbyte
      exact hleaves.1 a (.inr (by omega))
    | some b =>
      rw [Option.getD_some]
      rcases lt_or_ge (a : ℤ) (lock.reservedStartSector * 512) with hlt | hge
      · have htake : (image.take (lock.reservedStartSector * 512).toNat)[a]? = some b := by
          rw [List.getElem?_take_of_lt (by omega), hbyte]
        have hmem := holds_getElem? (hholds.1 _ hhead) htake
        rwa [headPart, Int.toNat_zero, Nat.zero_mul, Nat.zero_add] at hmem
      · have hsum : (lock.reservedEndSector * 512).toNat +
            (a - (lock.reservedEndSector * 512).toNat) = a := by omega
        have hdrop : (image.drop (lock.reservedEndSector * 512).toNat)[a -
            (lock.reservedEndSector * 512).toNat]? = some b := by
          rw [List.getElem?_drop, hsum, hbyte]
        have hmem := holds_getElem? (List.forall_mem_singleton.1 hholds.2 _ hsystem) hdrop
        have hpos' : lock.reservedEndSector.toNat * 512 =
            (lock.reservedEndSector * 512).toNat := by omega
        rwa [systemPart, hpos', hsum] at hmem

end

/-! ## A fixture -/

/-- The tool, with the device of six sectors on the bus. -/
def fixtureTool : Tool Device where
  usb := Device.usb
  attach dev := (true, { dev with phase := .command })
  eraseUbiBlock _ dev := (true, dev)
  other c dev :=
    match c with
    | .ld =>
      (⟨false, if dev.loader then "DevNo=1 Mode=Loader" else "DevNo=1 Mode=Maskrom", none⟩, dev)
    | .rd _ => (⟨false, "", none⟩, { dev with loader := false })
    | .db _ => (⟨false, "", none⟩, { dev with loader := true })
    | _ => (⟨false, "Flash Size: 6 Sectors", none⟩, dev)
  output _ _ := ""

/-- The tool is attached to a device that keeps what is written. -/
theorem fixtureTool_attached : Attached fixtureTool Device.storage Device.phase True where
  obeys := Device.usb_obeys
  attach_storage _ := rfl
  attach_phase _ _ := rfl
  other_storage c _ := by cases c <;> rfl

/-- The fixture, on a device that is erased. -/
theorem flash_device_fixture :
    ∃ low high, fixture.preserveSectors = [low, high] ∧
      let run := (flash (replies fixtureTool.step ⟨fun _ => 0xff, .command, true⟩) fixturePatterns
        fixtureFiles false fixture).after []
      let left := (stateAfter fixtureTool.step ⟨fun _ => 0xff, .command, true⟩ run.2).storage
      (∀ a : ℕ, low * 512 ≤ a ∧ a < high * 512 ∨ fixture.imageSize ≤ a → left a = 0xff) ∧
      (run.1 = .ok () ∨ .rd none ∈ run.2 → ∀ item ∈ fixture.segments, ∀ data,
        fixtureFiles item.file = some data → Holds left (item.sector.toNat * 512) data) := by
  have hvalid : validate fixtureSha256 fixtureFiles fixture = .ok () := by decide +kernel
  have hraw : ∀ item ∈ fixture.segments, ∀ data, fixtureFiles item.file = some data →
      isSparseImage data = false ∧ isUbifsImage data = false := by
    intro item hitem data hdata
    have hraw' : ∀ item ∈ fixture.segments,
        isSparseImage ((fixtureFiles item.file).getD []) = false ∧
          isUbifsImage ((fixtureFiles item.file).getD []) = false := by decide +kernel
    have hitem' := hraw' item hitem
    rwa [hdata] at hitem'
  obtain ⟨low, high, hpreserve, hsame, -, hholds⟩ := flash_device fixtureTool_attached hvalid
    (by decide) hraw fixturePatterns false ⟨fun _ => 0xff, .command, true⟩
  exact ⟨low, high, hpreserve, hsame, hholds⟩

/-- An image of six sectors, whose third and fourth ones are reserved. -/
def fixtureImage : List UInt8 :=
  List.replicate 1024 65 ++ List.replicate 1024 0 ++ List.replicate 1024 66

/-- The hashes of the fixture, and that of the image. -/
def imageSha256 (data : List UInt8) : String :=
  if data = fixtureImage then "d6eddb203a5102672c0528f4be6d685596251db14b86022ea436be872087af8f"
  else fixtureSha256 data

/-- The lock of the bundle. -/
def fixtureLock : Lock := ⟨fixture.layout, 2, 4⟩

def fixtureReport : Report := ⟨imageSha256 fixtureImage, fixture.bootComponents⟩

def fixtureLoader : List UInt8 := [108, 111, 97, 100, 101, 114]

/-- The segments of the bundle. -/
def fixtureParts : List (Segment × List UInt8) :=
  [headPart imageSha256 fixtureImage 2, systemPart imageSha256 fixtureImage 4]

/-- The image is bundled. -/
theorem flashBundle_fixture :
    flashBundle imageSha256 fixtureImage fixtureLock fixtureReport fixtureLoader fixtureFiles =
      .ok (bundleManifest imageSha256 fixtureImage fixtureLock fixtureReport fixtureLoader
        fixtureParts, bundleFiles fixtureFiles fixtureParts) := by
  have hlen : fixtureImage.length = 3072 := by
    simp only [fixtureImage, List.length_append, List.length_replicate]
  have hparts : bundleSegments imageSha256 fixtureImage 2 4 = .ok fixtureParts :=
    bundleSegments_eq (by omega) (by decide) (by decide) (by omega)
  have hvalid : validate imageSha256 (bundleFiles fixtureFiles fixtureParts)
      (bundleManifest imageSha256 fixtureImage fixtureLock fixtureReport fixtureLoader
        fixtureParts) = .ok () := by decide +kernel
  have hsha256 : imageSha256 fixtureImage = fixtureReport.sha256 := by
    simp only [fixtureReport]
  have hlong : ¬(fixtureImage.length : ℤ) ≤ fixtureLock.reservedEndSector * 512 := by
    rw [hlen, fixtureLock]
    decide
  simp only [flashBundle, bind_eq_ok, raiseIf_eq_ok]
  exact ⟨(), not_not.2 hsha256, (), hlong, _, hparts, (), hvalid, rfl⟩

/-- The bundle, on a device that is erased. -/
theorem flash_bundle_device_fixture :
    let manifest := bundleManifest imageSha256 fixtureImage fixtureLock fixtureReport fixtureLoader
      fixtureParts
    let run := (flash (replies fixtureTool.step ⟨fun _ => 0xff, .command, true⟩) fixturePatterns
      (bundleFiles fixtureFiles fixtureParts) false manifest).after []
    run.1 = .ok () ∨ .rd none ∈ run.2 → ∀ a : ℕ,
      (stateAfter fixtureTool.step ⟨fun _ => 0xff, .command, true⟩ run.2).storage a =
        if (2 : ℤ) * 512 ≤ a ∧ (a : ℤ) < 4 * 512 then 0xff else (fixtureImage[a]?).getD 0xff := by
  have hraw : ∀ item ∈ (bundleManifest imageSha256 fixtureImage fixtureLock fixtureReport
      fixtureLoader fixtureParts).segments, ∀ data,
        bundleFiles fixtureFiles fixtureParts item.file = some data →
          isSparseImage data = false ∧ isUbifsImage data = false := by
    intro item hitem data hdata
    have hraw' : ∀ item ∈ (bundleManifest imageSha256 fixtureImage fixtureLock fixtureReport
        fixtureLoader fixtureParts).segments,
        isSparseImage ((bundleFiles fixtureFiles fixtureParts item.file).getD []) = false ∧
          isUbifsImage ((bundleFiles fixtureFiles fixtureParts item.file).getD []) = false := by
      decide +kernel
    have hitem' := hraw' item hitem
    rwa [hdata] at hitem'
  have hsize : fixtureImage.length ≤ 2 ^ 32 * 512 := by
    simp only [fixtureImage, List.length_append, List.length_replicate]
    decide
  exact flash_bundle_device fixtureTool_attached flashBundle_fixture hsize hraw fixturePatterns
    false ⟨fun _ => 0xff, .command, true⟩

end W132d.Flash
