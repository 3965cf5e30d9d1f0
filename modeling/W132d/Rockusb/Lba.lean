import W132d.Rockusb.Comm

/-!
# Files on the device

The tool writes a file to the device from a sector on, and reads sectors into a file, 128 sectors at
once (`write_lba` and `read_lba` of `main.cpp`). The last sector of a file is filled with zeros.

* `writeLba_touches`: a file that is written changes its own sectors only, also if a part fails;
* `readLba_touches`: a file that is read has what the device holds.

Files on the host are read and written without errors.

The loops are over what is left of a file, or of the sectors to read; each turn transfers at most
128 sectors. What a turn does to the device is known from `W132d.Rockusb.Comm`, which also allows
for transfers that fail and for writes that are lost. So the lemmas are inductions on what is left:
the sectors of the turns follow each other (`fileSectors_eq`), and what was transferred before is
not touched by what follows (`holds_local`).
-/

namespace W132d.Rockusb

open Raising Peek

/-- `DEFAULT_RW_LBA`. -/
def defaultRwLba : ℕ := 128

/-- How many sectors hold so many bytes. -/
def toSectors (n : ℕ) : ℕ := if n % 512 = 0 then n / 512 else n / 512 + 1

theorem toSectors_eq (n : ℕ) : toSectors n = (n + 511) / 512 := by
  rw [toSectors]
  split <;> omega

/-- How many sectors are read at once, of those that are left. -/
def readCount (uiLen : ℕ) : ℕ := if uiLen ≥ defaultRwLba then defaultRwLba else uiLen

theorem readCount_eq (uiLen : ℕ) : readCount uiLen = min 128 uiLen := by
  rw [readCount, defaultRwLba]
  split <;> omega

/-- The buffer of a transfer, with these bytes. -/
def pad (bytes : List UInt8) : List UInt8 :=
  bytes ++ List.replicate (512 * defaultRwLba - bytes.length) 0

theorem length_pad {bytes : List UInt8} (h : bytes.length ≤ 512 * 128) :
    (pad bytes).length = 512 * 128 := by
  rw [pad, List.length_append, List.length_replicate, defaultRwLba]
  omega

variable {σ : Type}

section

variable (usb : Usb σ)

/-- The loop of `write_lba`, with what it has not read of the file. -/
def writeLba (uiBegin : ℕ) (file : List UInt8) : Raising σ Err Unit :=
  if _h : file = [] then return ()
  else do
    let chunk := file.take (512 * defaultRwLba)
    let uiLen := toSectors chunk.length
    rkuWriteLba usb uiBegin uiLen (pad chunk)
    writeLba ((uiBegin + uiLen) % 2 ^ 32) (file.drop (512 * defaultRwLba))
termination_by file.length
decreasing_by
  have hpos := List.length_pos_of_ne_nil _h
  have hsize : 0 < defaultRwLba := by decide
  rw [List.length_drop]
  omega

/-- The loop of `read_lba`, with what it has written to the file. If it fails, the file keeps
    that. -/
def readLba (uiBegin uiLen iTotalRead : ℕ) (file : List UInt8) :
    Raising σ (List UInt8) (List UInt8) :=
  if _h : uiLen = 0 then return file
  else do
    let iRead := readCount uiLen
    let pBuf ← ExceptT.adapt (fun _ => file)
      (rkuReadLba usb ((uiBegin + iTotalRead) % 2 ^ 32) iRead)
    readLba uiBegin (uiLen - iRead) (iTotalRead + iRead) (file ++ pBuf)
termination_by uiLen
decreasing_by
  rw [readCount_eq]
  omega

end

variable {usb : Usb σ} {storage : σ → ℕ → UInt8} {phase : σ → Phase} {durable : Prop}
  {uiBegin uiLen iTotalRead : ℕ} {file : List UInt8}

/-- The sectors of a file that is written from a sector on, as bytes of the device. -/
def fileSectors (uiBegin : ℕ) (file : List UInt8) : Set ℕ :=
  Set.Ico (uiBegin * 512) ((uiBegin + (file.length + 511) / 512) * 512)

theorem fileSectors_nil (uiBegin : ℕ) : fileSectors uiBegin [] = ∅ := Set.Ico_self _

theorem fileSectors_eq (uiBegin : ℕ) (h : file.length % 512 = 0) :
    fileSectors uiBegin file =
      Set.Ico (uiBegin * 512) ((uiBegin + file.length / 512) * 512) := by
  have hup : (file.length + 511) / 512 = file.length / 512 := by omega
  rw [fileSectors, hup]

/-- Whether the device has a file depends on its sectors. -/
theorem holds_local (uiBegin : ℕ) (file : List UInt8) :
    LocalTo (fileSectors uiBegin file) (Holds · (uiBegin * 512) file) := by
  have hend : uiBegin * 512 + file.length ≤ (uiBegin + (file.length + 511) / 512) * 512 := by
    omega
  intro mem mem' hsame hmem
  refine Eq.trans (List.map_congr_left fun a ha => ?_) hmem
  obtain ⟨hle, hlt⟩ := List.mem_range'_1.1 ha
  exact hsame ⟨hle, hlt.trans_le hend⟩

/-- The byte that a memory has where it holds others. -/
theorem holds_getElem? {mem : ℕ → UInt8} {pos i : ℕ} {bs : List UInt8} {b : UInt8}
    (hmem : Holds mem pos bs) (hb : bs[i]? = some b) : mem (pos + i) = b := by
  rw [← hmem, List.getElem?_eq_some_iff] at hb
  obtain ⟨hi, hb⟩ := hb
  rw [← hb, getElem_bytesAt]

/-- A transfer of bytes to the device. -/
theorem pad_touches (h : Obeys usb storage phase durable) (bytes : List UInt8)
    (hlen : bytes.length ≤ 512 * 128) (hpos : uiBegin < 2 ^ 32) :
    Touches (phase · = .command) storage (fileSectors uiBegin bytes)
      (rkuWriteLba usb uiBegin (toSectors bytes.length) (pad bytes))
      fun _ mem => durable → Holds mem (uiBegin * 512) bytes := by
  have hpad := length_pad hlen
  rw [fileSectors, ← toSectors_eq]
  set uiLen := toSectors bytes.length with huiLen
  rw [toSectors_eq] at huiLen
  have hle : bytes.length ≤ uiLen * 512 := by omega
  refine (rkuWriteLba_touches h hpos (by omega) (by omega)).mono subset_rfl
    fun _ mem hmem hdurable => ?_
  have hdata := hmem hdurable
  rw [pad, List.take_append, List.take_of_length_le hle] at hdata
  exact (holds_append.1 hdata).1

/-- A file that is written changes its own sectors only. -/
theorem writeLba_touches (h : Obeys usb storage phase durable)
    (hend : uiBegin + (file.length + 511) / 512 ≤ 2 ^ 32) :
    Touches (phase · = .command) storage (fileSectors uiBegin file) (writeLba usb uiBegin file)
      fun _ mem => durable → Holds mem (uiBegin * 512) file := by
  induction uiBegin, file using writeLba.induct with
  | case1 uiBegin =>
    rw [writeLba, dif_pos rfl]
    exact touches_pure _ fun _ _ => rfl
  | case2 uiBegin file hne chunk uiLen ih =>
    have hpos := List.length_pos_of_ne_nil hne
    have hchunk : chunk.length = min (512 * 128) file.length := List.length_take
    have huiLen : uiLen = (chunk.length + 511) / 512 := toSectors_eq _
    rw [writeLba, dif_neg hne]
    set rest := file.drop (512 * defaultRwLba) with hrest
    set next := (uiBegin + uiLen) % 2 ^ 32 with hnext
    have hfile : chunk ++ rest = file := List.take_append_drop ..
    have hrestlen : rest.length = file.length - 512 * 128 := List.length_drop
    -- The chunk is the whole rest of the file, or whole sectors.
    have hcases : rest = [] ∨ next = uiBegin + uiLen ∧ chunk.length = uiLen * 512 := by
      refine or_iff_not_imp_left.2 fun hnil => ?_
      have hlong := List.length_pos_of_ne_nil hnil
      exact ⟨Nat.mod_eq_of_lt (by omega), by omega⟩
    obtain ⟨hend', hdisjoint, hsubset, hholds⟩ : next + (rest.length + 511) / 512 ≤ 2 ^ 32 ∧
        Disjoint (fileSectors uiBegin chunk) (fileSectors next rest) ∧
        fileSectors next rest ⊆ fileSectors uiBegin file ∧ ∀ mem,
          Holds mem (uiBegin * 512) chunk → Holds mem (next * 512) rest →
            Holds mem (uiBegin * 512) file := by
      rcases hcases with hnil | ⟨hnext', hlen⟩
      · have hlt : next < 2 ^ 32 := Nat.mod_lt _ (by decide)
        rw [hnil, fileSectors_nil, ← hfile, hnil, List.append_nil]
        exact ⟨hlt.le, Set.disjoint_empty _, Set.empty_subset _, fun _ hmem _ => hmem⟩
      · rw [hnext', ← hfile]
        refine ⟨by omega, ?_, Set.Ico_subset_Ico ?_ ?_, fun mem hmem hmem' => ?_⟩
        · rw [fileSectors, ← huiLen]
          exact Set.Ico_disjoint_Ico_same
        · omega
        · rw [List.length_append]
          omega
        · rw [Nat.add_mul, ← hlen] at hmem'
          exact holds_append.2 ⟨hmem, hmem'⟩
    have hwrite := (pad_touches h chunk (by omega) (by omega : uiBegin < 2 ^ 32)).mono subset_rfl
      fun _ _ hmem => And.intro hmem trivial
    refine (hwrite.seq (fun _ _ => (ih hend').mono subset_rfl fun _ _ hmem =>
      ⟨hmem, trivial⟩) hdisjoint.subset_compl_right ?_).mono (Set.union_subset ?_ hsubset)
      fun _ mem hmem hdurable => hholds mem (hmem.1.1 hdurable) (hmem.1.2 hdurable)
    · exact fun mem mem' hsame hmem hdurable =>
        holds_local uiBegin chunk hsame (hmem hdurable)
    · refine Set.Ico_subset_Ico_right (Nat.mul_le_mul_right 512 ?_)
      omega

/-- A file that is read has what the device holds. -/
theorem readLba_touches (h : Obeys usb storage phase durable)
    (hend : uiBegin + iTotalRead + uiLen ≤ 2 ^ 32) :
    Touches (phase · = .command) storage ∅ (readLba usb uiBegin uiLen iTotalRead file)
      fun file' mem => file' =
        file ++ bytesAt mem ((uiBegin + iTotalRead) * 512) (uiLen * 512) := by
  induction uiLen, iTotalRead, file using readLba.induct with
  | case1 iTotalRead file =>
    rw [readLba, dif_pos rfl, Nat.zero_mul]
    exact touches_pure _ fun _ => (List.append_nil file).symm
  | case2 uiLen iTotalRead file hne iRead ih =>
    have hread : iRead = min 128 uiLen := readCount_eq uiLen
    have hmod : (uiBegin + iTotalRead) % 2 ^ 32 = uiBegin + iTotalRead :=
      Nat.mod_eq_of_lt (by omega)
    have hpos : (uiBegin + (iTotalRead + iRead)) * 512 =
        (uiBegin + iTotalRead) * 512 + iRead * 512 := by ring
    have hsum : uiLen * 512 = iRead * 512 + (uiLen - iRead) * 512 := by
      rw [← Nat.add_mul, Nat.add_sub_cancel' (hread ▸ min_le_right 128 uiLen)]
    rw [readLba, dif_neg hne, hmod, ← Set.union_empty ∅]
    refine ((rkuReadLba_touches h (by omega) (by omega)).adapt fun _ => file).bind
      (fun pBuf _ => ih pBuf (by omega)) fun pBuf file' mem mem' hpBuf hsame hfile' => ?_
    have hmem : mem' = mem := funext fun a => hsame (Set.notMem_empty a)
    rw [hfile', hpBuf, hmem, hpos, hsum, List.append_assoc, bytesAt_add]

/-- A file that is read changes nothing, wherever it is read from. -/
theorem readLba_same (h : Obeys usb storage phase durable) :
    Touches (phase · = .command) storage ∅ (readLba usb uiBegin uiLen iTotalRead file)
      fun _ _ => True := by
  induction uiLen, iTotalRead, file using readLba.induct with
  | case1 iTotalRead file =>
    rw [readLba, dif_pos rfl]
    exact touches_pure _ fun _ => trivial
  | case2 uiLen iTotalRead file hne iRead ih =>
    have hread : iRead = min 128 uiLen := readCount_eq uiLen
    have hpos : (uiBegin + iTotalRead) % 2 ^ 32 < 2 ^ 32 := Nat.mod_lt _ (by decide)
    rw [readLba, dif_neg hne, ← Set.union_empty ∅]
    exact ((rkuReadLba_touches h hpos (by omega)).adapt fun _ => file).bind
      (fun pBuf _ => ih pBuf) fun _ _ _ _ _ _ _ => trivial

end W132d.Rockusb
