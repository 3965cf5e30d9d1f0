import W132d.Rockusb.Lba

/-!
# Sparse images

A sparse image leaves out the blocks that it does not care about, and repeats a word instead of a
block full of it (`write_sparse_lba` of `main.cpp`). The partition is erased first.

* `Chunk`, `Image`: an image, and the bytes that it is stored as;
* `Image.content`: what it says of each byte of the partition;
* `writeSparseLba`: what the tool does with the bytes of a file;
* `writeSparseLba_touches`: it writes what the image says, and nothing outside the partition.

The file is read sequentially, so that the state of the loop has what was not read of it yet. Each
part is written in transfers of at most 128 sectors, whose sizes are computed from what is left of
the part; the progress is printed after each transfer, for which the tool divides by the size of the
file, mostly in units of 1024 bytes, and so may divide by zero.

How the theorem is proved: a memory `Says` what an image says if it has all bytes that are not left
out. What each loop writes is said by one lemma (`writeRaw_touches`, `writeFill_touches`), by
induction on the number of bytes that are left. A part that is read is the one that was stored
(`writeChunk_eq`), and the parts are written one after the other, to sectors behind each other
(`writeChunks_touches`). `uiOffset` has 32 bits, and the sectors of the partition are asked to have
numbers below 2 ^ 32; without this, the tool begins again at the first sector of the device.
-/

namespace W132d.Rockusb

open Raising Peek Layout

/-! ## Images -/

/-- A part of an image, in blocks. -/
inductive Chunk where
  | raw (data : List UInt8)
  | fill (word : List UInt8) (blocks : ℕ)
  | dontCare (blocks : ℕ)
  | crc32 (crc : List UInt8)
  deriving DecidableEq, Repr

namespace Chunk

/-- `CHUNK_TYPE_RAW` and the others. -/
def type : Chunk → ℕ
  | .raw _ => 0xCAC1
  | .fill _ _ => 0xCAC2
  | .dontCare _ => 0xCAC3
  | .crc32 _ => 0xCAC4

/-- How many blocks of `blkSz` bytes a part takes. -/
def blocks (blkSz : ℕ) : Chunk → ℕ
  | .raw data => data.length / blkSz
  | .fill _ blocks | .dontCare blocks => blocks
  | .crc32 _ => 0

/-- What follows the header of a part. -/
def payload : Chunk → List UInt8
  | .raw data => data
  | .fill word _ => word
  | .dontCare _ => []
  | .crc32 crc => crc

/-- What a part says of the bytes. -/
def content (blkSz : ℕ) : Chunk → List (Option UInt8)
  | .raw data => data.map some
  | .fill word blocks => (List.replicate (blocks * blkSz / 4) word).flatten.map some
  | .dontCare blocks => List.replicate (blocks * blkSz) none
  | .crc32 _ => []

/-- `chunk_header`. -/
def header (blkSz : ℕ) (chunk : Chunk) : List UInt8 :=
  leBytes 2 chunk.type ++ leBytes 2 0 ++ leBytes 4 (chunk.blocks blkSz) ++
    leBytes 4 (12 + chunk.payload.length)

/-- A part as it is stored. -/
def toBytes (blkSz : ℕ) (chunk : Chunk) : List UInt8 := chunk.header blkSz ++ chunk.payload

/-- The numbers of a part fit its header, and its data are whole blocks. -/
structure Valid (blkSz : ℕ) (chunk : Chunk) : Prop where
  blocks_lt : chunk.blocks blkSz < 2 ^ 32
  size_lt : 12 + chunk.payload.length < 2 ^ 32
  unit : match chunk with
    | .raw data => data.length % blkSz = 0
    | .fill word _ | .crc32 word => word.length = 4
    | .dontCare _ => True

end Chunk

/-- An image, the size of whose blocks is `blkSz`. -/
structure Image where
  blkSz : ℕ
  chunks : List Chunk
  deriving DecidableEq, Repr

namespace Image

/-- `SPARSE_HEADER_MAGIC`. -/
def magic : ℕ := 0xed26ff3a

/-- The number of blocks of an image. -/
def blocks (image : Image) : ℕ := (image.chunks.map (Chunk.blocks image.blkSz)).sum

/-- What an image says of the bytes. -/
def content (image : Image) : List (Option UInt8) :=
  image.chunks.flatMap (Chunk.content image.blkSz)

/-- `sparse_header`, of version 1.0 and without a checksum. -/
def header (image : Image) : List UInt8 :=
  leBytes 4 magic ++ leBytes 2 1 ++ leBytes 2 0 ++ leBytes 2 28 ++ leBytes 2 12 ++
    leBytes 4 image.blkSz ++ leBytes 4 image.blocks ++ leBytes 4 image.chunks.length ++
    leBytes 4 0

/-- An image as it is stored. -/
def toBytes (image : Image) : List UInt8 :=
  image.header ++ image.chunks.flatMap (Chunk.toBytes image.blkSz)

/-- The numbers of an image fit its header, and its blocks consist of sectors. -/
structure Valid (image : Image) : Prop where
  blkSz_pos : 0 < image.blkSz
  blkSz_lt : image.blkSz < 2 ^ 32
  unit : image.blkSz % 512 = 0
  blocks_lt : image.blocks < 2 ^ 32
  chunks_lt : image.chunks.length < 2 ^ 32
  chunks : ∀ chunk ∈ image.chunks, chunk.Valid image.blkSz

end Image

/-! ## The tool -/

/-- The number that a file has at a position. -/
def numIn (file : List UInt8) (pos len : ℕ) : ℕ := Bytes.le ((file.drop pos).take len)

/-- The state of `write_sparse_lba`: the sector, what has been written, and what has not been read
    of the file. -/
structure Sparse where
  uiBegin : ℕ
  iTotalWrite : ℕ
  bFirst : Bool
  file : List UInt8

variable {σ : Type}

section

variable (usb : Usb σ)

/-- The size of the pieces that `erase_partition` erases. -/
def uiErase : ℕ := 1024 * 32

/-- `erase_partition`. -/
def erasePartition (uiOffset uiSize : ℕ) : Raising σ Err Unit :=
  if _h : uiSize = 0 then return ()
  else if uiSize ≥ uiErase then do
    rkuEraseLba usb uiOffset uiErase
    erasePartition ((uiOffset + uiErase) % 2 ^ 32) (uiSize - uiErase)
  else rkuEraseLba usb uiOffset uiSize
termination_by uiSize
decreasing_by
  have hpos : 0 < uiErase := by decide
  omega

/-- The progress is printed, for which the tool divides by the size of the image. -/
def progress (iFileSize : ℕ) (st : Sparse) : Raising σ Err Sparse :=
  let divisor := if st.bFirst = true ∧ st.iTotalWrite < 1024 then iFileSize else iFileSize / 1024
  if divisor = 0 then throw .dividedByZero else return { st with bFirst := false }

/-- A transfer of a part: `dwTransferBytes` of the buffer. -/
def transfer (iFileSize dwTransferBytes : ℕ) (pBuf : List UInt8) (st : Sparse) :
    Raising σ Err Sparse := do
  let uiTransferSec := toSectors dwTransferBytes
  rkuWriteLba usb st.uiBegin uiTransferSec pBuf
  progress iFileSize { st with
    iTotalWrite := st.iTotalWrite + dwTransferBytes
    uiBegin := (st.uiBegin + uiTransferSec) % 2 ^ 32 }

/-- `EatSparseData`. -/
def eatSparseData (dwSize : ℕ) (st : Sparse) : Raising σ Err (List UInt8 × Sparse) :=
  if st.file.length < dwSize then throw .eatFailed
  else return (st.file.take dwSize, { st with file := st.file.drop dwSize })

/-- The size of the next transfer, of so many bytes. -/
def transferBytes (dwChunkDataSize : ℕ) : ℕ :=
  if dwChunkDataSize ≥ 512 * defaultRwLba then 512 * defaultRwLba else dwChunkDataSize

/-- A transfer is of 128 sectors at most. -/
theorem transferBytes_eq (n : ℕ) : transferBytes n = min (512 * 128) n := by
  rw [transferBytes, defaultRwLba]
  split <;> omega

/-- The loop for `CHUNK_TYPE_RAW`. -/
def writeRaw (iFileSize dwChunkDataSize : ℕ) (st : Sparse) : Raising σ Err Sparse :=
  if _h : dwChunkDataSize = 0 then return st
  else do
    let dwTransferBytes := transferBytes dwChunkDataSize
    let (data, st) ← eatSparseData dwTransferBytes st
    let st ← transfer usb iFileSize dwTransferBytes (pad data) st
    writeRaw iFileSize (dwChunkDataSize - dwTransferBytes) st
termination_by dwChunkDataSize
decreasing_by
  rw [transferBytes_eq]
  omega

/-- The loop for `CHUNK_TYPE_FILL`. -/
def writeFill (iFileSize : ℕ) (dwFillByte : List UInt8) (dwChunkDataSize : ℕ) (st : Sparse) :
    Raising σ Err Sparse :=
  if _h : dwChunkDataSize = 0 then return st
  else do
    let dwTransferBytes := transferBytes dwChunkDataSize
    let data := (List.replicate (dwTransferBytes / 4) dwFillByte).flatten
    let st ← transfer usb iFileSize dwTransferBytes (pad data) st
    writeFill iFileSize dwFillByte (dwChunkDataSize - dwTransferBytes) st
termination_by dwChunkDataSize
decreasing_by
  rw [transferBytes_eq]
  omega

/-- A turn of the loop of `write_sparse_lba`, for blocks of `blkSz` bytes. -/
def writeChunk (iFileSize blkSz : ℕ) (st : Sparse) : Raising σ Err Sparse := do
  let (chunk, st) ← eatSparseData 12 st
  let chunkType := numIn chunk 0 2
  let chunkSz := numIn chunk 4 4
  let totalSz := numIn chunk 8 4
  let dwChunkDataSize := chunkSz * blkSz
  if chunkType = 0xCAC1 then
    -- The difference has 64 bits.
    writeRaw usb iFileSize ((totalSz + 2 ^ 64 - 12) % 2 ^ 64) st
  else if chunkType = 0xCAC2 then do
    let (dwFillByte, st) ← eatSparseData 4 st
    writeFill usb iFileSize dwFillByte dwChunkDataSize st
  else if chunkType = 0xCAC3 then
    progress iFileSize { st with
      iTotalWrite := st.iTotalWrite + dwChunkDataSize
      uiBegin := (st.uiBegin + toSectors dwChunkDataSize) % 2 ^ 32 }
  else if chunkType = 0xCAC4 then
    -- Whether the checksum is there is not looked at.
    return { st with file := st.file.drop 4 }
  else return st

/-- The loop of `write_sparse_lba`, with so many parts to go. -/
def writeChunks (iFileSize blkSz : ℕ) : ℕ → Sparse → Raising σ Err Unit
  | 0, _ => return ()
  | totalChunks + 1, st => do
    let st ← writeChunk usb iFileSize blkSz st
    writeChunks iFileSize blkSz totalChunks st

/-- How many sectors are erased, when the caller does not say: it is the size in bytes. -/
def erasedSectors (uiSize iFileSize : ℕ) : ℕ :=
  if uiSize = 2 ^ 32 - 1 then (iFileSize + 511) / 512 * 512 % 2 ^ 32 else uiSize

/-- `write_sparse_lba`. -/
def writeSparseLba (uiBegin uiSize : ℕ) (file : List UInt8) : Raising σ Err Unit := do
  let st : Sparse := ⟨uiBegin, 0, true, file⟩
  let (header, st) ← eatSparseData 28 st
  let blkSz := numIn header 12 4
  let totalBlks := numIn header 16 4
  let totalChunks := numIn header 20 4
  let iFileSize := blkSz * totalBlks
  erasePartition usb uiBegin (erasedSectors uiSize iFileSize)
  writeChunks usb iFileSize blkSz totalChunks st

end

/-! ## Reading the file -/

variable {usb : Usb σ} {storage : σ → ℕ → UInt8} {phase : σ → Phase} {mem : ℕ → UInt8}
  {pos len n iFileSize blkSz uiBegin : ℕ} {l l' rest : List UInt8} {st : Sparse}

/-- A header with a number at a position. -/
theorem numIn_append (hpos : l.length = pos) (hn : n < 256 ^ len) :
    numIn (l ++ leBytes len n ++ l') pos len = n := by
  rw [numIn, List.append_assoc, List.drop_left' hpos, List.take_left' (length_leBytes len n),
    le_leBytes, Nat.mod_eq_of_lt hn]

/-- What comes next in the file is read. -/
theorem eatSparseData_append (hlen : l.length = n) (hfile : st.file = l ++ rest) :
    (eatSparseData n st : Raising σ Err (List UInt8 × Sparse)) =
      pure (l, { st with file := rest }) := by
  rw [eatSparseData, if_neg (by rw [hfile, List.length_append]; omega), hfile,
    List.take_left' hlen, List.drop_left' hlen]

/-- The header of a chunk has twelve bytes. -/
theorem length_header (chunk : Chunk) : (chunk.header blkSz).length = 12 := by
  simp only [Chunk.header, List.length_append, length_leBytes]

/-- The tool reads the header of a part. -/
theorem numIn_header {chunk : Chunk} (h : chunk.Valid blkSz) :
    numIn (chunk.header blkSz) 0 2 = chunk.type ∧
      numIn (chunk.header blkSz) 4 4 = chunk.blocks blkSz ∧
        numIn (chunk.header blkSz) 8 4 = 12 + chunk.payload.length := by
  have htype : chunk.type < 256 ^ 2 := by
    cases chunk <;> norm_num [Chunk.type]
  refine ⟨?_, numIn_append ?_ h.blocks_lt, ?_⟩
  · rw [Chunk.header, List.append_assoc, List.append_assoc]
    exact numIn_append (l := []) rfl htype
  · simp only [List.length_append, length_leBytes]
  · rw [← List.append_nil (chunk.header blkSz)]
    refine numIn_append ?_ h.size_lt
    simp only [List.length_append, length_leBytes]

theorem length_content {chunk : Chunk} (h : chunk.Valid blkSz) (hblk : blkSz % 512 = 0) :
    (chunk.content blkSz).length = chunk.blocks blkSz * blkSz := by
  have hsectors : chunk.blocks blkSz * blkSz % 512 = 0 := by
    rw [Nat.mul_mod, hblk, Nat.mul_zero, Nat.zero_mod]
  cases chunk with
  | raw data =>
    exact (List.length_map _).trans (Nat.div_mul_cancel (Nat.dvd_of_mod_eq_zero h.unit)).symm
  | fill word blocks =>
    have hword : word.length = 4 := h.unit
    dsimp only [Chunk.blocks] at hsectors
    rw [Chunk.content, List.length_map, List.length_flatten, List.map_replicate,
      List.sum_replicate, hword, smul_eq_mul, Chunk.blocks]
    omega
  | dontCare blocks => exact List.length_replicate
  | crc32 crc => exact (Nat.zero_mul blkSz).symm

/-- The tool reads the header of an image. -/
theorem numIn_imageHeader {image : Image} (h : image.Valid) :
    numIn image.header 12 4 = image.blkSz ∧ numIn image.header 16 4 = image.blocks ∧
      numIn image.header 20 4 = image.chunks.length := by
  refine ⟨?_, ?_, numIn_append ?_ h.chunks_lt⟩
  · rw [Image.header, List.append_assoc, List.append_assoc]
    refine numIn_append ?_ h.blkSz_lt
    simp only [List.length_append, length_leBytes]
  · rw [Image.header, List.append_assoc]
    refine numIn_append ?_ h.blocks_lt
    simp only [List.length_append, length_leBytes]
  · simp only [List.length_append, length_leBytes]

/-- A memory has the bytes at a position that are not left out. -/
def Says (mem : ℕ → UInt8) (pos : ℕ) (content : List (Option UInt8)) : Prop :=
  ∀ i b, content[i]? = some (some b) → mem (pos + i) = b

/-- Nothing is said of no bytes. -/
theorem says_nil : Says mem pos [] := fun _ _ h => nomatch h

/-- What is said of two parts is said of both. -/
theorem says_append {content content' : List (Option UInt8)} (h : Says mem pos content)
    (h' : Says mem (pos + content.length) content') : Says mem pos (content ++ content') := by
  intro i b hb
  rw [List.getElem?_append] at hb
  split at hb
  case isTrue => exact h i b hb
  case isFalse hi =>
    have hsum : pos + content.length + (i - content.length) = pos + i := by omega
    rw [← hsum]
    exact h' _ b hb

/-- Bytes that are there are said. -/
theorem says_map_some (h : Holds mem pos l) : Says mem pos (l.map some) := by
  intro i b hb
  simp only [List.getElem?_map, Option.map_eq_some_iff, Option.some.injEq, exists_eq_right] at hb
  exact holds_getElem? h hb

theorem says_none : Says mem pos (List.replicate n none) := by
  intro i b hb
  rw [List.getElem?_replicate] at hb
  split at hb <;> cases hb

/-- What is said depends on these bytes only. -/
theorem says_local (pos : ℕ) (content : List (Option UInt8)) :
    LocalTo (Set.Ico pos (pos + content.length)) (Says · pos content) := by
  intro mem mem' hsame hmem i b hb
  have hi := (List.getElem?_eq_some_iff.1 hb).1
  rw [← hmem i b hb]
  exact hsame ⟨Nat.le_add_right _ _, by omega⟩

/-! ## Erasing -/

/-- Erasing a partition touches its sectors. -/
theorem erasePartition_touches {durable : Prop} (h : Obeys usb storage phase durable)
    {uiOffset uiSize : ℕ} (hend : uiOffset + uiSize < 2 ^ 32) :
    Touches (phase · = .command) storage (Set.Ico (uiOffset * 512) ((uiOffset + uiSize) * 512))
      (erasePartition usb uiOffset uiSize) fun _ _ => True := by
  have herase : uiErase = 32768 := rfl
  induction uiOffset, uiSize using erasePartition.induct with
  | case1 uiOffset =>
    rw [erasePartition, dif_pos rfl]
    exact touches_pure _ fun _ => trivial
  | case2 uiOffset uiSize hne hge ih =>
    have hmod : (uiOffset + uiErase) % 2 ^ 32 = uiOffset + uiErase := Nat.mod_eq_of_lt (by omega)
    rw [hmod] at ih
    rw [erasePartition, dif_neg hne, if_pos hge, hmod]
    refine ((rkuEraseLba_touches h (by omega) (by omega)).bind (fun _ _ => ih (by omega))
      fun _ _ _ _ _ _ _ => trivial).mono (Set.union_subset ?_ ?_) fun _ _ _ => trivial
    · exact Set.Ico_subset_Ico_right (Nat.mul_le_mul_right 512 (by omega))
    · exact Set.Ico_subset_Ico (Nat.mul_le_mul_right 512 (by omega))
        (Nat.mul_le_mul_right 512 (by omega))
  | case3 uiOffset uiSize hne hlt =>
    rw [erasePartition, dif_neg hne, if_neg hlt]
    exact rkuEraseLba_touches h (by omega) (by omega)

/-! ## Parts with data -/

/-- What has been written between two states, if the file had `rest` behind it. -/
def Sparse.Wrote (st : Sparse) (data rest : List UInt8) (st' : Sparse) (mem : ℕ → UInt8) : Prop :=
  Holds mem (st.uiBegin * 512) data ∧ st'.uiBegin = st.uiBegin + data.length / 512 ∧
    st'.file = rest

/-- Showing the progress touches nothing. -/
theorem progress_touches {ready : σ → Prop} {view : σ → ℕ → UInt8} (st : Sparse) :
    Touches ready view ∅ (progress iFileSize st : Raising σ Err Sparse) fun st' _ =>
      st' = { st with bFirst := false } :=
  Touches.ite (fun _ => touches_throw _) fun _ => touches_pure _ fun _ => rfl

section

variable (h : Obeys usb storage phase True)

include h

/-- A transfer of a part, and then the others. -/
theorem transfer_touches {piece data : List UInt8} {loop : Sparse → Raising σ Err Sparse}
    (hpiece : piece.length = n) (hlen : n ≤ 512 * 128) (hunit : n % 512 = 0)
    (hend : st.uiBegin + n / 512 < 2 ^ 32)
    (hloop : ∀ st', st'.uiBegin = st.uiBegin + n / 512 → st'.file = st.file →
      Touches (phase · = .command) storage (fileSectors st'.uiBegin data) (loop st')
        (st'.Wrote data rest)) :
    Touches (phase · = .command) storage (fileSectors st.uiBegin (piece ++ data))
      (transfer usb iFileSize n (pad piece) st >>= loop) (st.Wrote (piece ++ data) rest) := by
  subst hpiece
  have hsectors : toSectors piece.length = piece.length / 512 := if_pos hunit
  have hbegin : st.uiBegin < 2 ^ 32 := by omega
  have hmod : (st.uiBegin + piece.length / 512) % 2 ^ 32 = st.uiBegin + piece.length / 512 :=
    Nat.mod_eq_of_lt hend
  have hwrite : Touches (phase · = .command) storage (fileSectors st.uiBegin piece)
      (rkuWriteLba usb st.uiBegin (toSectors piece.length) (pad piece)) fun _ mem =>
        Holds mem (st.uiBegin * 512) piece ∧ True :=
    (pad_touches h piece hlen hbegin).mono subset_rfl fun _ _ hmem => ⟨hmem trivial, trivial⟩
  -- One transfer: the piece is written, and the position goes on by its sectors.
  have htransfer : Touches (phase · = .command) storage (fileSectors st.uiBegin piece)
      (transfer usb iFileSize piece.length (pad piece) st) fun st' mem =>
        Holds mem (st.uiBegin * 512) piece ∧
          st'.uiBegin = st.uiBegin + piece.length / 512 ∧ st'.file = st.file := by
    have hprogress (st' : Sparse) : Touches (phase · = .command) storage ∅
        (progress iFileSize st' : Raising σ Err Sparse) fun st'' _ =>
          True ∧ st'' = { st' with bFirst := false } :=
      (progress_touches st').mono subset_rfl fun _ _ hst'' => ⟨trivial, hst''⟩
    rw [transfer, hsectors, hmod, ← Set.union_empty (fileSectors _ _), ← hsectors]
    refine (hwrite.seq (fun _ _ => hprogress _) (Set.disjoint_empty _).subset_compl_right
      (holds_local _ piece)).mono subset_rfl fun st' mem hst' => ⟨hst'.1.1, ?_⟩
    rw [hst'.2]
    exact ⟨rfl, rfl⟩
  have hnext : (st.uiBegin + piece.length / 512) * 512 = st.uiBegin * 512 + piece.length := by
    omega
  -- The rest is written behind the piece, so that the piece is there in the end.
  have hdisjoint : Disjoint (fileSectors st.uiBegin piece)
      (fileSectors (st.uiBegin + piece.length / 512) data) := by
    rw [fileSectors_eq _ hunit]
    exact Set.Ico_disjoint_Ico_same
  refine (htransfer.bind (fun st' ⟨_, _, hbegin', hfile⟩ => hbegin' ▸ hloop st' hbegin' hfile)
    fun st' st'' mem mem' hst' hsame hst'' => ?_).mono ?_ fun _ _ hst' => hst'
  · obtain ⟨hmem, hbegin', -⟩ := hst'
    obtain ⟨hmem', hbegin'', hfile''⟩ := hst''
    have hkept := holds_local _ piece (hsame.mono hdisjoint.subset_compl_right) hmem
    rw [hbegin', hnext] at hmem'
    refine ⟨holds_append.2 ⟨hkept, hmem'⟩, ?_, hfile''⟩
    rw [hbegin'', hbegin', List.length_append]
    omega
  · rw [fileSectors, fileSectors, fileSectors, List.length_append]
    refine Set.union_subset (Set.Ico_subset_Ico ?_ ?_) (Set.Ico_subset_Ico ?_ ?_) <;> omega

/-- A part that is stored as it is. -/
theorem writeRaw_touches (st : Sparse) {data : List UInt8} (hlen : data.length = n)
    (hunit : n % 512 = 0) (hend : st.uiBegin + n / 512 < 2 ^ 32) (hfile : st.file = data ++ rest) :
    Touches (phase · = .command) storage (fileSectors st.uiBegin data)
      (writeRaw usb iFileSize n st) (st.Wrote data rest) := by
  induction n, st using writeRaw.induct generalizing data with
  | case1 st =>
    have hnil : data = [] := List.eq_nil_of_length_eq_zero hlen
    rw [writeRaw, dif_pos rfl]
    subst hnil
    exact touches_pure _ fun _ => ⟨rfl, rfl, hfile⟩
  | case2 n st hne dwTransferBytes =>
    rename_i ih
    have hbytes : dwTransferBytes = min (512 * 128) n := transferBytes_eq n
    obtain ⟨piece, next, rfl, hpiece⟩ : ∃ piece next, data = piece ++ next ∧
        piece.length = dwTransferBytes :=
      ⟨_, _, (List.take_append_drop dwTransferBytes data).symm,
        List.length_take_of_le (by omega)⟩
    rw [List.length_append] at hlen
    rw [List.append_assoc] at hfile
    have hend' : ({ st with file := next ++ rest } : Sparse).uiBegin + dwTransferBytes / 512 <
        2 ^ 32 := by
      dsimp only
      omega
    rw [writeRaw, dif_neg hne]
    dsimp only
    rw [eatSparseData_append hpiece hfile, pure_bind]
    refine transfer_touches h hpiece (by omega) (by omega) hend' fun st' hbegin hfile' => ?_
    dsimp only at hbegin
    exact ih st' (by omega) (by omega) (by omega) hfile'

/-- A part that repeats a word. -/
theorem writeFill_touches (st : Sparse) {word : List UInt8} (hword : word.length = 4)
    (hunit : n % 512 = 0) (hend : st.uiBegin + n / 512 < 2 ^ 32) :
    Touches (phase · = .command) storage
      (fileSectors st.uiBegin (List.replicate (n / 4) word).flatten)
      (writeFill usb iFileSize word n st)
      (st.Wrote (List.replicate (n / 4) word).flatten st.file) := by
  induction n, st using writeFill.induct word with
  | case1 st =>
    rw [writeFill, dif_pos rfl]
    exact touches_pure _ fun _ => by simp [Sparse.Wrote, Holds, bytesAt]
  | case2 n st hne dwTransferBytes ih =>
    have hbytes : dwTransferBytes = min (512 * 128) n := transferBytes_eq n
    have hcount : n / 4 = dwTransferBytes / 4 + (n - dwTransferBytes) / 4 := by omega
    have hpiece : (List.replicate (dwTransferBytes / 4) word).flatten.length = dwTransferBytes := by
      rw [List.length_flatten, List.map_replicate, List.sum_replicate, hword, smul_eq_mul]
      omega
    rw [writeFill, dif_neg hne, hcount, List.replicate_add, List.flatten_append]
    refine transfer_touches h hpiece (by omega) (by omega) (by omega) fun st' hbegin hfile => ?_
    rw [← hfile]
    exact ih st' (by omega) (by omega)

omit h in
/-- What the tool reads of a part. -/
theorem writeChunk_eq {chunk : Chunk} (hvalid : chunk.Valid blkSz)
    (hfile : st.file = chunk.toBytes blkSz ++ rest) :
    writeChunk usb iFileSize blkSz st =
      match chunk with
      | .raw data => writeRaw usb iFileSize data.length { st with file := data ++ rest }
      | .fill word blocks =>
        writeFill usb iFileSize word (blocks * blkSz) { st with file := rest }
      | .dontCare blocks => progress iFileSize { st with
          iTotalWrite := st.iTotalWrite + blocks * blkSz
          uiBegin := (st.uiBegin + toSectors (blocks * blkSz)) % 2 ^ 32
          file := rest }
      | .crc32 _ => pure { st with file := rest } := by
  rw [Chunk.toBytes, List.append_assoc] at hfile
  obtain ⟨htype, hblocks, hsize⟩ := numIn_header hvalid
  -- The header of the chunk is read back as it was written.
  rw [writeChunk, eatSparseData_append (length_header chunk) hfile, pure_bind]
  dsimp only
  rw [htype, hblocks, hsize]
  cases chunk with
  | raw data =>
    -- The size of the content is found by a difference that is taken modulo `2 ^ 64`.
    have hlen : (12 + data.length + 2 ^ 64 - 12) % 2 ^ 64 = data.length := by
      have hlt : 12 + data.length < 2 ^ 32 := hvalid.size_lt
      omega
    simp only [Chunk.type, Chunk.payload, if_true, hlen]
  | fill word blocks =>
    have hword : word.length = 4 := hvalid.unit
    simp only [Chunk.type, Chunk.payload, Chunk.blocks, if_true]
    rw [if_neg (by decide), eatSparseData_append hword rfl, pure_bind]
  | dontCare blocks =>
    simp only [Chunk.type, Chunk.payload, Chunk.blocks, if_true, List.nil_append]
    rw [if_neg (by decide), if_neg (by decide)]
  | crc32 crc =>
    have hcrc : crc.length = 4 := hvalid.unit
    simp only [Chunk.type, Chunk.payload, if_true, List.drop_left' hcrc]
    rw [if_neg (by decide), if_neg (by decide), if_neg (by decide)]

/-- A part of an image. -/
theorem writeChunk_touches {chunk : Chunk} (hvalid : chunk.Valid blkSz) (hblk : blkSz % 512 = 0)
    (hend : st.uiBegin + chunk.blocks blkSz * blkSz / 512 < 2 ^ 32)
    (hfile : st.file = chunk.toBytes blkSz ++ rest) :
    Touches (phase · = .command) storage
      (Set.Ico (st.uiBegin * 512) ((st.uiBegin + chunk.blocks blkSz * blkSz / 512) * 512))
      (writeChunk usb iFileSize blkSz st) fun st' mem =>
        Says mem (st.uiBegin * 512) (chunk.content blkSz) ∧
          st'.uiBegin = st.uiBegin + chunk.blocks blkSz * blkSz / 512 ∧ st'.file = rest := by
  have hsectors : chunk.blocks blkSz * blkSz % 512 = 0 := by
    rw [Nat.mul_mod, hblk, Nat.mul_zero, Nat.zero_mod]
  rw [writeChunk_eq hvalid hfile]
  -- A chunk of data is written as it is, a chunk with a word is filled with it, and the other two
  -- write nothing.
  cases chunk with
  | raw data =>
    have hunit : data.length % blkSz = 0 := hvalid.unit
    have hdata : data.length / blkSz * blkSz = data.length :=
      Nat.div_mul_cancel (Nat.dvd_of_mod_eq_zero hunit)
    dsimp only [Chunk.blocks] at hend hsectors ⊢
    rw [hdata] at hend hsectors ⊢
    rw [← fileSectors_eq _ hsectors]
    exact (writeRaw_touches h { st with file := data ++ rest } rfl hsectors hend rfl).mono
      subset_rfl fun _ _ hst' => ⟨says_map_some hst'.1, hst'.2⟩
  | fill word blocks =>
    have hword : word.length = 4 := hvalid.unit
    dsimp only [Chunk.blocks] at hend hsectors ⊢
    have hlen : (List.replicate (blocks * blkSz / 4) word).flatten.length = blocks * blkSz := by
      rw [List.length_flatten, List.map_replicate, List.sum_replicate, hword, smul_eq_mul]
      omega
    have hset := fileSectors_eq st.uiBegin (hlen.symm ▸ hsectors)
    rw [hlen] at hset
    rw [← hset]
    refine (writeFill_touches h { st with file := rest } hword hsectors hend).mono subset_rfl
      fun st' _ hst' => ?_
    obtain ⟨hmem, hbegin, hfile'⟩ := hst'
    rw [hlen] at hbegin
    exact ⟨says_map_some hmem, hbegin, hfile'⟩
  | dontCare blocks =>
    dsimp only [Chunk.blocks] at hend hsectors ⊢
    rw [toSectors, if_pos hsectors, Nat.mod_eq_of_lt hend]
    refine (progress_touches _).mono (Set.empty_subset _) fun st' _ hst' => ?_
    rw [hst']
    exact ⟨says_none, rfl, rfl⟩
  | crc32 crc =>
    refine touches_pure _ fun _ => ⟨says_nil, ?_, rfl⟩
    rw [Chunk.blocks, Nat.zero_mul, Nat.zero_div, Nat.add_zero]

/-- All parts of an image. -/
theorem writeChunks_touches {chunks : List Chunk} (hvalid : ∀ chunk ∈ chunks, chunk.Valid blkSz)
    (hblk : blkSz % 512 = 0)
    (hend : st.uiBegin + (chunks.map (Chunk.blocks blkSz)).sum * blkSz / 512 < 2 ^ 32)
    (hfile : st.file = chunks.flatMap (Chunk.toBytes blkSz)) :
    Touches (phase · = .command) storage
      (Set.Ico (st.uiBegin * 512)
        ((st.uiBegin + (chunks.map (Chunk.blocks blkSz)).sum * blkSz / 512) * 512))
      (writeChunks usb iFileSize blkSz chunks.length st) fun _ mem =>
        Says mem (st.uiBegin * 512) (chunks.flatMap (Chunk.content blkSz)) := by
  -- By induction on the chunks. The sectors of the first one end where those of the others begin,
  -- so that what was written there stays.
  induction chunks generalizing st with
  | nil => exact touches_pure _ fun _ => says_nil
  | cons chunk chunks ih =>
    have hchunk := hvalid chunk List.mem_cons_self
    have hlen := length_content hchunk hblk
    have hsum : ((chunk :: chunks).map (Chunk.blocks blkSz)).sum * blkSz / 512 =
        chunk.blocks blkSz * blkSz / 512 +
          (chunks.map (Chunk.blocks blkSz)).sum * blkSz / 512 := by
      rw [List.map_cons, List.sum_cons, Nat.add_mul, Nat.add_div_of_dvd_right]
      exact Dvd.dvd.mul_left (Nat.dvd_of_mod_eq_zero hblk) _
    rw [hsum] at hend ⊢
    set sectors := chunk.blocks blkSz * blkSz / 512 with hsectors
    set rest := (chunks.map (Chunk.blocks blkSz)).sum * blkSz / 512 with hrest
    have hcontent : st.uiBegin * 512 + (chunk.content blkSz).length =
        (st.uiBegin + sectors) * 512 := by
      have hunit : chunk.blocks blkSz * blkSz % 512 = 0 := by
        rw [Nat.mul_mod, hblk, Nat.mul_zero, Nat.zero_mod]
      omega
    -- The other chunks, from the state behind the first one.
    have hnext (st' : Sparse) (hst' : st'.uiBegin = st.uiBegin + sectors ∧
        st'.file = chunks.flatMap (Chunk.toBytes blkSz)) :
        Touches (phase · = .command) storage
          (Set.Ico ((st.uiBegin + sectors) * 512) ((st.uiBegin + (sectors + rest)) * 512))
          (writeChunks usb iFileSize blkSz chunks.length st') fun _ mem =>
            Says mem ((st.uiBegin + sectors) * 512) (chunks.flatMap (Chunk.content blkSz)) ∧
              True := by
      obtain ⟨hbegin, hfile'⟩ := hst'
      have hih := ih (fun c hc => hvalid c (List.mem_cons_of_mem _ hc))
        (by rw [hbegin]; omega) hfile'
      rw [hbegin, Nat.add_assoc] at hih
      exact hih.mono subset_rfl fun _ _ hmem => ⟨hmem, trivial⟩
    have hlocal := says_local (st.uiBegin * 512) (chunk.content blkSz)
    rw [hcontent] at hlocal
    refine ((writeChunk_touches h hchunk hblk (by omega) hfile).seq hnext
      Set.Ico_disjoint_Ico_same.subset_compl_right hlocal).mono (Set.union_subset ?_ ?_)
      fun _ mem hmem => ?_
    · exact Set.Ico_subset_Ico_right (by omega)
    · exact Set.Ico_subset_Ico_left (by omega)
    · rw [List.flatMap_cons]
      exact says_append hmem.1.1 (hcontent.symm ▸ hmem.1.2)

/-- An image that is written, to sectors whose numbers do not wrap around in the 32 bits of
    `uiOffset`. -/
theorem writeSparseLba_touches {image : Image} (hvalid : image.Valid) {uiSize erased : ℕ}
    (herased : erasedSectors uiSize (image.blkSz * image.blocks) = erased)
    (hend : uiBegin + max erased (image.blocks * image.blkSz / 512) < 2 ^ 32) :
    Touches (phase · = .command) storage
      (Set.Ico (uiBegin * 512)
        ((uiBegin + max erased (image.blocks * image.blkSz / 512)) * 512))
      (writeSparseLba usb uiBegin uiSize image.toBytes) fun _ mem =>
        Says mem (uiBegin * 512) image.content := by
  have hlen : image.header.length = 28 := by
    simp only [Image.header, List.length_append, length_leBytes]
  obtain ⟨hblkSz, hblocks, hchunks⟩ := numIn_imageHeader hvalid
  have hfile : (⟨uiBegin, 0, true, image.toBytes⟩ : Sparse).file =
      image.header ++ image.chunks.flatMap (Chunk.toBytes image.blkSz) := rfl
  rw [writeSparseLba]
  dsimp only
  rw [eatSparseData_append hlen hfile, pure_bind]
  dsimp only
  rw [hblkSz, hblocks, hchunks, herased]
  refine ((erasePartition_touches h (by omega)).bind (fun _ _ => writeChunks_touches h
    hvalid.chunks hvalid.unit ?_ rfl) fun _ _ _ _ _ _ hmem => hmem).mono ?_ fun _ _ hmem => hmem
  · exact lt_of_le_of_lt (Nat.add_le_add_left (le_max_right _ _) _) hend
  · exact Set.union_subset
      (Set.Ico_subset_Ico_right (Nat.mul_le_mul_right 512 (Nat.add_le_add_left
        (le_max_left _ _) _)))
      (Set.Ico_subset_Ico_right (Nat.mul_le_mul_right 512 (Nat.add_le_add_left
        (le_max_right _ _) _)))

end

/-- A sector. -/
@[irreducible] def fixtureSector : List UInt8 := List.replicate 512 7

theorem length_fixtureSector : fixtureSector.length = 512 := by
  rw [fixtureSector, List.length_replicate]

/-- An image with a part of each kind, of blocks of one sector. -/
def fixtureImage : Image where
  blkSz := 512
  chunks := [.raw fixtureSector, .dontCare 1, .fill [1, 2, 3, 4] 2, .crc32 [0, 0, 0, 0]]

theorem fixtureImage_blocks : fixtureImage.blocks = 4 := by
  simp [Image.blocks, fixtureImage, Chunk.blocks, length_fixtureSector]

theorem fixtureImage_valid : fixtureImage.Valid where
  blkSz_pos := by decide
  blkSz_lt := by decide
  unit := rfl
  blocks_lt := by
    rw [fixtureImage_blocks]
    decide
  chunks_lt := by decide
  chunks := by
    intro chunk hchunk
    simp only [fixtureImage, List.mem_cons, List.not_mem_nil, or_false] at hchunk
    rcases hchunk with rfl | rfl | rfl | rfl
    · refine ⟨?_, ?_, ?_⟩ <;>
        simp [Chunk.blocks, Chunk.payload, length_fixtureSector, fixtureImage]
    · exact ⟨by decide, by decide, trivial⟩
    · exact ⟨by decide, by decide, rfl⟩
    · exact ⟨by decide, by decide, rfl⟩

/-- The image has four sectors, and 2048 are erased: as many as it has bytes. -/
theorem writeSparseLba_touches_fixture :
    Touches (Device.phase · = .command) Device.storage (Set.Ico (8 * 512) ((8 + 2048) * 512))
      (writeSparseLba Device.usb 8 (2 ^ 32 - 1) fixtureImage.toBytes) fun _ mem =>
        Says mem (8 * 512) fixtureImage.content := by
  have herased : erasedSectors (2 ^ 32 - 1) (fixtureImage.blkSz * fixtureImage.blocks) = 2048 := by
    rw [fixtureImage_blocks]
    decide
  have hmax : max 2048 (fixtureImage.blocks * fixtureImage.blkSz / 512) = 2048 := by
    rw [fixtureImage_blocks]
    decide
  have hend : 8 + max 2048 (fixtureImage.blocks * fixtureImage.blkSz / 512) < 2 ^ 32 := by
    rw [hmax]
    decide
  have hwrites := writeSparseLba_touches Device.usb_obeys fixtureImage_valid herased hend
  rwa [hmax] at hwrites

end W132d.Rockusb
