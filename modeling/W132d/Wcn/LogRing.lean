import W132d.Machine
import W132d.Circular

/-!
# The ring of the debug log

The log of the chip is kept in a ring (`bufring.c`) until it is read. Readers take the lock of the
ring; there is one writer, which does not, so that its steps come between those of a reader.

* `MdbgRing`: the ring, with the offsets of its pointers from `pbuff`;
* `mdbgRingWrite`, `writeCopy`: a write is discarded or accepted, then copied;
* `mdbgRingRead`, `readCopy`: the number of bytes to read, which are then copied;
* `logRing`: the machine, in which `rp` and `wp` move once the bytes were copied;
* `Inv`, `logRing_step`: what the ring has is in order, and is left alone by the writer;
* `log_ring_fifo`: what was read and what is in the ring are the writes that were stored, in order.

`kmalloc` gives less than `2 ^ 31` bytes, so that an `int` holds every number of bytes in a ring.

The ring is a memory of `size` bytes, of which one stays free, so that `rp` and `wp` are the same
only if it is empty. A read or a write that goes over the end is made of two copies. The numbers of
bytes are computed from both pointers, of which the other side may have moved one since: then there
is more room, or more to read, than was computed, but never less.

How the theorem is proved: the ring is seen as bytes on a circle (`W132d.Circular`), on which both
pointers only go forwards. The bytes from `rp` to `wp` can be read, those from `wp` to `rp` can be
written. A copy of the writer is within the second part, and leaves the first one alone
(`segment_of_stored`); its bytes become readable as `wp` is moved (`readable_wp`), and those of a
reader cease to be as `rp` is (`readable_rp`). So in every state, what was read, followed by what
can be read, are the stored writes (`Inv`), and each of the six steps keeps this by a lemma of its
own.
-/

namespace W132d.LogRing

open Circular

/-! ## The ring -/

/-- `MDBG_RING_MIN_SIZE`. -/
def mdbgRingMinSize : ℕ := 1024 * 4

/-- `struct mdbg_ring_t`, whose memory is `pbuff`. -/
structure MdbgRing where
  size : ℕ
  pbuff : ℕ → UInt8
  rp : ℕ
  wp : ℕ
  pend : ℕ
  pOrderFlag : Bool

/-- `mdbg_ring_alloc`, where `kmalloc` tells the sizes of which there is memory. -/
def mdbgRingAlloc (kmalloc : ℕ → Bool) (size : ℕ) : Option MdbgRing :=
  if size < mdbgRingMinSize then none
  else if kmalloc size then
    some { size, pbuff := fun _ => 0, rp := 0, wp := 0, pend := size - 1, pOrderFlag := false }
  else none

namespace MdbgRing

variable (ring : MdbgRing)

/-- `mdbg_ring_free_space`. -/
def mdbgRingFreeSpace : ℕ :=
  if ring.wp ≥ ring.rp then ring.size - ring.wp + ring.rp else ring.rp - ring.wp

/-- `mdbg_ring_readable_len`. -/
def mdbgRingReadableLen : ℕ := ring.size - ring.mdbgRingFreeSpace

/-- `mdbg_ring_over_loop` of a pointer that is `rp` or `wp`. -/
def mdbgRingOverLoop (ptr len : ℕ) : Bool := ptr + len > ring.pend

/-- `memcpy` from the ring, which crashes if it reads behind its end. -/
def memcpyFrom (ptr len : ℕ) : Option (List UInt8) :=
  if ptr + len ≤ ring.size then some (slice ring.pbuff ptr len) else none

/-- `memcpy` to the ring, which crashes if it writes behind its end. -/
def memcpyTo (ptr : ℕ) (buf : List UInt8) : Option MdbgRing :=
  if ptr + buf.length ≤ ring.size then some { ring with pbuff := blit ring.pbuff ptr buf } else none

/-! ## Reading and writing -/

/-- `mdbg_ring_read` up to the copies: the number of bytes to read. -/
def mdbgRingRead (len : ℕ) : ℕ :=
  let contLen := ring.mdbgRingReadableLen
  if contLen ≥ len then len else contLen

/-- The copies of `mdbg_ring_read`, with where they leave `rp`. -/
def readCopy (readLen : ℕ) : Option (MdbgRing × List UInt8 × ℕ) :=
  if ring.mdbgRingOverLoop ring.rp readLen then do
    let len1 := ring.pend - ring.rp + 1
    let len2 := readLen - len1
    let buf1 ← ring.memcpyFrom ring.rp len1
    let buf2 ← ring.memcpyFrom 0 len2
    some ({ ring with pOrderFlag := false }, buf1 ++ buf2, len2)
  else do
    let buf ← ring.memcpyFrom ring.rp readLen
    some (ring, buf, ring.rp + readLen)

/-- `mdbg_ring_write` up to the copies: whether the bytes are written. -/
def mdbgRingWrite (openCount len : ℕ) : Bool :=
  ¬(ring.mdbgRingFreeSpace - 1 < len ∧ openCount ≠ 0)

/-- The copies of `mdbg_ring_write`, with where they leave `wp`. -/
def writeCopy (buf : List UInt8) : Option (MdbgRing × ℕ) :=
  if ring.mdbgRingOverLoop ring.wp buf.length then do
    let len1 := ring.pend - ring.wp + 1
    let len2 := (buf.length - len1) % ring.size
    let ring' ← ring.memcpyTo ring.wp (buf.take len1)
    let ring' ← ring'.memcpyTo 0 ((buf.drop len1).take len2)
    some ({ ring' with pOrderFlag := true }, len2)
  else do
    let ring' ← ring.memcpyTo ring.wp buf
    some (ring', ring.wp + buf.length)

end MdbgRing

/-! ## The machine -/

/-- Where the writer is: it is to copy the bytes of a write, for which `free` bytes were free, or
    to move `wp`. -/
inductive Writer where
  | idle
  | copy (buf : List UInt8) (free : ℕ)
  | copied (buf : List UInt8) (free wp : ℕ)

/-- Where the reader that has the lock is: it is to copy bytes, or to move `rp`. -/
inductive Reader where
  | idle
  | copy (readLen : ℕ)
  | copied (buf : List UInt8) (rp : ℕ)

/-- A write that has returned: its bytes, how many were free, and whether it was stored. -/
structure WriteCall where
  buf : List UInt8
  free : ℕ
  stored : Bool

/-- The ring with its writer and its readers. The `writes` and `reads` that have returned are a
    record only. -/
structure State where
  ring : MdbgRing
  openCount : ℕ
  writer : Writer
  reader : Reader
  writes : List WriteCall
  reads : List (List UInt8)

/-- A new ring. -/
def State.init (ring : MdbgRing) (openCount : ℕ) : State :=
  ⟨ring, openCount, .idle, .idle, [], []⟩

/-- What happens to the ring. -/
inductive Event where
  | write (buf : List UInt8)
  | writeCopy
  | writeEnd
  | read (len : ℕ)
  | readCopy
  | readEnd

/-- A step of the writer or of a reader. One that it is not its turn for does nothing. -/
def State.step (s : State) : Event → Option State
  | .write buf =>
    match s.writer with
    | .idle =>
      let free := s.ring.mdbgRingFreeSpace
      -- An empty write returns at once, and so does one that the ring has no room for.
      if buf.length = 0 then some s
      else if s.ring.mdbgRingWrite s.openCount buf.length then
        some { s with writer := .copy buf free }
      else some { s with writes := s.writes ++ [⟨buf, free, false⟩] }
    | _ => some s
  | .writeCopy =>
    match s.writer with
    | .copy buf free => do
      let (ring, wp) ← s.ring.writeCopy buf
      some { s with ring, writer := .copied buf free wp }
    | _ => some s
  -- The writer publishes `wp` only after the bytes are there.
  | .writeEnd =>
    match s.writer with
    | .copied buf free wp =>
      some
        { s with
          ring := { s.ring with wp }
          writer := .idle
          writes := s.writes ++ [⟨buf, free, true⟩] }
    | _ => some s
  | .read len =>
    match s.reader with
    | .idle =>
      let readLen := s.ring.mdbgRingRead len
      if len = 0 ∨ readLen = 0 then some s else some { s with reader := .copy readLen }
    | _ => some s
  | .readCopy =>
    match s.reader with
    | .copy readLen => do
      let (ring, buf, rp) ← s.ring.readCopy readLen
      some { s with ring, reader := .copied buf rp }
    | _ => some s
  -- The reader publishes `rp` only after it has copied the bytes.
  | .readEnd =>
    match s.reader with
    | .copied buf rp =>
      some { s with ring := { s.ring with rp }, reader := .idle, reads := s.reads ++ [buf] }
    | _ => some s

/-- The machine of the ring. -/
def logRing : Machine State Event := ⟨State.step⟩

/-! ## The pointers -/

namespace MdbgRing

/-- The ring is one that was allocated, and its pointers are in it. -/
structure Valid (ring : MdbgRing) : Prop where
  size_pos : 0 < ring.size
  pend : ring.pend + 1 = ring.size
  rp_lt : ring.rp < ring.size
  wp_lt : ring.wp < ring.size

/-- The bytes that can be read. -/
def readable (ring : MdbgRing) : List UInt8 :=
  segment ring.size ring.pbuff ring.rp ring.mdbgRingReadableLen

variable {ring ring' : MdbgRing} {used len : ℕ} {buf : List UInt8}

theorem Valid.readableLen_lt (h : ring.Valid) : ring.mdbgRingReadableLen < ring.size := by
  obtain ⟨hpos, -, hrp, hwp⟩ := h
  rw [mdbgRingReadableLen, mdbgRingFreeSpace]
  split_ifs <;> omega

/-- What is not free can be read. -/
theorem Valid.freeSpace_eq (h : ring.Valid) :
    ring.mdbgRingFreeSpace + ring.mdbgRingReadableLen = ring.size := by
  obtain ⟨hpos, -, hrp, hwp⟩ := h
  rw [mdbgRingReadableLen, mdbgRingFreeSpace]
  split_ifs <;> omega

/-- `wp` is behind the bytes that can be read. -/
theorem Valid.wp_eq (h : ring.Valid) :
    ring.wp = (ring.rp + ring.mdbgRingReadableLen) % ring.size := by
  obtain ⟨hpos, -, hrp, hwp⟩ := h
  rw [mdbgRingReadableLen, mdbgRingFreeSpace]
  split_ifs with hle
  · have heq : ring.rp + (ring.size - (ring.size - ring.wp + ring.rp)) = ring.wp := by omega
    rw [heq, Nat.mod_eq_of_lt hwp]
  · have heq : ring.rp + (ring.size - (ring.rp - ring.wp)) = ring.wp + ring.size := by omega
    rw [heq, Nat.add_mod_right, Nat.mod_eq_of_lt hwp]

/-- The pointers tell how many bytes can be read. -/
theorem readableLen_eq (hrp : ring.rp < ring.size) (hused : used < ring.size)
    (hwp : ring.wp = (ring.rp + used) % ring.size) : ring.mdbgRingReadableLen = used := by
  rw [mdbgRingReadableLen, mdbgRingFreeSpace]
  rcases Nat.lt_or_ge (ring.rp + used) ring.size with hlt | hge
  · rw [Nat.mod_eq_of_lt hlt] at hwp
    rw [if_pos (by omega)]
    omega
  · have heq : ring.rp + used = ring.rp + used - ring.size + ring.size := by omega
    rw [heq, Nat.add_mod_right, Nat.mod_eq_of_lt (by omega)] at hwp
    rw [if_neg (by omega)]
    omega

/-- A write is discarded exactly if there is no room for it and one more byte. -/
theorem mdbgRingWrite_eq_false {openCount : ℕ} (h : ring.Valid) (hopen : openCount ≠ 0) :
    ring.mdbgRingWrite openCount len = false ↔ ring.mdbgRingFreeSpace < len + 1 := by
  have hfree := h.freeSpace_eq
  have hlt := h.readableLen_lt
  rw [mdbgRingWrite, decide_eq_false_iff_not, not_not, and_iff_left hopen]
  omega

theorem mdbgRingRead_le (ring : MdbgRing) (len : ℕ) :
    ring.mdbgRingRead len ≤ ring.mdbgRingReadableLen := by
  rw [mdbgRingRead]
  split_ifs with hle
  · exact hle
  · exact le_rfl

/-! ## The copies -/

/-- A pointer that is moved on from the end of the ring comes to its beginning. -/
theorem Valid.move (h : ring.Valid) {ptr : ℕ} (hptr : ptr < ring.size) :
    (ring.mdbgRingOverLoop ptr len = true ∧ ring.pend - ptr + 1 = ring.size - ptr ∧
        ring.size ≤ ptr + len ∧ (ptr + len) % ring.size = (len - (ring.size - ptr)) % ring.size) ∨
      (ring.mdbgRingOverLoop ptr len = false ∧ ptr + len < ring.size ∧
        (ptr + len) % ring.size = ptr + len) := by
  have hpend := h.pend
  rw [mdbgRingOverLoop]
  rcases Nat.lt_or_ge (ptr + len) ring.size with hlt | hge
  · exact .inr ⟨decide_eq_false (by omega), hlt, Nat.mod_eq_of_lt hlt⟩
  · refine .inl ⟨decide_eq_true (by omega), by omega, hge, ?_⟩
    have heq : ptr + len = len - (ring.size - ptr) + ring.size := by omega
    rw [heq, Nat.add_mod_right]

/-- The bytes that are copied from the ring are the next ones. -/
theorem readCopy_spec (h : ring.Valid) (hlen : len < ring.size) :
    ∃ flag, ring.readCopy len = some ({ ring with pOrderFlag := flag },
      segment ring.size ring.pbuff ring.rp len, (ring.rp + len) % ring.size) := by
  rcases h.move h.rp_lt with ⟨hover, hlen1, hge, hmod⟩ | ⟨hover, hlt, hmod⟩
  · have hrp := h.rp_lt
    have hend : ring.rp + (ring.size - ring.rp) ≤ ring.size := (Nat.add_sub_cancel' hrp.le).le
    have hrest : 0 + (len - (ring.size - ring.rp)) ≤ ring.size := by omega
    refine ⟨false, ?_⟩
    rw [readCopy, if_pos hover, hlen1]
    simp only [memcpyFrom, if_pos hend, if_pos hrest, Option.bind_eq_bind, Option.bind_some]
    rw [hmod, Nat.mod_eq_of_lt (by omega), segment_eq_slice_append hrp.le hge hlen.le]
  · refine ⟨ring.pOrderFlag, ?_⟩
    rw [readCopy, if_neg (ne_true_of_eq_false hover), memcpyFrom, if_pos hlt.le, hmod,
      segment_eq_slice hlt.le]
    rfl

/-- The bytes that are copied to the ring are behind `wp`. -/
theorem writeCopy_spec (h : ring.Valid) (hlen : buf.length < ring.size) :
    ∃ mem flag, ring.writeCopy buf = some ({ ring with pbuff := mem, pOrderFlag := flag },
      (ring.wp + buf.length) % ring.size) ∧ Stored ring.size ring.pbuff ring.wp buf mem := by
  rcases h.move h.wp_lt with ⟨hover, hlen1, hge, hmod⟩ | ⟨hover, hlt, hmod⟩
  · have hwp := h.wp_lt
    have hlen2 : (buf.length - (ring.size - ring.wp)) % ring.size =
        (buf.drop (ring.size - ring.wp)).length := by
      rw [Nat.mod_eq_of_lt (by omega), List.length_drop]
    have hend : ring.wp + (buf.take (ring.size - ring.wp)).length ≤ ring.size := by
      rw [List.length_take]
      omega
    have hrest : 0 + (buf.drop (ring.size - ring.wp)).length ≤ ring.size := by
      rw [List.length_drop]
      omega
    refine ⟨_, true, ?_, stored_blit_blit hwp hge hlen.le⟩
    rw [writeCopy, if_pos hover, hlen1, hmod]
    simp only [hlen2, List.take_length, memcpyTo, if_pos hend, if_pos hrest, Option.bind_eq_bind,
      Option.bind_some]
  · refine ⟨_, ring.pOrderFlag, ?_, stored_blit hlt.le⟩
    rw [writeCopy, if_neg (ne_true_of_eq_false hover), memcpyTo, if_pos hlt.le, hmod]
    rfl

end MdbgRing

/-! ## What the ring has is in order -/

/-- There is room for what the writer is to write, and behind `wp` is what it has written. -/
def WriterInv (ring : MdbgRing) : Writer → Prop
  | .idle => True
  | .copy buf free => ring.mdbgRingReadableLen + buf.length < ring.size ∧ buf.length < free
  | .copied buf free wp =>
    (ring.mdbgRingReadableLen + buf.length < ring.size ∧ buf.length < free) ∧
      wp = (ring.wp + buf.length) % ring.size ∧
      segment ring.size ring.pbuff ring.wp buf.length = buf

/-- The reader reads what can be read. -/
def ReaderInv (ring : MdbgRing) : Reader → Prop
  | .idle => True
  | .copy readLen => readLen ≤ ring.mdbgRingReadableLen
  | .copied buf rp =>
    buf.length ≤ ring.mdbgRingReadableLen ∧ rp = (ring.rp + buf.length) % ring.size ∧
      segment ring.size ring.pbuff ring.rp buf.length = buf

/-- The bytes of the writes that were stored. -/
def storedBytes (writes : List WriteCall) : List UInt8 :=
  (writes.filter (·.stored)).flatMap (·.buf)

/-- The ring is in order, and so is what was read of what was stored. -/
structure Inv (s : State) : Prop where
  valid : s.ring.Valid
  openCount : s.openCount ≠ 0
  writer : WriterInv s.ring s.writer
  reader : ReaderInv s.ring s.reader
  discarded : ∀ w ∈ s.writes, w.stored = false ↔ w.free < w.buf.length + 1
  fifo : storedBytes s.writes = s.reads.flatten ++ s.ring.readable

variable {s : State} {ring : MdbgRing} {mem : ℕ → UInt8} {buf : List UInt8} {wp rp : ℕ}
  {reader : Reader} {writer : Writer}

theorem storedBytes_append (writes : List WriteCall) (w : WriteCall) :
    storedBytes (writes ++ [w]) = storedBytes writes ++ if w.stored then w.buf else [] := by
  rw [storedBytes, storedBytes, List.filter_append, List.flatMap_append]
  congr 1
  cases hw : w.stored <;> simp [hw]

/-- What is written where there is room leaves what can be read. -/
theorem segment_of_stored (h : ring.Valid) (hstored : Stored ring.size ring.pbuff ring.wp buf mem)
    (hroom : ring.mdbgRingReadableLen + buf.length < ring.size) {len : ℕ}
    (hlen : len ≤ ring.mdbgRingReadableLen) :
    segment ring.size mem ring.rp len = segment ring.size ring.pbuff ring.rp len := by
  rw [h.wp_eq] at hstored
  exact hstored.segment_of_le hroom.le hlen

/-- Bytes are written, and `wp` is not moved yet. -/
theorem ReaderInv.stored (h : ReaderInv ring reader) (hvalid : ring.Valid)
    (hstored : Stored ring.size ring.pbuff ring.wp buf mem)
    (hroom : ring.mdbgRingReadableLen + buf.length < ring.size) (flag : Bool) :
    ReaderInv { ring with pbuff := mem, pOrderFlag := flag } reader := by
  cases reader with
  | idle => trivial
  | copy readLen => exact h
  | copied buf' rp =>
    obtain ⟨hle, hrp, hbuf⟩ := h
    exact ⟨hle, hrp, (segment_of_stored hvalid hstored hroom hle).trans hbuf⟩

/-- `wp` is moved on. -/
theorem readableLen_wp (hvalid : ring.Valid)
    (hroom : ring.mdbgRingReadableLen + buf.length < ring.size)
    (hwp : wp = (ring.wp + buf.length) % ring.size) :
    MdbgRing.mdbgRingReadableLen { ring with wp } = ring.mdbgRingReadableLen + buf.length := by
  refine MdbgRing.readableLen_eq hvalid.rp_lt hroom ?_
  change wp = _
  rw [hwp, hvalid.wp_eq, Nat.mod_add_mod, Nat.add_assoc]

/-- The bytes behind `wp` can be read once it is moved on. -/
theorem readable_wp (hvalid : ring.Valid)
    (hroom : ring.mdbgRingReadableLen + buf.length < ring.size)
    (hwp : wp = (ring.wp + buf.length) % ring.size)
    (hbuf : segment ring.size ring.pbuff ring.wp buf.length = buf) :
    MdbgRing.readable { ring with wp } = ring.readable ++ buf := by
  rw [MdbgRing.readable, readableLen_wp hvalid hroom hwp]
  change segment ring.size ring.pbuff ring.rp _ = _
  rw [segment_add, ← hvalid.wp_eq, hbuf, MdbgRing.readable]

/-- `rp` is moved on. -/
theorem readableLen_rp (hvalid : ring.Valid) (hle : buf.length ≤ ring.mdbgRingReadableLen)
    (hrp : rp = (ring.rp + buf.length) % ring.size) :
    MdbgRing.mdbgRingReadableLen { ring with rp } = ring.mdbgRingReadableLen - buf.length := by
  have hlt := hvalid.readableLen_lt
  refine MdbgRing.readableLen_eq (hrp ▸ Nat.mod_lt _ hvalid.size_pos)
    ((Nat.sub_le _ _).trans_lt hlt) ?_
  change ring.wp = (rp + _) % ring.size
  rw [hrp, Nat.mod_add_mod, Nat.add_assoc, Nat.add_sub_cancel' hle, ← hvalid.wp_eq]

/-- The bytes behind `rp` are read once it is moved on. -/
theorem readable_rp (hvalid : ring.Valid) (hle : buf.length ≤ ring.mdbgRingReadableLen)
    (hrp : rp = (ring.rp + buf.length) % ring.size)
    (hbuf : segment ring.size ring.pbuff ring.rp buf.length = buf) :
    ring.readable = buf ++ MdbgRing.readable { ring with rp } := by
  rw [MdbgRing.readable, MdbgRing.readable, readableLen_rp hvalid hle hrp]
  conv_lhs => rw [← Nat.add_sub_cancel' hle, segment_add, hbuf, ← hrp]

/-- The reader may read what it could, once more can be read. -/
theorem ReaderInv.moveWp (h : ReaderInv ring reader)
    (hle : ring.mdbgRingReadableLen ≤ MdbgRing.mdbgRingReadableLen { ring with wp }) :
    ReaderInv { ring with wp } reader := by
  cases reader with
  | idle => trivial
  | copy readLen => exact le_trans h hle
  | copied buf rp => exact ⟨h.1.trans hle, h.2⟩

/-- The writer has the room that it had, once less can be read. -/
theorem WriterInv.moveRp (h : WriterInv ring writer)
    (hle : MdbgRing.mdbgRingReadableLen { ring with rp } ≤ ring.mdbgRingReadableLen) :
    WriterInv { ring with rp } writer := by
  cases writer with
  | idle => trivial
  | copy buf free => exact ⟨(Nat.add_le_add_right hle _).trans_lt h.1, h.2⟩
  | copied buf free wp => exact ⟨⟨(Nat.add_le_add_right hle _).trans_lt h.1.1, h.1.2⟩, h.2⟩

/-! ## Steps and runs -/

/-- A write is accepted if there is room for it, and else discarded. -/
theorem step_write (h : Inv s) (buf : List UInt8) :
    ∃ s', s.step (.write buf) = some s' ∧ Inv s' := by
  rw [State.step]
  split
  · split_ifs with hnil hwrite
    · exact ⟨s, rfl, h⟩
    · have hfree := h.valid.freeSpace_eq
      have hroom : ¬s.ring.mdbgRingFreeSpace < buf.length + 1 := fun hlt =>
        absurd ((MdbgRing.mdbgRingWrite_eq_false h.valid h.openCount).2 hlt)
          (ne_false_of_eq_true hwrite)
      have hwriter : WriterInv s.ring (.copy buf s.ring.mdbgRingFreeSpace) := by
        rw [WriterInv]
        omega
      exact ⟨_, rfl, h.valid, h.openCount, hwriter, h.reader, h.discarded, h.fifo⟩
    · rw [Bool.not_eq_true] at hwrite
      refine ⟨_, rfl, h.valid, h.openCount, h.writer, h.reader, ?_, ?_⟩
      · exact List.forall_mem_append.2 ⟨h.discarded, List.forall_mem_singleton.2
          (iff_of_true rfl ((MdbgRing.mdbgRingWrite_eq_false h.valid h.openCount).1 hwrite))⟩
      · rw [storedBytes_append, h.fifo]
        exact List.append_nil _
  · exact ⟨s, rfl, h⟩

/-- The bytes are copied behind `wp`. -/
theorem step_writeCopy (h : Inv s) : ∃ s', s.step .writeCopy = some s' ∧ Inv s' := by
  rw [State.step]
  split
  · rename_i buf free hpc
    have hwriter := h.writer
    rw [hpc] at hwriter
    obtain ⟨hroom, hlt⟩ := hwriter
    obtain ⟨mem, flag, hcopy, hstored⟩ := MdbgRing.writeCopy_spec h.valid
      ((Nat.le_add_left _ _).trans_lt hroom)
    rw [hcopy]
    refine ⟨_, rfl, ⟨h.valid.size_pos, h.valid.pend, h.valid.rp_lt, h.valid.wp_lt⟩, h.openCount,
      ⟨⟨hroom, hlt⟩, rfl, hstored.segment_eq⟩, h.reader.stored h.valid hstored hroom flag,
      h.discarded, ?_⟩
    rw [h.fifo]
    exact congrArg (s.reads.flatten ++ ·) (segment_of_stored h.valid hstored hroom le_rfl).symm
  · exact ⟨s, rfl, h⟩

/-- They can be read once `wp` is moved on. -/
theorem step_writeEnd (h : Inv s) : ∃ s', s.step .writeEnd = some s' ∧ Inv s' := by
  rw [State.step]
  split
  · rename_i buf free wp hpc
    have hwriter := h.writer
    rw [hpc] at hwriter
    obtain ⟨⟨hroom, hlt⟩, hwp, hbuf⟩ := hwriter
    have hlen := readableLen_wp h.valid hroom hwp
    refine ⟨_, rfl, ⟨h.valid.size_pos, h.valid.pend, h.valid.rp_lt,
      hwp ▸ Nat.mod_lt _ h.valid.size_pos⟩, h.openCount, trivial,
      h.reader.moveWp ((Nat.le_add_right _ _).trans_eq hlen.symm), ?_, ?_⟩
    · exact List.forall_mem_append.2 ⟨h.discarded, List.forall_mem_singleton.2
        (iff_of_false (by simp) (by simp only; omega))⟩
    · rw [storedBytes_append, h.fifo, readable_wp h.valid hroom hwp hbuf, List.append_assoc]
      rfl
  · exact ⟨s, rfl, h⟩

/-- A read is of no more than can be read. -/
theorem step_read (h : Inv s) (len : ℕ) : ∃ s', s.step (.read len) = some s' ∧ Inv s' := by
  rw [State.step]
  split
  · dsimp only
    split_ifs with hnone
    · exact ⟨s, rfl, h⟩
    · exact ⟨_, rfl, h.valid, h.openCount, h.writer, MdbgRing.mdbgRingRead_le .., h.discarded,
        h.fifo⟩
  · exact ⟨s, rfl, h⟩

/-- The bytes are copied from `rp` on. -/
theorem step_readCopy (h : Inv s) : ∃ s', s.step .readCopy = some s' ∧ Inv s' := by
  rw [State.step]
  split
  · rename_i readLen hpc
    have hreader := h.reader
    rw [hpc] at hreader
    obtain ⟨flag, hcopy⟩ := MdbgRing.readCopy_spec h.valid
      (lt_of_le_of_lt hreader h.valid.readableLen_lt)
    rw [hcopy]
    refine ⟨_, rfl, ⟨h.valid.size_pos, h.valid.pend, h.valid.rp_lt, h.valid.wp_lt⟩, h.openCount,
      h.writer, ⟨?_, ?_, ?_⟩, h.discarded, h.fifo⟩
    · exact (length_segment ..).trans_le hreader
    · rw [length_segment]
    · rw [length_segment]
  · exact ⟨s, rfl, h⟩

/-- They were read once `rp` is moved on. -/
theorem step_readEnd (h : Inv s) : ∃ s', s.step .readEnd = some s' ∧ Inv s' := by
  rw [State.step]
  split
  · rename_i buf rp hpc
    have hreader := h.reader
    rw [hpc] at hreader
    obtain ⟨hle, hrp, hbuf⟩ := hreader
    have hlen := readableLen_rp h.valid hle hrp
    refine ⟨_, rfl, ⟨h.valid.size_pos, h.valid.pend, hrp ▸ Nat.mod_lt _ h.valid.size_pos,
      h.valid.wp_lt⟩, h.openCount, h.writer.moveRp (hlen.trans_le (Nat.sub_le _ _)), trivial,
      h.discarded, ?_⟩
    rw [h.fifo, readable_rp h.valid hle hrp hbuf, List.flatten_append, List.flatten_singleton,
      List.append_assoc]
  · exact ⟨s, rfl, h⟩

/-- A step keeps everything in order, and reads and writes the ring only. -/
theorem logRing_step (h : Inv s) (e : Event) : ∃ s', logRing.step s e = some s' ∧ Inv s' := by
  rw [logRing]
  cases e with
  | write buf => exact step_write h buf
  | writeCopy => exact step_writeCopy h
  | writeEnd => exact step_writeEnd h
  | read len => exact step_read h len
  | readCopy => exact step_readCopy h
  | readEnd => exact step_readEnd h

theorem inv_init {kmalloc : ℕ → Bool} {size openCount : ℕ}
    (halloc : mdbgRingAlloc kmalloc size = some ring) (hopen : openCount ≠ 0) :
    Inv (.init ring openCount) := by
  rw [mdbgRingAlloc] at halloc
  split_ifs at halloc with hmin hmalloc
  obtain rfl := Option.some.inj halloc
  have hpos : 0 < size := Nat.lt_of_lt_of_le (by decide) (Nat.le_of_not_lt hmin)
  have hvalid : MdbgRing.Valid ⟨size, fun _ => 0, 0, 0, size - 1, false⟩ :=
    ⟨hpos, Nat.sub_add_cancel hpos, hpos, hpos⟩
  refine ⟨hvalid, hopen, trivial, trivial, List.forall_mem_nil _, ?_⟩
  have hzero : MdbgRing.mdbgRingReadableLen ⟨size, fun _ => 0, 0, 0, size - 1, false⟩ = 0 :=
    MdbgRing.readableLen_eq hpos hpos (Nat.zero_mod _).symm
  simp only [State.init, MdbgRing.readable, hzero]
  rfl

/-- Whatever is written and read, nothing is accessed outside of the ring, in which the pointers
    stay, and that has at most `size - 1` bytes to read. A write is stored whole, or discarded
    because less than its length and one byte were free; and what was read, followed by what can be
    read, are the writes that were stored. -/
theorem log_ring_fifo {kmalloc : ℕ → Bool} {size openCount : ℕ}
    (halloc : mdbgRingAlloc kmalloc size = some ring) (hopen : openCount ≠ 0) (es : List Event) :
    ∃ s, logRing.run (.init ring openCount) es = some s ∧
      s.ring.rp ≤ s.ring.pend ∧ s.ring.wp ≤ s.ring.pend ∧
      s.ring.readable.length ≤ s.ring.size - 1 ∧
      (∀ w ∈ s.writes, w.stored = false ↔ w.free < w.buf.length + 1) ∧
      s.reads.flatten ++ s.ring.readable = storedBytes s.writes := by
  obtain ⟨s, hs, hinv⟩ := Machine.exists_run_history (I := fun _ s => Inv s)
    (fun _ s e hinv _ => logRing_step hinv e) (inv_init halloc hopen)
    (@Machine.along_true _ _ logRing _ es)
  obtain ⟨hvalid, -, -, -, hdiscarded, hfifo⟩ := hinv
  have hrp := hvalid.rp_lt
  have hwp := hvalid.wp_lt
  rw [← hvalid.pend] at hrp hwp
  refine ⟨s, hs, Nat.le_of_lt_succ hrp, Nat.le_of_lt_succ hwp, ?_, hdiscarded, hfifo.symm⟩
  rw [MdbgRing.readable, length_segment]
  exact Nat.le_sub_one_of_lt hvalid.readableLen_lt

/-- Four thousand bytes are written and read. Then two hundred are written, and a hundred read
    meanwhile, of which there are none yet; and once more, when there are. -/
def aroundTheEnd : List Event :=
  [.write (List.replicate 4000 1), .writeCopy, .writeEnd, .read 4000, .readCopy, .readEnd,
    .write (List.replicate 200 2), .read 100, .writeCopy, .writeEnd, .readCopy, .readEnd,
    .read 100, .readCopy, .readEnd]

/-- The bytes go around the end of the ring. -/
theorem log_ring_fifo_least :
    ∃ ring, mdbgRingAlloc (fun _ => true) mdbgRingMinSize = some ring ∧
      ∃ s, logRing.run (.init ring 1) aroundTheEnd = some s ∧
        s.ring.rp ≤ s.ring.pend ∧ s.ring.wp ≤ s.ring.pend ∧
        s.ring.readable.length ≤ s.ring.size - 1 ∧
        (∀ w ∈ s.writes, w.stored = false ↔ w.free < w.buf.length + 1) ∧
        s.reads.flatten ++ s.ring.readable = storedBytes s.writes ∧
        s.ring.wp = 104 ∧ s.ring.rp = 4 := by
  refine ⟨_, rfl, ?_⟩
  obtain ⟨s, hs, hrp, hwp, hlen, hdiscarded, hfifo⟩ :=
    @log_ring_fifo _ (fun _ => true) mdbgRingMinSize 1 rfl one_ne_zero aroundTheEnd
  -- Both pointers have come to the end, and begin at the start again.
  have hwrapped : (logRing.run (.init ⟨mdbgRingMinSize, fun _ => 0, 0, 0, mdbgRingMinSize - 1,
      false⟩ 1) aroundTheEnd).map (fun s => (s.ring.wp, s.ring.rp)) = some (104, 4) := by
    decide +kernel
  rw [hs] at hwrapped
  obtain ⟨hwp', hrp'⟩ := Prod.mk.inj (Option.some.inj hwrapped)
  exact ⟨s, hs, hrp, hwp, hlen, hdiscarded, hfifo, hwp', hrp'⟩
end W132d.LogRing
