import W132d.Wcn.Firmware

/-!
# Downloads

* `safe_dispack`, `safe_combineLoop`, `safe_firmwareWrite`: what is written of an image that is in
  the buffer;
* `downloaded_of_sound`: the download of a file under the conditions of `Sound`;
* `sound_of_downloaded`: what the functions do where a condition fails, on a bus without errors;
* `downloaded_iff`: the conditions are exact.

What `W132d.Wcn.Firmware` models of `wcn_boot.c` is proved about here. The functions read from the
buffer of the firmware, which has as many bytes as the chip has room for, of a file that may be
shorter or longer than this. A read behind the buffer is an error of its own in the model, so that a
download that is right reads inside of it as well.

There are three kinds of files. A *pack* has a table of images, of which the one with the tag of the
chip is sent. A *combination* has a table of images, too, which are all sent, each to its own
address. Any other file is one image, which is sent as a whole. A pack may have a mask of eight
bytes in front, which the first read skips.

How the theorem is proved:

* a computation is `Safe` for a promise if it comes to a value that is as promised, or fails without
  a read outside; this is closed under composition (`Safe.bind`);
* the loop that sends an image is safe if the image is in the buffer, and its packets cover the
  image from its first byte to its last (`safe_dispackLoop`);
* what is read from the buffer is what is in the file, as far as both go (`contents_of_lt`), so that
  the tables are the same in both (`selected_contents`, `combine_contents`);
* for the other direction, the bus has no errors (`quiet`), and what is sent there is computed.
  Where a condition fails, this is not the image of the file, or a read is outside.

The counterexample is a pack with a mask whose image ends four bytes behind the buffer. It is read
again, at an offset that does not count the mask.
-/

namespace W132d.Wcn.Firmware

open Peek

/-! ## Results -/

section Safe

variable {α β : Type} {m : Except Stop α} {f : α → Except Stop β} {P Q : α → Prop} {R : β → Prop}
  {a : α}

/-- A computation that has come to a value goes on with it. -/
theorem ok_bind (a : α) (f : α → Except Stop β) : (.ok a >>= f) = f a := rfl

/-- A computation that has stopped does not go on. -/
theorem error_bind (e : Stop) (f : α → Except Stop β) : (.error e >>= f) = .error e := rfl

/-- A value is safe if it is as promised. -/
theorem safe_ok (h : P a) : Safe (.ok a) P :=
  ⟨by simp, fun b hb => Except.ok.inj hb ▸ h⟩

/-- A computation that does nothing is safe if its value is as promised. -/
theorem safe_pure (h : P a) : Safe (pure a) P := safe_ok h

/-- A failure is safe: nothing was read outside of the buffer. -/
theorem safe_failed : Safe (.error .failed : Except Stop α) P := ⟨by simp, by simp⟩

/-- Two computations are safe one after the other, if the second one is for all that the first one
    promises. -/
theorem Safe.bind (hm : Safe m P) (hf : ∀ a, P a → Safe (f a) R) : Safe (m >>= f) R := by
  cases m with
  | error e =>
    refine ⟨fun h => hm.1 (congrArg _ (Except.error.inj h)), fun b hb => ?_⟩
    have hb' : (Except.error e : Except Stop β) = .ok b := hb
    exact absurd hb' (by simp)
  | ok a => exact hf a (hm.2 a rfl)

/-- A promise may be weakened. -/
theorem Safe.mono (hm : Safe m P) (h : ∀ a, P a → Q a) : Safe m Q :=
  ⟨hm.1, fun a ha => h a (hm.2 a ha)⟩

end Safe

variable {data : Data} {mem mem' : ℕ → UInt8} {fw : Fw} {bus : List Write → ℤ}
  {addr pos offset size len n i : ℕ} {done ws : List Write} {ret : ℤ} {file : List UInt8}
  {chip : Chip}

/-- A number is read from the buffer if it is inside. -/
theorem u32_eq (h : pos + 4 ≤ data.room) :
    data.u32 mem pos = .ok (numAt mem (data.base + pos) 4) := if_pos h

/-- If it is not, the read is outside. -/
theorem u32_outside (h : ¬pos + 4 ≤ data.room) : data.u32 mem pos = .error .outside := if_neg h

/-- A field of bytes is read from the buffer if it is inside. -/
theorem bytes_eq (h : pos + len ≤ data.room) :
    data.bytes mem pos len = .ok (bytesAt mem (data.base + pos) len) := if_pos h

/-- A field of bytes that reaches behind the buffer is a read outside. -/
theorem bytes_outside (h : ¬pos + len ≤ data.room) : data.bytes mem pos len = .error .outside :=
  if_neg h

/-- The magic number is the first four bytes. -/
theorem magicIs_eq (h : 4 ≤ data.room) (magic : List UInt8) :
    data.magicIs mem magic = .ok (decide (magicAt mem data.base = magic)) := by
  rw [Data.magicIs, bytes_eq (by omega)]
  rfl

/-- A number that an `int` has room for. -/
theorem bmod_of_lt (h : n < 2 ^ 31) : Int.bmod n (2 ^ 32) = n := by
  rw [Int.bmod_eq_of_le] <;> omega

/-- The number of images is the third word, as an `int`; a negative one counts as none. -/
theorem imgCount_eq (h : 12 ≤ data.room) :
    data.imgCount mem = .ok (Int.bmod (countAt mem data.base) (2 ^ 32)).toNat := by
  rw [Data.imgCount, u32_eq (by omega)]
  rfl

/-! ## Packets -/

/-- The packets of an image have as many bytes as it has. -/
theorem covers_length {image : Image} (h : Covers image ws) :
    (ws.map Write.len).sum = image.size := by
  induction h with
  | nil => rfl
  | cons _ _ hle _ ih =>
    rw [List.map_cons, List.sum_cons, ih]
    exact Nat.add_sub_cancel' hle

/-- The packets are of the image. -/
theorem covers_pos {image : Image} (h : Covers image ws) :
    ∀ w ∈ ws, image.pos ≤ w.pos ∧ w.pos + w.len ≤ image.pos + image.size := by
  induction h with
  | nil => simp
  | cons _ _ hle _ ih =>
    intro w hw
    rcases List.mem_cons.1 hw with rfl | hw
    · exact ⟨le_rfl, Nat.add_le_add_left hle _⟩
    · have := ih w hw
      simp only at this ⊢
      omega

/-- An image has its first and its last byte in packets. -/
theorem covers_ends {image : Image} (h : Covers image ws) (hsize : 0 < image.size) :
    (∃ w ∈ ws, w.pos = image.pos) ∧ ∃ w ∈ ws, w.pos + w.len = image.pos + image.size := by
  induction h with
  | nil => exact absurd hsize (lt_irrefl 0)
  | @cons addr pos size len ws hpos _ hle hrest ih =>
    refine ⟨⟨_, List.mem_cons_self, rfl⟩, ?_⟩
    rcases Nat.eq_or_lt_of_le hle with heq | hlt
    · exact ⟨_, List.mem_cons_self, by simp only; omega⟩
    · obtain ⟨w, hw, hend⟩ := (ih (Nat.sub_pos_of_lt hlt)).2
      refine ⟨w, List.mem_cons_of_mem _ hw, ?_⟩
      simp only at hend ⊢
      omega

/-- The packets are of the bytes from a position to another. -/
def Between (first last : ℕ) (ws : List Write) : Prop :=
  ∀ w ∈ ws, first ≤ w.pos ∧ w.pos + w.len ≤ last

/-- The loop writes the image, unless its addresses are too high. -/
theorem safe_dispackLoop (hroom : pos + offset + size ≤ data.room) :
    Safe (dispackLoop bus data addr pos offset size done ret) fun r =>
      ∃ ws, r.1 = done ++ ws ∧
        Between (data.base + (pos + offset)) (data.base + (pos + offset) + size) ws ∧
        (addr + offset + size ≤ 2 ^ 32 →
          Covers ⟨addr + offset, data.base + (pos + offset), size⟩ ws) := by
  -- The induction is on what is left: each turn sends one packet.
  induction size using Nat.strong_induction_on generalizing offset done ret with
  | _ size ih =>
    rw [dispackLoop]
    split
    · rename_i hzero
      subst hzero
      exact safe_pure ⟨[], (List.append_nil done).symm, by simp [Between], fun _ => .nil _ _⟩
    · rename_i hne
      have hpacket : 0 < packetSize := by decide
      have hmin : 0 < min packetSize size := by omega
      have hle : min packetSize size ≤ size := min_le_right _ _
      simp only
      rw [if_pos (by omega)]
      split
      · exact safe_failed
      · refine (ih (size - min packetSize size) (by omega) (by omega)).mono ?_
        rintro r ⟨ws, hr, hbetween, hcovers⟩
        refine ⟨_ :: ws, hr.trans (List.append_assoc _ _ _), ?_, fun haddr => ?_⟩
        · intro w hw
          rcases List.mem_cons.1 hw with rfl | hw
          · exact ⟨le_rfl, Nat.add_le_add_left hle _⟩
          · have := hbetween w hw
            omega
        -- The address of a packet has 32 bits.
        rw [Nat.mod_eq_of_lt (by omega)]
        refine .cons hmin (min_le_left _ _) hle ?_
        simpa [Nat.add_assoc] using hcovers (by omega)

/-- `sprdwcn_bus_direct_write_dispack` sends the bytes of an image that is in the buffer, or
    fails. -/
theorem safe_dispack (hroom : pos + size ≤ data.room) :
    Safe (dispack bus data addr pos size done) fun r => ∃ ws, r = done ++ ws ∧
      Between (data.base + pos) (data.base + pos + size) ws ∧
      (addr + size ≤ 2 ^ 32 → Covers ⟨addr, data.base + pos, size⟩ ws) := by
  refine (safe_dispackLoop (by omega)).bind ?_
  rintro ⟨r, ret⟩ ⟨ws, hr, hbetween, hcovers⟩
  simp only
  split
  · exact safe_failed
  · exact safe_pure ⟨ws, hr, hbetween, hcovers⟩

/-! ## Combinations -/

/-- An image of the combination, as the loop needs it. -/
structure Writable (mem : ℕ → UInt8) (pos room i : ℕ) : Prop where
  entry : 24 + 12 * i ≤ room
  sum : sizeAt mem pos i + offsetAt mem pos i < 2 ^ 32
  addr : (combineImage mem pos i).addr + sizeAt mem pos i ≤ 2 ^ 32

/-- A turn of the loop, whose entry is in the buffer. -/
theorem combineLoop_succ (hentry : 24 + 12 * i ≤ fw.data.room) (n : ℕ) (done : List Write) :
    combineLoop bus fw i (n + 1) done =
      if (sizeAt fw.mem fw.data.base i + offsetAt fw.mem fw.data.base i) % 2 ^ 32 > fw.size then
        .error .failed
      else
        dispack bus fw.data (combineImage fw.mem fw.data.base i).addr
          (offsetAt fw.mem fw.data.base i) (sizeAt fw.mem fw.data.base i) done >>=
            combineLoop bus fw (i + 1) n := by
  rw [combineLoop, u32_eq (by omega), ok_bind, u32_eq (by omega), ok_bind, u32_eq (by omega),
    ok_bind]
  rfl

/-- The loop writes the images. -/
theorem safe_combineLoop (hsize : fw.size ≤ fw.data.room)
    (h : ∀ j, i ≤ j → j < i + n → Writable fw.mem fw.data.base fw.data.room j) :
    Safe (combineLoop bus fw i n done) fun r => ∃ parts, r = done ++ parts.flatten ∧
      List.Forall₂ Covers ((List.range' i n).map (combineImage fw.mem fw.data.base)) parts := by
  -- By induction on the images that are left. Each one is refused, or sent in packets that cover
  -- it.
  induction n generalizing i done with
  | zero => exact safe_pure ⟨[], by simp, .nil⟩
  | succ n ih =>
    have hi := h i le_rfl (by omega)
    rw [combineLoop_succ hi.entry, Nat.mod_eq_of_lt hi.sum]
    split
    · exact safe_failed
    · refine (safe_dispack (by omega)).bind ?_
      rintro r ⟨ws, rfl, -, hcovers⟩
      refine (ih fun j hj hjn => h j (by omega) (by omega)).mono ?_
      rintro r ⟨parts, rfl, hparts⟩
      exact ⟨ws :: parts, by simp, .cons (hcovers hi.addr) hparts⟩

/-- The images are written: those of a combination if its table is in the buffer, or else the one
    image. -/
theorem safe_firmwareWrite (hsize : fw.size ≤ fw.data.room) (hroom : 4 ≤ fw.data.room)
    (haddr : fw.size < 2 ^ 31)
    (h : magicAt fw.mem fw.data.base = imgHeadMagicCombine →
      12 ≤ fw.data.room ∧ countAt fw.mem fw.data.base < 2 ^ 31 ∧
        ∀ j < countAt fw.mem fw.data.base, Writable fw.mem fw.data.base fw.data.room j) :
    Safe (firmwareWrite bus fw) (Written (imagesAt fw.mem fw.data.base fw.size)) := by
  rw [firmwareWrite, magicIs_eq (by omega), imagesAt]
  by_cases hmagic : magicAt fw.mem fw.data.base = imgHeadMagicCombine
  · -- The images of the combination are written in turn.
    obtain ⟨hheader, hcount, hwritable⟩ := h hmagic
    have hn : (Int.bmod (countAt fw.mem fw.data.base) (2 ^ 32)).toNat =
        countAt fw.mem fw.data.base := by
      rw [bmod_of_lt hcount, Int.toNat_natCast]
    rw [if_pos hmagic, combine, List.range_eq_range']
    refine safe_ok (P := (· = true)) (decide_eq_true hmagic) |>.bind ?_
    rintro b rfl
    rw [if_pos rfl, imgCount_eq hheader, hn]
    exact (safe_combineLoop hsize fun j _ hj => hwritable j (by omega)).mono fun r hr => by
      simpa [Written] using hr
  · -- Without the magic number there is one image.
    rw [if_neg hmagic]
    refine safe_ok (P := (· = false)) (decide_eq_false hmagic) |>.bind ?_
    rintro b rfl
    rw [if_neg (by simp)]
    refine (safe_dispack (by omega)).mono ?_
    rintro r ⟨ws, hr, -, hcovers⟩
    exact ⟨[ws], by simpa using hr, .cons (hcovers (by unfold cpStartAddr; omega)) .nil⟩

/-! ## The first read -/

/-- Where the file has bytes, the buffer has them. -/
theorem contents_of_lt (h : pos < file.length) (junk : ℕ → UInt8) :
    contents file junk pos = fileMem file pos := by
  simp [contents, List.getD_eq_getElem?_getD, List.getElem?_eq_getElem h]

/-- A field of bytes inside of the file is there in the buffer. -/
theorem bytesAt_contents (h : pos + len ≤ file.length) (junk : ℕ → UInt8) :
    bytesAt (contents file junk) pos len = bytesAt (fileMem file) pos len := by
  refine List.map_congr_left fun i hi => contents_of_lt ?_ junk
  have := List.mem_range'_1.1 hi
  omega

/-- A number inside of the file is there in the buffer. -/
theorem numAt_contents (h : pos + len ≤ file.length) (junk : ℕ → UInt8) :
    numAt (contents file junk) pos len = numAt (fileMem file) pos len := by
  rw [numAt, bytesAt_contents h, numAt]

/-- The firmware that is requested. -/
def requested (file : List UInt8) (junk : ℕ → UInt8) (maxSize : ℕ) : Fw :=
  ⟨contents file junk, ⟨skip file, maxSize - skip file⟩, maxSize - skip file⟩

/-- Behind the file, the buffer has whatever was there before. -/
@[simp] theorem requested_mem (file : List UInt8) (junk : ℕ → UInt8) (maxSize : ℕ) :
    (requested file junk maxSize).mem = contents file junk := rfl

/-- The mask of a file was skipped. -/
@[simp] theorem requested_base (file : List UInt8) (junk : ℕ → UInt8) (maxSize : ℕ) :
    (requested file junk maxSize).data.base = skip file := rfl

/-- The room is what is left of the buffer then. -/
@[simp] theorem requested_room (file : List UInt8) (junk : ℕ → UInt8) (maxSize : ℕ) :
    (requested file junk maxSize).data.room = maxSize - skip file := rfl

/-- The size is that of the buffer, too, not that of the file. -/
@[simp] theorem requested_size (file : List UInt8) (junk : ℕ → UInt8) (maxSize : ℕ) :
    (requested file junk maxSize).size = maxSize - skip file := rfl

/-- The first read fills the buffer, and skips the mask if the file has one. -/
theorem requestFirmware_eq (hlen : 2 ≤ file.length) {maxSize : ℕ} (hmax : 8 ≤ maxSize)
    (junk : ℕ → UInt8) :
    requestFirmware maxSize file junk true = .ok (requested file junk maxSize) := by
  have h0 : contents file junk 0 = file.getD 0 0 := contents_of_lt (by omega) junk
  have h1 : contents file junk 1 = file.getD 1 0 := contents_of_lt (by omega) junk
  -- The mask begins with two zeros.
  have hmask : bytesAt (contents file junk) 0 8 = contents file junk 0 :: contents file junk 1 ::
      bytesAt (contents file junk) 2 6 := rfl
  have hbytes : (⟨0, maxSize⟩ : Data).bytes (contents file junk) 0 8 =
      .ok (bytesAt (contents file junk) 0 8) := bytes_eq (by simpa using hmax)
  rw [requestFirmware, if_neg (by simp)]
  simp only [hbytes, hmask]
  rw [requested, skip, ← h0, ← h1]
  by_cases hzero : contents file junk 0 = 0 ∧ contents file junk 1 = 0
  · rw [if_pos hzero]
    change (if contents file junk 0 = 0 ∧ contents file junk 1 = 0 then _ else _ :
      Except Stop Fw) = _
    rw [if_pos hzero]
    simp [Data.advance]
    rfl
  · rw [if_neg hzero]
    change (if contents file junk 0 = 0 ∧ contents file junk 1 = 0 then _ else _ :
      Except Stop Fw) = _
    rw [if_neg hzero]
    rfl

/-! ## The table -/

section Table

variable {tag : List UInt8} {tags : List (List UInt8)}

/-- The loop finds the first image of the tag, if the entries that it looks at are in the buffer. -/
theorem imageinfoLoop_eq (data : Data) (mem : ℕ → UInt8) (tag : List UInt8) (i n : ℕ) :
    imageinfoLoop data mem tag i n =
      let found := (List.range' i n).find? fun j =>
        bytesAt mem (data.base + (12 + 12 * j)) 4 = tag
      if n = 0 ∨ 12 * (found.map (· + 1)).getD (i + n) + 4 ≤ data.room then .ok found
      else .error .outside := by
  -- By induction on the entries that are left. Up to the one that has the tag, each is looked at.
  induction n generalizing i with
  | zero => rfl
  | succ n ih =>
    rw [imageinfoLoop]
    by_cases hroom : 12 + 12 * i + 4 ≤ data.room
    · rw [bytes_eq hroom, ok_bind, List.range'_succ, List.find?_cons]
      by_cases htag : bytesAt mem (data.base + (12 + 12 * i)) 4 = tag
      · simp only [htag, decide_true, Option.map_some, Option.getD_some, if_true]
        rw [if_pos (by omega)]
        rfl
      · -- The tag is elsewhere, and the loop goes on with the next entry.
        have hadd : i + 1 + n = i + (n + 1) := by omega
        simp only [htag, decide_false, if_false]
        rw [ih, hadd]
        rcases Nat.eq_zero_or_pos n with rfl | hn
        · have hlast : 12 * (i + 1) + 4 ≤ data.room := by omega
          simp [hlast]
        · simp only [Nat.ne_of_gt hn, Nat.succ_ne_zero, false_or]
    · -- This entry is looked at before one is found.
      rw [bytes_outside hroom, error_bind]
      refine (if_neg ?_).symm
      cases hfound : (List.range' i (n + 1)).find? fun j =>
          bytesAt mem (data.base + (12 + 12 * j)) 4 = tag with
      | none => simp; omega
      | some j =>
        have hj := (List.mem_range'_1.1 (List.mem_of_find?_eq_some hfound)).1
        simp
        omega

/-- The table is searched for a tag, if all entries up to the one found are in the buffer. -/
theorem imageinfoGetFromData_eq (hroom : 12 ≤ data.room) (hcount : countAt mem data.base < 2 ^ 31)
    (tag : List UInt8) : imageinfoGetFromData data mem tag =
      if 12 * looked mem data.base [tag] + 4 ≤ data.room then .ok (indexOf mem data.base tag)
      else .error .outside := by
  rw [imageinfoGetFromData, imgCount_eq hroom, ok_bind, bmod_of_lt hcount, Int.toNat_natCast,
    imageinfoLoop_eq, looked, indexOf, List.range_eq_range', Nat.zero_add]
  rcases Nat.eq_zero_or_pos (countAt mem data.base) with hzero | hpos
  · have h4 : 4 ≤ data.room := by omega
    simp [hzero, h4]
  · simp only [Nat.ne_of_gt hpos, false_or]

/-- No more entries are looked at than the table has. -/
theorem looked_le (mem : ℕ → UInt8) (pos : ℕ) (tags : List (List UInt8)) :
    looked mem pos tags ≤ countAt mem pos := by
  cases tags with
  | nil => exact Nat.zero_le _
  | cons tag tags =>
    rw [looked]
    cases hfound : indexOf mem pos tag with
    | none => exact le_rfl
    | some i => exact List.mem_range.1 (List.mem_of_find?_eq_some hfound)

/-- The image that is selected is found, if the entries that are looked at are in the buffer. -/
theorem judgeImages_eq (hroom : 12 ≤ data.room) (hcount : countAt mem data.base < 2 ^ 31)
    (tags : List (List UInt8)) : judgeImages data mem tags =
      if 12 * looked mem data.base tags + 4 ≤ data.room then .ok (selected mem data.base tags)
      else .error .outside := by
  -- By induction on the tags. A tag that is found ends the search; one that is not has looked at
  -- the whole table, so that the other tags look at nothing new.
  induction tags with
  | nil =>
    rw [if_pos (by rw [looked]; omega)]
    rfl
  | cons tag tags ih =>
    have hlooked : looked mem data.base (tag :: tags) = looked mem data.base [tag] := rfl
    rw [judgeImages, imageinfoGetFromData_eq hroom hcount, hlooked]
    split
    · rename_i hin
      rw [ok_bind, selected, List.findSome?_cons]
      cases hfound : indexOf mem data.base tag with
      | some i => rfl
      -- The table was looked at as a whole.
      | none =>
        rw [looked, hfound] at hin
        have hle := looked_le mem data.base tags
        simp only [Option.map_none, Option.getD_none] at hin
        change judgeImages data mem tags = .ok (selected mem data.base tags)
        rw [ih, if_pos (by omega)]
    · rfl

end Table

/-! ## What the functions find -/

section Found

/-- The entries of a table that is in the file. -/
theorem sizeAt_contents (h : pos + (24 + 12 * i) ≤ file.length) (junk : ℕ → UInt8) :
    sizeAt (contents file junk) pos i = sizeAt (fileMem file) pos i :=
  numAt_contents (by omega) junk

/-- The offset of an image is read from the file. -/
theorem offsetAt_contents (h : pos + (24 + 12 * i) ≤ file.length) (junk : ℕ → UInt8) :
    offsetAt (contents file junk) pos i = offsetAt (fileMem file) pos i :=
  numAt_contents (by omega) junk

/-- An entry of the table reads alike in the file and in the buffer. -/
theorem combineImage_contents (h : pos + (24 + 12 * i) ≤ file.length) (junk : ℕ → UInt8) :
    combineImage (contents file junk) pos i = combineImage (fileMem file) pos i := by
  rw [combineImage, combineImage,
    numAt_contents (show pos + (12 + 12 * i) + 4 ≤ file.length by omega),
    numAt_contents (show pos + (12 + 12 * i + 4) + 4 ≤ file.length by omega),
    numAt_contents (show pos + (12 + 12 * i + 8) + 4 ≤ file.length by omega)]

/-- The magic number reads alike in the file and in the buffer. -/
theorem magicAt_contents (h : pos + 4 ≤ file.length) (junk : ℕ → UInt8) :
    magicAt (contents file junk) pos = magicAt (fileMem file) pos := bytesAt_contents h junk

/-- The number of images reads alike in the file and in the buffer. -/
theorem countAt_contents (h : pos + 12 ≤ file.length) (junk : ℕ → UInt8) :
    countAt (contents file junk) pos = countAt (fileMem file) pos := numAt_contents (by omega) junk

/-- The search for a tag comes to the same entry, if the table is in the file. -/
theorem indexOf_contents (h : pos + (12 + 12 * countAt (fileMem file) pos) ≤ file.length)
    (junk : ℕ → UInt8) (tag : List UInt8) :
    indexOf (contents file junk) pos tag = indexOf (fileMem file) pos tag := by
  rw [indexOf, indexOf, countAt_contents (by omega)]
  refine List.find?_congr fun i hi => ?_
  have hi := List.mem_range.1 hi
  rw [bytesAt_contents (by omega)]

/-- The tags of the chip select the same entry, if the table is in the file. -/
theorem selected_contents (h : pos + (12 + 12 * countAt (fileMem file) pos) ≤ file.length)
    (junk : ℕ → UInt8) (tags : List (List UInt8)) :
    selected (contents file junk) pos tags = selected (fileMem file) pos tags := by
  rw [selected, selected, funext (indexOf_contents h junk)]

/-- The search looks at as many entries in the buffer as in the file. -/
theorem looked_contents (h : pos + (12 + 12 * countAt (fileMem file) pos) ≤ file.length)
    (junk : ℕ → UInt8) (tags : List (List UInt8)) :
    looked (contents file junk) pos tags = looked (fileMem file) pos tags := by
  cases tags with
  | nil => rfl
  | cons tag tags => rw [looked, looked, indexOf_contents h, countAt_contents (by omega)]

/-- The images of a combination are the same, if its table is in the file. -/
theorem combine_contents (h : pos + (12 + 12 * countAt (fileMem file) pos) ≤ file.length)
    (junk : ℕ → UInt8) : combine (contents file junk) pos = combine (fileMem file) pos := by
  rw [combine, combine, countAt_contents (by omega)]
  refine List.map_congr_left fun i hi => combineImage_contents ?_ junk
  have := List.mem_range.1 hi
  omega

/-- The entry that is selected is one of the table. -/
theorem selected_lt {tags : List (List UInt8)} (h : selected mem pos tags = some i) :
    i < countAt mem pos := by
  obtain ⟨tag, -, htag⟩ := List.exists_of_findSome?_eq_some h
  exact List.mem_range.1 (List.mem_of_find?_eq_some htag)

/-- The firmware of a pack. -/
theorem findImage_pack (hroom : 12 ≤ fw.data.room)
    (hmagic : magicAt fw.mem fw.data.base = imgHeadMagic)
    (hcount : countAt fw.mem fw.data.base < 2 ^ 31) :
    findImage chip fw =
      if 12 * looked fw.mem fw.data.base chip.tags + 4 ≤ fw.data.room then
        match selected fw.mem fw.data.base chip.tags with
        | none => .error .failed
        | some i =>
          let offset := offsetAt fw.mem fw.data.base i
          let size := sizeAt fw.mem fw.data.base i
          if 24 + 12 * i ≤ fw.data.room then
            .ok (⟨fw.mem, fw.data.advance offset, size⟩, offset, size)
          else .error .outside
      else .error .outside := by
  rw [findImage, magicIs_eq (by omega), ok_bind, decide_eq_true hmagic, if_pos rfl,
    judgeImages_eq hroom hcount]
  split
  · rw [ok_bind]
    cases selected fw.mem fw.data.base chip.tags with
    | none => rfl
    | some i =>
      -- The entry that the tags select has to be in the buffer, too.
      by_cases hentry : 24 + 12 * i ≤ fw.data.room
      · simp only [hentry, if_true]
        rw [u32_eq (by omega), ok_bind, u32_eq (by omega), ok_bind]
        rfl
      · simp only [hentry, if_false]
        rw [u32_outside (by omega), error_bind]
  · rfl

/-- The firmware of a combination. Its last image tells how long it is. -/
theorem findImage_combine (hroom : 12 ≤ fw.data.room)
    (hmagic : magicAt fw.mem fw.data.base = imgHeadMagicCombine)
    (hcount : countAt fw.mem fw.data.base < 2 ^ 31) (hpos : 0 < countAt fw.mem fw.data.base)
    {last real : ℕ} (hlast : last = countAt fw.mem fw.data.base - 1)
    (hreal : real = sizeAt fw.mem fw.data.base last + offsetAt fw.mem fw.data.base last)
    (hsum : real < 2 ^ 31) :
    findImage chip fw =
      if 12 + 12 * countAt fw.mem fw.data.base ≤ fw.data.room then
        .ok (⟨fw.mem, fw.data, real⟩, 0, real)
      else .error .outside := by
  have hne : ¬magicAt fw.mem fw.data.base = imgHeadMagic := by
    rw [hmagic]
    decide
  rw [findImage, magicIs_eq (by omega), ok_bind, decide_eq_false hne, if_neg (by simp),
    magicIs_eq (by omega), ok_bind, decide_eq_true hmagic, if_pos rfl, imgCount_eq hroom, ok_bind,
    bmod_of_lt hcount, Int.toNat_natCast]
  -- The entry of the last image is read.
  obtain ⟨n, hn⟩ := Nat.exists_eq_succ_of_ne_zero (Nat.ne_of_gt hpos)
  have hlast' : last = n := by omega
  subst hlast'
  have hend : 12 * (last + 1) = 12 + 12 * last := by omega
  rw [hn, Nat.succ_eq_add_one, hend]
  by_cases hin : 12 + (12 + 12 * last) ≤ fw.data.room
  · rw [if_pos hin, u32_eq (by omega), ok_bind, u32_eq (by omega), ok_bind]
    -- The sum has 32 bits and a sign, and is stored in 64 bits.
    change Except.ok (Fw.mk fw.mem fw.data (Int.bmod ((sizeAt fw.mem fw.data.base last +
      offsetAt fw.mem fw.data.base last) % 2 ^ 32 : ℕ) (2 ^ 32) % 2 ^ 64).toNat, 0,
      (sizeAt fw.mem fw.data.base last + offsetAt fw.mem fw.data.base last) % 2 ^ 32) = _
    have hnat : ((real : ℤ) % 2 ^ 64).toNat = real := by omega
    rw [← hreal, Nat.mod_eq_of_lt (by omega), bmod_of_lt hsum, hnat]
  · rw [if_neg hin, u32_outside (by omega), error_bind]

/-- A single image. -/
theorem findImage_raw (hroom : 4 ≤ fw.data.room)
    (hpack : magicAt fw.mem fw.data.base ≠ imgHeadMagic)
    (hcombine : magicAt fw.mem fw.data.base ≠ imgHeadMagicCombine) :
    findImage chip fw = .ok (fw, 0, 0) := by
  rw [findImage, magicIs_eq hroom, ok_bind, decide_eq_false hpack, if_neg (by simp),
    magicIs_eq hroom, ok_bind, decide_eq_false hcombine, if_neg (by simp)]
  rfl

/-- The firmware that is read again, if its image ends behind the buffer. -/
theorem parseImage_eq {fw' : Fw} {junk : ℕ → UInt8} {alloc : Bool}
    (h : findImage chip fw = .ok (fw', offset, size)) (hsum : offset + size < 2 ^ 31) :
    parseImage chip file junk alloc fw =
      if offset + size > fw.size then
        if alloc = false ∨ size = 0 then .error .failed
        else .ok ⟨contents file junk, ⟨offset, size⟩, fw'.size⟩
      else .ok fw' := by
  have hbmod : Int.bmod (offset + size) (2 ^ 32) = offset + size := by
    rw [← Nat.cast_add, bmod_of_lt hsum]
  rw [parseImage, h, ok_bind]
  simp only [hbmod, gt_iff_lt]
  -- An image that ends behind the buffer is read again.
  by_cases hbehind : fw.size < offset + size
  · have hbehind' : (fw.size : ℤ) < offset + size := by omega
    rw [if_pos hbehind, if_pos hbehind', loadFirmwareData, bmod_of_lt (by omega),
      bmod_of_lt (by omega)]
    by_cases halloc : alloc = false ∨ size = 0
    · have halloc' : alloc = false ∨ (size : ℤ) ≤ 0 := halloc.imp_right fun h => by omega
      rw [if_pos halloc, if_pos halloc']
      rfl
    · have halloc' : ¬(alloc = false ∨ (size : ℤ) ≤ 0) :=
        fun h => halloc (h.imp_right fun h => by omega)
      rw [if_neg halloc, if_neg halloc', if_neg (by omega)]
      rfl
  · rw [if_neg hbehind, if_neg (by omega)]
    rfl

end Found

/-! ## Downloads that are right -/

section Sound

variable {room : ℕ} {junk : ℕ → UInt8}

/-- An image that is in the buffer is written. -/
theorem safe_write_image (junk : ℕ → UInt8) (hsize : size ≤ room) (hroom : 4 ≤ room)
    (hlt : size < 2 ^ 31) (hfile : pos + 4 ≤ file.length) (hfile' : file.length < 2 ^ 31)
    (hwf : magicAt (fileMem file) pos = imgHeadMagicCombine →
      12 + 12 * countAt (fileMem file) pos ≤ room ∧
        ∃ len, pos + len ≤ file.length ∧ CombineWellFormed (fileMem file) pos len) :
    Safe (firmwareWrite bus ⟨contents file junk, ⟨pos, room⟩, size⟩)
      (Written (imagesAt (fileMem file) pos size)) := by
  -- The table is in the file, so the images are those of the file.
  have himages : imagesAt (contents file junk) pos size = imagesAt (fileMem file) pos size := by
    rw [imagesAt, imagesAt, magicAt_contents hfile]
    split
    · rename_i hmagic
      obtain ⟨-, len, hlen, hcombine⟩ := hwf hmagic
      have htable := hcombine.table
      rw [combine_contents (by omega)]
    · rfl
  rw [← himages]
  refine safe_firmwareWrite hsize hroom hlt ?_
  intro hmagic
  rw [magicAt_contents hfile] at hmagic
  obtain ⟨hin, len, hlen, hcombine⟩ := hwf hmagic
  have htable := hcombine.table
  have hcount : countAt (contents file junk) pos = countAt (fileMem file) pos :=
    countAt_contents (by omega) junk
  simp only [hcount]
  refine ⟨by omega, by omega, fun j hj => ?_⟩
  have hentry : pos + (24 + 12 * j) ≤ file.length := by omega
  have hinside := hcombine.inside j hj
  refine ⟨by omega, ?_, ?_⟩
  · rw [sizeAt_contents hentry, offsetAt_contents hentry]
    omega
  · rw [combineImage_contents hentry, sizeAt_contents hentry]
    exact hcombine.addr j hj

/-- A combination that is refused. -/
theorem safe_of_refused_loop {P : List Write → Prop} {k : ℕ} (hsize : fw.size ≤ fw.data.room)
    (hik : i ≤ k) (hkn : k < i + n) (hentry : 24 + 12 * k ≤ fw.data.room)
    (hbehind : fw.size < (sizeAt fw.mem fw.data.base k + offsetAt fw.mem fw.data.base k) % 2 ^ 32)
    (hinside : ∀ j < k, sizeAt fw.mem fw.data.base j + offsetAt fw.mem fw.data.base j ≤ fw.size) :
    Safe (combineLoop bus fw i n done) P := by
  -- By induction on the images that are left: those before `k` are sent, if the bus takes them, and
  -- `k` is refused.
  induction n generalizing i done with
  | zero => omega
  | succ n ih =>
    rw [combineLoop_succ (by omega)]
    split
    · exact safe_failed
    · rename_i hle
      rcases Nat.eq_or_lt_of_le hik with rfl | hlt
      · exact absurd hbehind hle
      · have hi := hinside i hlt
        refine (safe_dispack (by omega)).bind fun r _ => ?_
        exact ih hlt (by omega)

/-- A combination is refused at its first image that is said to end behind its bytes. -/
theorem safe_of_refused (junk : ℕ → UInt8) (hfile : pos + size ≤ file.length)
    (h : Refused (fileMem file) pos size) {P : List Write → Prop} :
    Safe (firmwareWrite bus ⟨contents file junk, ⟨pos, size⟩, size⟩) P := by
  obtain ⟨hmagic, k, hk, hentry, hbehind, hinside⟩ := h
  -- The bytes are those of the file, which reaches as far as they do.
  have hmagic' : magicAt (contents file junk) pos = imgHeadMagicCombine := by
    rw [magicAt_contents (by omega), hmagic]
  rw [firmwareWrite, magicIs_eq (show 4 ≤ size by omega), ok_bind, decide_eq_true hmagic',
    if_pos rfl, imgCount_eq (show 12 ≤ size by omega), ok_bind,
    countAt_contents (show pos + 12 ≤ file.length by omega)]
  refine safe_of_refused_loop (k := k) le_rfl (Nat.zero_le k) (by simpa using hk) hentry ?_ ?_
  · simp only
    rw [sizeAt_contents (by omega), offsetAt_contents (by omega)]
    exact hbehind
  · intro j hj
    simp only
    rw [sizeAt_contents (by omega), offsetAt_contents (by omega)]
    exact hinside j hj

/-- The buffer of every model has room for a table, and for an `int`. -/
theorem firmwareMaxSize_bounds (m : Model) :
    4096 ≤ m.firmwareMaxSize ∧ m.firmwareMaxSize < 2 ^ 31 := by
  cases m <;> decide

/-- The mask has eight bytes, if there is one. -/
theorem skip_cases (file : List UInt8) : skip file = 0 ∨ skip file = 8 := by
  rw [skip]
  split
  · exact .inr rfl
  · exact .inl rfl

/-- A download is what is done with the firmware that is requested. -/
theorem download_eq (hwf : WellFormed file) {w : World} (halloc : w.alloc = true) :
    btwifiDownloadFirmware chip file w =
      parseImage chip file w.junk' w.alloc' (requested file w.junk chip.model.firmwareMaxSize) >>=
        firmwareWrite w.bus := by
  have hlength := hwf.length
  have hmax := firmwareMaxSize_bounds chip.model
  rw [btwifiDownloadFirmware, halloc, requestFirmware_eq (by omega) (by omega), ok_bind]

/-- Without memory, nothing is downloaded. -/
theorem safe_of_alloc {w : World} (halloc : w.alloc = false) {P : List Write → Prop} :
    Safe (btwifiDownloadFirmware chip file w) P := by
  rw [btwifiDownloadFirmware, requestFirmware, if_pos halloc]
  exact safe_failed

/-- The firmware of a pack. -/
theorem findImage_requested_pack (chip : Chip) (hwf : WellFormed file)
    (hmagic : magicAt (fileMem file) (skip file) = imgHeadMagic) (junk : ℕ → UInt8) {maxSize : ℕ}
    (hmax : 4096 ≤ maxSize) :
    findImage chip (requested file junk maxSize) =
      if 12 * looked (fileMem file) (skip file) chip.tags + 4 ≤ maxSize - skip file then
        match selected (fileMem file) (skip file) chip.tags with
        | none => .error .failed
        | some i =>
          let offset := offsetAt (fileMem file) (skip file) i
          let size := sizeAt (fileMem file) (skip file) i
          if 24 + 12 * i ≤ maxSize - skip file then
            .ok (⟨contents file junk, ⟨skip file + offset, maxSize - skip file - offset⟩, size⟩,
              offset, size)
          else .error .outside
      else .error .outside := by
  have hskip := skip_cases file
  have htable := (hwf.pack hmagic).table
  have hlength := hwf.length
  have hlt := hwf.length_lt
  -- The table is in the file, so nothing that is read of it is `junk`.
  have htable' : skip file + (12 + 12 * countAt (fileMem file) (skip file)) ≤ file.length := by
    omega
  have hmagic' : magicAt (contents file junk) (skip file) = imgHeadMagic := by
    rw [magicAt_contents (by omega), hmagic]
  have hcount : countAt (contents file junk) (skip file) < 2 ^ 31 := by
    rw [countAt_contents (by omega)]
    omega
  have hfind := @findImage_pack (requested file junk maxSize) chip
  simp only [requested_mem, requested_base, requested_room, looked_contents htable',
    selected_contents htable'] at hfind
  rw [hfind (by omega) hmagic' hcount]
  split
  · cases hselected : selected (fileMem file) (skip file) chip.tags with
    | none => rfl
    | some i =>
      have hi := selected_lt hselected
      have hentry : skip file + (24 + 12 * i) ≤ file.length := by omega
      simp only [offsetAt_contents hentry, sizeAt_contents hentry]
      rfl
  · rfl

/-- How long a combination is. -/
def realSize (file : List UInt8) : ℕ :=
  offsetAt (fileMem file) (skip file) (countAt (fileMem file) (skip file) - 1) +
    sizeAt (fileMem file) (skip file) (countAt (fileMem file) (skip file) - 1)

/-- A combination is kept as a whole, if its table is in the buffer. -/
theorem findImage_requested_combine (chip : Chip) (hwf : WellFormed file)
    (hmagic : magicAt (fileMem file) (skip file) = imgHeadMagicCombine) (junk : ℕ → UInt8)
    {maxSize : ℕ} (hmax : 4096 ≤ maxSize) :
    findImage chip (requested file junk maxSize) =
      if 12 + 12 * countAt (fileMem file) (skip file) ≤ maxSize - skip file then
        .ok (⟨contents file junk, ⟨skip file, maxSize - skip file⟩, realSize file⟩, 0,
          realSize file)
      else .error .outside := by
  have hskip := skip_cases file
  have hcombine := hwf.combine hmagic
  have htable := hcombine.table
  have hcount := hcombine.count
  have hlength := hwf.length
  have hlt := hwf.length_lt
  set n := countAt (fileMem file) (skip file) with hn
  have hinside := hcombine.inside (n - 1) (by omega)
  have hentry : skip file + (24 + 12 * (n - 1)) ≤ file.length := by omega
  have hmagic' : magicAt (contents file junk) (skip file) = imgHeadMagicCombine := by
    rw [magicAt_contents (by omega), hmagic]
  have hcount' : countAt (contents file junk) (skip file) = n := countAt_contents (by omega) junk
  have hreal : realSize file = sizeAt (contents file junk) (skip file) (n - 1) +
      offsetAt (contents file junk) (skip file) (n - 1) := by
    rw [sizeAt_contents hentry, offsetAt_contents hentry, realSize, ← hn, Nat.add_comm]
  -- The last image is in the file, so the sum does not wrap around.
  have hsum : realSize file < 2 ^ 31 := by
    rw [realSize, ← hn]
    omega
  have hfind := @findImage_combine (requested file junk maxSize) chip
  simp only [requested_mem, requested_base, requested_room, hcount'] at hfind
  rw [hfind (by omega) hmagic' (by omega) (by omega) rfl hreal hsum]
  rfl

/-- What is left to write of a pack is its image. -/
theorem safe_pack (hwf : WellFormed file) {room : ℕ} (hroom : 4096 ≤ room + skip file)
    (hs : Sound chip file room) (hmagic : magicAt (fileMem file) (skip file) = imgHeadMagic)
    (junk junk' : ℕ → UInt8) (alloc : Bool) :
    Safe (parseImage chip file junk' alloc (requested file junk (room + skip file)) >>=
      firmwareWrite bus) (Written (images chip file)) := by
  have hskip := skip_cases file
  have hpack := hwf.pack hmagic
  have hlength := hwf.length
  have hlt := hwf.length_lt
  have hfind := findImage_requested_pack chip hwf hmagic junk hroom
  rw [Nat.add_sub_cancel, if_pos (hs.looked hmagic)] at hfind
  rw [images, if_pos hmagic]
  -- The entries up to the one of the chip are in the buffer, so that the search comes to an end.
  cases hselected : selected (fileMem file) (skip file) chip.tags with
  | none =>
    rw [hselected] at hfind
    rw [parseImage, hfind]
    exact safe_failed
  | some i =>
    -- The condition on this entry: it can be read, and its image begins the file, is in the buffer,
    -- or is refused.
    obtain ⟨hentry, hcond⟩ := hs.pack hmagic i hselected
    have hi := selected_lt hselected
    have hinside := hpack.inside i hi
    have hsize := hpack.size i hi
    have hcombine := hpack.combine i hi
    simp only [hselected, hentry, if_true] at hfind ⊢
    set offset := offsetAt (fileMem file) (skip file) i
    set size := sizeAt (fileMem file) (skip file) i
    have hwf' : magicAt (fileMem file) (skip file + offset) = imgHeadMagicCombine →
        12 + 12 * countAt (fileMem file) (skip file + offset) ≤ size ∧
          ∃ len, skip file + offset + len ≤ file.length ∧
            CombineWellFormed (fileMem file) (skip file + offset) len :=
      fun h => ⟨(hcombine h).table, size, by omega, hcombine h⟩
    rw [parseImage_eq hfind (by omega), requested_size, Nat.add_sub_cancel]
    by_cases hbehind : offset + size > room
    · -- The image is read again.
      rw [if_pos hbehind]
      split
      · exact safe_failed
      · rw [ok_bind]
        -- The second read has no mask: without one the image is where it should be, and a refused
        -- image is not sent from there, either.
        rcases hcond with hzero | hin | hrefused
        · rw [hzero, Nat.zero_add] at hwf' ⊢
          exact safe_write_image junk' le_rfl hsize (show size < 2 ^ 31 by omega) (by omega) hlt
            hwf'
        · exact absurd hbehind (Nat.not_lt_of_le hin)
        · exact safe_of_refused junk' (by omega) hrefused
    · -- The image is in the buffer.
      rw [if_neg hbehind, ok_bind]
      refine safe_write_image junk (by omega) (by omega) (by omega) (by omega) hlt fun h => ?_
      obtain ⟨htable, hlen⟩ := hwf' h
      exact ⟨by omega, hlen⟩

/-- The download of a combination under the conditions of `Sound`. -/
theorem safe_combine (hwf : WellFormed file) {room : ℕ} (hroom : 4096 ≤ room + skip file)
    (hs : Sound chip file room)
    (hmagic : magicAt (fileMem file) (skip file) = imgHeadMagicCombine)
    (junk junk' : ℕ → UInt8) (alloc : Bool) :
    Safe (parseImage chip file junk' alloc (requested file junk (room + skip file)) >>=
      firmwareWrite bus) (Written (images chip file)) := by
  have hskip := skip_cases file
  have hcombine := hwf.combine hmagic
  have hlength := hwf.length
  have hlt := hwf.length_lt
  have hne : magicAt (fileMem file) (skip file) ≠ imgHeadMagic := by
    rw [hmagic]
    decide
  obtain ⟨htable, hcond⟩ := hs.combine hmagic
  have hcount := hcombine.count
  -- The last image tells how long the combination is.
  have hinside := hcombine.inside (countAt (fileMem file) (skip file) - 1) (by omega)
  have hafter := hcombine.behind (countAt (fileMem file) (skip file) - 1) (by omega)
  have hfind := findImage_requested_combine chip hwf hmagic junk hroom
  rw [Nat.add_sub_cancel, if_pos htable] at hfind
  have hreal : realSize file = offsetAt (fileMem file) (skip file)
    (countAt (fileMem file) (skip file) - 1) +
      sizeAt (fileMem file) (skip file) (countAt (fileMem file) (skip file) - 1) := rfl
  have hreal' : realSize file < 2 ^ 31 := by omega
  have hafter' : 12 + 12 * countAt (fileMem file) (skip file) ≤ realSize file := by omega
  have himages : images chip file = imagesAt (fileMem file) (skip file) (realSize file) := by
    rw [images, if_neg hne, imagesAt, imagesAt, if_pos hmagic, if_pos hmagic]
  rw [himages, parseImage_eq hfind (by omega), requested_size, Nat.add_sub_cancel, Nat.zero_add]
  by_cases hbehind : realSize file > room
  · -- The file is read again, from its start: there is no mask.
    rw [if_pos hbehind]
    split
    · exact safe_failed
    · rw [ok_bind]
      have hzero : skip file = 0 := hcond.resolve_right (by omega)
      rw [hzero] at hcombine hafter' ⊢
      exact safe_write_image junk' le_rfl (by omega) hreal' (by omega) hlt fun _ =>
        ⟨hafter', _, by omega, hcombine⟩
  · -- The combination is in the buffer.
    rw [if_neg hbehind, ok_bind]
    exact safe_write_image junk (by omega) (by omega) (by omega) (by omega) hlt fun _ =>
      ⟨htable, _, by omega, hcombine⟩

/-- The download of a file without a magic number. -/
theorem safe_raw (hwf : WellFormed file) {room : ℕ} (hroom : 4096 ≤ room + skip file)
    (hs : Sound chip file room) (hpack : magicAt (fileMem file) (skip file) ≠ imgHeadMagic)
    (hcombine : magicAt (fileMem file) (skip file) ≠ imgHeadMagicCombine)
    (junk junk' : ℕ → UInt8) (alloc : Bool) :
    Safe (parseImage chip file junk' alloc (requested file junk (room + skip file)) >>=
      firmwareWrite bus) (Written (images chip file)) := by
  have hskip := skip_cases file
  have hlength := hwf.length
  have hlt := hwf.length_lt
  have hsize := hs.raw hpack hcombine
  have hmagic : magicAt (contents file junk) (skip file) = magicAt (fileMem file) (skip file) :=
    magicAt_contents (by omega) junk
  have hfind : findImage chip (requested file junk (room + skip file)) =
      .ok (requested file junk (room + skip file), 0, 0) :=
    findImage_raw (by simp only [requested_room]; omega) (by simpa [hmagic] using hpack)
      (by simpa [hmagic] using hcombine)
  -- Without a magic number, what is written is the whole buffer.
  rw [parseImage_eq hfind (by omega), if_neg (by simp), ok_bind, images, if_neg hpack, requested,
    Nat.add_sub_cancel]
  -- By the condition, this is the whole file.
  have hroom' : file.length - skip file = room := by omega
  rw [hroom']
  exact safe_write_image junk le_rfl (by omega) (by omega) (by omega) hlt fun h => absurd h hcombine

/-- A file is downloaded as it should under the conditions. -/
theorem downloaded_of_sound (hwf : WellFormed file)
    (hs : Sound chip file (chip.model.firmwareMaxSize - skip file)) : Downloaded chip file := by
  intro w
  have hskip := skip_cases file
  have hmax := firmwareMaxSize_bounds chip.model
  -- Without memory, nothing is downloaded. Otherwise there are three kinds of files.
  cases halloc : w.alloc with
  | false => exact safe_of_alloc halloc
  | true =>
    have hsum : chip.model.firmwareMaxSize =
        chip.model.firmwareMaxSize - skip file + skip file := by omega
    rw [download_eq hwf halloc, hsum]
    by_cases hpack : magicAt (fileMem file) (skip file) = imgHeadMagic
    · exact safe_pack hwf (by omega) hs hpack _ _ _
    · by_cases hcombine : magicAt (fileMem file) (skip file) = imgHeadMagicCombine
      · exact safe_combine hwf (by omega) hs hcombine _ _ _
      · exact safe_raw hwf (by omega) hs hpack hcombine _ _ _

end Sound

/-! ## Where a condition fails -/

section Quiet

/-- There is memory, and the bus has no errors. -/
def quiet : World := ⟨fun _ => 0, fun _ => 0, true, true, fun _ => 0⟩

/-- On a bus without errors, the loop sends an image that is in the buffer. -/
theorem dispackLoop_quiet (hroom : pos + offset + size ≤ data.room) (addr : ℕ) (done : List Write) :
    ∃ r, dispackLoop quiet.bus data addr pos offset size done 0 = .ok (r, 0) := by
  induction size using Nat.strong_induction_on generalizing offset done with
  | _ size ih =>
    rw [dispackLoop]
    split
    · exact ⟨done, rfl⟩
    · rename_i hne
      have hpacket : 0 < packetSize := by decide
      simp only
      rw [if_pos (by omega), if_neg (by simp [quiet])]
      have hrest : pos + (offset + min packetSize size) + (size - min packetSize size) ≤
          data.room := by omega
      exact ih _ (by omega) hrest _

/-- The loop reads outside of the buffer if the image does not end in it. -/
theorem dispackLoop_outside (hroom : ¬pos + offset + size ≤ data.room) (hpos : 0 < size) :
    dispackLoop quiet.bus data addr pos offset size done ret = .error .outside := by
  induction size using Nat.strong_induction_on generalizing offset done ret with
  | _ size ih =>
    rw [dispackLoop, if_neg (by omega)]
    have hpacket : 0 < packetSize := by decide
    simp only
    split
    · rw [if_neg (by simp [quiet])]
      exact ih (size - min packetSize size) (by omega) (by omega) (by omega)
    · rfl

/-- The image is written. -/
theorem dispack_quiet (hroom : pos + size ≤ data.room) (addr : ℕ) (done : List Write) :
    ∃ ws, dispack quiet.bus data addr pos size done = .ok (done ++ ws) ∧
      Between (data.base + pos) (data.base + pos + size) ws ∧
      (addr + size ≤ 2 ^ 32 → Covers ⟨addr, data.base + pos, size⟩ ws) := by
  have hroom' : pos + 0 + size ≤ data.room := hroom
  obtain ⟨r, hr⟩ := dispackLoop_quiet hroom' addr done
  have hok : dispack quiet.bus data addr pos size done = .ok r := by
    rw [dispack, hr]
    rfl
  have hsafe : Safe (dispack quiet.bus data addr pos size done) _ := safe_dispack hroom
  obtain ⟨ws, rfl, hws⟩ := hsafe.2 r hok
  exact ⟨ws, hok, hws⟩

/-- `sprdwcn_bus_direct_write_dispack` reads outside of the buffer if the image does not end in
    it. -/
theorem dispack_outside (hroom : ¬pos + size ≤ data.room) (hpos : 0 < size) :
    dispack quiet.bus data addr pos size done = .error .outside := by
  rw [dispack, dispackLoop_outside (by omega) hpos]
  rfl

/-- What can become of a combination. -/
theorem combineLoop_quiet (fw : Fw) (hroom : fw.data.room = fw.size) (i n : ℕ)
    (done : List Write) :
    combineLoop quiet.bus fw i n done = .error .outside ∨
      (∃ k, i ≤ k ∧ k < i + n ∧ 24 + 12 * k ≤ fw.size ∧
        fw.size < (sizeAt fw.mem fw.data.base k + offsetAt fw.mem fw.data.base k) % 2 ^ 32 ∧
        ∀ j, i ≤ j → j < k →
          sizeAt fw.mem fw.data.base j + offsetAt fw.mem fw.data.base j ≤ fw.size) ∨
      (∃ ws, combineLoop quiet.bus fw i n done = .ok (done ++ ws) ∧
        (∀ j, i ≤ j → j < i + n → 24 + 12 * j ≤ fw.size) ∧
        Between fw.data.base (fw.data.base + fw.size) ws) := by
  -- By induction on the number of images that are left. On a quiet bus, an image in the buffer is
  -- sent, so that the loop stops only at an entry or an image that is not, or at one that is
  -- refused.
  induction n generalizing i done with
  | zero =>
    refine .inr (.inr ⟨[], ?_, by omega, by simp [Between]⟩)
    rw [List.append_nil]
    rfl
  | succ n ih =>
    by_cases hentry : 24 + 12 * i ≤ fw.data.room
    swap
    · rw [combineLoop, u32_outside (by omega)]
      exact .inl rfl
    rw [combineLoop_succ hentry]
    have hsize : sizeAt fw.mem fw.data.base i < 2 ^ 32 := numAt_lt _ _ _
    have hoffset : offsetAt fw.mem fw.data.base i < 2 ^ 32 := numAt_lt _ _ _
    split
    · -- The loop ends at this image.
      rename_i hbehind
      exact .inr (.inl ⟨i, le_rfl, by omega, by omega, hbehind, by omega⟩)
    · rename_i hle
      by_cases hin : offsetAt fw.mem fw.data.base i + sizeAt fw.mem fw.data.base i ≤ fw.data.room
      swap
      · -- The sum has wrapped around.
        rw [dispack_outside hin (by omega)]
        exact .inl rfl
      obtain ⟨ws, hr, hbetween, -⟩ :=
        dispack_quiet hin (combineImage fw.mem fw.data.base i).addr done
      rw [hr, ok_bind]
      rcases ih (i + 1) (done ++ ws) with hout | ⟨k, hik, hkn, hk, hbehind, hinside⟩ |
        ⟨ws', hok, hentries, hbetween'⟩
      · -- What the rest of the loop comes to, with this image in front.
        exact .inl hout
      · refine .inr (.inl ⟨k, by omega, by omega, hk, hbehind, fun j hij hjk => ?_⟩)
        rcases Nat.eq_or_lt_of_le hij with rfl | hlt
        · omega
        · exact hinside j hlt hjk
      · refine .inr (.inr ⟨ws ++ ws', by rw [hok, List.append_assoc], fun j hij hjn => ?_, ?_⟩)
        · rcases Nat.eq_or_lt_of_le hij with rfl | hlt
          · omega
          · exact hentries j hlt (by omega)
        · intro w hw
          rcases List.mem_append.1 hw with hw | hw
          · have := hbetween w hw
            omega
          · exact hbetween' w hw

/-- Each packet of the images is from where they are. -/
theorem written_pos {images : List Image} (h : Written images ws) {first : ℕ}
    (hfirst : ∀ image ∈ images, first ≤ image.pos) : ∀ w ∈ ws, first ≤ w.pos := by
  obtain ⟨parts, rfl, hparts⟩ := h
  induction hparts with
  | nil => simp
  | cons hcovers _ ih =>
    rw [List.forall_mem_cons] at hfirst
    intro w hw
    rw [List.flatten_cons, List.mem_append] at hw
    rcases hw with hw | hw
    · exact hfirst.1.trans (covers_pos hcovers w hw).1
    · exact ih hfirst.2 w hw

/-- The packets of one image. -/
theorem covers_of_written {image : Image} (h : Written [image] ws) : Covers image ws := by
  obtain ⟨parts, rfl, hparts⟩ := h
  cases hparts with
  | cons hcovers hnil =>
    cases hnil
    simpa using hcovers

/-- The images are behind the mask. -/
theorem le_imagesAt (mem : ℕ → UInt8) (pos size : ℕ) :
    ∀ image ∈ imagesAt mem pos size, pos ≤ image.pos := by
  intro image himage
  rw [imagesAt] at himage
  split at himage
  · obtain ⟨i, -, rfl⟩ := List.mem_map.1 himage
    exact Nat.le_add_right _ _
  · rw [List.mem_singleton.1 himage]

/-- A single image is written. -/
theorem firmwareWrite_quiet (fw : Fw) (hroom : fw.size ≤ fw.data.room) (hroom' : 4 ≤ fw.data.room)
    (hsize : fw.size < 2 ^ 31) (hmagic : magicAt fw.mem fw.data.base ≠ imgHeadMagicCombine) :
    ∃ ws, firmwareWrite quiet.bus fw = .ok ws ∧ Covers ⟨cpStartAddr, fw.data.base, fw.size⟩ ws := by
  rw [firmwareWrite, magicIs_eq hroom', ok_bind, decide_eq_false hmagic, if_neg (by simp)]
  obtain ⟨ws, hok, -, hcovers⟩ := dispack_quiet (show 0 + fw.size ≤ fw.data.room by omega)
    cpStartAddr []
  exact ⟨ws, hok, hcovers (by unfold cpStartAddr; omega)⟩

/-- What is read instead of an image that is behind a mask is not the image. -/
theorem refused_of_safe {first : ℕ} (hsize : 4 ≤ size) (heq : pos = first + 8)
    (hin : pos + size ≤ file.length) (hlt : file.length < 2 ^ 31) (junk : ℕ → UInt8)
    (h : Safe (firmwareWrite quiet.bus ⟨contents file junk, ⟨first, size⟩, size⟩)
      (Written (imagesAt (fileMem file) pos size))) : Refused (fileMem file) first size := by
  have hmagic : magicAt (contents file junk) first = magicAt (fileMem file) first :=
    magicAt_contents (by omega) junk
  by_cases hcombine : magicAt (fileMem file) first = imgHeadMagicCombine
  swap
  · -- The packets begin in front of the image.
    obtain ⟨ws, hok, hcovers⟩ := firmwareWrite_quiet
      ⟨contents file junk, ⟨first, size⟩, size⟩ le_rfl hsize (by simp only; omega)
      (by simpa [hmagic] using hcombine)
    obtain ⟨w, hw, hpos⟩ := (covers_ends hcovers (by simp only; omega)).1
    have hle := written_pos (h.2 ws hok) (le_imagesAt _ _ _) w hw
    simp only at hpos
    omega
  rw [firmwareWrite, magicIs_eq (show 4 ≤ size by omega), ok_bind,
    decide_eq_true (hmagic.trans hcombine), if_pos rfl] at h
  by_cases hheader : 12 ≤ size
  swap
  · rw [Data.imgCount, u32_outside (show ¬8 + 4 ≤ size by omega)] at h
    exact absurd rfl h.1
  rw [imgCount_eq (show 12 ≤ size by omega), ok_bind,
    countAt_contents (show first + 12 ≤ file.length by omega)] at h
  set n := (Int.bmod (countAt (fileMem file) first) (2 ^ 32)).toNat with hn
  -- The loop leaves the buffer, is refused at an image, or writes all of them.
  rcases combineLoop_quiet ⟨contents file junk, ⟨first, size⟩, size⟩ rfl 0 n [] with
    hout | ⟨k, -, hkn, hk, hbehind, hinside⟩ | ⟨ws, hok, hentries, hbetween⟩
  · exact absurd hout h.1
  · simp only at hk hbehind hinside
    refine ⟨hcombine, k, by omega, hk, ?_, fun j hj => ?_⟩
    · rwa [sizeAt_contents (by omega), offsetAt_contents (by omega)] at hbehind
    · have hj' := hinside j (Nat.zero_le j) hj
      rwa [sizeAt_contents (by omega), offsetAt_contents (by omega)] at hj'
  · have hwritten := h.2 _ hok
    rw [List.nil_append] at hwritten
    by_cases htrue : magicAt (fileMem file) pos = imgHeadMagicCombine
    · -- The number of images would be the magic number.
      have hcount : countAt (fileMem file) first = 0x454e4357 := by
        have heq' : countAt (fileMem file) first = Bytes.le (magicAt (fileMem file) pos) := by
          rw [heq]
          rfl
        rw [heq', htrue]
        decide
      rw [hcount] at hn
      have hn' : n = 0x454e4357 := by
        rw [hn]
        decide
      have hlast := hentries (n - 1) (Nat.zero_le _) (by omega)
      simp only at hlast
      omega
    · -- The packets end in front of the end of the image.
      rw [imagesAt, if_neg htrue] at hwritten
      obtain ⟨w, hw, hend⟩ := (covers_ends (covers_of_written hwritten) (by simp only; omega)).2
      have hle := (hbetween w hw).2
      simp only at hend hle
      omega

variable {room : ℕ}

/-- The download of a pack is safe only if its entries and the selected image are in the buffer. -/
theorem pack_of_safe (hwf : WellFormed file) (hroom : 4096 ≤ room + skip file)
    (hmagic : magicAt (fileMem file) (skip file) = imgHeadMagic)
    (h : Safe
      (parseImage chip file quiet.junk' true (requested file quiet.junk (room + skip file)) >>=
        firmwareWrite quiet.bus)
      (Written (images chip file))) :
    12 * looked (fileMem file) (skip file) chip.tags + 4 ≤ room ∧
      ∀ i ∈ selected (fileMem file) (skip file) chip.tags, 24 + 12 * i ≤ room ∧
        (skip file = 0 ∨
          offsetAt (fileMem file) (skip file) i + sizeAt (fileMem file) (skip file) i ≤ room ∨
          Refused (fileMem file) (offsetAt (fileMem file) (skip file) i)
            (sizeAt (fileMem file) (skip file) i)) := by
  have hskip := skip_cases file
  have hpack := hwf.pack hmagic
  have hlength := hwf.length
  have hlt := hwf.length_lt
  have hfind := findImage_requested_pack chip hwf hmagic quiet.junk hroom
  rw [Nat.add_sub_cancel] at hfind
  by_cases hlooked : 12 * looked (fileMem file) (skip file) chip.tags + 4 ≤ room
  swap
  · rw [if_neg hlooked] at hfind
    rw [parseImage, hfind] at h
    exact absurd rfl h.1
  refine ⟨hlooked, fun i hselected => ?_⟩
  rw [if_pos hlooked, Option.mem_def.1 hselected] at hfind
  by_cases hentry : 24 + 12 * i ≤ room
  swap
  · simp only [hentry, if_false] at hfind
    rw [parseImage, hfind] at h
    exact absurd rfl h.1
  refine ⟨hentry, ?_⟩
  have hi := selected_lt hselected
  have hinside := hpack.inside i hi
  have hsize := hpack.size i hi
  rw [images, if_pos hmagic, Option.mem_def.1 hselected] at h
  simp only [hentry, if_true] at hfind h
  set offset := offsetAt (fileMem file) (skip file) i
  set size := sizeAt (fileMem file) (skip file) i
  -- The image is read again, without the bytes of the mask in front of it.
  by_contra hcond
  rw [not_or, not_or] at hcond
  obtain ⟨hmask, hbehind, hrefused⟩ := hcond
  rw [parseImage_eq hfind (by omega), requested_size, Nat.add_sub_cancel,
    if_pos (show offset + size > room by omega), if_neg (by simp; omega), ok_bind] at h
  refine hrefused (refused_of_safe hsize ?_ ?_ hlt quiet.junk' h) <;> omega

/-- A mask does not begin like a combination. -/
theorem magicAt_mask (hlen : 4 ≤ file.length) (hmask : skip file ≠ 0) (junk : ℕ → UInt8) :
    magicAt (contents file junk) 0 ≠ imgHeadMagicCombine := by
  have hzero : file.getD 0 0 = 0 := by
    by_contra hne
    exact hmask (if_neg fun h => hne h.1)
  rw [magicAt_contents (by omega)]
  intro hmagic
  have hhead : magicAt (fileMem file) 0 = file.getD 0 0 :: bytesAt (fileMem file) 1 3 := rfl
  rw [hhead, hzero] at hmagic
  exact absurd (List.cons.inj hmagic).1 (by decide)

/-- The download of a combination is safe only if its table and its images are. -/
theorem combine_of_safe (hwf : WellFormed file) (hroom : 4096 ≤ room + skip file)
    (hmagic : magicAt (fileMem file) (skip file) = imgHeadMagicCombine)
    (h : Safe
      (parseImage chip file quiet.junk' true (requested file quiet.junk (room + skip file)) >>=
        firmwareWrite quiet.bus)
      (Written (images chip file))) :
    12 + 12 * countAt (fileMem file) (skip file) ≤ room ∧
      (skip file = 0 ∨ realSize file ≤ room) := by
  have hskip := skip_cases file
  have hcombine := hwf.combine hmagic
  have hlength := hwf.length
  have hlt := hwf.length_lt
  have hcount := hcombine.count
  have hinside := hcombine.inside (countAt (fileMem file) (skip file) - 1) (by omega)
  have hreal : realSize file + skip file ≤ file.length := by
    rw [realSize]
    omega
  have hne : magicAt (fileMem file) (skip file) ≠ imgHeadMagic := by
    rw [hmagic]
    decide
  have hfind := findImage_requested_combine chip hwf hmagic quiet.junk hroom
  rw [Nat.add_sub_cancel] at hfind
  by_cases htable : 12 + 12 * countAt (fileMem file) (skip file) ≤ room
  swap
  · rw [if_neg htable] at hfind
    rw [parseImage, hfind] at h
    exact absurd rfl h.1
  refine ⟨htable, ?_⟩
  rw [if_pos htable] at hfind
  by_contra hcond
  rw [not_or] at hcond
  obtain ⟨hmask, hbehind⟩ := hcond
  rw [parseImage_eq hfind (by omega), requested_size, Nat.add_sub_cancel, Nat.zero_add,
    if_pos (Nat.lt_of_not_le hbehind), if_neg (by simp only [Bool.true_eq_false, false_or]; omega),
    ok_bind] at h
  -- The mask is written, too.
  obtain ⟨ws, hok, hcovers⟩ := firmwareWrite_quiet
    ⟨contents file quiet.junk', ⟨0, realSize file⟩, realSize file⟩ le_rfl
    (show 4 ≤ realSize file by omega) (show realSize file < 2 ^ 31 by omega)
    (magicAt_mask (by omega) hmask quiet.junk')
  obtain ⟨w, hw, hpos⟩ := (covers_ends hcovers (show 0 < realSize file by omega)).1
  have himages : images chip file = imagesAt (fileMem file) (skip file) (realSize file) := by
    rw [images, if_neg hne, imagesAt, imagesAt, if_pos hmagic, if_pos hmagic]
  rw [himages] at h
  have hle := written_pos (h.2 ws hok) (le_imagesAt _ _ _) w hw
  simp only at hpos
  omega

/-- The download of a single image is safe only if the file fills the buffer. -/
theorem raw_of_safe (hwf : WellFormed file) (hroom : 4096 ≤ room + skip file)
    (hpack : magicAt (fileMem file) (skip file) ≠ imgHeadMagic)
    (hcombine : magicAt (fileMem file) (skip file) ≠ imgHeadMagicCombine)
    (hmax : room < 2 ^ 31)
    (h : Safe
      (parseImage chip file quiet.junk' true (requested file quiet.junk (room + skip file)) >>=
        firmwareWrite quiet.bus)
      (Written (images chip file))) :
    file.length = room + skip file := by
  have hskip := skip_cases file
  have hlength := hwf.length
  have hmagic : magicAt (contents file quiet.junk) (skip file) =
      magicAt (fileMem file) (skip file) := magicAt_contents (by omega) quiet.junk
  have hfind : findImage chip (requested file quiet.junk (room + skip file)) =
      .ok (requested file quiet.junk (room + skip file), 0, 0) :=
    findImage_raw (by simp only [requested_room]; omega) (by simpa [hmagic] using hpack)
      (by simpa [hmagic] using hcombine)
  rw [parseImage_eq hfind (by omega), if_neg (by simp), ok_bind, images, if_neg hpack, imagesAt,
    if_neg hcombine, requested, Nat.add_sub_cancel] at h
  -- The buffer is written, and should have been the file.
  obtain ⟨ws, hok, hcovers⟩ := firmwareWrite_quiet
    ⟨contents file quiet.junk, ⟨skip file, room⟩, room⟩ le_rfl (show 4 ≤ room by omega) hmax
    (by simpa [hmagic] using hcombine)
  have hfile := covers_length (covers_of_written (h.2 ws hok))
  rw [covers_length hcovers] at hfile
  simp only at hfile
  omega

/-- If a file is always downloaded, it meets the conditions. -/
theorem sound_of_downloaded (hwf : WellFormed file) (h : Downloaded chip file) :
    Sound chip file (chip.model.firmwareMaxSize - skip file) := by
  have hskip := skip_cases file
  have hmax := firmwareMaxSize_bounds chip.model
  -- It is enough to look at a world where nothing fails, and where behind the file there is nothing
  -- that helps.
  have hq := h quiet
  rw [download_eq hwf rfl] at hq
  obtain ⟨room, hroom⟩ : ∃ room, chip.model.firmwareMaxSize = room + skip file :=
    ⟨chip.model.firmwareMaxSize - skip file, by omega⟩
  rw [hroom] at hq ⊢
  rw [Nat.add_sub_cancel]
  exact {
    looked := fun hmagic => (pack_of_safe hwf (by omega) hmagic hq).1
    pack := fun hmagic => (pack_of_safe hwf (by omega) hmagic hq).2
    combine := fun hmagic => combine_of_safe hwf (by omega) hmagic hq
    raw := fun hpack hcombine => raw_of_safe hwf (by omega) hpack hcombine (by omega) hq }

end Quiet

/-- A firmware file is downloaded exactly under the conditions, with what is left of the buffer
    behind the mask. -/
theorem downloaded_iff (chip : Chip) (file : List UInt8) (hwf : WellFormed file) :
    Downloaded chip file ↔ Sound chip file (chip.model.firmwareMaxSize - skip file) :=
  ⟨sound_of_downloaded hwf, downloaded_of_sound hwf⟩

/-! ## Packs -/

/-- The header of a pack with one image for `marlin3l`, right behind it. -/
def packHead (size : List UInt8) : List UInt8 :=
  imgHeadMagic ++ [0, 0, 0, 0, 1, 0, 0, 0] ++ tag .marlin3l .ac ++ [24, 0, 0, 0] ++ size

/-- A pack of an image of four bytes. -/
def pack : List UInt8 := packHead [4, 0, 0, 0] ++ [1, 2, 3, 4]

/-- The file is one that the tool makes. -/
theorem wellFormed_pack : WellFormed pack where
  length := by decide
  length_lt := by decide
  pack := fun _ => by
    have hcount : countAt (fileMem pack) (skip pack) = 1 := by decide
    refine ⟨by decide, by decide, by decide, fun i hi hmagic => ?_⟩
    obtain rfl : i = 0 := by omega
    exact absurd hmagic (by decide)
  combine := fun h => absurd h (by decide)

/-- The image of the chip is written. -/
theorem downloaded_pack : Downloaded ⟨.marlin3l, some .ac⟩ pack := by
  refine (downloaded_iff _ _ wellFormed_pack).2 ⟨fun _ => by decide, fun _ i hi => ?_, ?_, ?_⟩
  · have hselected : selected (fileMem pack) (skip pack) (Chip.tags ⟨.marlin3l, some .ac⟩) =
        some 0 := by decide
    obtain rfl := Option.some.inj (hselected.symm.trans hi)
    exact ⟨by decide, .inl (by decide)⟩
  · exact fun h => absurd h (by decide)
  · exact fun h => absurd h (by decide)

/-- The mask and the header in front of a long image. -/
def maskedHead : List UInt8 := List.replicate 8 0 ++ packHead [0xe4, 0x73, 0x0e, 0]

/-- A pack with a mask, whose image ends four bytes behind the buffer. -/
def maskedPack : List UInt8 := maskedHead ++ List.replicate 0xe73e4 1

/-- The bytes of the file, which are not written out. -/
theorem fileMem_maskedPack :
    fileMem maskedPack = contents maskedHead fun pos =>
      (List.replicate 0xe73e4 1).getD (pos - maskedHead.length) 0 := by
  funext pos
  rw [fileMem, contents, contents, maskedPack, List.getD_eq_getElem?_getD,
    List.getD_eq_getElem?_getD]
  rcases Nat.lt_or_ge pos maskedHead.length with hlt | hge
  · rw [List.getElem?_append_left hlt, List.getElem?_eq_getElem hlt]
    rfl
  · rw [List.getElem?_append_right hge, List.getElem?_eq_none hge, ← List.getD_eq_getElem?_getD]
    rfl

/-- The file has the mask, the table, and the image, which ends four bytes behind the buffer. -/
theorem length_maskedPack : maskedPack.length = 0xe73e4 + 32 := by
  rw [maskedPack, List.length_append, List.length_replicate]
  rfl

/-- The file begins with a mask. -/
theorem skip_maskedPack : skip maskedPack = 8 := rfl

/-- The table of the file has one image. -/
theorem count_maskedPack : countAt (fileMem maskedPack) 8 = 1 := by
  rw [fileMem_maskedPack, countAt_contents (by decide)]
  decide

/-- The image is right behind the table. -/
theorem offset_maskedPack : offsetAt (fileMem maskedPack) 8 0 = 24 := by
  rw [fileMem_maskedPack, offsetAt_contents (by decide)]
  decide

/-- The image comes to four bytes behind the end of the buffer. -/
theorem size_maskedPack : sizeAt (fileMem maskedPack) 8 0 = 0xe73e4 := by
  rw [fileMem_maskedPack, sizeAt_contents (by decide)]
  decide

/-- The file is a pack. -/
theorem magic_maskedPack : magicAt (fileMem maskedPack) 8 = imgHeadMagic := by
  rw [fileMem_maskedPack, magicAt_contents (by decide)]
  decide

/-- What is in front of the image. -/
theorem front_maskedPack : magicAt (fileMem maskedPack) 24 = [24, 0, 0, 0] := by
  rw [fileMem_maskedPack, magicAt_contents (by decide)]
  decide

/-- The image is not a combination itself. -/
theorem image_maskedPack : magicAt (fileMem maskedPack) 32 = [1, 1, 1, 1] := rfl

/-- The file is one that the tool makes. -/
theorem wellFormed_maskedPack : WellFormed maskedPack where
  length := by
    rw [skip_maskedPack, length_maskedPack]
    decide
  length_lt := by
    rw [length_maskedPack]
    decide
  pack := fun _ => by
    rw [skip_maskedPack, length_maskedPack]
    refine ⟨?_, fun i hi => ?_, fun i hi => ?_, fun i hi hmagic => ?_⟩
    · rw [count_maskedPack]
      decide
    all_goals
      rw [count_maskedPack] at hi
      obtain rfl : i = 0 := by omega
    · rw [offset_maskedPack, size_maskedPack]
    · rw [size_maskedPack]
      decide
    · rw [offset_maskedPack, image_maskedPack] at hmagic
      exact absurd hmagic (by decide)
  combine := fun h => by
    rw [skip_maskedPack, magic_maskedPack] at h
    exact absurd h (by decide)

/-- The second read uses the offset without the mask, so that the last bytes are not those of the
    image. -/
theorem not_downloaded : ¬∀ chip file, WellFormed file → Downloaded chip file := by
  intro h
  have hs := sound_of_downloaded wellFormed_maskedPack
    (h ⟨.marlin3l, some .ac⟩ maskedPack wellFormed_maskedPack)
  have hselected : selected (fileMem maskedPack) (skip maskedPack)
      (Chip.tags ⟨.marlin3l, some .ac⟩) = some 0 := by
    rw [skip_maskedPack, fileMem_maskedPack, selected_contents (by decide)]
    decide
  -- None of the three conditions on the entry is met: the image does not begin the file, it ends
  -- behind the buffer, and it is no combination.
  obtain ⟨-, hzero | hin | hrefused⟩ := hs.pack magic_maskedPack 0 hselected
  · exact absurd hzero (by decide)
  · rw [skip_maskedPack, offset_maskedPack, size_maskedPack] at hin
    exact absurd hin (by decide)
  · rw [skip_maskedPack, offset_maskedPack, Refused, front_maskedPack] at hrefused
    exact absurd hrefused.1 (by decide)

end W132d.Wcn.Firmware
