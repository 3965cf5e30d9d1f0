import Mathlib.Tactic

/-!
# The table of the file systems

The firmware is on a partition whose path the driver derives from that of `userdata`, which it looks
for in the table of the file systems, line by line (`fgets` and `load_fstab_conf` in
`wcn_parn_parser.c`). `fgets` reads as much as its buffer holds, which moves the position of the
file, and moves the position behind the line that it found then, as if it had not moved.

* `fgets`, `reads`, `loadFstabConf`: the functions, and what `fgets` returns one time after the
  other;
* `InOrder`: what is read are the lines of the file;
* `Found`: the path is that of the first line that has one;
* `reads_iff`: both are so for the files that have one short line only.

How the theorem is proved: the position after a call of `fgets` is that of the end of the line
counted from where the buffer has ended (`fgets_pos`), so that of all that was read into the buffer
at once only the first line is returned. What is returned is therefore the whole file only if it has
one line which fits into the buffer (`oneLine_of_inOrder`, by comparing lengths), and then it is
(`reads_of_oneLine`).
-/

namespace W132d.Wcn.Fstab

/-! ## The functions -/

/-- `'\n'`. -/
def confLf : UInt8 := 10

/-- `'#'`. -/
def confComment : UInt8 := 35

/-- `CONF_MAX_LINE_LEN`. -/
def confMaxLineLen : ℕ := 255

/-- `WCN_FIRMWARE_PATH_MAX`. -/
def wcnFirmwarePathMax : ℕ := 256

/-- `CONF_DELIMITERS`, and the end of the string. -/
def confDelimiters : List UInt8 := [32, 61, 10, 13, 9, 0]

def userdata : List UInt8 := [117, 115, 101, 114, 100, 97, 116, 97]

def wcnmodem : List UInt8 := [119, 99, 110, 109, 111, 100, 101, 109]

/-- How far the loop of `fgets` goes. -/
def scan (buf : List UInt8) : ℕ := min (buf.findIdx (· = confLf) + 1) buf.length

/-- The string that is in the buffer, and the position of the file. -/
def fgets (bufLen : ℕ) (file : List UInt8) (pos : ℕ) : Option (List UInt8 × ℕ) :=
  let buf := (file.drop pos).take bufLen
  let ret := buf.length
  -- `kernel_read` has moved the position.
  let pos := pos + ret
  if ret = 0 then none
  else if scan buf ≤ ret then
    some (buf.take (if scan buf ≥ bufLen then bufLen - 1 else scan buf), pos + scan buf)
  else none

variable {file buf line : List UInt8} {pos pos' bufLen n : ℕ}

/-- The position moves twice. -/
theorem fgets_eq_some (h : fgets bufLen file pos = some (buf, pos')) :
    ∃ block, block = (file.drop pos).take bufLen ∧ block ≠ [] ∧
      buf = block.take (if scan block ≥ bufLen then bufLen - 1 else scan block) ∧
      pos' = pos + block.length + scan block := by
  simp only [fgets] at h
  split at h
  · exact absurd h (by simp)
  · rename_i hne
    refine ⟨_, rfl, fun hnil => hne (by rw [hnil]; rfl), ?_⟩
    split at h
    · obtain ⟨hbuf, hpos⟩ := Prod.mk.inj (Option.some.inj h)
      exact ⟨hbuf.symm, hpos.symm⟩
    · exact absurd h (by simp)

/-- After a line was read, the position is behind where it was. -/
theorem fgets_pos (h : fgets bufLen file pos = some (buf, pos')) :
    pos < pos' ∧ pos < file.length := by
  obtain ⟨block, rfl, hne, -, rfl⟩ := fgets_eq_some h
  have hlen := List.length_pos_of_ne_nil hne
  rw [List.length_take, List.length_drop] at hlen ⊢
  omega

/-- What `fgets` returns until it returns nothing. -/
def reads (file : List UInt8) (pos : ℕ) : List (List UInt8) :=
  match _h : fgets (confMaxLineLen + 1) file pos with
  | none => []
  | some (buf, pos') => buf :: reads file pos'
termination_by file.length - pos
decreasing_by
  have := fgets_pos _h
  omega

/-- `strsep`. -/
def word (line : List UInt8) : List UInt8 := line.takeWhile (· ∉ confDelimiters)

/-- `strstr`. -/
def strstr (s t : List UInt8) : Option ℕ :=
  (List.range (s.length + 1)).find? fun k => t.isPrefixOf (s.drop k)

/-- What is before `userdata` in a line that is none of comment. -/
def device (line : List UInt8) : Option (List UInt8) :=
  if line.head? = some confComment ∨ line.head? = some confLf then none
  else (strstr (word line) userdata).map fun k => (word line).take k

/-- The path that a line yields, if it is not too long. -/
def path (line : List UInt8) : Option (List UInt8) :=
  (device line).bind fun d =>
    if (d ++ wcnmodem).length ≥ wcnFirmwarePathMax then none else some (d ++ wcnmodem)

/-- The path that is found in the lines of a file. -/
def loadFstabConf (file : List UInt8) : Option (List UInt8) := (reads file 0).findSome? path

/-! ## Lines -/

/-- What is read are the lines of the file, the longer ones in pieces. -/
structure InOrder (file : List UInt8) (bufs : List (List UInt8)) : Prop where
  all : bufs.flatten = file
  line : ∀ buf ∈ bufs, confLf ∉ buf.dropLast
  /-- Where a line goes on, the buffer is full. -/
  whole : ∀ us buf vs, bufs = us ++ buf :: vs → vs ≠ [] →
    buf.getLast? = some confLf ∨ confMaxLineLen ≤ buf.length

/-- If a line of at most 254 characters has a path that is not too long, that of the first one is
    found. -/
def Found (file : List UInt8) : Prop :=
  ∀ line d, (file.splitOn confLf).find? (fun l => l.length ≤ 254 ∧ (device l).isSome) = some line →
    device line = some d → (d ++ wcnmodem).length < wcnFirmwarePathMax →
      loadFstabConf file = some (d ++ wcnmodem)

/-- The file has one line at most, and the buffer has room for it. -/
def OneLine (file : List UInt8) : Prop := file.length ≤ confMaxLineLen ∧ confLf ∉ file.dropLast

/-! ## What is read -/

/-- At the end of the file, there is no line. -/
theorem fgets_of_le (h : file.length ≤ pos) : fgets bufLen file pos = none := by
  simp [fgets, List.drop_of_length_le h]

theorem reads_of_none (h : fgets (confMaxLineLen + 1) file pos = none) : reads file pos = [] := by
  rw [reads]
  split
  · rfl
  · simp_all

theorem reads_of_fgets (h : fgets (confMaxLineLen + 1) file pos = some (buf, pos')) :
    reads file pos = buf :: reads file pos' := by
  rw [reads]
  split <;> simp_all

/-- The scan stays in the buffer. -/
theorem scan_le (buf : List UInt8) : scan buf ≤ buf.length := min_le_right _ _

/-- Before the end of the file, there is a line. -/
theorem fgets_of_lt (h : pos < file.length) (hbuf : 0 < bufLen) :
    ∃ next, fgets bufLen file pos = some next := by
  have hne : ((file.drop pos).take bufLen).length ≠ 0 := by
    rw [List.length_take, List.length_drop]
    omega
  simp only [fgets]
  rw [if_neg hne, if_pos (scan_le _)]
  exact ⟨_, rfl⟩

/-- The whole buffer is one line. -/
theorem scan_eq_length : scan buf = buf.length ↔ confLf ∉ buf.dropLast := by
  constructor
  · intro h hmem
    obtain ⟨i, hi, hlf⟩ := List.getElem_of_mem hmem
    rw [List.length_dropLast] at hi
    rw [List.getElem_dropLast] at hlf
    have hle : buf.findIdx (· = confLf) ≤ i := by
      by_contra hlt
      have hnot := List.not_of_lt_findIdx (Nat.lt_of_not_le hlt)
      rw [hlf] at hnot
      exact absurd hnot (by decide)
    rw [scan] at h
    omega
  · intro h
    refine min_eq_right ?_
    by_contra hlt
    have hi : buf.findIdx (· = confLf) < buf.length := by omega
    have hlf : buf[buf.findIdx (· = confLf)] = confLf := by
      simpa using List.findIdx_getElem (p := (· = confLf)) (w := hi)
    refine h (List.mem_iff_getElem.2 ⟨buf.findIdx (· = confLf), ?_, ?_⟩)
    · rw [List.length_dropLast]
      omega
    · rw [List.getElem_dropLast, hlf]

/-- The position is behind the line and its end. -/
theorem length_buf_le (h : fgets bufLen file pos = some (buf, pos')) :
    buf.length + pos + 1 ≤ pos' := by
  obtain ⟨block, rfl, hne, rfl, rfl⟩ := fgets_eq_some h
  have hlen := List.length_pos_of_ne_nil hne
  have hscan : ((file.drop pos).take bufLen).length ≤ bufLen := by
    rw [List.length_take]
    exact min_le_left _ _
  rw [List.length_take]
  split <;> omega

/-- No more is read than what is behind the position. -/
theorem length_reads_le (file : List UInt8) (pos : ℕ) :
    (reads file pos).flatten.length ≤ file.length - pos := by
  induction pos using reads.induct file with
  | case1 pos h =>
    rw [reads_of_none h]
    exact Nat.zero_le _
  | case2 pos buf pos' h ih =>
    have hle := length_buf_le h
    have hlen : buf.length ≤ file.length - pos := by
      obtain ⟨block, rfl, -, rfl, -⟩ := fgets_eq_some h
      rw [List.length_take, List.length_take, List.length_drop]
      omega
    rw [reads_of_fgets h, List.flatten_cons, List.length_append]
    omega

/-! ## Files of one line -/

/-- A file of one line is read as it is. -/
theorem reads_of_oneLine (h : OneLine file) (hne : file ≠ []) : reads file 0 = [file] := by
  have hlen := List.length_pos_of_ne_nil hne
  have hblock : (file.drop 0).take (confMaxLineLen + 1) = file := by
    rw [List.drop_zero, List.take_of_length_le (Nat.le_succ_of_le h.1)]
  have hscan := scan_eq_length.2 h.2
  have hfgets : fgets (confMaxLineLen + 1) file 0 = some (file, file.length + file.length) := by
    simp only [fgets, hblock, hscan]
    rw [if_neg (by omega), if_pos le_rfl, if_neg (by have := h.1; omega), List.take_length,
      Nat.zero_add]
  rw [reads_of_fgets hfgets, reads_of_none (fgets_of_le (by omega))]

/-- If nothing is lost, it was all read at once. -/
theorem oneLine_of_inOrder (h : InOrder file (reads file 0)) : OneLine file := by
  by_cases hnil : file = []
  · subst hnil
    exact ⟨Nat.zero_le _, List.not_mem_nil⟩
  have hlen := List.length_pos_of_ne_nil hnil
  obtain ⟨⟨buf, pos'⟩, hfgets⟩ := fgets_of_lt hlen (show 0 < confMaxLineLen + 1 by decide)
  have hrest := length_reads_le file pos'
  have hle := length_buf_le hfgets
  have hall := congrArg List.length h.all
  rw [reads_of_fgets hfgets, List.flatten_cons, List.length_append] at hall
  obtain ⟨block, hblock, -, rfl, -⟩ := fgets_eq_some hfgets
  rw [List.drop_zero] at hblock
  have hscan := scan_le block
  have htake : block.length ≤ file.length := by
    rw [hblock, List.length_take]
    exact min_le_right _ _
  rw [List.length_take] at hall hle
  -- The buffer that was returned has all bytes of the file.
  have hwhole : block.length = file.length ∧ scan block = file.length ∧
      file.length ≤ confMaxLineLen := by
    have hmax : confMaxLineLen = 255 := rfl
    by_cases hfull : scan block ≥ confMaxLineLen + 1
    · rw [if_pos hfull] at hall hle
      omega
    · rw [if_neg hfull] at hall hle
      omega
  have hfile : block = file := by
    rw [hblock]
    exact List.take_of_length_le (Nat.le_succ_of_le hwhole.2.2)
  subst hfile
  exact ⟨hwhole.2.2, scan_eq_length.1 hwhole.2.1⟩

theorem inOrder_of_oneLine (h : OneLine file) : InOrder file (reads file 0) := by
  by_cases hnil : file = []
  · subst hnil
    rw [reads_of_none (fgets_of_le (Nat.zero_le 0))]
    exact ⟨rfl, by simp, by simp⟩
  rw [reads_of_oneLine h hnil]
  refine ⟨List.append_nil file, by simpa using h.2, ?_⟩
  intro us buf vs hsplit hvs
  have hlen := congrArg List.length hsplit
  have := List.length_pos_of_ne_nil hvs
  simp only [List.length_cons, List.length_append, List.length_nil] at hlen
  omega

/-- The newline at the end is not part of a word. -/
theorem word_append (line : List UInt8) : word (line ++ [confLf]) = word line := by
  rw [word, word, List.takeWhile_append]
  split
  · rename_i h
    have hlf : [confLf].takeWhile (· ∉ confDelimiters) = [] := by decide
    rw [hlf, List.append_nil]
    exact (List.Sublist.eq_of_length (List.takeWhile_sublist _) h).symm
  · rfl

/-- The end of a line makes no difference. -/
theorem device_append (h : line ≠ []) : device (line ++ [confLf]) = device line := by
  rw [device, device, word_append, List.head?_append_of_ne_nil _ h]

/-- No line has no device. -/
theorem device_nil : device [] = none := by decide

/-- The line has an end, or none. -/
theorem eq_or_append_of_oneLine (h : OneLine file) :
    confLf ∉ file ∨ ∃ l, file = l ++ [confLf] ∧ confLf ∉ l := by
  rcases List.eq_nil_or_concat' file with rfl | ⟨l, byte, rfl⟩
  · exact .inl List.not_mem_nil
  · have hl : confLf ∉ l := by simpa using h.2
    by_cases hbyte : byte = confLf
    · exact .inr ⟨l, by rw [hbyte], hl⟩
    · refine .inl fun hmem => ?_
      rcases List.mem_append.1 hmem with hmem | hmem
      · exact hl hmem
      · exact hbyte (List.mem_singleton.1 hmem).symm

/-- The device of one line is found. -/
theorem found_of_oneLine (h : OneLine file) : Found file := by
  intro line d hfind hdevice hlen
  have hline : device file = some d := by
    rcases eq_or_append_of_oneLine h with hnot | ⟨l, rfl, hnot⟩
    · rw [List.splitOn_eq_singleton hnot] at hfind
      rw [← List.mem_singleton.1 (List.mem_of_find?_eq_some hfind), hdevice]
    · rw [List.splitOn_append_cons_self, List.splitOn_eq_singleton hnot, List.splitOn_nil] at hfind
      rcases List.mem_pair.1 (List.mem_of_find?_eq_some hfind) with rfl | rfl
      · have hne : line ≠ [] := by
          rintro rfl
          rw [device_nil] at hdevice
          exact absurd hdevice (by simp)
        rw [device_append hne, hdevice]
      · rw [device_nil] at hdevice
        exact absurd hdevice (by simp)
  have hne : file ≠ [] := by
    rintro rfl
    rw [device_nil] at hline
    exact absurd hline (by simp)
  rw [loadFstabConf, reads_of_oneLine h hne, List.findSome?_cons, path, hline, Option.bind_some,
    if_neg (Nat.not_le_of_lt hlen)]

/-- The lines of a file are read, and its path is found, if it is a short line only. -/
theorem reads_iff (file : List UInt8) :
    InOrder file (reads file 0) ∧ Found file ↔ OneLine file :=
  ⟨fun h => oneLine_of_inOrder h.1, fun h => ⟨inOrder_of_oneLine h, found_of_oneLine h⟩⟩

/-- A table whose second line has the path. -/
def secondLine : List UInt8 := [confComment, confLf, 47] ++ userdata ++ [confLf]

/-- The second line is never read: with the first one, the position moves behind all that is in the
    buffer. -/
theorem not_found : ¬∀ file, InOrder file (reads file 0) ∧ Found file := by
  intro h
  have hfound := (h secondLine).2 (47 :: userdata) [47] (by decide) (by decide) (by decide)
  have hreads : reads secondLine 0 = [[confComment, confLf]] := by
    have hfgets : fgets (confMaxLineLen + 1) secondLine 0 = some ([confComment, confLf], 14) := by
      decide
    rw [reads_of_fgets hfgets, reads_of_none (fgets_of_le (by decide))]
  rw [loadFstabConf, hreads] at hfound
  exact absurd hfound (by decide)

end W132d.Wcn.Fstab
