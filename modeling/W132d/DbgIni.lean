import Mathlib.Data.List.ReduceOption
import W132d.Loop

/-!
# The configuration for debugging

A file may set the channel of the access point and the level of the log (`dbg_ini_parse` in
`dbg_ini_util.c`). Its lines are read without blanks and comments. The name of a section is in
brackets, and in a section, a line sets something if it has a `=`, which is looked for from the
position on where the search in an earlier line has ended.

* `getValidLine`, `turn`: the functions, a turn of the loop for each line;
* `reference`: what the file says, where each line is split at its first `=`;
* `Independent`: only the line that was read is read, and the result is that of the reference;
* `entries`: the lines of the sections, with the positions that the search starts at;
* `independent_iff`: where the function is right.

The parser reads all lines into one array, and keeps the position where the search for `=` has
ended, `index`, from one line to the next. So what a line sets depends on the lines before it. The
search goes over the end of a line that is shorter than this position, where the bytes of an earlier
line are, or those that were in the array in the beginning (`start`).

How the theorem is proved:

* `getValidLine` yields the next line of which something counts, without blanks and comments, and
  with a zero behind it (`getValidLine_eq`). A last line without an end is not yielded;
* if the search begins within the line, or at its end, then the line is split at the first `=` from
  there on (`parseAssignment_eq`), and otherwise the result depends on what was in the array;
* so the run of the loop is that over the list of `entries`, each with the position at which the
  search begins (`returns_of_within`), which the lines alone determine;
* two lists of assignments have the same effect exactly if the last one of each setting is the same
  (`setAll_eq_iff`), which makes the condition exact.

`kstrtoul` is a parameter.
-/

namespace W132d.DbgIni

/-! ## The functions -/

/-- The size of `line`. -/
def sizeofLine : ℕ := 256

/-- `'\0'`, `'\r'` and `'\n'`. -/
def isEnd (c : UInt8) : Bool := c = 0 || c = 13 || c = 10

/-- `'#'` and `';'`. -/
def isComment (c : UInt8) : Bool := c = 35 || c = 59

/-- `' '`. -/
def blank : UInt8 := 32

/-- `'='`. -/
def equals : UInt8 := 61

/-- `'['`. -/
def bracket : UInt8 := 91

/-- `"[SOFTAP]"`. -/
def softapName : List UInt8 := [91, 83, 79, 70, 84, 65, 80, 93]

/-- `"[DEBUG]"`. -/
def debugName : List UInt8 := [91, 68, 69, 66, 85, 71, 93]

/-- `"channel"`. -/
def channelKey : List UInt8 := [99, 104, 97, 110, 110, 101, 108]

/-- `"log_level"`. -/
def logLevelKey : List UInt8 := [108, 111, 103, 95, 108, 101, 118, 101, 108]

/-- `L_NONE`. -/
def lNone : ℕ := 0

/-- `get_valid_line`, with `i` bytes in the line and `p` bytes of the buffer read. -/
def getValidLine (lineSize : ℕ) : List UInt8 → List UInt8 → ℕ → ℕ → Bool →
    Option (ℕ × List UInt8)
  | [], _, _, _, _ => none
  | c :: buf, line, i, p, rem =>
    if i ≥ lineSize then none
    else
      let rem := rem || isComment c
      if isEnd c then
        if i ≠ 0 then some (p + 1, line.set i 0) else getValidLine lineSize buf line i (p + 1) false
      else if c = blank then getValidLine lineSize buf line i (p + 1) rem
      else if rem = false then getValidLine lineSize buf (line.set i c) (i + 1) (p + 1) rem
      else getValidLine lineSize buf line i (p + 1) rem

/-- `enum SEC_TYPE`. -/
inductive Sec
  | invalid
  | softap
  | debug
  deriving DecidableEq

/-- What the file may set: `softap_channel` and `sprdwl_debug_level`. -/
inductive Setting
  | softapChannel
  | debugLevel
  deriving DecidableEq

/-- The values of the settings. -/
abbrev Ini := Setting → ℤ

/-- The section that the parser is in, and how often it has been in each. -/
structure Sections where
  sec : Sec
  status : Sec → ℕ

/-- The line is the name of a section. Every section is there once. -/
def Sections.enter (s : Sections) (line : List UInt8) : Sections :=
  let sec := if line = softapName then .softap else if line = debugName then .debug else .invalid
  let status := Function.update s.status sec (s.status sec + 1)
  ⟨if status sec ≠ 1 then .invalid else sec, status⟩

/-- The variables of the loop, with what is left of the buffer. -/
structure State where
  rest : List UInt8
  line : List UInt8
  sections : Sections
  index : ℕ
  ini : Ini

/-- A string that is in an array. -/
def cstr (bytes : List UInt8) : List UInt8 := bytes.takeWhile (· ≠ 0)

/-- Where the next `=` is, or the end of the string. -/
def scan (line : List UInt8) (index : ℕ) : ℕ :=
  index + (line.drop index).findIdx fun c => c = equals || c = 0

section

variable (kstrtoul : List UInt8 → Option ℕ)

/-- What a key and a value set in a section, as an `int`. -/
def assign (sec : Sec) (key value : List UInt8) : Option (Setting × ℤ) :=
  match sec with
  | .softap =>
    if key = channelKey then (kstrtoul value).map fun v => (.softapChannel, Int.bmod v (2 ^ 32))
    else none
  | .debug =>
    if key = logLevelKey then
      (kstrtoul value).bind fun v =>
        if v ≥ lNone then some (.debugLevel, Int.bmod v (2 ^ 32)) else none
    else none
  | .invalid => none

/-- Set something. -/
def Ini.set (ini : Ini) : Option (Setting × ℤ) → Ini
  | none => ini
  | some (setting, value) => Function.update ini setting value

/-- What is done with a line that is not the name of a section. The search may run over the end of
    the array. -/
def parseAssignment (s : State) : Option Ini ⊕ State :=
  let index := scan s.line s.index
  if sizeofLine ≤ index then .inl none
  else if s.line.getD index 0 ≠ equals then .inr { s with index }
  else
    let line := s.line.set index 0
    let index := index + 1
    let ini := s.ini.set (assign kstrtoul s.sections.sec (cstr line) (cstr (line.drop index)))
    .inr { s with line, index, ini }

/-- A turn of the loop of `dbg_ini_parse`. -/
def turn (s : State) : Option Ini ⊕ State :=
  match getValidLine sizeofLine s.rest s.line 0 0 false with
  | none => .inl (some s.ini)
  | some (ret, line) =>
    let s := { s with rest := s.rest.drop ret, line }
    if line.head? = some bracket then .inr { s with sections := s.sections.enter (cstr line) }
    else parseAssignment kstrtoul s

/-- The variables in front of the loop. What the line has is not known. -/
def start (file line : List UInt8) (ini : Ini) : State :=
  ⟨file, line, ⟨.invalid, fun _ => 0⟩, 0, ini⟩

/-! ## The reference -/

/-- What counts of a line. -/
def text (line : List UInt8) : List UInt8 := (line.takeWhile (!isComment ·)).filter (· ≠ blank)

/-- The lines of a file that something of counts. -/
def texts (lines : List (List UInt8)) : List (List UInt8) := (lines.map text).filter (· ≠ [])

/-- The file, split where the driver ends lines. -/
def lines (file : List UInt8) : List (List UInt8) := file.splitOnP isEnd

/-- No line has more bytes than the array has room for. -/
def Short (buf : List UInt8) : Prop :=
  ∀ line ∈ lines buf, (line.filter (· ≠ blank)).length < sizeofLine

instance (buf : List UInt8) : Decidable (Short buf) := inferInstanceAs (Decidable (∀ _ ∈ _, _))

/-- What a line sets that is split at its first `=`. -/
def setting (sec : Sec) (t : List UInt8) : Option (Setting × ℤ) :=
  if equals ∈ t then
    assign kstrtoul sec (t.takeWhile (· ≠ equals)) ((t.dropWhile (· ≠ equals)).drop 1)
  else none

/-- A line, whatever lines are in front of it but for the names of sections. -/
def referenceLine (s : Sections × Ini) (t : List UInt8) : Sections × Ini :=
  if t.head? = some bracket then (s.1.enter t, s.2)
  else (s.1, s.2.set (setting kstrtoul s.1.sec t))

/-- What a file sets. -/
def reference (file : List UInt8) (ini : Ini) : Ini :=
  ((texts (lines file)).foldl (referenceLine kstrtoul) (⟨.invalid, fun _ => 0⟩, ini)).2

/-- The search begins within the line that was read, or at its end. -/
def Within (s : State) : Prop :=
  ∀ ret line, getValidLine sizeofLine s.rest s.line 0 0 false = some (ret, line) →
    line.head? ≠ some bracket → s.index ≤ (cstr line).length

/-- Only the line that was read is read, and what is set is what the reference sets. -/
def Independent (file : List UInt8) : Prop :=
  ∀ line ini, line.length = sizeofLine →
    (∃ t, Loop.Returns (turn kstrtoul) (start file line ini) t
      (some (reference kstrtoul file ini))) ∧
      ∀ t, Loop.Reaches (turn kstrtoul) (start file line ini) t → Within t

end

/-! ## Where the search begins -/

/-- Where the search begins in the next line. -/
def nextIndex (index : ℕ) (t : List UInt8) : ℕ :=
  min (index + (t.drop index).findIdx (· = equals) + 1) t.length

/-- A line of a section, with the position that the search begins at. -/
structure Entry where
  sec : Sec
  index : ℕ
  text : List UInt8

/-- The lines that are not names of sections. -/
def entries : Sections → ℕ → List (List UInt8) → List Entry
  | _, _, [] => []
  | s, index, t :: ts =>
    if t.head? = some bracket then entries (s.enter t) index ts
    else ⟨s.sec, index, t⟩ :: entries s (nextIndex index t) ts

/-- All lines that are not names of sections, from the begin of a file on. -/
def entriesOf (lines : List (List UInt8)) : List Entry :=
  entries ⟨.invalid, fun _ => 0⟩ 0 (texts lines)

/-- The last value that something gets. -/
def lastValue (setting : Setting) (sets : List (Option (Setting × ℤ))) : Option ℤ :=
  ((sets.reduceOption.filter (·.1 = setting)).getLast?).map (·.2)

section

variable (kstrtoul : List UInt8 → Option ℕ)

/-- What a line sets. -/
def Entry.sets (e : Entry) : Option (Setting × ℤ) := setting kstrtoul e.sec e.text

/-- What a line sets if its first `=` is not in front of where the search begins. -/
def Entry.recognized (e : Entry) : Option (Setting × ℤ) :=
  if equals ∈ e.text.take e.index then none else e.sets kstrtoul

/-- The search begins within each line that is complete, and the last value that a setting gets is
    that of the last line which is complete and recognized. -/
def Recognizes (file : List UInt8) : Prop :=
  (∀ e ∈ entriesOf (lines file).dropLast, e.index ≤ e.text.length) ∧
    ∀ setting, lastValue setting ((entriesOf (lines file)).map (Entry.sets kstrtoul)) =
      lastValue setting ((entriesOf (lines file).dropLast).map (Entry.recognized kstrtoul))

end

/-! ## Lines -/

variable {c : UInt8} {buf acc tail t rest seg : List UInt8} {i p : ℕ} {rem : Bool}

/-- The text of a line goes on without blanks up to a comment. -/
theorem text_cons : text (c :: seg) =
    if isComment c then [] else if c = blank then text seg else c :: text seg := by
  cases hcomment : isComment c with
  | true => simp [text, hcomment]
  | false =>
    rw [text, List.takeWhile_cons_of_pos (by rw [hcomment]; rfl), if_neg (by simp)]
    by_cases hblank : c = blank
    · rw [if_pos hblank, List.filter_cons_of_neg (by simpa using hblank), text]
    · rw [if_neg hblank, List.filter_cons_of_pos (by simpa using hblank), text]

/-- What is added to the line by bytes of the buffer. -/
def added (rem : Bool) (seg : List UInt8) : List UInt8 := if rem then [] else text seg

theorem added_cons (rem : Bool) (c : UInt8) (seg : List UInt8) : added rem (c :: seg) =
    if (rem || isComment c) = false ∧ c ≠ blank then c :: added (rem || isComment c) seg
    else added (rem || isComment c) seg := by
  rw [added, added, text_cons]
  cases rem <;> cases isComment c <;> by_cases hblank : c = blank <;> simp [hblank]

/-- The bytes of a line are read. -/
theorem getValidLine_append (acc : List UInt8) (rem : Bool) (hseg : ∀ c ∈ seg, isEnd c = false)
    (hline : (acc ++ tail).length = sizeofLine)
    (hlen : (acc ++ added rem seg).length < sizeofLine) :
    ∃ tail' rem', (acc ++ added rem seg ++ tail').length = sizeofLine ∧
      getValidLine sizeofLine (seg ++ buf) (acc ++ tail) acc.length p rem =
        getValidLine sizeofLine buf (acc ++ added rem seg ++ tail') (acc ++ added rem seg).length
          (p + seg.length) rem' := by
  induction seg generalizing acc tail p rem with
  | nil =>
    have hnil : added rem [] = [] := by cases rem <;> rfl
    rw [hnil, List.append_nil]
    exact ⟨tail, rem, hline, rfl⟩
  | cons c seg ih =>
    rw [List.forall_mem_cons] at hseg
    have hacc : ¬acc.length ≥ sizeofLine := by
      rw [List.length_append] at hlen
      omega
    have hp : p + (c :: seg).length = p + 1 + seg.length := by
      rw [List.length_cons]
      omega
    rw [List.cons_append, getValidLine, if_neg hacc, hp]
    simp only [hseg.1, Bool.false_eq_true, if_false]
    rw [added_cons] at hlen ⊢
    by_cases hadd : (rem || isComment c) = false ∧ c ≠ blank
    · -- The byte is put into the line.
      rw [if_pos hadd] at hlen ⊢
      rw [if_neg hadd.2, if_pos hadd.1]
      obtain ⟨x, tail, rfl⟩ : ∃ x xs, tail = x :: xs := by
        cases tail with
        | nil =>
          rw [List.append_nil] at hline
          omega
        | cons x tail => exact ⟨x, tail, rfl⟩
      have hset : (acc ++ x :: tail).set acc.length c = acc ++ [c] ++ tail := by
        rw [List.set_append_right _ _ le_rfl, Nat.sub_self, List.set_cons_zero,
          List.append_assoc, List.singleton_append]
      have hlength : acc.length + 1 = (acc ++ [c]).length := by simp
      have happend : acc ++ c :: added (rem || isComment c) seg =
          acc ++ [c] ++ added (rem || isComment c) seg := by simp
      rw [hset, hlength, happend]
      rw [happend] at hlen
      exact ih _ _ hseg.2 (by simpa using hline) hlen
    · rw [if_neg hadd] at hlen ⊢
      -- A byte that is skipped leaves the line as it is.
      have hsame : ∀ line : List UInt8,
          (if c = blank then getValidLine sizeofLine (seg ++ buf) line acc.length (p + 1)
            (rem || isComment c)
          else if (rem || isComment c) = false then
            getValidLine sizeofLine (seg ++ buf) (line.set acc.length c) (acc.length + 1) (p + 1)
              (rem || isComment c)
          else getValidLine sizeofLine (seg ++ buf) line acc.length (p + 1) (rem || isComment c)) =
          getValidLine sizeofLine (seg ++ buf) line acc.length (p + 1) (rem || isComment c) := by
        intro line
        split
        · rfl
        · rename_i hblank
          rw [if_neg fun hfalse => hadd ⟨hfalse, hblank⟩]
      rw [hsame]
      exact ih _ _ hseg.2 hline hlen

/-- The text of a line is not longer than the line without blanks. -/
theorem length_text_le (seg : List UInt8) :
    (text seg).length ≤ (seg.filter (· ≠ blank)).length :=
  ((List.takeWhile_sublist _).filter _).length_le

/-- A buffer has the end of a line, or none. -/
theorem exists_end (buf : List UInt8) : (∀ c ∈ buf, isEnd c = false) ∨
    ∃ seg c rest, buf = seg ++ c :: rest ∧ (∀ c ∈ seg, isEnd c = false) ∧ isEnd c := by
  induction buf with
  | nil => exact .inl fun _ h => absurd h List.not_mem_nil
  | cons c buf ih =>
    cases hend : isEnd c with
    | true => exact .inr ⟨[], c, buf, rfl, fun _ h => absurd h List.not_mem_nil, hend⟩
    | false =>
      rcases ih with hbuf | ⟨seg, c', rest, rfl, hseg, hend'⟩
      · exact .inl (List.forall_mem_cons.2 ⟨hend, hbuf⟩)
      · exact .inr ⟨c :: seg, c', rest, rfl, List.forall_mem_cons.2 ⟨hend, hseg⟩, hend'⟩

/-- What comes before an end is a line. -/
theorem lines_append (hseg : ∀ c ∈ seg, isEnd c = false) (hend : isEnd c) (rest : List UInt8) :
    lines (seg ++ c :: rest) = seg :: lines rest :=
  List.splitOnP_append_cons_of_forall_mem hseg c hend rest

theorem lines_of_not_isEnd (hbuf : ∀ c ∈ buf, isEnd c = false) : lines buf = [buf] :=
  List.splitOnP_eq_singleton hbuf

/-- There is a line at least. -/
theorem lines_ne_nil (buf : List UInt8) : lines buf ≠ [] := List.splitOnP_ne_nil _ _

/-- The text has characters of the line only. -/
theorem mem_text {x : UInt8} (h : x ∈ text seg) : x ∈ seg :=
  (List.takeWhile_sublist _).mem (List.mem_filter.1 h).1

/-- What is left behind a line and its end. -/
theorem drop_segment (seg rest : List UInt8) (c : UInt8) (n : ℕ) :
    (seg ++ c :: rest).drop (seg.length + 1 + n) = rest.drop n := by
  rw [List.append_cons, ← List.drop_drop, List.drop_left' (by simp)]

/-- An empty line is passed. -/
theorem texts_cons_of_text_eq_nil {ls : List (List UInt8)} (h : text seg = []) :
    texts (seg :: ls) = texts ls := by
  rw [texts, List.map_cons, List.filter_cons_of_neg (by simpa using h), texts]

/-- A line that fits is written to the buffer, with a zero behind it. -/
theorem getValidLine_bytes {line : List UInt8} (hline : line.length = sizeofLine)
    (hseg : ∀ c ∈ seg, isEnd c = false) (hlen : (text seg).length < sizeofLine)
    (buf : List UInt8) (p : ℕ) :
    ∃ tail rem, (text seg ++ tail).length = sizeofLine ∧
      getValidLine sizeofLine (seg ++ buf) line 0 p false =
        getValidLine sizeofLine buf (text seg ++ tail) (text seg).length (p + seg.length) rem :=
  getValidLine_append [] false hseg hline hlen

/-- A line that comes to its end. -/
theorem getValidLine_segment {line : List UInt8} (hline : line.length = sizeofLine)
    (hseg : ∀ c ∈ seg, isEnd c = false) (hend : isEnd c) (hlen : (text seg).length < sizeofLine)
    (rest : List UInt8) (p : ℕ) :
    ∃ tail, (text seg ++ 0 :: tail).length = sizeofLine ∧
      ∃ line' : List UInt8, line'.length = sizeofLine ∧
      getValidLine sizeofLine (seg ++ c :: rest) line 0 p false =
        if text seg = [] then getValidLine sizeofLine rest line' 0 (p + seg.length + 1) false
        else some (p + seg.length + 1, text seg ++ 0 :: tail) := by
  obtain ⟨tail, rem, htail, heq⟩ := getValidLine_bytes hline hseg hlen (c :: rest) p
  obtain ⟨x, tail, rfl⟩ : ∃ x xs, tail = x :: xs := by
    cases tail with
    | nil =>
      rw [List.append_nil] at htail
      omega
    | cons x tail => exact ⟨x, tail, rfl⟩
  refine ⟨tail, by simpa using htail, text seg ++ x :: tail, htail, ?_⟩
  rw [heq, getValidLine, if_neg (by omega)]
  simp only [hend, if_true]
  by_cases hnil : text seg = []
  · rw [if_pos hnil, hnil, if_neg (by simp)]
    rfl
  · rw [if_neg hnil, if_pos (by simpa using hnil), List.set_append_right _ _ le_rfl, Nat.sub_self,
      List.set_cons_zero]

/-- What `get_valid_line` returns: the next complete line that something of counts. -/
theorem getValidLine_eq {line : List UInt8} (hline : line.length = sizeofLine) (hshort : Short buf)
    (p : ℕ) :
    texts (lines buf).dropLast = [] ∧ getValidLine sizeofLine buf line 0 p false = none ∨
      ∃ t tail ret skipped, t ≠ [] ∧ 0 ∉ t ∧ (t ++ 0 :: tail).length = sizeofLine ∧
        getValidLine sizeofLine buf line 0 p false = some (p + ret, t ++ 0 :: tail) ∧
        lines buf = skipped ++ lines (buf.drop ret) ∧ texts skipped = [t] := by
  induction hn : buf.length using Nat.strong_induction_on generalizing buf line p with
  | _ n ih =>
    rcases exists_end buf with hbuf | ⟨seg, c, rest, rfl, hseg, hend⟩
    · -- No line ends: what is left is not returned.
      have hlen := length_text_le buf
      have hmem : buf ∈ lines buf := by
        rw [lines_of_not_isEnd hbuf]
        exact List.mem_singleton_self buf
      have hshort' := hshort buf hmem
      obtain ⟨tail, rem, -, heq⟩ := getValidLine_bytes hline hbuf (by omega) [] p
      rw [List.append_nil] at heq
      rw [lines_of_not_isEnd hbuf]
      exact .inl ⟨rfl, heq⟩
    · have hlines := lines_append hseg hend rest
      rw [Short, hlines, List.forall_mem_cons] at hshort
      have hlen := length_text_le seg
      obtain ⟨tail, htail, line', hline', heq⟩ :=
        getValidLine_segment hline hseg hend (by omega) rest p
      by_cases hnil : text seg = []
      · -- Nothing of the line counts, so the next one is taken.
        rw [if_pos hnil] at heq
        rw [heq, hlines, List.dropLast_cons_of_ne_nil (lines_ne_nil rest),
          texts_cons_of_text_eq_nil hnil]
        have hlt : rest.length < n := by
          rw [← hn, List.length_append, List.length_cons]
          omega
        rcases ih rest.length hlt hline' hshort.2 (p + seg.length + 1) rfl with hnone |
          ⟨t, tail, ret, skipped, ht, hzero, htail, hsome, hskipped, hrest⟩
        · exact .inl hnone
        · refine .inr ⟨t, tail, seg.length + 1 + ret, seg :: skipped, ht, hzero, htail, ?_, ?_, ?_⟩
          · rw [hsome]
            simp only [Nat.add_assoc]
          · rw [drop_segment, List.cons_append, ← hskipped]
          · rw [texts_cons_of_text_eq_nil hnil, hrest]
      · rw [if_neg hnil] at heq
        refine .inr ⟨text seg, tail, seg.length + 1, [seg], hnil, fun hzero => ?_, htail, heq, ?_,
          ?_⟩
        · exact absurd (hseg 0 (mem_text hzero)) (by decide)
        · have hdrop := drop_segment seg rest c 0
          rw [Nat.add_zero, List.drop_zero] at hdrop
          rw [hdrop, hlines]
          rfl
        · rw [texts, List.map_singleton, List.filter_cons_of_pos (by simpa using hnil)]
          rfl

/-! ## A turn -/

variable {kstrtoul : List UInt8 → Option ℕ} {s : State} {key value front back : List UInt8}

/-- A string ends at the first zero. -/
theorem cstr_append (ht : 0 ∉ t) (tail : List UInt8) : cstr (t ++ 0 :: tail) = t := by
  have hne : ∀ x ∈ t, decide (x ≠ 0) = true := fun x hx =>
    decide_eq_true fun hzero => ht (hzero ▸ hx)
  rw [cstr, List.takeWhile_append_of_pos hne, List.takeWhile_cons_of_neg (by simp),
    List.append_nil]

/-- The first character with a property, behind those without it. -/
theorem findIdx_append_cons {P : UInt8 → Bool} (hfront : ∀ x ∈ front, P x = false) (hc : P c) :
    (front ++ c :: back).findIdx P = front.length := by
  rw [List.findIdx_append, List.findIdx_eq_length_of_false hfront, if_neg (lt_irrefl _),
    List.findIdx_cons, hc]
  exact Nat.zero_add _

/-- A line has no equals sign, or a first one. -/
theorem exists_equals (t : List UInt8) :
    equals ∉ t ∨ ∃ front back, t = front ++ equals :: back ∧ equals ∉ front := by
  by_cases h : equals ∈ t
  · exact .inr (List.eq_append_cons_of_mem h)
  · exact .inl h

/-- The keys that set something have no `=`. -/
theorem assign_of_mem {sec : Sec} (h : equals ∈ key) : assign kstrtoul sec key value = none := by
  cases sec with
  | softap =>
    refine if_neg ?_
    rintro rfl
    exact absurd h (by decide)
  | debug =>
    refine if_neg ?_
    rintro rfl
    exact absurd h (by decide)
  | invalid => rfl

/-- A line that is split at its first `=`. -/
theorem setting_append {sec : Sec} (h : equals ∉ front) :
    setting kstrtoul sec (front ++ equals :: back) = assign kstrtoul sec front back := by
  have hne : ∀ x ∈ front, decide (x ≠ equals) = true := fun x hx =>
    decide_eq_true fun heq => h (heq ▸ hx)
  rw [setting, if_pos (by simp), List.takeWhile_append_of_pos hne,
    List.takeWhile_cons_of_neg (by simp), List.append_nil, List.dropWhile_append_of_pos hne,
    List.dropWhile_cons_of_neg (by simp)]
  rfl

/-- The search in what is left of a line from where it begins. -/
theorem findIdx_search (hzero : 0 ∉ t) (tail : List UInt8) :
    (t ++ 0 :: tail).findIdx (fun c => c = equals || c = 0) = t.findIdx (· = equals) := by
  have hne : ∀ x ∈ t, decide (x = 0) = false := fun x hx => decide_eq_false fun h => hzero (h ▸ hx)
  rcases exists_equals t with h | ⟨front, back, rfl, h⟩
  · have hne' : ∀ x ∈ t, decide (x = equals) = false := fun x hx =>
      decide_eq_false fun heq => h (heq ▸ hx)
    rw [List.findIdx_eq_length_of_false hne', findIdx_append_cons _ (by decide)]
    intro x hx
    rw [hne x hx, hne' x hx]
    rfl
  · have hne' : ∀ x ∈ front, decide (x = equals) = false := fun x hx =>
      decide_eq_false fun heq => h (heq ▸ hx)
    rw [findIdx_append_cons hne' (by decide), List.append_assoc, List.cons_append,
      findIdx_append_cons _ (by decide)]
    intro x hx
    rw [hne x (List.mem_append_left _ hx), hne' x hx]
    rfl

/-- The loop stops at the first equals sign, or at the end of the string. -/
theorem scan_append (hzero : 0 ∉ t) {index : ℕ} (hindex : index ≤ t.length) (tail : List UInt8) :
    scan (t ++ 0 :: tail) index = index + (t.drop index).findIdx (· = equals) := by
  rw [scan, List.drop_append_of_le_length hindex,
    findIdx_search fun h => hzero (List.mem_of_mem_drop h)]

/-- A line that the search finds no `=` in. -/
theorem parseAssignment_of_not_mem (kstrtoul : List UInt8 → Option ℕ) (s : State)
    {tail : List UInt8} (hline : s.line = t ++ 0 :: tail) (hlen : s.line.length = sizeofLine)
    (hzero : 0 ∉ t) (hindex : s.index ≤ t.length) (h : equals ∉ t.drop s.index) :
    parseAssignment kstrtoul s = .inr { s with index := t.length } ∧
      nextIndex s.index t = t.length ∧
      Entry.recognized kstrtoul ⟨s.sections.sec, s.index, t⟩ = none := by
  have hne : ∀ x ∈ t.drop s.index, decide (x = equals) = false := fun x hx =>
    decide_eq_false fun heq => h (heq ▸ hx)
  -- The search goes up to the zero behind the text.
  have hend : s.index + (t.drop s.index).findIdx (· = equals) = t.length := by
    rw [List.findIdx_eq_length_of_false hne, List.length_drop]
    omega
  have hnul : s.line.getD t.length 0 = 0 := by
    rw [hline, List.getD_eq_getElem?_getD, List.getElem?_append_right le_rfl, Nat.sub_self]
    rfl
  have hlt : t.length < sizeofLine := by
    rw [hline, List.length_append, List.length_cons] at hlen
    omega
  refine ⟨?_, ?_, ?_⟩
  · rw [parseAssignment, hline, scan_append hzero hindex, hend, if_neg (by omega), ← hline, hnul,
      if_pos (by decide)]
  · rw [nextIndex, hend, Nat.min_eq_right (Nat.le_succ _)]
  · rw [Entry.recognized, Entry.sets, setting]
    split
    · rfl
    · rename_i hfront
      rw [if_neg]
      rw [← List.take_append_drop s.index t, List.mem_append]
      exact not_or.2 ⟨hfront, h⟩

/-- What a line sets that the search splits. -/
theorem recognized_of_split {sec : Sec} {index : ℕ} (ht : t = key ++ equals :: value)
    (hkey : index ≤ key.length) (h : equals ∉ key.drop index) :
    Entry.recognized kstrtoul ⟨sec, index, t⟩ = assign kstrtoul sec key value := by
  have htake : t.take index = key.take index := by
    rw [ht, List.take_append_of_le_length hkey]
  rw [Entry.recognized, Entry.sets]
  simp only [htake]
  split
  · rename_i hfront
    exact (assign_of_mem (List.mem_of_mem_take hfront)).symm
  · rename_i hfront
    have hnot : equals ∉ key := by
      rw [← List.take_append_drop index key, List.mem_append]
      exact not_or.2 ⟨hfront, h⟩
    rw [ht, setting_append hnot]

/-- A line that the search splits. -/
theorem parseAssignment_of_split (kstrtoul : List UInt8 → Option ℕ) (s : State)
    {tail : List UInt8} (hline : s.line = t ++ 0 :: tail) (hlen : s.line.length = sizeofLine)
    (hzero : 0 ∉ t) (ht : t = key ++ equals :: value) (hkey : s.index ≤ key.length)
    (h : equals ∉ key.drop s.index) :
    parseAssignment kstrtoul s = .inr { s with
      line := key ++ 0 :: (value ++ 0 :: tail)
      index := key.length + 1
      ini := s.ini.set (assign kstrtoul s.sections.sec key value) } ∧
      (key ++ 0 :: (value ++ 0 :: tail)).length = sizeofLine ∧
      nextIndex s.index t = key.length + 1 := by
  have htlen : t.length = key.length + (value.length + 1) := by
    rw [ht, List.length_append, List.length_cons]
  have hlt : t.length < sizeofLine := by
    rw [hline, List.length_append, List.length_cons] at hlen
    omega
  have hne : ∀ x ∈ key.drop s.index, decide (x = equals) = false := fun x hx =>
    decide_eq_false fun heq => h (heq ▸ hx)
  have hfind : s.index + (t.drop s.index).findIdx (· = equals) = key.length := by
    rw [ht, List.drop_append_of_le_length hkey, findIdx_append_cons hne (by decide),
      List.length_drop]
    omega
  have hline' : s.line = key ++ equals :: (value ++ 0 :: tail) := by
    rw [hline, ht, List.append_assoc, List.cons_append]
  have hget : s.line.getD key.length 0 = equals := by
    rw [hline', List.getD_eq_getElem?_getD, List.getElem?_append_right le_rfl, Nat.sub_self]
    rfl
  -- The zero in place of the `=` splits the line.
  have hset : s.line.set key.length 0 = key ++ 0 :: (value ++ 0 :: tail) := by
    rw [hline', List.set_append_right _ _ le_rfl, Nat.sub_self, List.set_cons_zero]
  have hkeyzero : 0 ∉ key := fun hmem => hzero (ht ▸ List.mem_append_left _ hmem)
  have hvaluezero : 0 ∉ value := fun hmem =>
    hzero (ht ▸ List.mem_append_right _ (List.mem_cons_of_mem _ hmem))
  have hvalue : (key ++ 0 :: (value ++ 0 :: tail)).drop (key.length + 1) = value ++ 0 :: tail := by
    rw [List.append_cons, List.drop_left' (by simp)]
  have hscan : scan s.line s.index = key.length := by
    rw [hline, scan_append hzero (by omega), hfind]
  refine ⟨?_, ?_, ?_⟩
  · rw [parseAssignment, hscan, if_neg (by omega), hget, if_neg fun hc => hc rfl]
    simp only [hset, hvalue, cstr_append hkeyzero, cstr_append hvaluezero]
  · rw [← hlen, ← hset, List.length_set]
  · rw [nextIndex, hfind, Nat.min_eq_left (by omega)]

/-- What is done with a line if the search begins within it. -/
theorem parseAssignment_eq (kstrtoul : List UInt8 → Option ℕ) (s : State) {tail : List UInt8}
    (hline : s.line = t ++ 0 :: tail) (hlen : s.line.length = sizeofLine) (hzero : 0 ∉ t)
    (hindex : s.index ≤ t.length) :
    ∃ line, line.length = sizeofLine ∧ parseAssignment kstrtoul s = .inr { s with
      line
      index := nextIndex s.index t
      ini := s.ini.set (Entry.recognized kstrtoul ⟨s.sections.sec, s.index, t⟩) } := by
  rcases exists_equals (t.drop s.index) with h | ⟨front, back, hback, h⟩
  · obtain ⟨heq, hnext, hnone⟩ :=
      parseAssignment_of_not_mem kstrtoul s hline hlen hzero hindex h
    rw [hnext, hnone]
    exact ⟨s.line, hlen, heq⟩
  · have htake : (t.take s.index).length = s.index := List.length_take_of_le hindex
    have ht : t = (t.take s.index ++ front) ++ equals :: back := by
      rw [List.append_assoc, ← hback, List.take_append_drop]
    have hkey : s.index ≤ (t.take s.index ++ front).length := by
      rw [List.length_append]
      omega
    have hnot : equals ∉ (t.take s.index ++ front).drop s.index := by
      rwa [List.drop_left' htake]
    obtain ⟨heq, hlen', hnext⟩ := parseAssignment_of_split kstrtoul s hline hlen hzero ht hkey hnot
    rw [hnext, recognized_of_split ht hkey hnot]
    exact ⟨_, hlen', heq⟩

/-- A state between two turns: what is left is short, and the line is an array. -/
structure Good (s : State) : Prop where
  short : Short s.rest
  line : s.line.length = sizeofLine

/-- The lines that are left. -/
def left (s : State) : List (List UInt8) := texts (lines s.rest).dropLast

/-- The first byte of the buffer is that of the text. -/
theorem getElem_head {tail : List UInt8} (ht : t ≠ []) : (t ++ 0 :: tail).head? = t.head? := by
  cases t with
  | nil => exact absurd rfl ht
  | cons c t => rfl

/-- The lines that are left and are not names of sections, with the positions that the search
    begins at. -/
def leftEntries (s : State) : List Entry := entries s.sections s.index (left s)

/-- A state that the next one has less lines than. -/
def Before (s s' : State) : Prop := Good s' ∧ (left s').length < (left s).length

/-- What a turn does: it ends, enters a section, or takes a line, if the search begins within it. -/
theorem turn_cases (kstrtoul : List UInt8 → Option ℕ) (hs : Good s) :
    (leftEntries s = [] ∧ turn kstrtoul s = .inl (some s.ini) ∧ Within s) ∨
      (∃ s', Before s s' ∧ turn kstrtoul s = .inr s' ∧ Within s ∧
        leftEntries s = leftEntries s' ∧ s'.ini = s.ini) ∨
      ∃ e es, leftEntries s = e :: es ∧ (Within s ↔ e.index ≤ e.text.length) ∧
        (e.index ≤ e.text.length → ∃ s', Before s s' ∧ turn kstrtoul s = .inr s' ∧
          leftEntries s' = es ∧ s'.ini = s.ini.set (e.recognized kstrtoul)) := by
  rcases getValidLine_eq hs.line hs.short 0 with ⟨hleft, hnone⟩ |
    ⟨t, tail, ret, skipped, ht, hzero, hlen, hsome, hskipped, htext⟩
  · have hleft' : left s = [] := hleft
    refine .inl ⟨by rw [leftEntries, hleft', entries], ?_, fun ret line h => ?_⟩
    · rw [turn, hnone]
    · rw [hnone] at h
      exact absurd h (by simp)
  rw [Nat.zero_add] at hsome
  have hdrop : (lines s.rest).dropLast = skipped ++ (lines (s.rest.drop ret)).dropLast := by
    rw [hskipped, List.dropLast_append_of_ne_nil (lines_ne_nil _)]
  have hleft : left s = t :: texts (lines (s.rest.drop ret)).dropLast := by
    rw [left, hdrop, texts, List.map_append, List.filter_append, ← texts, htext]
    rfl
  have hshort : Short (s.rest.drop ret) := fun l hl =>
    hs.short l (hskipped ▸ List.mem_append_right _ hl)
  -- In each case the lines up to this one are behind.
  have hbefore : ∀ s' : State, s'.rest = s.rest.drop ret → s'.line.length = sizeofLine →
      Before s s' := by
    intro s' hrest hline
    rw [Before, left, hrest, hleft, List.length_cons]
    exact ⟨⟨hrest ▸ hshort, hline⟩, Nat.lt_succ_self _⟩
  have hhead : (t ++ 0 :: tail).head? = t.head? := getElem_head ht
  have hcstr : cstr (t ++ 0 :: tail) = t := cstr_append hzero tail
  by_cases hbracket : t.head? = some bracket
  · refine .inr (.inl ⟨{ s with
      rest := s.rest.drop ret
      line := t ++ 0 :: tail
      sections := s.sections.enter t }, hbefore _ rfl hlen, ?_, ?_, ?_, rfl⟩)
    · rw [turn, hsome]
      simp only [hhead, hbracket, if_true, hcstr]
    · intro ret' line h hbracket'
      rw [hsome] at h
      obtain ⟨-, rfl⟩ := Prod.mk.inj (Option.some.inj h)
      exact absurd (hhead.trans hbracket) hbracket'
    · rw [leftEntries, hleft, entries, if_pos hbracket]
      rfl
  · refine .inr (.inr ⟨⟨s.sections.sec, s.index, t⟩,
      entries s.sections (nextIndex s.index t) (texts (lines (s.rest.drop ret)).dropLast),
      ?_, ?_, fun hindex => ?_⟩)
    · rw [leftEntries, hleft, entries, if_neg hbracket]
    · constructor
      · intro hwithin
        have hle := hwithin ret _ hsome (hhead ▸ hbracket)
        rwa [hcstr] at hle
      · intro hindex ret' line h _
        rw [hsome] at h
        obtain ⟨-, rfl⟩ := Prod.mk.inj (Option.some.inj h)
        rwa [hcstr]
    · obtain ⟨line, hline, heq⟩ := parseAssignment_eq kstrtoul
        { s with rest := s.rest.drop ret, line := t ++ 0 :: tail } rfl hlen hzero hindex
      refine ⟨{ s with
        rest := s.rest.drop ret
        line
        index := nextIndex s.index t
        ini := s.ini.set (Entry.recognized kstrtoul ⟨s.sections.sec, s.index, t⟩) },
        hbefore _ rfl hline, ?_, rfl, rfl⟩
      rw [turn, hsome]
      simp only [hhead, hbracket, if_false]
      exact heq

/-! ## Runs -/

/-- What is set by some lines, one after the other. -/
def Ini.setAll (ini : Ini) (sets : List (Option (Setting × ℤ))) : Ini := sets.foldl Ini.set ini

/-- If the search always begins within the line, what is recognized is set. -/
theorem returns_of_within (hs : Good s) (h : ∀ e ∈ leftEntries s, e.index ≤ e.text.length) :
    (∃ t, Loop.Returns (turn kstrtoul) s t
      (some (s.ini.setAll ((leftEntries s).map (Entry.recognized kstrtoul))))) ∧
      ∀ t, Loop.Reaches (turn kstrtoul) s t → Within t := by
  induction hn : (left s).length using Nat.strong_induction_on generalizing s with
  | _ n ih =>
    -- A turn that comes back leaves less of the file.
    have hnext : ∀ s', Before s s' → turn kstrtoul s = .inr s' → Within s →
        (∀ e ∈ leftEntries s', e.index ≤ e.text.length) →
        (∃ t, Loop.Returns (turn kstrtoul) s t
          (some (s'.ini.setAll ((leftEntries s').map (Entry.recognized kstrtoul))))) ∧
          ∀ t, Loop.Reaches (turn kstrtoul) s t → Within t := by
      intro s' hbefore hturn hwithin h
      obtain ⟨⟨t, hreturns⟩, hreaches⟩ := ih _ (hn ▸ hbefore.2) hbefore.1 h rfl
      refine ⟨⟨t, (Loop.returns_iff_of_next hturn).2 hreturns⟩, fun t ht => ?_⟩
      rcases (Loop.reaches_iff_of_next hturn).1 ht with rfl | ht
      · exact hwithin
      · exact hreaches t ht
    rcases turn_cases kstrtoul hs with ⟨hnil, hturn, hwithin⟩ |
      ⟨s', hbefore, hturn, hwithin, heq, hini⟩ | ⟨e, es, heq, hiff, hturn⟩
    · refine ⟨⟨s, Loop.reaches_refl, by rw [hturn, hnil]; rfl⟩, fun t ht => ?_⟩
      rwa [(Loop.reaches_iff_of_return hturn).1 ht]
    · rw [heq] at h
      rw [heq, ← hini]
      exact hnext s' hbefore hturn hwithin h
    · rw [heq, List.forall_mem_cons] at h
      obtain ⟨s', hbefore, hnextTurn, rfl, hini⟩ := hturn h.1
      have hrun := hnext s' hbefore hnextTurn (hiff.2 h.1) h.2
      rw [hini] at hrun
      rw [heq]
      exact hrun

/-- Where the search begins within every line that is read, it begins within every line. -/
theorem within_of_reaches (hs : Good s)
    (h : ∀ t, Loop.Reaches (turn kstrtoul) s t → Within t) :
    ∀ e ∈ leftEntries s, e.index ≤ e.text.length := by
  induction hn : (left s).length using Nat.strong_induction_on generalizing s with
  | _ n ih =>
    have hwithin := h s Loop.reaches_refl
    have hnext : ∀ s', Before s s' → turn kstrtoul s = .inr s' →
        ∀ e ∈ leftEntries s', e.index ≤ e.text.length := by
      intro s' hbefore hturn
      refine ih _ (hn ▸ hbefore.2) hbefore.1 (fun t ht => h t ?_) rfl
      exact (Loop.reaches_iff_of_next hturn).2 (.inr ht)
    rcases turn_cases kstrtoul hs with ⟨hnil, -, -⟩ |
      ⟨s', hbefore, hturn, -, heq, -⟩ | ⟨e, es, heq, hiff, hturn⟩
    · rw [hnil]
      exact fun e he => absurd he List.not_mem_nil
    · rw [heq]
      exact hnext s' hbefore hturn
    · obtain ⟨s', hbefore, hnextTurn, rfl, -⟩ := hturn (hiff.1 hwithin)
      rw [heq, List.forall_mem_cons]
      exact ⟨hiff.1 hwithin, hnext s' hbefore hnextTurn⟩

/-! ## What is set -/

/-- The last assignment of a setting counts. -/
theorem lastValue_append_singleton (setting : Setting) (sets : List (Option (Setting × ℤ)))
    (o : Option (Setting × ℤ)) :
    lastValue setting (sets ++ [o]) =
      if o.map Prod.fst = some setting then o.map Prod.snd else lastValue setting sets := by
  rw [lastValue, List.reduceOption_append, List.filter_append, lastValue]
  cases o with
  | none => simp
  | some set =>
    by_cases heq : set.1 = setting
    · simp [heq]
    · simp [heq]

/-- The settings are assigned one after the other. -/
theorem setAll_append_singleton (ini : Ini) (sets : List (Option (Setting × ℤ)))
    (o : Option (Setting × ℤ)) : ini.setAll (sets ++ [o]) = (ini.setAll sets).set o := by
  rw [Ini.setAll, List.foldl_append]
  rfl

/-- A setting has the last value that it gets. -/
theorem setAll_apply (ini : Ini) (sets : List (Option (Setting × ℤ))) (setting : Setting) :
    ini.setAll sets setting = (lastValue setting sets).getD (ini setting) := by
  induction sets using List.reverseRecOn with
  | nil => rfl
  | append_singleton sets o ih =>
    rw [setAll_append_singleton, lastValue_append_singleton]
    cases o with
    | none => exact ih
    | some set =>
      obtain ⟨setting', value⟩ := set
      by_cases heq : setting' = setting
      · subst heq
        simp [Ini.set]
      · have hne : setting ≠ setting' := fun h => heq h.symm
        simp [Ini.set, heq, hne, ih]

/-- Options that yield the same value for every default are equal. -/
theorem eq_of_getD {o o' : Option ℤ} (h : ∀ d, o.getD d = o'.getD d) : o = o' := by
  cases o with
  | none =>
    cases o' with
    | none => rfl
    | some v =>
      have hne := h (v + 1)
      simp at hne
  | some v =>
    cases o' with
    | none =>
      have hne := h (v + 1)
      simp at hne
    | some v' => exact congrArg some (h 0)

/-- Two lists of assignments do the same exactly if the last one of every setting is the same. -/
theorem setAll_eq_iff {sets sets' : List (Option (Setting × ℤ))} :
    (∀ ini : Ini, ini.setAll sets = ini.setAll sets') ↔
      ∀ setting, lastValue setting sets = lastValue setting sets' := by
  constructor
  · intro h setting
    refine eq_of_getD fun d => ?_
    have hini := congrFun (h fun _ => d) setting
    rwa [setAll_apply, setAll_apply] at hini
  · intro h ini
    funext setting
    rw [setAll_apply, setAll_apply, h]

/-- The reference sets what the lines set. -/
theorem foldl_referenceLine (sections : Sections) (index : ℕ) (ini : Ini)
    (ts : List (List UInt8)) :
    (ts.foldl (referenceLine kstrtoul) (sections, ini)).2 =
      ini.setAll ((entries sections index ts).map (Entry.sets kstrtoul)) := by
  induction ts generalizing sections index ini with
  | nil => rfl
  | cons t ts ih =>
    rw [List.foldl_cons, referenceLine, entries]
    by_cases hbracket : t.head? = some bracket
    · rw [if_pos hbracket, if_pos hbracket, ih]
    · rw [if_neg hbracket, if_neg hbracket]
      exact ih sections (nextIndex index t) _

/-- The reference assigns what the lines of the file say. -/
theorem reference_eq (file : List UInt8) (ini : Ini) :
    reference kstrtoul file ini =
      ini.setAll ((entriesOf (lines file)).map (Entry.sets kstrtoul)) :=
  foldl_referenceLine _ _ _ _

variable {file line : List UInt8}

/-- The buffer is good in the beginning. -/
theorem good_start (hshort : Short file) (hline : line.length = sizeofLine) (ini : Ini) :
    Good (start file line ini) := ⟨hshort, hline⟩

/-- If what was in the buffer does not matter, every line is recognized. -/
theorem recognizes_of_independent (hshort : Short file) (h : Independent kstrtoul file) :
    Recognizes kstrtoul file := by
  have hline : (List.replicate sizeofLine (0 : UInt8)).length = sizeofLine :=
    List.length_replicate
  have hwithin := within_of_reaches (good_start hshort hline fun _ => 0) (h _ _ hline).2
  refine ⟨hwithin, setAll_eq_iff.1 fun ini => ?_⟩
  obtain ⟨⟨t, hreturns⟩, -⟩ := h _ ini hline
  obtain ⟨⟨t', hreturns'⟩, -⟩ := returns_of_within (good_start hshort hline ini) hwithin
  obtain rfl := hreturns.unique hreturns'
  have heq := Option.some.inj (Sum.inl.inj (hreturns.2.symm.trans hreturns'.2))
  rw [← reference_eq, heq]
  rfl

theorem independent_of_recognizes (hshort : Short file) (h : Recognizes kstrtoul file) :
    Independent kstrtoul file := by
  intro line ini hline
  rw [reference_eq, setAll_eq_iff.2 h.2]
  exact returns_of_within (good_start hshort hline ini) h.1

/-- The lines of a file are interpreted independently exactly if the search begins within each
    complete line, and for each setting, the last value that the file gives it is that of the last
    line that is complete, and whose first `=` is not in front of where the search begins. -/
theorem independent_iff (kstrtoul : List UInt8 → Option ℕ) (file : List UInt8)
    (hshort : Short file) : Independent kstrtoul file ↔ Recognizes kstrtoul file :=
  ⟨recognizes_of_independent hshort, independent_of_recognizes hshort⟩

/-- A number of one digit. -/
def digit : List UInt8 → Option ℕ
  | [c] => if 48 ≤ c ∧ c ≤ 57 then some (c.toNat - 48) else none
  | _ => none

/-- The lines `[DEBUG]` and `log_level=3`. -/
def debugFile : List UInt8 := debugName ++ [10] ++ logLevelKey ++ [equals, 51, 10]

/-- The file that the driver comes with. -/
theorem independent_debugFile : Independent digit debugFile := by
  refine (independent_iff digit debugFile (by decide)).2 ⟨by decide, fun setting => ?_⟩
  cases setting <;> decide

/-- The lines `[SOFTAP]` and `channel=6` follow. -/
def bothFile : List UInt8 := debugFile ++ softapName ++ [10] ++ channelKey ++ [equals, 54, 10]

/-- A file of one line that is not recognized, so that the buffer still has what was there before.
    -/
theorem not_independent : ¬∀ kstrtoul file, Short file → Independent kstrtoul file := by
  intro h
  have hrecognizes := recognizes_of_independent (by decide) (h digit bothFile (by decide))
  exact absurd hrecognizes.1 (by decide)

end W132d.DbgIni
