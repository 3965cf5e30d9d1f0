import Mathlib.Data.List.TakeWhile
import W132d.Checks
import W132d.Nvm.Table

/-!
# Reading the radio configuration

The configuration file is read line by line (`wifi_nvm_buf_operate` in `rf_marlin3.c`). The first
word of a line that has a letter is the key, and every other word is a number, which
`get_cmd_par` takes whether it is one or not. Neither the words nor how many there are is compared
with the arrays that they are put into.

* `kstrtol`, `getCmdPar`, `wifiNvmBufOperate`: the functions, which stop at an access outside of an
  array;
* `words`, `item`, `params`: what a line has;
* `lineCmd_eq_ok`: what the function takes from a line, and when it has room;
* `linesOf`, `wifiNvmBufOperate_eq_ok`: the lines of a file that are read, and what from them;
* `wifiNvmBufOperate_ne_outside`: the file is not read beyond its end.

The scan of a line is a loop over its characters, with several variables. It is first shown to take
words, one after the other, where a word is a run of characters of certain kinds
(`getCmdParLoop_eq`): so a line is its list of words. Of these, the first one with a letter becomes
the key (`takeWord_item`), and all the others are values (`takeWord_param`). A word that is no
number is stored with the value of the one before it, which is why `junk` is there, the value in
front of all.

The loop over the file looks for the ends of lines, and scans each line of five bytes or more from
where it begins; the scan ends at a comment, too. A last line that does not end is not taken.
-/

namespace W132d.Nvm

/-! ## Numbers -/

/-- The value of a digit, up to base 16. -/
def digitOf (c : UInt8) : Option ℕ :=
  if 48 ≤ c ∧ c ≤ 57 then some (c.toNat - 48)
  else if 97 ≤ c ∧ c ≤ 102 then some (c.toNat - 87)
  else if 65 ≤ c ∧ c ≤ 70 then some (c.toNat - 55)
  else none

/-- A digit of a base. -/
def isDigit (base : ℕ) (c : UInt8) : Bool := (digitOf c).any (· < base)

/-- The number that some digits are. -/
def ofDigits (base : ℕ) (ds : List UInt8) : ℕ :=
  ds.foldl (fun n c => n * base + (digitOf c).getD 0) 0

/-- `_parse_integer_fixup_radix`: the base of a number, and its digits. -/
def fixupRadix (s : List UInt8) : ℕ × List UInt8 :=
  match s with
  | 48 :: x :: c :: s =>
    if (x = 120 ∨ x = 88) ∧ isDigit 16 c then (16, c :: s) else (8, 48 :: x :: c :: s)
  | 48 :: s => (8, 48 :: s)
  | s => (10, s)

/-- `_kstrtoull`: a newline may be at the end. -/
def kstrtoull (s : List UInt8) : Option ℕ :=
  let (base, s) := fixupRadix s
  let ds := s.takeWhile (isDigit base)
  let rest := s.drop ds.length
  if ds = [] ∨ ¬(rest = [] ∨ rest = [10]) ∨ 2 ^ 64 ≤ ofDigits base ds then none
  else some (ofDigits base ds)

/-- `kstrtol` with base 0, where a `long` has 64 bits. -/
def kstrtol (s : List UInt8) : Option ℤ :=
  match s with
  | 45 :: s => do
    let n ← kstrtoull s
    if n ≤ 2 ^ 63 then some (-(n : ℤ)) else none
  | s => do
    let n ← kstrtoull (match s with | 43 :: s => s | s => s)
    if n < 2 ^ 63 then some (n : ℤ) else none

/-! ## The functions -/

/-- `find_type`. -/
def findType (key : UInt8) : ℕ :=
  if 97 ≤ key ∧ key ≤ 119 ∨ 121 ≤ key ∧ key ≤ 122 ∨ 65 ≤ key ∧ key ≤ 87 ∨ 89 ≤ key ∧ key ≤ 90 ∨
      key = 95 then 1
  else if 48 ≤ key ∧ key ≤ 57 ∨ key = 45 then 2
  else if key = 120 ∨ key = 88 ∨ key = 46 then 3
  else if key = 0 ∨ key = 13 ∨ key = 10 ∨ key = 35 then 4
  else 0

/-- The size of `tmp`. -/
def tmpSize : ℕ := 128

/-- The size of `itm`. -/
def itmSize : ℕ := 64

/-- The size of `par`. -/
def parSize : ℕ := 512

/-- An access outside of the file or an array. -/
inductive Stop
  | outside
  | tmp
  | itm
  | par
  deriving DecidableEq

/-- A value, with the word that it was stored for. -/
structure Param where
  word : List UInt8
  value : ℕ
  deriving DecidableEq

/-- `struct nvm_cali_cmd`. -/
structure Cmd where
  itm : List UInt8
  par : List Param
  deriving DecidableEq

/-- The variables of `get_cmd_par`. -/
structure Scan where
  tmp : List UInt8
  bufType : ℤ
  flag : Bool
  val : ℤ
  cmd : Cmd

/-- `bufType`, behind a character. -/
def bufStep (bufType : ℤ) (c : UInt8) : ℤ :=
  if bufType = -1 then if findType c = 2 then 2 else 1
  else if bufType = 2 ∧ findType c = 1 then 1
  else bufType

/-- A character of a word. -/
def putChar (s : Scan) (c : UInt8) : Except Stop Scan :=
  if tmpSize ≤ s.tmp.length then .error .tmp
  else .ok { s with tmp := s.tmp ++ [c], bufType := bufStep s.bufType c }

/-- A word in `tmp` is complete. A value that is no number is the last one that was. -/
def endWord (s : Scan) : Except Stop Scan :=
  if tmpSize ≤ s.tmp.length then .error .tmp
  else if s.bufType = 1 ∧ s.flag = false then
    if itmSize ≤ s.tmp.length then .error .itm
    else .ok { s with tmp := [], bufType := -1, flag := true, cmd := { s.cmd with itm := s.tmp } }
  else if parSize ≤ s.cmd.par.length then .error .par
  else
    let val := (kstrtol s.tmp).getD s.val
    let par := s.cmd.par ++ [⟨s.tmp, (val % 2 ^ 32).toNat⟩]
    .ok { s with tmp := [], bufType := -1, val, cmd := { s.cmd with par } }

/-- The loop of `get_cmd_par`. -/
def getCmdParLoop : List UInt8 → Scan → Except Stop Cmd
  | [], _ => .error .outside
  | c :: str, s =>
    if findType c = 1 ∨ findType c = 2 ∨ findType c = 3 then do
      let s ← putChar s c
      getCmdParLoop str s
    else do
      let s ← if s.bufType ≠ -1 then endWord s else .ok s
      if findType c = 0 then getCmdParLoop str s else return s.cmd

/-- `get_cmd_par`. What `val` has at first is not known. -/
def getCmdPar (str : List UInt8) (junk : ℤ) : Except Stop Cmd :=
  getCmdParLoop str ⟨[], -1, false, junk, ⟨[], []⟩⟩

/-- `cf_table_match`. -/
def cfTableMatch (cmd : Cmd) : Option NvmName := gConfigTable.find? fun e => e.itm = cmd.itm

/-- Bytes that are written to the record. -/
structure Write where
  pos : ℕ
  bytes : List UInt8

/-- `wifi_nvm_set_cmd`, where an element is cast to its type. -/
def wifiNvmSetCmd (e : NvmName) (cmd : Cmd) : List Write :=
  if e.type ≠ 1 ∧ e.type ≠ 2 ∧ e.type ≠ 4 then []
  else cmd.par.mapIdx fun i p => ⟨e.memOffset + i * e.type, Layout.leBytes e.type p.value⟩

/-- `"rf_config"`. -/
def rfConfig : List UInt8 := bytesOf "rf_config"

/-- What is written for a line, if its key is in the table. -/
def lineWrites (cmd : Cmd) : List Write :=
  match cfTableMatch cmd with
  | none => []
  | some e =>
    wifiNvmSetCmd e cmd ++
      if e.itm = rfConfig then
        [⟨Member.rfDataLen.offset, Layout.leBytes 4 cmd.par.length⟩]
      else []

/-- `'\n'`, `'\r'` and `'\0'`. -/
def isEnd (c : UInt8) : Bool := c = 10 || c = 13 || c = 0

/-- The loop of `wifi_nvm_buf_operate`, from `i` on, with what it takes from each line. -/
def operateLoop (buf : List UInt8) (junk : ℕ → ℤ) : List UInt8 → ℕ → ℕ → Except Stop (List Cmd)
  | [], _, _ => return []
  | c :: rest, i, p =>
    if isEnd c then
      if 5 ≤ i - p then do
        let cmd ← getCmdPar (buf.drop p) (junk p)
        let cmds ← operateLoop buf junk rest (i + 1) (i + 1)
        return cmd :: cmds
      else operateLoop buf junk rest (i + 1) (i + 1)
    else operateLoop buf junk rest (i + 1) p

/-- The record, after bytes were written. -/
def store (conf : ℕ → UInt8) (ws : List Write) : ℕ → UInt8 :=
  ws.foldl (fun conf w => Peek.put conf w.pos w.bytes) conf

/-- `wifi_nvm_buf_operate`: what it takes from the lines, and the record. -/
def wifiNvmBufOperate (buf : List UInt8) (junk : ℕ → ℤ) (conf : ℕ → UInt8) :
    Except Stop (List Cmd × (ℕ → UInt8)) := do
  let cmds ← operateLoop buf junk buf 0 0
  return (cmds, store conf (cmds.flatMap lineWrites))

/-! ## Words -/

/-- A character of a word. -/
def isWord (c : UInt8) : Bool := findType c = 1 || findType c = 2 || findType c = 3

/-- The words of a text, where one has begun. -/
def wordsFrom : List UInt8 → List UInt8 → List (List UInt8)
  | tmp, [] => if tmp = [] then [] else [tmp]
  | tmp, c :: text =>
    if isWord c then wordsFrom (tmp ++ [c]) text
    else if tmp = [] then wordsFrom [] text else tmp :: wordsFrom [] text

/-- The words of a text. -/
def words (text : List UInt8) : List (List UInt8) := wordsFrom [] text

/-- The part of a line in front of a comment. -/
def uncommented (line : List UInt8) : List UInt8 := line.takeWhile fun c => findType c ≠ 4

/-- `bufType`, behind a word. -/
def bufTypeOf (word : List UInt8) : ℤ := word.foldl bufStep (-1)

/-- A word that may be a key. -/
def isItem (word : List UInt8) : Bool := bufTypeOf word = 1

/-- The key of a line. -/
def item (ws : List (List UInt8)) : List UInt8 := (ws.find? isItem).getD []

/-- The other words. -/
def params (ws : List (List UInt8)) : List (List UInt8) := ws.eraseP isItem

/-- The values that are stored for words, one after the other. -/
def values : ℤ → List (List UInt8) → List Param
  | _, [] => []
  | val, word :: ws =>
    let val := (kstrtol word).getD val
    ⟨word, (val % 2 ^ 32).toNat⟩ :: values val ws

/-- The words of a line have room in the arrays. -/
structure Fits (ws : List (List UInt8)) : Prop where
  tmp : ∀ word ∈ ws, word.length < tmpSize
  itm : (item ws).length < itmSize
  par : (params ws).length ≤ parSize

/-! ## A line -/

/-- A word, put into `tmp` and taken from there. -/
def takeWord (s : Scan) (word : List UInt8) : Except Stop Scan :=
  if tmpSize ≤ word.length then .error .tmp
  else endWord { s with tmp := word, bufType := bufTypeOf word }

variable {s s' : Scan} {word tmp text line rest : List UInt8} {ws : List (List UInt8)} {c : UInt8}
  {junk : ℤ}

/-- No word has no type. -/
@[simp] theorem bufTypeOf_nil : bufTypeOf [] = -1 := rfl

/-- The type of a word is found one character after the other. -/
theorem bufTypeOf_append : bufTypeOf (word ++ [c]) = bufStep (bufTypeOf word) c := by
  rw [bufTypeOf, List.foldl_append]
  rfl

theorem bufStep_ne (b : ℤ) (c : UInt8) : bufStep b c ≠ -1 := by
  rw [bufStep]
  split_ifs with hb
  · decide
  · decide
  · decide
  · exact hb

theorem bufTypeOf_ne (h : word ≠ []) : bufTypeOf word ≠ -1 := by
  rw [← List.dropLast_append_getLast h, bufTypeOf_append]
  exact bufStep_ne _ _

/-- A text goes on with the word that has begun. -/
theorem wordsFrom_of_ne (h : tmp ≠ []) (text : List UInt8) :
    ∃ word ws, wordsFrom tmp text = (tmp ++ word) :: ws := by
  induction text generalizing tmp with
  | nil => exact ⟨[], [], by rw [wordsFrom, if_neg h, List.append_nil]⟩
  | cons c text ih =>
    rw [wordsFrom]
    split
    · obtain ⟨word, ws, hws⟩ := ih (List.append_ne_nil_of_left_ne_nil h [c])
      exact ⟨c :: word, ws, by rw [hws, List.append_assoc, List.singleton_append]⟩
    · exact ⟨[], wordsFrom [] text, by rw [List.append_nil]⟩

/-- A character of a word has one of three types. -/
theorem isWord_iff : isWord c ↔ findType c = 1 ∨ findType c = 2 ∨ findType c = 3 := by
  simp only [isWord, Bool.or_eq_true, decide_eq_true_eq, or_assoc]

/-- A character that is neither in a word nor an end is between words. -/
theorem findType_of_not (hword : ¬isWord c) (hc : findType c ≠ 4) : findType c = 0 := by
  have h := isWord_iff.not.1 hword
  have hle : findType c ≤ 4 := by
    rw [findType]
    split_ifs <;> decide
  omega

/-- No word has begun. -/
def Scan.idle (s : Scan) : Scan := { s with tmp := [], bufType := -1 }

/-- `tmp` has no room for a word, or it is taken from there. -/
theorem takeWord_eq (hs : s.bufType = bufTypeOf s.tmp) : takeWord s.idle s.tmp = endWord s := by
  rw [takeWord, ← hs]
  split
  · rw [endWord, if_pos ‹_›]
  · rfl

/-- After a word, the scan waits for the next one. -/
theorem endWord_idle (h : endWord s = .ok s') : s'.idle = s' := by
  rw [endWord] at h
  split_ifs at h
  · cases h
    rfl
  · cases h
    rfl

theorem takeWord_idle (h : takeWord s word = .ok s') : s'.idle = s' := by
  rw [takeWord] at h
  split_ifs at h
  exact endWord_idle h

/-- The word in front of a character that is none of a word. -/
theorem getCmdParLoop_cons (hc : ¬isWord c) (hs : s.bufType = bufTypeOf s.tmp) :
    getCmdParLoop (c :: rest) s =
      (if s.tmp = [] then .ok s.idle else takeWord s.idle s.tmp) >>= fun s =>
        if findType c = 0 then getCmdParLoop rest s else .ok s.cmd := by
  rw [getCmdParLoop, if_neg (isWord_iff.not.1 hc), takeWord_eq hs]
  by_cases htmp : s.tmp = []
  · have hidle : s.idle = s := by
      rw [Scan.idle, ← htmp, ← bufTypeOf_nil, ← htmp, ← hs]
    rw [if_pos htmp, hidle, hs, htmp]
    rfl
  · rw [if_neg htmp, if_pos (by rw [hs]; exact bufTypeOf_ne htmp)]
    rfl

/-- `get_cmd_par` takes word by word, up to the end of the line. -/
theorem getCmdParLoop_eq (htext : ∀ c ∈ text, findType c ≠ 4) (hc : findType c = 4)
    (hs : s.bufType = bufTypeOf s.tmp) :
    getCmdParLoop (text ++ c :: rest) s =
      Scan.cmd <$> (wordsFrom s.tmp text).foldlM takeWord s.idle := by
  -- The word so far is in `tmp`, whose type has been kept up to date.
  induction text generalizing s with
  | nil =>
    have hword : ¬isWord c := by
      rw [isWord_iff]
      omega
    rw [List.nil_append, getCmdParLoop_cons hword hs, wordsFrom]
    by_cases htmp : s.tmp = []
    · rw [if_pos htmp, if_pos htmp]
      show (if findType c = 0 then _ else _) = _
      rw [if_neg (by omega)]
      rfl
    · rw [if_neg htmp, if_neg htmp, List.foldlM_cons]
      cases takeWord s.idle s.tmp with
      | error stop => rfl
      | ok s' =>
        show (if findType c = 0 then _ else _) = _
        rw [if_neg (by omega)]
        rfl
  | cons d text ih =>
    have hd := htext d List.mem_cons_self
    have htext' : ∀ c ∈ text, findType c ≠ 4 := fun c h => htext c (List.mem_cons_of_mem _ h)
    by_cases hword : isWord d
    · rw [List.cons_append, getCmdParLoop, wordsFrom, if_pos (isWord_iff.1 hword), if_pos hword,
        putChar]
      by_cases hlen : tmpSize ≤ s.tmp.length
      · -- There is no room for the character, so that there is none for its word.
        obtain ⟨word, ws, hws⟩ := wordsFrom_of_ne
          (List.append_ne_nil_of_right_ne_nil s.tmp (List.cons_ne_nil d [])) text
        rw [if_pos hlen, hws, List.foldlM_cons, takeWord, if_pos]
        · rfl
        · rw [List.length_append, List.length_append]
          omega
      · rw [if_neg hlen]
        exact ih htext' (by rw [hs, bufTypeOf_append])
    · rw [List.cons_append, getCmdParLoop_cons hword hs, wordsFrom, if_neg hword]
      by_cases htmp : s.tmp = []
      · rw [if_pos htmp, if_pos htmp]
        show (if findType d = 0 then _ else _) = _
        rw [if_pos (findType_of_not hword hd)]
        exact ih htext' rfl
      · rw [if_neg htmp, if_neg htmp, List.foldlM_cons]
        cases h : takeWord s.idle s.tmp with
        | error stop => rfl
        | ok s' =>
          show (if findType d = 0 then _ else _) = _
          have hidle := takeWord_idle h
          have htmp' : s'.tmp = [] := by rw [← hidle]; rfl
          have hs' : s'.bufType = bufTypeOf s'.tmp := by rw [htmp', ← hidle]; rfl
          rw [if_pos (findType_of_not hword hd), ih htext' hs', htmp', hidle]
          rfl

/-- A word becomes the key. -/
def Scan.setItm (s : Scan) (word : List UInt8) : Scan :=
  { s.idle with flag := true, cmd := { s.cmd with itm := word } }

/-- A word is taken for a number. -/
def Scan.addPar (s : Scan) (word : List UInt8) : Scan :=
  let val := (kstrtol word).getD s.val
  { s.idle with val, cmd := { s.cmd with par := s.cmd.par ++ [⟨word, (val % 2 ^ 32).toNat⟩] } }

/-- The first word that can be an item is taken for it. -/
theorem takeWord_item (hs : s.flag = false) (hword : isItem word) :
    takeWord s word = .ok s' ↔
      word.length < tmpSize ∧ word.length < itmSize ∧ s.setItm word = s' := by
  have hb : bufTypeOf word = 1 := of_decide_eq_true hword
  rw [takeWord, endWord, if_pos (And.intro hb hs)]
  split_ifs with htmp hitm
  · exact iff_of_false (by simp) fun h => absurd h.1 (Nat.not_lt.2 htmp)
  · exact iff_of_false (by simp) fun h => absurd h.2.1 (Nat.not_lt.2 hitm)
  · rw [Except.ok.injEq]
    exact ⟨fun h => ⟨Nat.not_le.1 htmp, Nat.not_le.1 hitm, h⟩, fun h => h.2.2⟩

theorem takeWord_param (hword : s.flag = false → ¬isItem word) :
    takeWord s word = .ok s' ↔
      word.length < tmpSize ∧ s.cmd.par.length < parSize ∧ s.addPar word = s' := by
  have hb : ¬(bufTypeOf word = 1 ∧ s.flag = false) := fun h => hword h.2 (decide_eq_true h.1)
  rw [takeWord, endWord, if_neg hb]
  split_ifs with htmp hpar
  · exact iff_of_false (by simp) fun h => absurd h.1 (Nat.not_lt.2 htmp)
  · exact iff_of_false (by simp) fun h => absurd h.2.1 (Nat.not_lt.2 hpar)
  · rw [Except.ok.injEq]
    exact ⟨fun h => ⟨Nat.not_le.1 htmp, Nat.not_le.1 hpar, h⟩, fun h => h.2.2⟩

/-- The words are taken one after the other. -/
theorem foldlM_cons_eq_ok {cmd : Cmd} :
    Scan.cmd <$> (word :: ws).foldlM takeWord s = .ok cmd ↔
      ∃ s', takeWord s word = .ok s' ∧ Scan.cmd <$> ws.foldlM takeWord s' = .ok cmd := by
  rw [List.foldlM_cons]
  cases takeWord s word with
  | error stop =>
    constructor
    · rintro h
      cases h
    · rintro ⟨_, h, _⟩
      cases h
  | ok s' =>
    constructor
    · exact fun h => ⟨s', rfl, h⟩
    · rintro ⟨_, h, h'⟩
      cases h
      exact h'

/-- A value that is added is one more. -/
theorem length_addPar (s : Scan) (word : List UInt8) :
    (s.addPar word).cmd.par.length = s.cmd.par.length + 1 := by
  rw [Scan.addPar, List.length_append, List.length_singleton]

theorem addPar_append_values (s : Scan) (word : List UInt8) (ws : List (List UInt8)) :
    (s.addPar word).cmd.par ++ values (s.addPar word).val ws =
      s.cmd.par ++ values s.val (word :: ws) := by
  rw [Scan.addPar, List.append_assoc, List.singleton_append, values]

/-- Behind the key, every word is taken for a number. -/
theorem foldlM_takeWord_of_flag (hs : s.flag) (hpar : s.cmd.par.length ≤ parSize)
    (ws : List (List UInt8)) (cmd : Cmd) :
    Scan.cmd <$> ws.foldlM takeWord s = .ok cmd ↔
      (∀ word ∈ ws, word.length < tmpSize) ∧ s.cmd.par.length + ws.length ≤ parSize ∧
        cmd = ⟨s.cmd.itm, s.cmd.par ++ values s.val ws⟩ := by
  induction ws generalizing s with
  | nil =>
    rw [values, List.append_nil]
    constructor
    · intro h
      cases h
      exact ⟨List.forall_mem_nil _, hpar, rfl⟩
    · rintro ⟨_, _, rfl⟩
      rfl
  | cons word ws ih =>
    -- The flag is set, so that a letter makes no difference.
    have hflag : s.flag = false → ¬isItem word := fun h => absurd (h.symm.trans hs) (by decide)
    have ih := ih (s := s.addPar word) hs
    rw [length_addPar, addPar_append_values] at ih
    rw [foldlM_cons_eq_ok, List.forall_mem_cons, List.length_cons]
    simp only [takeWord_param hflag]
    constructor
    · rintro ⟨s', ⟨hlen, hlt, rfl⟩, h⟩
      obtain ⟨hws, hle, hcmd⟩ := (ih hlt).1 h
      exact ⟨⟨hlen, hws⟩, by omega, hcmd⟩
    · rintro ⟨⟨hlen, hws⟩, hle, hcmd⟩
      exact ⟨_, ⟨hlen, by omega, rfl⟩, (ih (by omega)).2 ⟨hws, by omega, hcmd⟩⟩

/-- The first word that has a letter is taken for the key. -/
theorem foldlM_takeWord (hs : s.flag = false) (hitm : s.cmd.itm = [])
    (hpar : s.cmd.par.length ≤ parSize) (ws : List (List UInt8)) (cmd : Cmd) :
    Scan.cmd <$> ws.foldlM takeWord s = .ok cmd ↔
      (∀ word ∈ ws, word.length < tmpSize) ∧ (item ws).length < itmSize ∧
        s.cmd.par.length + (params ws).length ≤ parSize ∧
        cmd = ⟨item ws, s.cmd.par ++ values s.val (params ws)⟩ := by
  induction ws generalizing s with
  | nil =>
    have hitem : item [] = [] := rfl
    rw [params, List.eraseP_nil, values, List.append_nil]
    constructor
    · intro h
      cases h
      exact ⟨List.forall_mem_nil _, by decide, hpar, by rw [hitem, ← hitm]⟩
    · rintro ⟨_, _, _, rfl⟩
      rw [hitem, ← hitm]
      rfl
  | cons word ws ih =>
    rw [foldlM_cons_eq_ok, List.forall_mem_cons]
    -- The key is read once; what comes behind it sets the flag.
    by_cases hword : isItem word
    · have hitem : item (word :: ws) = word := by rw [item, List.find?_cons_of_pos hword]; rfl
      have hparams : params (word :: ws) = ws := List.eraseP_cons_of_pos hword
      have hset := foldlM_takeWord_of_flag (s := s.setItm word) rfl hpar ws cmd
      rw [hitem, hparams]
      simp only [takeWord_item hs hword]
      constructor
      · rintro ⟨s', ⟨hlen, hlt, rfl⟩, h⟩
        obtain ⟨hws, hle, hcmd⟩ := hset.1 h
        exact ⟨⟨hlen, hws⟩, hlt, hle, hcmd⟩
      · rintro ⟨⟨hlen, hws⟩, hlt, hle, hcmd⟩
        exact ⟨_, ⟨hlen, hlt, rfl⟩, hset.2 ⟨hws, hle, hcmd⟩⟩
    · have hitem : item (word :: ws) = item ws := by
        rw [item, List.find?_cons_of_neg hword, item]
      have hparams : params (word :: ws) = word :: params ws := List.eraseP_cons_of_neg hword
      have ih := ih (s := s.addPar word) hs hitm
      rw [length_addPar, addPar_append_values] at ih
      rw [hitem, hparams, List.length_cons]
      simp only [takeWord_param fun _ => hword]
      constructor
      · rintro ⟨s', ⟨hlen, hlt, rfl⟩, h⟩
        obtain ⟨hws, hkey, hle, hcmd⟩ := (ih hlt).1 h
        exact ⟨⟨hlen, hws⟩, hkey, by omega, hcmd⟩
      · rintro ⟨⟨hlen, hws⟩, hkey, hle, hcmd⟩
        exact ⟨_, ⟨hlen, by omega, rfl⟩, (ih (by omega)).2 ⟨hws, hkey, by omega, hcmd⟩⟩

/-- The end of a line is one to the scan, too. -/
theorem findType_of_isEnd (h : isEnd c) : findType c = 4 := by
  simp only [isEnd, Bool.or_eq_true, decide_eq_true_eq] at h
  obtain (rfl | rfl) | rfl := h <;> rfl

/-- A line ends at a comment, or else behind its last character. -/
theorem exists_end (hc : findType c = 4) (line rest : List UInt8) :
    ∃ d rest', findType d = 4 ∧ line ++ c :: rest = uncommented line ++ d :: rest' := by
  have hline := List.takeWhile_append_dropWhile (p := fun c => findType c ≠ 4) (l := line)
  rw [uncommented]
  cases h : line.dropWhile fun c => findType c ≠ 4 with
  | nil =>
    rw [h, List.append_nil] at hline
    exact ⟨c, rest, hc, by rw [hline]⟩
  | cons d rest' =>
    have hd := List.head?_dropWhile_not (fun c => decide (findType c ≠ 4)) line
    rw [h] at hd
    refine ⟨d, rest' ++ c :: rest, by simpa using hd, ?_⟩
    rw [h] at hline
    conv_lhs => rw [← hline]
    rw [List.append_assoc, List.cons_append]

/-- What is taken from a line, word by word. -/
def lineCmd (junk : ℤ) (line : List UInt8) : Except Stop Cmd :=
  Scan.cmd <$> (words (uncommented line)).foldlM takeWord ⟨[], -1, false, junk, ⟨[], []⟩⟩

/-- The scan of a file comes to the command of its first line. -/
theorem getCmdPar_eq (hc : isEnd c) : getCmdPar (line ++ c :: rest) junk = lineCmd junk line := by
  obtain ⟨d, rest', hd, heq⟩ := exists_end (findType_of_isEnd hc) line rest
  have htext : ∀ c ∈ uncommented line, findType c ≠ 4 := fun c h =>
    of_decide_eq_true (List.mem_takeWhile_imp (p := fun c => decide (findType c ≠ 4)) h)
  rw [heq, getCmdPar]
  exact getCmdParLoop_eq htext hd rfl

/-- The words of a line have room, and its values are those of its words. -/
theorem lineCmd_eq_ok {cmd : Cmd} :
    lineCmd junk line = .ok cmd ↔ Fits (words (uncommented line)) ∧
      cmd = ⟨item (words (uncommented line)), values junk (params (words (uncommented line)))⟩ := by
  have hfold := foldlM_takeWord (s := ⟨[], -1, false, junk, ⟨[], []⟩⟩) rfl rfl (Nat.zero_le _)
    (words (uncommented line)) cmd
  rw [List.length_nil, Nat.zero_add, List.nil_append] at hfold
  refine hfold.trans ?_
  constructor
  · rintro ⟨htmp, hitm, hpar, hcmd⟩
    exact ⟨⟨htmp, hitm, hpar⟩, hcmd⟩
  · rintro ⟨⟨htmp, hitm, hpar⟩, hcmd⟩
    exact ⟨htmp, hitm, hpar, hcmd⟩

/-- The scan writes no word behind its buffer. -/
theorem takeWord_ne_outside : takeWord s word ≠ .error .outside := by
  rw [takeWord, endWord]
  split_ifs <;> simp

/-- A line is not read beyond its end. -/
theorem lineCmd_ne_outside : lineCmd junk line ≠ .error .outside := by
  rw [lineCmd]
  generalize (⟨[], -1, false, junk, ⟨[], []⟩⟩ : Scan) = s
  induction words (uncommented line) generalizing s with
  | nil => simp [pure, Except.pure]
  | cons word ws ih =>
    rw [List.foldlM_cons]
    cases h : takeWord s word with
    | error stop =>
      intro heq
      cases heq
      exact takeWord_ne_outside h
    | ok s' => exact ih s'

/-! ## The lines of a file -/

/-- The lines that end, each with its position, where a part of one was read. -/
def linesFrom : ℕ → List UInt8 → List UInt8 → List (ℕ × List UInt8)
  | _, _, [] => []
  | p, line, c :: rest =>
    if isEnd c then (p, line) :: linesFrom (p + line.length + 1) [] rest
    else linesFrom p (line ++ [c]) rest

/-- The lines that are read. -/
def linesOf (buf : List UInt8) : List (ℕ × List UInt8) :=
  (linesFrom 0 [] buf).filter fun l => 5 ≤ l.2.length

/-- What is taken from a line, if its words have room. -/
def cmdOf (junk : ℕ → ℤ) (l : ℕ × List UInt8) : Cmd :=
  ⟨item (words (uncommented l.2)), values (junk l.1) (params (words (uncommented l.2)))⟩

variable {buf pre : List UInt8} {junks : ℕ → ℤ} {p : ℕ} {cmds : List Cmd}

/-- The loop takes line by line. -/
theorem operateLoop_eq (line : List UInt8) (hp : pre.length = p) :
    operateLoop (pre ++ (line ++ rest)) junks rest (p + line.length) p =
      ((linesFrom p line rest).filter fun l => 5 ≤ l.2.length).mapM fun l =>
        lineCmd (junks l.1) l.2 := by
  induction rest generalizing pre line p with
  | nil =>
    rw [operateLoop, linesFrom, List.filter_nil, List.mapM_nil]
  | cons c rest ih =>
    rw [operateLoop, linesFrom]
    by_cases hc : isEnd c
    · -- The line ends here, and the next one begins behind it.
      have hpre : (pre ++ (line ++ [c])).length = p + line.length + 1 := by
        rw [List.length_append, List.length_append, List.length_singleton, hp, Nat.add_assoc]
      have hbuf : pre ++ (line ++ c :: rest) = pre ++ (line ++ [c]) ++ ([] ++ rest) := by simp
      have hrest := ih [] hpre
      rw [List.length_nil, Nat.add_zero, ← hbuf] at hrest
      rw [if_pos hc, if_pos hc, Nat.add_sub_cancel_left, hrest]
      by_cases hlen : 5 ≤ line.length
      · have hdrop : (pre ++ (line ++ c :: rest)).drop p = line ++ c :: rest :=
          List.drop_left' hp
        rw [if_pos hlen, List.filter_cons_of_pos (by simpa using hlen), hdrop, getCmdPar_eq hc,
          List.mapM_cons]
      · rw [if_neg hlen, List.filter_cons_of_neg (by simpa using hlen)]
    · -- The line goes on.
      have hbuf : line ++ c :: rest = line ++ [c] ++ rest := by simp
      have hlen : p + line.length + 1 = p + (line ++ [c]).length := by
        rw [List.length_append, List.length_singleton, Nat.add_assoc]
      rw [if_neg hc, if_neg hc, hbuf, hlen]
      exact ih (line ++ [c]) hp

/-- The lines of a file are read one after the other. -/
theorem operateLoop_linesOf (buf : List UInt8) :
    operateLoop buf junks buf 0 0 = (linesOf buf).mapM fun l => lineCmd (junks l.1) l.2 :=
  operateLoop_eq [] List.length_nil

/-- The lines have commands exactly if their words fit. -/
theorem mapM_lineCmd {ls : List (ℕ × List UInt8)} :
    (ls.mapM fun l => lineCmd (junks l.1) l.2) = .ok cmds ↔
      (∀ l ∈ ls, Fits (words (uncommented l.2))) ∧ cmds = ls.map (cmdOf junks) := by
  induction ls generalizing cmds with
  | nil =>
    rw [List.mapM_nil, List.map_nil]
    exact ⟨fun h => ⟨List.forall_mem_nil _, (Except.ok.inj h).symm⟩, fun h => by rw [h.2]; rfl⟩
  | cons l ls ih =>
    rw [List.forall_mem_cons, List.map_cons, List.mapM_cons]
    simp only [bind_eq_ok, lineCmd_eq_ok, ih, pure, Except.pure, Except.ok.injEq]
    constructor
    · rintro ⟨_, ⟨hl, rfl⟩, _, ⟨hls, rfl⟩, rfl⟩
      exact ⟨⟨hl, hls⟩, rfl⟩
    · rintro ⟨⟨hl, hls⟩, rfl⟩
      exact ⟨_, ⟨hl, rfl⟩, _, ⟨hls, rfl⟩, rfl⟩

/-- A file is read to its end iff the words of each line have room. -/
theorem wifiNvmBufOperate_eq_ok {conf : ℕ → UInt8} {r : List Cmd × (ℕ → UInt8)} :
    wifiNvmBufOperate buf junks conf = .ok r ↔
      (∀ l ∈ linesOf buf, Fits (words (uncommented l.2))) ∧
        r = ((linesOf buf).map (cmdOf junks),
          store conf (((linesOf buf).map (cmdOf junks)).flatMap lineWrites)) := by
  rw [wifiNvmBufOperate, operateLoop_linesOf, bind_eq_ok]
  simp only [mapM_lineCmd, pure, Except.pure, Except.ok.injEq]
  constructor
  · rintro ⟨_, ⟨hfits, rfl⟩, rfl⟩
    exact ⟨hfits, rfl⟩
  · rintro ⟨hfits, rfl⟩
    exact ⟨_, ⟨hfits, rfl⟩, rfl⟩

/-- The file is not read beyond its end. -/
theorem wifiNvmBufOperate_ne_outside (buf : List UInt8) (conf : ℕ → UInt8) :
    wifiNvmBufOperate buf junks conf ≠ .error .outside := by
  rw [wifiNvmBufOperate, operateLoop_linesOf]
  induction linesOf buf with
  | nil => simp [pure, Except.pure, bind, Except.bind]
  | cons l ls ih =>
    rw [List.mapM_cons]
    cases h : lineCmd (junks l.1) l.2 with
    | error stop =>
      intro heq
      cases heq
      exact lineCmd_ne_outside h
    | ok cmd =>
      cases hls : ls.mapM fun l => lineCmd (junks l.1) l.2 with
      | error stop =>
        intro heq
        cases heq
        exact ih (by rw [hls]; rfl)
      | ok cmds => simp [pure, Except.pure, bind, Except.bind]

end W132d.Nvm
