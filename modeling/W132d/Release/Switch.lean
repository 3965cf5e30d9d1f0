import W132d.Raising
import W132d.Release.Repository
import W132d.Substitute
import W132d.TextFile

/-!
# Update channels

A device follows the stable channel or the experimental one (`w132d-channel`). Two files of apt
say which: the source of the experimental packages is enabled or not, and a pin has their
priority. `switch` reads both, replaces a line of the one and a number of the other, and moves the
results over the files. If an operation on the files fails meanwhile, it writes back what it has
read.

* `switch`: the program, with the operations that fail. A write that fails leaves a part;
* `switch_atomic_iff`: when it either raises with both files as before, or returns and only the
  line and the number are other.

A carriage return in a file is lost, whether the program raises or returns, because it reads and
writes text. And what it writes back goes over the files themselves, so that a second failure can
leave a part of one.

How the theorem is proved: a computation of the script is a function of the disk that comes to a
value or raises, and leaves a disk in both cases (`W132d.Raising`). What each operation leaves is
said by one lemma (`readText_run`, `writeText_temporary`, `replaceWith_run`), and the run of
`switch` is computed from these: both files are replaced, or the rollback has written back the texts
that were read, as far as that went (`switch_of_reads`). The bytes are compared only then.

A text has the bytes that were read exactly if these have no carriage return (`take_writes`,
`W132d.TextFile`). The rules are looked for by their own texts: a line that begins with `Enabled:`,
and a rule of the pin, which does not overlap with another one (`pinRule_no_border`), so that what
the script counts is how many there are.
-/

namespace W132d.Release.Switch

open Raising Substitute TextFile

/-! ## Files -/

/-- The files of apt that a channel has. -/
inductive Conffile
  | source
  | pin
  deriving DecidableEq, Repr

/-- A file, or the temporary one beside it. -/
inductive Path
  | conffile (c : Conffile)
  | temporary (c : Conffile)
  deriving DecidableEq, Repr

/-- A file, with its permissions. -/
structure File where
  bytes : List UInt8
  /-- `st_mode`. -/
  mode : ℕ
  deriving DecidableEq, Repr

/-- The files that there are. -/
abbrev Disk := Path → Option File

/-- An operation on a file. -/
inductive Operation
  | reads (path : Path)
  | opens (path : Path)
  | writes (path : Path)
  | stats (path : Path)
  | chmods (path : Path)
  | replaces (path : Path)
  deriving DecidableEq, Repr

/-- The operations that fail. One that writes has written so many bytes before. -/
abbrev Faults := Operation → Option ℕ

/-- What the script raises. -/
inductive Error
  | os
  | unicodeDecode
  | value (message : String)
  deriving DecidableEq, Repr

variable (faults : Faults) (newMode : ℕ) (p : Platform)

/-- An operation, which may fail. -/
def attempt (op : Operation) : Raising Disk Error Unit :=
  if faults op = none then pure () else throw .os

/-- `path.read_text()`. -/
def readText (path : Path) : Raising Disk Error (List Char) := do
  attempt faults (.reads path)
  match (← get) path with
  | none => throw .os
  | some f =>
    match TextFile.readText f.bytes with
    | none => throw .unicodeDecode
    | some t => return t

/-- `path.write_text(text)`. The file is empty once it is open, and `newMode` is the mode of one
    that was not there. -/
def writeText (path : Path) (text : List Char) : Raising Disk Error Unit := do
  attempt faults (.opens path)
  modify fun d => Function.update d path (some ⟨[], ((d path).map File.mode).getD newMode⟩)
  modify fun d => Function.update d path ((d path).map fun f =>
    { f with bytes := (encode text).take ((faults (.writes path)).getD (encode text).length) })
  attempt faults (.writes path)

/-- `path.stat().st_mode`. -/
def stat (path : Path) : Raising Disk Error ℕ := do
  attempt faults (.stats path)
  match (← get) path with
  | none => throw .os
  | some f => return f.mode

/-- `path.chmod(mode)`. -/
def chmod (path : Path) (mode : ℕ) : Raising Disk Error Unit := do
  attempt faults (.chmods path)
  modify fun d => Function.update d path ((d path).map fun f => { f with mode := mode })

/-- `path.replace(target)`. -/
def replace (path target : Path) : Raising Disk Error Unit := do
  attempt faults (.replaces path)
  modify fun d => Function.update (Function.update d target (d path)) path none

/-! ## Rules -/

/-- `(?m)^Enabled:.*$`. -/
def isEnabled (line : List Char) : Bool := "Enabled:".toList.isPrefixOf line

/-- The line that turns a channel on or off. -/
def enabled : Channel → List Char
  | .experimental => "Enabled: yes".toList
  | .stable => "Enabled: no".toList

/-- The source with the line of the channel, and how many lines there were. -/
def sourceText (channel : Channel) (source : List Char) : List Char × ℕ :=
  subnLines '\n' isEnabled (fun _ => enabled channel) source

/-- What comes before the priority of the experimental packages. -/
def pinRule : List Char := "Pin: release o=W132D,a=experimental\nPin-Priority: ".toList

def priority : Channel → List Char
  | .experimental => "991".toList
  | .stable => "-1".toList

/-- A digit of any script, as `\d` has it. -/
def isDecimal (c : Char) : Bool := (p.decimal c).isSome

/-- The length of `-?\d+` at the head of a text, or `0`. -/
def matchNumber : List Char → ℕ
  | '-' :: cs => if (cs.takeWhile (isDecimal p)).isEmpty then 0 else
      (cs.takeWhile (isDecimal p)).length + 1
  | cs => (cs.takeWhile (isDecimal p)).length

/-- The length of a rule with its number at the head of a text, or `0`. -/
def matchPin (t : List Char) : ℕ :=
  if pinRule.isPrefixOf t ∧ matchNumber p (t.drop pinRule.length) ≠ 0 then
    pinRule.length + matchNumber p (t.drop pinRule.length)
  else 0

/-- The pin with the priority of the channel, and how many rules there were. -/
def pinText (channel : Channel) (pin : List Char) : List Char × ℕ :=
  subn (matchPin p) (fun _ => pinRule ++ priority channel) pin

/-! ## The program -/

/-- Write the text to a temporary file with the mode of the file, and move it over the file. -/
def replaceWith (c : Conffile) (text : List Char) : Raising Disk Error Unit := do
  writeText faults newMode (.temporary c) text
  let mode ← stat faults (.conffile c)
  chmod faults (.temporary c) (mode &&& 0o777)
  replace faults (.temporary c) (.conffile c)

/-- Write back what was read, after an `OSError`. -/
def rollback (source pin : List Char) : Error → Raising Disk Error Unit
  | .os => do
    writeText faults newMode (.conffile .source) source
    writeText faults newMode (.conffile .pin) pin
    throw .os
  | e => throw e

/-- Select a channel. -/
def switch (channel : Channel) : Raising Disk Error Unit := do
  let source ← readText faults (.conffile .source)
  let pin ← readText faults (.conffile .pin)
  if (sourceText channel source).2 ≠ 1 ∨ (pinText p channel pin).2 ≠ 1 then
    throw (.value
      "Custom source or pin has no unique experimental rule; review it before switching")
  tryCatch
    (do
      replaceWith faults newMode .source (sourceText channel source).1
      replaceWith faults newMode .pin (pinText p channel pin).1)
    (rollback faults newMode source pin)

/-! ## Files before and after -/

/-- No byte of the two files has changed. -/
def SameBytes (d d' : Disk) : Prop :=
  ∀ c, (d' (.conffile c)).map File.bytes = (d (.conffile c)).map File.bytes

/-- The bytes differ in the one line `Enabled:` of the source, which is the one of the channel. -/
def SourceSet (channel : Channel) (old new : List UInt8) : Prop :=
  ∃ before line after, (∀ l ∈ before ++ line :: after, '\n' ∉ l) ∧ '\r' ∉ line ∧
    isEnabled line ∧ (∀ l ∈ before ++ after, ¬isEnabled l) ∧
    old = encode (unlines '\n' (before ++ line :: after)) ∧
    new = encode (unlines '\n' (before ++ enabled channel :: after))

/-- The text matches `-?\d+`. -/
def IsNumber (t : List Char) : Prop :=
  ∃ ds, (t = ds ∨ t = '-' :: ds) ∧ ds ≠ [] ∧ ∀ c ∈ ds, isDecimal p c

/-- The bytes differ in the number of the one rule of the pin, which is the one of the channel. -/
def PinSet (channel : Channel) (old new : List UInt8) : Prop :=
  ∃ x number y, IsNumber p number ∧ (∀ c ∈ y.head?, ¬isDecimal p c) ∧
    (∀ x' number' y', IsNumber p number' →
      x ++ pinRule ++ number ++ y = x' ++ pinRule ++ number' ++ y' → x' = x) ∧
    old = encode (x ++ pinRule ++ number ++ y) ∧
    new = encode (x ++ pinRule ++ priority channel ++ y)

/-- Both files are as the channel wants. -/
def Selected (channel : Channel) (d d' : Disk) : Prop :=
  ∃ f f' g g', d (.conffile .source) = some f ∧ d' (.conffile .source) = some f' ∧
    d (.conffile .pin) = some g ∧ d' (.conffile .pin) = some g' ∧
    SourceSet channel f.bytes f'.bytes ∧ PinSet p channel g.bytes g'.bytes

/-- A switch that raises has changed no byte, and one that returns has selected the channel and
    changed nothing else. -/
def Atomic (channel : Channel) (d : Disk) : Prop :=
  match (switch faults newMode p channel).runFrom d with
  | (.ok (), d') => Selected p channel d d'
  | (.error _, d') => SameBytes d d'

/-! ## When nothing is lost -/

/-- No operation fails when the file is replaced. -/
def Spares (c : Conffile) : Prop :=
  faults (.opens (.temporary c)) = none ∧ faults (.writes (.temporary c)) = none ∧
    faults (.stats (.conffile c)) = none ∧ faults (.chmods (.temporary c)) = none ∧
    faults (.replaces (.temporary c)) = none

instance (c : Conffile) : Decidable (Spares faults c) := inferInstanceAs (Decidable (_ ∧ _))

/-- If the write fails, then after these bytes. -/
def Whole (c : Conffile) (t : List Char) : Prop :=
  ∀ n ∈ faults (.writes (.conffile c)), (encode t).length ≤ n

/-- The source has the line of the channel. -/
def HasLine (channel : Channel) (source : List Char) : Prop :=
  enabled channel ∈ (universalNewlines source).splitOn '\n'

/-- What is written back is what was there. If the source cannot be opened, then it has not been
    replaced yet, or it had the line already. -/
structure RollsBack (channel : Channel) (s t : List Char) : Prop where
  closed : faults (.opens (.conffile .source)) ≠ none → Spares faults .source →
    '\r' ∉ s ∧ HasLine channel s
  source : faults (.opens (.conffile .source)) = none → '\r' ∉ s ∧ Whole faults .source s
  pin : faults (.opens (.conffile .source)) = none → faults (.writes (.conffile .source)) = none →
    faults (.opens (.conffile .pin)) = none → '\r' ∉ t ∧ Whole faults .pin t

/-- The files are read, have these characters, and one rule each. -/
structure Reads (d : Disk) (s t : List Char) : Prop where
  reads_source : faults (.reads (.conffile .source)) = none
  reads_pin : faults (.reads (.conffile .pin)) = none
  source : ∃ f, d (.conffile .source) = some f ∧ decode f.bytes = some s
  pin : ∃ f, d (.conffile .pin) = some f ∧ decode f.bytes = some t
  one_line : ((universalNewlines s).splitOn '\n').countP isEnabled = 1
  one_rule : (subn (matchPin p) id (universalNewlines t)).2 = 1

/-- Neither file has a carriage return, if both are replaced; else what is written back is what was
    there. Nothing is asked where the files are not read or a rule is not found once. -/
def Restorable (channel : Channel) (d : Disk) : Prop :=
  ∀ s t, Reads faults p d s t →
    if Spares faults .source ∧ Spares faults .pin then '\r' ∉ s ∧ '\r' ∉ t
    else RollsBack faults channel s t

/-! ## The operations -/

/-- The disk after a write of a file that could be opened. -/
def written (path : Path) (t : List Char) (d : Disk) : Disk :=
  Function.update d path (some
    ⟨(encode t).take ((faults (.writes path)).getD (encode t).length),
      ((d path).map File.mode).getD newMode⟩)

section Operations

variable {faults newMode} {d : Disk} {path : Path} {c : Conffile} {f : File} {t : List Char}

/-- An operation without a fault succeeds. -/
theorem attempt_of_none {op : Operation} (h : faults op = none) :
    (attempt faults op).runFrom d = (.ok (), d) := by
  rw [attempt, if_pos h, runFrom_pure]

theorem attempt_of_ne {op : Operation} (h : faults op ≠ none) :
    (attempt faults op).runFrom d = (.error .os, d) := by
  rw [attempt, if_neg h, runFrom_throw]

/-- A file that can be decoded is read, with its ends of lines made one. -/
theorem readText_ok (h : faults (.reads path) = none) (hd : d path = some f)
    (ht : decode f.bytes = some t) :
    (readText faults path).runFrom d = (.ok (universalNewlines t), d) := by
  rw [readText, runFrom_bind_ok (attempt_of_none h), runFrom_bind_ok runFrom_get]
  simp only [hd, TextFile.readText, ht, Option.map_some]
  rfl

/-- Reading changes nothing, and gives the text if there is one. -/
theorem readText_run (faults : Faults) (path : Path) (d : Disk) :
    ∃ r, (readText faults path).runFrom d = (r, d) ∧ ∀ t, r = .ok t →
      faults (.reads path) = none ∧
      ∃ f s, d path = some f ∧ decode f.bytes = some s ∧ t = universalNewlines s := by
  by_cases h : faults (.reads path) = none
  · cases hd : d path with
    | none =>
      refine ⟨.error .os, ?_, by simp⟩
      rw [readText, runFrom_bind_ok (attempt_of_none h), runFrom_bind_ok runFrom_get]
      simp only [hd]
      rfl
    | some f =>
      cases hs : decode f.bytes with
      | none =>
        refine ⟨.error .unicodeDecode, ?_, by simp⟩
        rw [readText, runFrom_bind_ok (attempt_of_none h), runFrom_bind_ok runFrom_get]
        simp only [hd, TextFile.readText, hs, Option.map_none]
        rfl
      | some s =>
        refine ⟨_, readText_ok h hd hs, ?_⟩
        intro t ht
        exact ⟨h, f, s, rfl, hs, (Except.ok.inj ht).symm⟩
  · exact ⟨.error .os, by rw [readText, runFrom_bind_error (attempt_of_ne h)], by simp⟩

/-- A file that cannot be opened is as before. -/
theorem writeText_of_closed (h : faults (.opens path) ≠ none) :
    (writeText faults newMode path t).runFrom d = (.error .os, d) := by
  rw [writeText, runFrom_bind_error (attempt_of_ne h)]

/-- One that was opened is cut off where writing has failed. -/
theorem writeText_of_open (newMode : ℕ) (t : List Char) (d : Disk)
    (h : faults (.opens path) = none) :
    (writeText faults newMode path t).runFrom d =
      (if faults (.writes path) = none then .ok () else .error .os,
        written faults newMode path t d) := by
  rw [writeText, runFrom_bind_ok (attempt_of_none h), runFrom_bind_ok (runFrom_modify _),
    runFrom_bind_ok (runFrom_modify _), Function.update_self, Option.map_some, Function.update_idem,
    written]
  split
  next hw => rw [attempt_of_none hw]
  next hw => rw [attempt_of_ne hw]

/-- The permissions are read. -/
theorem stat_of_none (h : faults (.stats path) = none) (hd : d path = some f) :
    (stat faults path).runFrom d = (.ok f.mode, d) := by
  rw [stat, runFrom_bind_ok (attempt_of_none h), runFrom_bind_ok runFrom_get]
  simp only [hd]
  rfl

theorem chmod_of_none {mode : ℕ} (h : faults (.chmods path) = none) (hd : d path = some f) :
    (chmod faults path mode).runFrom d =
      (.ok (), Function.update d path (some { f with mode := mode })) := by
  rw [chmod, runFrom_bind_ok (attempt_of_none h), runFrom_modify, hd, Option.map_some]

/-- The other files stay. -/
theorem update_temporary (x : Option File) (c' : Conffile) :
    Function.update d (.temporary c) x (.conffile c') = d (.conffile c') :=
  Function.update_of_ne (by simp) _ _

/-- The temporary file is written if no operation fails, and it alone changes. -/
theorem writeText_temporary (faults : Faults) (newMode : ℕ) (c : Conffile) (t : List Char)
    (d : Disk) :
    ∃ d', (writeText faults newMode (.temporary c) t).runFrom d =
        (if faults (.opens (.temporary c)) = none ∧ faults (.writes (.temporary c)) = none
          then .ok () else .error .os, d') ∧
      (∀ c', d' (.conffile c') = d (.conffile c')) ∧
      (faults (.opens (.temporary c)) = none → faults (.writes (.temporary c)) = none →
        ∃ mode, d' (.temporary c) = some ⟨encode t, mode⟩) := by
  by_cases hopen : faults (.opens (.temporary c)) = none
  · refine ⟨written faults newMode (.temporary c) t d, ?_, update_temporary _, ?_⟩
    · rw [writeText_of_open newMode _ _ hopen]
      simp only [hopen, true_and]
    · intro _ hw
      rw [written, Function.update_self, hw, Option.getD_none, List.take_length]
      exact ⟨_, rfl⟩
  · refine ⟨d, ?_, fun c' => rfl, fun h => absurd h hopen⟩
    rw [writeText_of_closed hopen, if_neg (by simp [hopen])]

/-- A file is replaced if no operation fails, and is as before otherwise. -/
theorem replaceWith_run (faults : Faults) (newMode : ℕ) (t : List Char)
    (hd : d (.conffile c) = some f) :
    ∃ d', (replaceWith faults newMode c t).runFrom d =
        (if Spares faults c then .ok () else .error .os, d') ∧
      ∀ c', d' (.conffile c') =
        if c' = c ∧ Spares faults c then some ⟨encode t, f.mode &&& 0o777⟩
        else d (.conffile c') := by
  obtain ⟨d₁, hwrite, hfiles, htemporary⟩ := writeText_temporary faults newMode c t d
  -- One operation after the other fails, or none does.
  by_cases hw : faults (.opens (.temporary c)) = none ∧ faults (.writes (.temporary c)) = none
  swap
  · have hnot : ¬Spares faults c := fun h => hw ⟨h.1, h.2.1⟩
    rw [if_neg hw] at hwrite
    refine ⟨d₁, ?_, by simp [hnot, hfiles]⟩
    rw [replaceWith, runFrom_bind_error hwrite, if_neg hnot]
  obtain ⟨mode, hmode⟩ := htemporary hw.1 hw.2
  rw [if_pos hw] at hwrite
  by_cases hstat : faults (.stats (.conffile c)) = none
  swap
  · have hnot : ¬Spares faults c := fun h => hstat h.2.2.1
    refine ⟨d₁, ?_, by simp [hnot, hfiles]⟩
    rw [replaceWith, runFrom_bind_ok hwrite, stat, bind_assoc,
      runFrom_bind_error (attempt_of_ne hstat), if_neg hnot]
  have hstats := stat_of_none hstat ((hfiles c).trans hd)
  by_cases hchmod : faults (.chmods (.temporary c)) = none
  swap
  · have hnot : ¬Spares faults c := fun h => hchmod h.2.2.2.1
    refine ⟨d₁, ?_, by simp [hnot, hfiles]⟩
    rw [replaceWith, runFrom_bind_ok hwrite, runFrom_bind_ok hstats, chmod, bind_assoc,
      runFrom_bind_error (attempt_of_ne hchmod), if_neg hnot]
  -- The temporary file has the new text and the old mode.
  obtain ⟨d₂, hd₂⟩ : ∃ d₂, d₂ = Function.update d₁ (.temporary c)
      (some ⟨encode t, f.mode &&& 0o777⟩) := ⟨_, rfl⟩
  have hchmods : (chmod faults (.temporary c) (f.mode &&& 0o777)).runFrom d₁ = (.ok (), d₂) := by
    rw [chmod_of_none hchmod hmode, hd₂]
  have hfiles₂ : ∀ c', d₂ (.conffile c') = d (.conffile c') := by
    intro c'
    rw [hd₂, update_temporary, hfiles]
  by_cases hreplace : faults (.replaces (.temporary c)) = none
  swap
  · have hnot : ¬Spares faults c := fun h => hreplace h.2.2.2.2
    refine ⟨d₂, ?_, by simp [hnot, hfiles₂]⟩
    rw [replaceWith, runFrom_bind_ok hwrite, runFrom_bind_ok hstats, runFrom_bind_ok hchmods,
      replace, runFrom_bind_error (attempt_of_ne hreplace), if_neg hnot]
  have hspares : Spares faults c := ⟨hw.1, hw.2, hstat, hchmod, hreplace⟩
  refine ⟨Function.update (Function.update d₂ (.conffile c) (d₂ (.temporary c)))
    (.temporary c) none,
    ?_, ?_⟩
  · rw [replaceWith, runFrom_bind_ok hwrite, runFrom_bind_ok hstats, runFrom_bind_ok hchmods,
      replace, runFrom_bind_ok (attempt_of_none hreplace), runFrom_modify, if_pos hspares]
  · intro c'
    rw [update_temporary]
    by_cases hc : c' = c
    · rw [hc, Function.update_self, hd₂, Function.update_self, if_pos ⟨rfl, hspares⟩]
    · rw [Function.update_of_ne (by simp [hc]), hfiles₂, if_neg (by simp [hc])]

end Operations

/-! ## The texts -/

section Texts

variable {p} {channel : Channel} {s t : List Char}

/-- The line that is written is found again. -/
theorem isEnabled_enabled (channel : Channel) : isEnabled (enabled channel) := by
  cases channel <;> decide

theorem not_mem_enabled (channel : Channel) : '\n' ∉ enabled channel ∧ '\r' ∉ enabled channel := by
  cases channel <;> decide

/-- The one line of a source is replaced. -/
theorem sourceText_cases (h : (s.splitOn '\n').countP isEnabled = 1) (channel : Channel) :
    ∃ before line after, (∀ l ∈ before ++ line :: after, '\n' ∉ l) ∧ isEnabled line ∧
      (∀ l ∈ before ++ after, ¬isEnabled l) ∧ s = unlines '\n' (before ++ line :: after) ∧
      (sourceText channel s).1 = unlines '\n' (before ++ enabled channel :: after) :=
  of_subnLines_eq_one h

/-- The edited file has this line in place of the old one. -/
theorem sourceText_set (h : (s.splitOn '\n').countP isEnabled = 1) (hcr : '\r' ∉ s) :
    SourceSet channel (encode s) (encode (sourceText channel s).1) := by
  obtain ⟨before, line, after, hnl, hline, hothers, hs, htext⟩ := sourceText_cases h channel
  refine ⟨before, line, after, hnl, ?_, hline, hothers, congrArg encode hs, congrArg encode htext⟩
  intro hmem
  exact hcr (hs ▸ mem_unlines_of_mem (by simp) hmem)

/-- The edited file is the old one exactly if the line was there. -/
theorem sourceText_eq_self (h : (s.splitOn '\n').countP isEnabled = 1) :
    (sourceText channel s).1 = s ↔ enabled channel ∈ s.splitOn '\n' := by
  obtain ⟨before, line, after, hnl, hline, hothers, hs, htext⟩ := sourceText_cases h channel
  have hsplit : s.splitOn '\n' = before ++ line :: after := by
    rw [hs, splitOn_unlines hnl (by simp)]
  rw [hsplit, htext]
  constructor
  · intro heq
    rw [hs] at heq
    -- Both texts are split at the same ends of lines.
    have hnew : ∀ l ∈ before ++ enabled channel :: after, '\n' ∉ l := by
      intro l hl
      simp only [List.mem_append, List.mem_cons] at hl hnl
      rcases hl with hl | rfl | hl
      · exact hnl l (.inl hl)
      · exact (not_mem_enabled channel).1
      · exact hnl l (.inr (.inr hl))
    have hlines := congrArg (List.splitOn '\n') heq
    rw [splitOn_unlines hnew (by simp), splitOn_unlines hnl (by simp)] at hlines
    rw [← hlines]
    simp
  · intro hmem
    -- The line is the only one that is enabled.
    have heq : line = enabled channel := by
      by_contra hne
      refine hothers (enabled channel) ?_ (isEnabled_enabled channel)
      simp only [List.mem_append, List.mem_cons] at hmem ⊢
      rcases hmem with hmem | hmem | hmem
      · exact .inl hmem
      · exact absurd hmem.symm hne
      · exact .inr hmem
    rw [hs, heq]

/-- Bytes that a source without a carriage return has are set from bytes without one. -/
theorem SourceSet.not_mem (hset : SourceSet channel (encode s) (encode t)) (hcr : '\r' ∉ t) :
    '\r' ∉ s := by
  obtain ⟨before, line, after, _, hline, _, _, hs, ht⟩ := hset
  rw [encode_inj] at hs ht
  intro hmem
  rw [hs] at hmem
  rcases mem_unlines hmem with h | ⟨l, hl, hc⟩
  · exact absurd h (by decide)
  · simp only [List.mem_append, List.mem_cons] at hl
    rcases hl with hl | rfl | hl
    · exact hcr (ht ▸ mem_unlines_of_mem (by simp [hl]) hc)
    · exact hline hc
    · exact hcr (ht ▸ mem_unlines_of_mem (by simp [hl]) hc)

/-- No carriage return is added. -/
theorem not_mem_sourceText (h : (s.splitOn '\n').countP isEnabled = 1) (hcr : '\r' ∉ s) :
    '\r' ∉ (sourceText channel s).1 := by
  obtain ⟨before, line, after, _, _, _, hs, htext⟩ := sourceText_cases h channel
  rw [htext]
  intro hmem
  rcases mem_unlines hmem with h | ⟨l, hl, hc⟩
  · exact absurd h (by decide)
  · simp only [List.mem_append, List.mem_cons] at hl
    rcases hl with hl | rfl | hl
    · exact hcr (hs ▸ mem_unlines_of_mem (by simp [hl]) hc)
    · exact (not_mem_enabled channel).2 hc
    · exact hcr (hs ▸ mem_unlines_of_mem (by simp [hl]) hc)

/-- Among the ASCII characters, the digits are the ten known ones. -/
theorem isDecimal_of_ascii (c : Char) (hc : c.toNat < 128) : isDecimal p c = c.isDigit := by
  rw [isDecimal, p.decimal_ascii c hc]
  cases c.isDigit <;> rfl

/-- Without a sign, a number is its digits. -/
theorem matchNumber_of_ne {c : Char} (hc : c ≠ '-') :
    matchNumber p (c :: t) = ((c :: t).takeWhile (isDecimal p)).length := by
  rw [matchNumber]
  rintro cs ⟨⟩
  exact hc rfl

/-- The digits at the head of a text, and what comes after them. -/
theorem take_digits (p : Platform) (t : List Char) :
    t.take (t.takeWhile (isDecimal p)).length = t.takeWhile (isDecimal p) ∧
      ∀ c ∈ (t.drop (t.takeWhile (isDecimal p)).length).head?, ¬isDecimal p c := by
  have hsplit := List.takeWhile_append_dropWhile (p := isDecimal p) (l := t)
  have hdrop : t.drop (t.takeWhile (isDecimal p)).length = t.dropWhile (isDecimal p) := by
    conv_lhs => rw [← hsplit]
    exact List.drop_left' (by rw [hsplit])
  refine ⟨?_, ?_⟩
  · conv_lhs => rw [← hsplit]
    exact List.take_left' (by rw [hsplit])
  · rw [hdrop]
    intro c hc
    have hhead := List.head?_dropWhile_not (isDecimal p) t
    rw [Option.mem_def.1 hc] at hhead
    simp [hhead]

/-- What is matched is a number, and no digit comes after it. -/
theorem isNumber_take_matchNumber (h : matchNumber p t ≠ 0) :
    IsNumber p (t.take (matchNumber p t)) ∧
      ∀ c ∈ (t.drop (matchNumber p t)).head?, ¬isDecimal p c := by
  cases t with
  | nil => exact absurd rfl h
  | cons c cs =>
    by_cases hc : c = '-'
    · obtain ⟨htake, hdrop⟩ := take_digits p cs
      rw [hc, matchNumber] at h ⊢
      split at h
      · exact absurd rfl h
      next hds =>
        rw [if_neg hds, List.take_succ_cons, List.drop_succ_cons, htake]
        refine ⟨⟨_, .inr rfl, by simpa using hds, fun d => List.mem_takeWhile_imp⟩, hdrop⟩
    · obtain ⟨htake, hdrop⟩ := take_digits p (c :: cs)
      rw [matchNumber_of_ne hc] at h ⊢
      rw [htake]
      exact ⟨⟨_, .inl rfl, List.ne_nil_of_length_pos (Nat.pos_of_ne_zero h),
        fun d => List.mem_takeWhile_imp⟩, hdrop⟩

/-- A number is matched. -/
theorem matchNumber_ne_zero {number : List Char} (h : IsNumber p number) :
    matchNumber p (number ++ t) ≠ 0 := by
  obtain ⟨ds, hnumber, hne, hds⟩ := h
  obtain ⟨d, ds, rfl⟩ := List.exists_cons_of_ne_nil hne
  have hd : isDecimal p d := hds d List.mem_cons_self
  rcases hnumber with rfl | rfl
  · have hminus : d ≠ '-' := by
      rintro rfl
      rw [isDecimal_of_ascii '-' (by decide)] at hd
      exact absurd hd (by decide)
    rw [List.cons_append, matchNumber_of_ne hminus, List.takeWhile_cons_of_pos hd]
    exact Nat.succ_ne_zero _
  · rw [List.cons_append, List.cons_append, matchNumber, List.takeWhile_cons_of_pos hd]
    exact Nat.succ_ne_zero _

/-- What is matched is a rule with its number. -/
theorem take_matchPin (h : matchPin p t ≠ 0) :
    ∃ number, IsNumber p number ∧ t.take (matchPin p t) = pinRule ++ number ∧
      ∀ c ∈ (t.drop (matchPin p t)).head?, ¬isDecimal p c := by
  rw [matchPin] at h ⊢
  split at h
  swap
  · exact absurd rfl h
  next hmatch =>
    obtain ⟨r, rfl⟩ := List.isPrefixOf_iff_prefix.1 hmatch.1
    rw [if_pos hmatch]
    rw [List.drop_left] at hmatch ⊢
    obtain ⟨hnumber, hhead⟩ := isNumber_take_matchNumber hmatch.2
    refine ⟨_, hnumber, List.take_length_add_append _, ?_⟩
    rwa [List.drop_length_add_append]

theorem matchPin_ne_zero {number : List Char} (h : IsNumber p number) :
    matchPin p (pinRule ++ number ++ t) ≠ 0 := by
  have hmatch := matchNumber_ne_zero (t := t) h
  rw [matchPin, if_pos]
  · exact Nat.ne_of_gt (Nat.add_pos_left (by decide) _)
  · rw [List.append_assoc, List.drop_left]
    exact ⟨List.isPrefixOf_iff_prefix.2 (List.prefix_append _ _), hmatch⟩

theorem pinRule_ne_nil : pinRule ≠ [] := by
  decide

/-- No rule begins within another. -/
theorem pinRule_no_border : ∀ i < pinRule.length, 0 < i → ¬pinRule.drop i <+: pinRule := by
  decide

/-- A number has only digits, of ASCII at least, and a minus sign. -/
theorem not_mem_number {number : List Char} (h : IsNumber p number) {c : Char}
    (hc : c.toNat < 128) (hdigit : c.isDigit = false) (hminus : c ≠ '-') : c ∉ number := by
  obtain ⟨ds, hnumber, _, hds⟩ := h
  have hmem : c ∉ ds := by
    intro hmem
    have hdecimal := hds c hmem
    rw [isDecimal_of_ascii c hc, hdigit] at hdecimal
    exact absurd hdecimal Bool.false_ne_true
  rcases hnumber with rfl | rfl
  · exact hmem
  · exact List.not_mem_cons_of_ne_of_not_mem hminus hmem

/-- Two rules do not overlap. -/
theorem rule_not_within {a e number y w : List Char} (hnumber : IsNumber p number)
    (hae : pinRule ++ number = a ++ e) (ha : a ≠ []) (he : e ≠ []) : e ++ y ≠ pinRule ++ w := by
  intro heq
  have hP : 'P' ∉ number := not_mem_number hnumber (by decide) (by decide) (by decide)
  rcases List.append_eq_append_iff.1 hae with ⟨b, rfl, hb⟩ | ⟨b, hb, rfl⟩
  · -- It would begin in the number.
    obtain ⟨c, e, rfl⟩ := List.exists_cons_of_ne_nil he
    have hc : c = 'P' := (List.cons.inj heq).1
    exact hP (hb ▸ List.mem_append_right _ (hc ▸ List.mem_cons_self))
  · -- It would begin in the rule.
    have hdrop : pinRule.drop a.length = b := by rw [hb, List.drop_left]
    have hlength : a.length + b.length = pinRule.length := by rw [hb, List.length_append]
    have hpos := List.length_pos_iff.2 ha
    by_cases hnil : b = []
    · rw [hnil, List.nil_append] at heq he
      obtain ⟨c, e, rfl⟩ := List.exists_cons_of_ne_nil he
      have hc : c = 'P' := (List.cons.inj heq).1
      exact hP (hc ▸ List.mem_cons_self)
    · refine pinRule_no_border a.length ?_ hpos ?_
      · have := List.length_pos_iff.2 hnil
        omega
      · rw [hdrop]
        have hprefix : b <+: pinRule ++ w := by
          rw [← heq, List.append_assoc]
          exact List.prefix_append _ _
        exact List.prefix_of_prefix_length_le hprefix (List.prefix_append _ _) (by omega)

/-- The one rule of a pin is replaced. -/
theorem pinText_cases (h : (subn (matchPin p) id t).2 = 1) (channel : Channel) :
    ∃ x number y, IsNumber p number ∧ (∀ c ∈ y.head?, ¬isDecimal p c) ∧
      (∀ x' number' y', IsNumber p number' →
        x ++ pinRule ++ number ++ y = x' ++ pinRule ++ number' ++ y' → x' = x) ∧
      t = x ++ pinRule ++ number ++ y ∧
      (pinText p channel t).1 = x ++ pinRule ++ priority channel ++ y := by
  rw [subn_snd id fun _ => pinRule ++ priority channel] at h
  obtain ⟨x, m, y, ht, hne, hm, hbefore, hfree, htext⟩ := of_subn_eq_one h
  have hmatch : matchPin p (m ++ y) ≠ 0 := by
    intro hzero
    rw [hzero, List.take_zero] at hm
    exact hne hm
  obtain ⟨number, hnumber, htake, hhead⟩ := take_matchPin hmatch
  have hmrule : m = pinRule ++ number := hm.trans htake
  have hy : (m ++ y).drop (matchPin p (m ++ y)) = y := by
    have hsplit := List.take_append_drop (matchPin p (m ++ y)) (m ++ y)
    rw [← hm] at hsplit
    exact List.append_cancel_left hsplit
  rw [hy] at hhead
  refine ⟨x, number, y, hnumber, hhead, ?_, ?_, ?_⟩
  · intro x' number' y' hnumber' heq
    have heq' : x ++ (m ++ y) = x' ++ (pinRule ++ number' ++ y') := by
      simpa only [hmrule, List.append_assoc] using heq
    have hrule := matchPin_ne_zero (t := y') hnumber'
    -- The search behind the rule found no other one.
    have hafter : ∀ b, y ≠ b ++ (pinRule ++ number' ++ y') := by
      intro b hb
      obtain ⟨c, z, hcons⟩ := List.exists_cons_of_ne_nil
        (List.append_ne_nil_of_left_ne_nil
          (List.append_ne_nil_of_left_ne_nil pinRule_ne_nil number') y')
      rw [hcons] at hb hrule
      exact hrule (hfree b c z hb)
    rcases List.append_eq_append_iff.1 heq' with ⟨a, rfl, ha⟩ | ⟨a, rfl, ha⟩
    · -- The other rule begins where this one does, or later.
      by_cases hnil : a = []
      · rw [hnil, List.append_nil]
      · rcases List.append_eq_append_iff.1 ha with ⟨b, rfl, hb⟩ | ⟨b, hb, hrest⟩
        · exact absurd hb (hafter b)
        · by_cases hb' : b = []
          · rw [hb', List.nil_append] at hrest
            exact absurd hrest.symm (hafter [])
          · rw [hmrule] at hb
            rw [List.append_assoc] at hrest
            exact absurd hrest.symm (rule_not_within hnumber hb hnil hb')
    · -- It begins earlier.
      cases a with
      | nil => rw [List.append_nil]
      | cons c z =>
        have hzero := hbefore x' c z rfl
        rw [List.append_assoc, ← ha] at hzero
        exact absurd hzero hrule
  · rw [ht, hmrule]
    simp only [List.append_assoc]
  · rw [pinText, htext]
    simp only [List.append_assoc]

/-- The edited file has the priority of the channel in place of the old one. -/
theorem pinText_set (h : (subn (matchPin p) id t).2 = 1) (channel : Channel) :
    PinSet p channel (encode t) (encode (pinText p channel t).1) := by
  obtain ⟨x, number, y, hnumber, hhead, honly, ht, htext⟩ := pinText_cases h channel
  exact ⟨x, number, y, hnumber, hhead, honly, congrArg encode ht, congrArg encode htext⟩

/-- The old file had a carriage return only if the new one has. -/
theorem PinSet.not_mem (hset : PinSet p channel (encode s) (encode t)) (hcr : '\r' ∉ t) :
    '\r' ∉ s := by
  obtain ⟨x, number, y, hnumber, _, _, hs, ht⟩ := hset
  rw [encode_inj] at hs ht
  have hdigits : '\r' ∉ number := not_mem_number hnumber (by decide) (by decide) (by decide)
  simp only [hs, ht, List.mem_append, not_or] at hcr ⊢
  exact ⟨⟨hcr.1.1, hdigits⟩, hcr.2⟩

theorem not_mem_pinText (h : (subn (matchPin p) id t).2 = 1) (hcr : '\r' ∉ t) :
    '\r' ∉ (pinText p channel t).1 := by
  obtain ⟨x, number, y, _, _, _, ht, htext⟩ := pinText_cases h channel
  have hpriority : '\r' ∉ priority channel := by cases channel <;> decide
  rw [htext]
  simp only [ht, List.mem_append, not_or] at hcr ⊢
  exact ⟨⟨hcr.1.1, hpriority⟩, hcr.2⟩

end Texts

/-! ## Atomicity -/

section Atomicity

variable {faults newMode p} {channel : Channel} {d : Disk} {f g : File} {s t s' t' : List Char}

/-- Both files are read in one way. -/
theorem Reads.unique (h : Reads faults p d s t) (h' : Reads faults p d s' t') :
    s = s' ∧ t = t' := by
  obtain ⟨f, hf, hs⟩ := h.source
  obtain ⟨f', hf', hs'⟩ := h'.source
  obtain ⟨g, hg, ht⟩ := h.pin
  obtain ⟨g', hg', ht'⟩ := h'.pin
  grind

/-- Once both files were read, they are replaced, or else rolled back. -/
theorem switch_of_reads (h : Reads faults p d s t) :
    (switch faults newMode p channel).runFrom d =
      (tryCatch
        (do
          replaceWith faults newMode .source (sourceText channel (universalNewlines s)).1
          replaceWith faults newMode .pin (pinText p channel (universalNewlines t)).1)
        (rollback faults newMode (universalNewlines s) (universalNewlines t))).runFrom d := by
  obtain ⟨f, hf, hs⟩ := h.source
  obtain ⟨g, hg, ht⟩ := h.pin
  have hline : (sourceText channel (universalNewlines s)).2 = 1 := h.one_line
  have hrule : (pinText p channel (universalNewlines t)).2 = 1 := by
    rw [pinText, subn_snd _ id, h.one_rule]
  rw [switch, runFrom_bind_ok (readText_ok h.reads_source hf hs),
    runFrom_bind_ok (readText_ok h.reads_pin hg ht), if_neg (by simp [hline, hrule])]

/-- Where a file is not read or a rule is not found once, nothing has happened. -/
theorem switch_of_not_reads (newMode : ℕ) (channel : Channel) (h : ∀ s t, ¬Reads faults p d s t) :
    ∃ e, (switch faults newMode p channel).runFrom d = (.error e, d) := by
  obtain ⟨rs, hsource, hs⟩ := readText_run faults (.conffile .source) d
  obtain ⟨rt, hpin, ht⟩ := readText_run faults (.conffile .pin) d
  rw [switch]
  cases rs with
  | error e => exact ⟨e, runFrom_bind_error hsource⟩
  | ok source =>
    rw [runFrom_bind_ok hsource]
    cases rt with
    | error e => exact ⟨e, runFrom_bind_error hpin⟩
    | ok pin =>
      rw [runFrom_bind_ok hpin]
      obtain ⟨hreads, f, s, hf, hdecode, rfl⟩ := hs source rfl
      obtain ⟨hreads', g, t, hg, hdecode', rfl⟩ := ht pin rfl
      rw [if_pos]
      · exact ⟨_, rfl⟩
      by_contra hcount
      rw [not_or, not_not, not_not, pinText, subn_snd _ id] at hcount
      exact h s t ⟨hreads, hreads', ⟨f, hf, hdecode⟩, ⟨g, hg, hdecode'⟩, hcount.1, hcount.2⟩

/-- The source is replaced first, and the pin only after it. -/
theorem replaceBoth_run (faults : Faults) (newMode : ℕ) (a b : List Char)
    (hf : d (.conffile .source) = some f) (hg : d (.conffile .pin) = some g) :
    ∃ d', (do
        replaceWith faults newMode .source a
        replaceWith faults newMode .pin b : Raising Disk Error Unit).runFrom d =
          (if Spares faults .source ∧ Spares faults .pin then .ok () else .error .os, d') ∧
      d' (.conffile .source) =
        some (if Spares faults .source then ⟨encode a, f.mode &&& 0o777⟩ else f) ∧
      d' (.conffile .pin) =
        some (if Spares faults .source ∧ Spares faults .pin then ⟨encode b, g.mode &&& 0o777⟩
          else g) := by
  obtain ⟨d₁, hrun, hfiles⟩ := replaceWith_run faults newMode a hf
  have hsource₁ := hfiles .source
  have hpin₁ := (hfiles .pin).trans (if_neg (by simp))
  by_cases hs : Spares faults .source
  · rw [if_pos hs] at hrun
    rw [if_pos ⟨rfl, hs⟩] at hsource₁
    obtain ⟨d₂, hrun₂, hfiles₂⟩ :=
      replaceWith_run faults newMode b (hpin₁.trans hg)
    refine ⟨d₂, ?_, ?_, ?_⟩
    · rw [runFrom_bind_ok hrun, hrun₂]
      simp only [hs, true_and]
    · rw [hfiles₂ .source, if_neg (by simp), hsource₁, if_pos hs]
    · rw [hfiles₂ .pin, hpin₁, hg]
      by_cases hp : Spares faults .pin <;> simp [hs, hp]
  · -- The pin is not reached.
    rw [if_neg hs] at hrun
    rw [if_neg (by simp [hs]), hf] at hsource₁
    refine ⟨d₁, ?_, ?_, ?_⟩
    · rw [runFrom_bind_error hrun, if_neg (by simp [hs])]
    · rw [hsource₁, if_neg hs]
    · rw [hpin₁, hg, if_neg (by simp [hs])]

/-- The disk after the texts were written back, as far as they could. -/
def rolledBack (faults : Faults) (newMode : ℕ) (s t : List Char) (d : Disk) : Disk :=
  if faults (.opens (.conffile .source)) = none then
    if faults (.writes (.conffile .source)) = none ∧ faults (.opens (.conffile .pin)) = none then
      written faults newMode (.conffile .pin) t (written faults newMode (.conffile .source) s d)
    else written faults newMode (.conffile .source) s d
  else d

/-- Rolling back writes what was read. -/
theorem rollback_run : (rollback faults newMode s t .os).runFrom d =
    (.error .os, rolledBack faults newMode s t d) := by
  rw [rollback, rolledBack]
  by_cases hopen : faults (.opens (.conffile .source)) = none
  swap
  · rw [runFrom_bind_error (writeText_of_closed hopen), if_neg hopen]
  have hsource := writeText_of_open newMode s d hopen
  rw [if_pos hopen]
  by_cases hwrite : faults (.writes (.conffile .source)) = none
  swap
  · rw [if_neg hwrite] at hsource
    rw [runFrom_bind_error hsource, if_neg (by simp [hwrite])]
  rw [if_pos hwrite] at hsource
  rw [runFrom_bind_ok hsource]
  by_cases hopen' : faults (.opens (.conffile .pin)) = none
  swap
  · rw [runFrom_bind_error (writeText_of_closed hopen'), if_neg (by simp [hopen'])]
  have hpin := writeText_of_open newMode t
    (written faults newMode (.conffile .source) s d) hopen'
  rw [if_pos ⟨hwrite, hopen'⟩]
  split at hpin
  · rw [runFrom_bind_ok hpin, runFrom_throw]
  · rw [runFrom_bind_error hpin]

/-- A text that is written back has the bytes that were read, if it has no carriage return and is
    written as a whole. -/
theorem take_writes (c : Conffile) (s : List Char) :
    (encode (universalNewlines s)).take
        ((faults (.writes (.conffile c))).getD (encode (universalNewlines s)).length) = encode s ↔
      '\r' ∉ s ∧ Whole faults c s := by
  rw [Whole]
  cases faults (.writes (.conffile c)) with
  | none => simp [universalNewlines_eq_self]
  | some n => simp [take_encode_universalNewlines]

/-- The bytes of both files are compared, not their permissions. -/
theorem sameBytes_iff {d' : Disk} : SameBytes d d' ↔
    (d' (.conffile .source)).map File.bytes = (d (.conffile .source)).map File.bytes ∧
      (d' (.conffile .pin)).map File.bytes = (d (.conffile .pin)).map File.bytes := by
  constructor
  · intro h
    exact ⟨h .source, h .pin⟩
  · rintro ⟨hs, hp⟩ (_ | _)
    · exact hs
    · exact hp

/-- A file that is written has the bytes up to the fault, and keeps its permissions if it was there.
    -/
@[simp] theorem written_self {path : Path} : (written faults newMode path t d) path = some
    ⟨(encode t).take ((faults (.writes path)).getD (encode t).length),
      ((d path).map File.mode).getD newMode⟩ :=
  Function.update_self ..

/-- Writing one file leaves the other one. -/
@[simp] theorem written_other {c c' : Conffile} (h : c' ≠ c) :
    (written faults newMode (.conffile c) t d) (.conffile c') = d (.conffile c') :=
  Function.update_of_ne (by simpa using h) _ _

/-- A source that was replaced has the bytes that were read, if they have no carriage return and
    the line already. -/
theorem encode_sourceText (h : ((universalNewlines s).splitOn '\n').countP isEnabled = 1) :
    encode (sourceText channel (universalNewlines s)).1 = encode s ↔
      '\r' ∉ s ∧ HasLine channel s := by
  rw [encode_inj, HasLine, ← sourceText_eq_self h]
  constructor
  · intro heq
    have hcr : '\r' ∉ s := heq ▸ not_mem_sourceText h (not_mem_universalNewlines s)
    rw [universalNewlines_eq_self.2 hcr] at heq ⊢
    exact ⟨hcr, heq⟩
  · rintro ⟨hcr, heq⟩
    rw [heq, universalNewlines_eq_self.2 hcr]

/-- What is left of both files after they were written back. -/
theorem sameBytes_rolledBack {d' : Disk} {mode : ℕ} (hf : d (.conffile .source) = some f)
    (hs : encode s = f.bytes) (hg : d (.conffile .pin) = some g) (ht : encode t = g.bytes)
    (h : ((universalNewlines s).splitOn '\n').countP isEnabled = 1)
    (hsource : d' (.conffile .source) = some (if Spares faults .source
      then ⟨encode (sourceText channel (universalNewlines s)).1, mode⟩ else f))
    (hpin : d' (.conffile .pin) = some g) :
    SameBytes d (rolledBack faults newMode (universalNewlines s) (universalNewlines t) d') ↔
      RollsBack faults channel s t := by
  have hclosed : (d' (.conffile .source)).map File.bytes = some f.bytes ↔
      (Spares faults .source → '\r' ∉ s ∧ HasLine channel s) := by
    rw [hsource, ← encode_sourceText h, ← hs]
    by_cases hspares : Spares faults .source
    · simp [hspares]
    · simp [hspares, hs]
  rw [sameBytes_iff, hf, hg, Option.map_some, Option.map_some, rolledBack]
  -- If the source cannot be opened, it stays as the switch left it.
  by_cases hopen : faults (.opens (.conffile .source)) = none
  swap
  · rw [if_neg hopen, hclosed, hpin]
    constructor
    · rintro ⟨hkept, -⟩
      exact ⟨fun _ => hkept, fun h => absurd h hopen, fun h => absurd h hopen⟩
    · intro hback
      exact ⟨hback.closed hopen, rfl⟩
  rw [if_pos hopen]
  by_cases hboth : faults (.writes (.conffile .source)) = none ∧
      faults (.opens (.conffile .pin)) = none
  · rw [if_pos hboth, written_other (by simp), written_self, written_self]
    simp only [Option.map_some, Option.some_inj, ← hs, ← ht, take_writes]
    constructor
    · rintro ⟨hs, ht⟩
      exact ⟨fun h => absurd hopen h, fun _ => hs, fun _ _ _ => ht⟩
    · intro hback
      exact ⟨hback.source hopen, hback.pin hopen hboth.1 hboth.2⟩
  · -- The pin is not reached; the source is cut where its write fails.
    rw [if_neg hboth, written_self, written_other (by simp), hpin]
    simp only [Option.map_some, Option.some_inj, ← hs, take_writes, and_true]
    constructor
    · intro hs
      exact ⟨fun h => absurd hopen h, fun _ => hs, fun _ hw ho => absurd ⟨hw, ho⟩ hboth⟩
    · intro hback
      exact hback.source hopen

/-- Both files, once they were replaced. -/
theorem selected_iff {d' : Disk} {mode mode' : ℕ} (hf : d (.conffile .source) = some f)
    (hs : encode s = f.bytes) (hg : d (.conffile .pin) = some g) (ht : encode t = g.bytes)
    (hline : ((universalNewlines s).splitOn '\n').countP isEnabled = 1)
    (hrule : (subn (matchPin p) id (universalNewlines t)).2 = 1)
    (hsource : d' (.conffile .source) =
      some ⟨encode (sourceText channel (universalNewlines s)).1, mode⟩)
    (hpin : d' (.conffile .pin) =
      some ⟨encode (pinText p channel (universalNewlines t)).1, mode'⟩) :
    Selected p channel d d' ↔ '\r' ∉ s ∧ '\r' ∉ t := by
  constructor
  · rintro ⟨f₁, f', g₁, g', hf₁, hf', hg₁, hg', hset, hset'⟩
    -- The files are the ones that are given.
    rw [hf, Option.some_inj] at hf₁
    rw [hg, Option.some_inj] at hg₁
    rw [hsource, Option.some_inj] at hf'
    rw [hpin, Option.some_inj] at hg'
    rw [← hf₁, ← hf', ← hs] at hset
    rw [← hg₁, ← hg', ← ht] at hset'
    exact ⟨hset.not_mem (not_mem_sourceText hline (not_mem_universalNewlines s)),
      hset'.not_mem (not_mem_pinText hrule (not_mem_universalNewlines t))⟩
  · rintro ⟨hcr, hcr'⟩
    rw [universalNewlines_eq_self.2 hcr] at hline hsource
    rw [universalNewlines_eq_self.2 hcr'] at hrule hpin
    refine ⟨f, _, g, _, hf, hsource, hg, hpin, ?_, ?_⟩
    · rw [← hs]
      exact sourceText_set hline hcr
    · rw [← ht]
      exact pinText_set hrule channel

/-- What is asked of two files that are read and have one rule each. -/
theorem atomic_iff_of_reads (hst : Reads faults p d s t) : Atomic faults newMode p channel d ↔
    if Spares faults .source ∧ Spares faults .pin then '\r' ∉ s ∧ '\r' ∉ t
    else RollsBack faults channel s t := by
  obtain ⟨f, hf, hs⟩ := hst.source
  obtain ⟨g, hg, ht⟩ := hst.pin
  have hs' := encode_of_decode hs
  have ht' := encode_of_decode ht
  obtain ⟨d', hrun, hsource, hpin⟩ := replaceBoth_run faults newMode
    (sourceText channel (universalNewlines s)).1 (pinText p channel (universalNewlines t)).1 hf hg
  rw [Atomic, switch_of_reads hst, runFrom_tryCatch, hrun]
  by_cases hspares : Spares faults .source ∧ Spares faults .pin
  · rw [if_pos hspares.1] at hsource
    rw [if_pos hspares] at hpin
    rw [if_pos hspares, if_pos hspares]
    exact selected_iff hf hs' hg ht' hst.one_line hst.one_rule hsource hpin
  · rw [if_neg hspares] at hpin
    rw [if_neg hspares, if_neg hspares]
    simp only [rollback_run]
    exact sameBytes_rolledBack hf hs' hg ht' hst.one_line hsource hpin

end Atomicity

/-- A switch is atomic exactly where what it writes is what it has read, but for the rules. -/
theorem switch_atomic_iff (channel : Channel) (d : Disk) :
    Atomic faults newMode p channel d ↔ Restorable faults p channel d := by
  by_cases hreads : ∃ s t, Reads faults p d s t
  · obtain ⟨s, t, hst⟩ := hreads
    rw [atomic_iff_of_reads hst]
    constructor
    · intro h s₁ t₁ h₁
      obtain ⟨rfl, rfl⟩ := hst.unique h₁
      exact h
    · intro h
      exact h s t hst
  · simp only [not_exists] at hreads
    obtain ⟨e, hrun⟩ := switch_of_not_reads newMode channel hreads
    rw [Atomic, hrun]
    exact ⟨fun _ s t h => absurd h (hreads s t), fun _ _ => rfl⟩

/-- A source whose lines end in `\r\n`. -/
def crlfDisk : Disk
  | .conffile .source => some ⟨encode "Enabled: no\r\nTypes: deb\r\n".toList, 0o644⟩
  | .conffile .pin => some ⟨encode (pinRule ++ "-1\n".toList), 0o644⟩
  | .temporary _ => none

/-- The temporary file of the source cannot be opened: the source loses its carriage returns. -/
theorem not_switch_atomic :
    ¬∀ faults newMode p channel d, Atomic faults newMode p channel d := by
  intro h
  have hatomic := h (fun op => if op = .opens (.temporary .source) then some 0 else none) 0o644
    fixturePlatform .experimental crlfDisk
  rw [atomic_iff_of_reads ⟨rfl, rfl, ⟨_, rfl, decode_encode _⟩, ⟨_, rfl, decode_encode _⟩,
    by decide, by decide⟩, if_neg (by decide)] at hatomic
  exact absurd (hatomic.source rfl).1 (by decide)

end W132d.Release.Switch
