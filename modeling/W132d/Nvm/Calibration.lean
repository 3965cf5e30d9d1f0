import W132d.Nvm.Bounds
import W132d.Nvm.Numeral
import W132d.Nvm.Record

/-!
# What the keys of the radio configuration set

A configuration file has lines that assign values to a key, each key at most once, and lines that
have no key: titles and comments. What is written for a key should be its values, to the member that
it names, and nothing else.

* `Config`: such a file;
* `Calibrated`: every member that is named has the values of its line, and the others are unchanged;
* `Readable`: the words of each line have room, and the two keys with the offset of another member
  have no values;
* `independent_iff_readable`: a file sets what its keys name exactly if it is readable.

The table of the driver (`W132d.Nvm.Table`) gives for each key a member of the record, by an offset
and the number and the size of its elements. Two keys have the offset of another row. What a line is
meant to set is the member that its key names, so that the theorem compares the record of the parser
with the lines themselves, not with the table.

How the theorem is proved: the parser of `W132d.Nvm.Parse` splits the file into lines and words,
with room for so many of them. The words of a line are the ones that it was written from
(`Assign.words_text`), and each is read as the number it is (`Assign.kstrtol_value`). So the file
writes a known list of elements (`Config.elems`). Members do not overlap (`W132d.Layout`), and each
key is in one line, so that each element is written by one value, unless the offset is that of
another member (`calibrated`, `values_eq_nil`).
-/

namespace W132d.Nvm

open Literal

/-! ## Configuration files -/

/-- A value of a line. -/
structure Value where
  text : List UInt8
  number : ℤ
  denotes : Denotes text number

/-- A line `key = v₁,…,vₙ`. -/
structure Assign where
  key : NvmName
  mem_table : key ∈ gConfigTable
  values : List Value
  count : values.length ≤ key.names.count
  inRange : ∀ i, ∀ h : i < values.length, key.names.InRange i values[i].number

/-- A line without a key: a title, a comment or a blank. -/
structure Other where
  text : List UInt8
  no_end : ∀ c ∈ text, ¬isEnd c
  no_key : ∀ e ∈ gConfigTable, e.itm ≠ item (words (uncommented text))

/-- A line, which ends with a newline that may have a carriage return in front. -/
inductive Line
  | assign (a : Assign) (cr : Bool)
  | other (o : Other) (cr : Bool)

/-- A line that assigns values to an item, as it is written. -/
def Assign.text (a : Assign) : List UInt8 := assignment a.key.itm (a.values.map Value.text)

def Line.text : Line → List UInt8
  | assign a _ => a.text
  | other o _ => o.text

def Line.ending : Line → List UInt8
  | assign _ cr | other _ cr => if cr then [13, 10] else [10]

/-- What a line assigns, if it does. -/
def Line.assign? : Line → Option Assign
  | assign a _ => some a
  | other _ _ => none

/-- A configuration file. -/
structure Config where
  lines : List Line
  distinct : ((lines.filterMap Line.assign?).map fun a => a.key.itm).Nodup

namespace Config

/-- The bytes of the file. -/
def bytes (f : Config) : List UInt8 := f.lines.flatMap fun l => l.text ++ l.ending

def assigns (f : Config) : List Assign := f.lines.filterMap Line.assign?

end Config

/-- Every member that a key names has the values of its line, `rf_config` with their number, and
    every other element is unchanged. -/
structure Calibrated (f : Config) (conf conf' : ℕ → UInt8) : Prop where
  named : ∀ a ∈ f.assigns, ∀ i, ∀ h : i < a.values.length,
    a.key.names.get conf' i = a.values[i].number
  length : ∀ a ∈ f.assigns, a.key.itm = rfConfig →
    Member.rfDataLen.get conf' 0 = a.values.length
  unchanged : ∀ m i, i < m.count → (∀ a ∈ f.assigns, a.key.names = m → a.values.length ≤ i) →
    (m = .rfDataLen → ∀ a ∈ f.assigns, a.key.itm ≠ rfConfig) → m.get conf' i = m.get conf i

/-- The keys of a file set what they name, and nothing else. -/
def Independent (f : Config) : Prop :=
  ∀ (junk : ℕ → ℤ) (conf : ℕ → UInt8), ∃ cmds conf',
    wifiNvmBufOperate f.bytes junk conf = .ok (cmds, conf') ∧ Calibrated f conf conf'

/-- The words of a line have room, and no key has the offset of another member. -/
def Line.Readable : Line → Prop
  | assign a _ =>
    (∀ v ∈ a.values, v.text.length < tmpSize) ∧ a.values.length ≤ parSize ∧
      (a.key.itm ∈ swapped → a.values = [])
  | other o _ => 5 ≤ o.text.length → Fits (words (uncommented o.text))

/-- All its lines fit. -/
def Readable (f : Config) : Prop := ∀ l ∈ f.lines, l.Readable

/-! ## Lines -/

variable {f : Config} {a a' : Assign} {o : Other} {l : Line} {e : NvmName} {junk : ℕ → ℤ} {p : ℕ}
  {line rest : List UInt8} {c : UInt8} {cr : Bool}

/-- The items of the table are words that fit. -/
theorem key_spec : ∀ e ∈ gConfigTable, (e.itm ≠ [] ∧ ∀ c ∈ e.itm, isWord c) ∧ isItem e.itm ∧
    5 ≤ e.itm.length ∧ e.itm.length < itmSize := by decide +kernel

/-- A value is a word. -/
theorem Value.isWord (v : Value) : v.text ≠ [] ∧ ∀ c ∈ v.text, isWord c :=
  ⟨denotes_ne_nil v.denotes, isWord_of_denotes v.denotes⟩

theorem Assign.isWord_values (a : Assign) :
    ∀ s ∈ a.values.map Value.text, s ≠ [] ∧ ∀ c ∈ s, isWord c :=
  List.forall_mem_map.2 fun v _ => v.isWord

/-- A line has the item and the values as its words. -/
theorem Assign.words_text (a : Assign) :
    words (uncommented a.text) = a.key.itm :: a.values.map Value.text :=
  words_assignment (key_spec a.key a.mem_table).1 a.isWord_values

/-- Its first word is the item. -/
theorem Assign.item_text (a : Assign) : item (words (uncommented a.text)) = a.key.itm := by
  rw [a.words_text, item, List.find?_cons_of_pos (key_spec a.key a.mem_table).2.1,
    Option.getD_some]

theorem Assign.params_text (a : Assign) :
    params (words (uncommented a.text)) = a.values.map Value.text := by
  rw [a.words_text, params, List.eraseP_cons_of_pos (key_spec a.key a.mem_table).2.1]

/-- No line has the end of a line inside. -/
theorem Line.no_end (l : Line) : ∀ c ∈ l.text, ¬isEnd c := by
  cases l with
  | assign a _ =>
    have hchar := findType_of_mem_assignment (key_spec a.key a.mem_table).1.2
      fun s hs => (a.isWord_values s hs).2
    exact fun c hc hend => hchar c hc (findType_of_isEnd hend)
  | other o _ => exact o.no_end

/-- The bytes up to an end are a line. -/
theorem linesFrom_append (h : ∀ c ∈ line, ¬isEnd c) (tmp : List UInt8) (hc : isEnd c) :
    linesFrom p tmp (line ++ c :: rest) =
      (p, tmp ++ line) :: linesFrom (p + (tmp ++ line).length + 1) [] rest := by
  induction line generalizing tmp with
  | nil => rw [List.nil_append, List.append_nil, linesFrom, if_pos hc]
  | cons d line ih =>
    rw [List.forall_mem_cons] at h
    rw [List.cons_append, linesFrom, if_neg h.1, ih h.2, List.append_assoc, List.singleton_append]

/-- The lines that are read of a file, one by one. -/
theorem exists_linesFrom (l : Line) (p : ℕ) (rest : List UInt8) :
    ∃ p', (linesFrom p [] (l.text ++ l.ending ++ rest)).filter (fun l => 5 ≤ l.2.length) =
      [(p, l.text)].filter (fun l => 5 ≤ l.2.length) ++
        (linesFrom p' [] rest).filter fun l => 5 ≤ l.2.length := by
  have hending : l.ending = [10] ∨ l.ending = [13, 10] := by
    cases l <;> rw [Line.ending] <;> split_ifs <;> simp
  rcases hending with h | h
  · rw [h, List.append_assoc, List.singleton_append, linesFrom_append l.no_end [] (by decide),
      List.nil_append, ← List.singleton_append, List.filter_append]
    exact ⟨_, rfl⟩
  · rw [h, List.append_assoc, List.cons_append, linesFrom_append l.no_end [] (by decide),
      List.nil_append, ← List.singleton_append, List.filter_append]
    refine ⟨p + l.text.length + 1 + 0 + 1, congrArg _ ?_⟩
    rw [List.singleton_append, linesFrom, if_pos (by decide), List.filter_cons_of_neg (by simp)]
    rfl

/-- The words of the lines that are read have room iff those of each line have that is long
    enough. -/
theorem forall_linesOf (f : Config) :
    (∀ x ∈ linesOf f.bytes, Fits (words (uncommented x.2))) ↔
      ∀ l ∈ f.lines, 5 ≤ l.text.length → Fits (words (uncommented l.text)) := by
  rw [linesOf, Config.bytes]
  generalize 0 = p
  induction f.lines generalizing p with
  | nil => exact iff_of_true (List.forall_mem_nil _) (List.forall_mem_nil _)
  | cons l ls ih =>
    obtain ⟨p', hp'⟩ := exists_linesFrom l p (ls.flatMap fun l => l.text ++ l.ending)
    rw [List.flatMap_cons, hp', List.forall_mem_append, ih, List.forall_mem_cons]
    refine and_congr_left fun _ => ?_
    by_cases hlen : 5 ≤ l.text.length
    · rw [List.filter_cons_of_pos (by simpa using hlen), List.filter_nil,
        List.forall_mem_singleton]
      exact ⟨fun h _ => h, fun h => h hlen⟩
    · rw [List.filter_cons_of_neg (by simpa using hlen)]
      exact iff_of_true (List.forall_mem_nil _) fun h => absurd h hlen

/-- A line that assigns something has five bytes at least. -/
theorem Assign.le_length_text (a : Assign) : 5 ≤ a.text.length := by
  obtain ⟨_, _, hlen, _⟩ := key_spec a.key a.mem_table
  rw [Assign.text, assignment, List.length_append, List.length_append]
  omega

/-- The words of an assignment have room. -/
theorem Assign.fits_iff (a : Assign) :
    Fits (words (uncommented a.text)) ↔
      (∀ v ∈ a.values, v.text.length < tmpSize) ∧ a.values.length ≤ parSize := by
  obtain ⟨_, _, _, hkey⟩ := key_spec a.key a.mem_table
  have hlt : a.key.itm.length < tmpSize := hkey.trans (by decide)
  constructor
  · rintro ⟨htmp, _, hpar⟩
    rw [a.words_text, List.forall_mem_cons, List.forall_mem_map] at htmp
    rw [a.params_text, List.length_map] at hpar
    exact ⟨htmp.2, hpar⟩
  · rintro ⟨htmp, hpar⟩
    refine ⟨?_, ?_, ?_⟩
    · rw [a.words_text, List.forall_mem_cons, List.forall_mem_map]
      exact ⟨hlt, htmp⟩
    · rw [a.item_text]
      exact hkey
    · rw [a.params_text, List.length_map]
      exact hpar

/-! ## What is written -/

/-- The elements that are written for a line. -/
def Assign.elems (a : Assign) : List Elem :=
  (a.values.mapIdx fun i v => ⟨a.key.member, i, (v.number % 2 ^ 32).toNat⟩) ++
    if a.key.itm = rfConfig then [⟨.rfDataLen, 0, a.values.length⟩] else []

/-- The elements that the file writes. -/
def Config.elems (f : Config) : List Elem := f.assigns.flatMap Assign.elems

/-- A number in the range of an element is in that of a `long`. -/
theorem long_of_inRange {m : Member} {i : ℕ} {n : ℤ} (h : m.InRange i n) :
    -2 ^ 63 ≤ n ∧ n < 2 ^ 63 := by
  rw [Member.InRange] at h
  rcases width_mem m with hw | hw | hw <;> rw [hw] at h <;> split_ifs at h <;> omega

/-- Each value of a line is read as the number it is. -/
theorem Assign.kstrtol_value (a : Assign) : ∀ v ∈ a.values, kstrtol v.text = some v.number := by
  intro v hv
  obtain ⟨i, hi, rfl⟩ := List.getElem_of_mem hv
  exact kstrtol_of_denotes a.values[i].denotes (long_of_inRange (a.inRange i hi))

theorem values_map {vs : List Value} (val : ℤ) (h : ∀ v ∈ vs, kstrtol v.text = some v.number) :
    values val (vs.map Value.text) = vs.map fun v => ⟨v.text, (v.number % 2 ^ 32).toNat⟩ := by
  induction vs generalizing val with
  | nil => rfl
  | cons v vs ih =>
    rw [List.forall_mem_cons] at h
    rw [List.map_cons, List.map_cons, values, h.1, Option.getD_some, ih _ h.2]

/-- A line writes its elements. -/
theorem lineWrites_assign (a : Assign) (junk : ℕ → ℤ) (p : ℕ) :
    lineWrites (cmdOf junk (p, a.text)) = a.elems.map Elem.write := by
  have hmatch : cfTableMatch (cmdOf junk (p, a.text)) = some a.key :=
    cfTableMatch_eq_some.2 ⟨a.mem_table, a.item_text.symm⟩
  have hpar : (cmdOf junk (p, a.text)).par =
      a.values.map fun v => ⟨v.text, (v.number % 2 ^ 32).toNat⟩ := by
    rw [cmdOf, a.params_text]
    exact values_map _ a.kstrtol_value
  have htype := type_mem a.key a.mem_table
  rw [lineWrites, hmatch]
  show wifiNvmSetCmd a.key _ ++ _ = _
  rw [wifiNvmSetCmd, if_neg (by omega), type_eq a.key a.mem_table, hpar, Assign.elems,
    List.map_append, List.length_map]
  refine congrArg₂ (· ++ ·) (List.ext_getElem ?_ fun i _ _ => ?_) ?_
  · rw [List.length_mapIdx, List.length_map, List.length_map, List.length_mapIdx]
  · rw [List.getElem_mapIdx, List.getElem_map, List.getElem_map, List.getElem_mapIdx]
    rfl
  · split_ifs
    · rw [List.map_singleton, Elem.write, Nat.zero_mul, Nat.add_zero]
      rfl
    · rfl

theorem lineWrites_other (o : Other) (junk : ℕ → ℤ) (p : ℕ) :
    lineWrites (cmdOf junk (p, o.text)) = [] := by
  have hmatch : cfTableMatch (cmdOf junk (p, o.text)) = none :=
    List.find?_eq_none.2 fun e he h => o.no_key e he (of_decide_eq_true h)
  rw [lineWrites, hmatch]

/-- What is written for a file. -/
theorem flatMap_lineWrites (f : Config) (junk : ℕ → ℤ) :
    ((linesOf f.bytes).map (cmdOf junk)).flatMap lineWrites = f.elems.map Elem.write := by
  rw [linesOf, Config.bytes, Config.elems, Config.assigns]
  generalize 0 = p
  induction f.lines generalizing p with
  | nil => rfl
  | cons l ls ih =>
    obtain ⟨p', hp'⟩ := exists_linesFrom l p (ls.flatMap fun l => l.text ++ l.ending)
    rw [List.flatMap_cons, hp', List.map_append, List.flatMap_append, ih]
    cases l with
    | assign a cr =>
      have hlen : 5 ≤ (Line.assign a cr).text.length := a.le_length_text
      have hassign : (Line.assign a cr).assign? = some a := rfl
      rw [List.filter_cons_of_pos (by simpa using hlen), List.filter_nil, List.map_singleton,
        List.flatMap_singleton, Line.text, lineWrites_assign, List.filterMap_cons_some hassign,
        List.flatMap_cons, List.map_append]
    | other o cr =>
      rw [List.filterMap_cons_none rfl]
      by_cases hlen : 5 ≤ (Line.other o cr).text.length
      · rw [List.filter_cons_of_pos (by simpa using hlen), List.filter_nil, List.map_singleton,
          List.flatMap_singleton, Line.text, lineWrites_other, List.nil_append]
      · rw [List.filter_cons_of_neg (by simpa using hlen)]
        rfl

/-! ## The members afterwards -/

/-- A name has as many elements as its member. -/
theorem names_count : ∀ e ∈ gConfigTable, e.names.count = e.member.count := by decide +kernel

/-- No item writes the length of the data. -/
theorem member_ne : ∀ e ∈ gConfigTable, e.member ≠ .rfDataLen := by decide +kernel

/-- No key has the offset of the row that a swapped key names. -/
theorem member_ne_names : ∀ e ∈ gConfigTable, e.itm ∈ swapped →
    e.names ≠ .rfDataLen ∧ ∀ e' ∈ gConfigTable, e'.member ≠ e.names := by decide +kernel

/-- The names of the items that are swapped have different elements. -/
theorem get_const : ∀ e ∈ gConfigTable, e.itm ∈ swapped →
    e.names.get (fun _ => 0) 0 ≠ e.names.get (fun _ => 1) 0 := by decide +kernel

variable {x y : Elem} {i : ℕ} {conf : ℕ → UInt8}

/-- An element of the file is a value of a line, or the length of the data. -/
theorem mem_elems :
    x ∈ f.elems ↔ ∃ a ∈ f.assigns,
      (∃ i, ∃ h : i < a.values.length,
        ⟨a.key.member, i, (a.values[i].number % 2 ^ 32).toNat⟩ = x) ∨
      a.key.itm = rfConfig ∧ x = ⟨.rfDataLen, 0, a.values.length⟩ := by
  rw [Config.elems, List.mem_flatMap]
  refine exists_congr fun a => and_congr_right fun _ => ?_
  rw [Assign.elems, List.mem_append, List.mem_mapIdx]
  refine or_congr_right ?_
  split_ifs with hrf
  · rw [List.mem_singleton, and_iff_right hrf]
  · exact iff_of_false List.not_mem_nil fun h => hrf h.1

/-- The element that is written is inside of its member. -/
theorem index_lt (hx : x ∈ f.elems) : x.index < x.member.count := by
  obtain ⟨a, _, ⟨i, hi, rfl⟩ | ⟨_, rfl⟩⟩ := mem_elems.1 hx
  · have hcount := a.count
    rw [names_count a.key a.mem_table] at hcount
    exact hi.trans_le hcount
  · exact Nat.zero_lt_one

/-- Each key is in one line. -/
theorem eq_of_itm_eq (ha : a ∈ f.assigns) (ha' : a' ∈ f.assigns) (h : a.key.itm = a'.key.itm) :
    a = a' := List.inj_on_of_nodup_map f.distinct ha ha' h

/-- The members that lines with values are written to are different. -/
theorem eq_of_member_eq (ha : a ∈ f.assigns) (ha' : a' ∈ f.assigns) (hsw : a.key.itm ∉ swapped)
    (hsw' : a'.key.itm ∉ swapped) (h : a.key.member = a'.key.member) : a = a' := by
  rw [← names_eq a.key a.mem_table hsw, ← names_eq a'.key a'.mem_table hsw'] at h
  have hkey := List.inj_on_of_nodup_map nodup_names a.mem_table a'.mem_table h
  exact eq_of_itm_eq ha ha' (by rw [hkey])

/-- What is written is what the keys name, if no key has the offset of another member. -/
theorem calibrated (h : ∀ a ∈ f.assigns, a.key.itm ∈ swapped → a.values = [])
    (conf : ℕ → UInt8) : Calibrated f conf (store conf (f.elems.map Elem.write)) := by
  have hsw : ∀ a ∈ f.assigns, ∀ i < a.values.length, a.key.itm ∉ swapped := by
    intro a ha i hi hsw
    rw [h a ha hsw] at hi
    exact Nat.not_lt_zero i hi
  -- In turn: what the keys name, the length of the data, and what no key names.
  refine ⟨fun a ha i hi => ?_, fun a ha hrf => ?_, fun m i hi hnamed hlen => ?_⟩
  · have hnames := names_eq a.key a.mem_table (hsw a ha i hi)
    refine get_of_numAt_eq (a.inRange i hi) ?_
    rw [hnames]
    refine numAt_store_of_mem (x := ⟨a.key.member, i, (a.values[i].number % 2 ^ 32).toNat⟩)
      (fun _ => index_lt) (mem_elems.2 ⟨a, ha, .inl ⟨i, hi, rfl⟩⟩) ?_
    intro y hy hmember hindex
    obtain ⟨a', ha', ⟨i', hi', rfl⟩ | ⟨_, rfl⟩⟩ := mem_elems.1 hy
    · have heq := eq_of_member_eq ha' ha (hsw a' ha' i' hi') (hsw a ha i hi) hmember
      subst heq
      have hindex : i' = i := hindex
      subst hindex
      rfl
    · exact absurd hmember.symm (member_ne a.key a.mem_table)
  · have hcount := a.count
    rw [rfConfig_eq a.key a.mem_table hrf] at hcount
    have hcount : a.values.length ≤ 1500 := hcount
    refine get_of_numAt_eq ?_ ?_
    · rw [Member.InRange, if_pos (show Member.rfDataLen.signed 0 = true from rfl)]
      show -256 ^ 4 ≤ _ ∧ _ < (256 : ℤ) ^ 4
      omega
    · refine (numAt_store_of_mem (x := ⟨.rfDataLen, 0, a.values.length⟩) (fun _ => index_lt)
        (mem_elems.2 ⟨a, ha, .inr ⟨hrf, rfl⟩⟩) ?_).trans ?_
      · intro y hy hmember _
        obtain ⟨a', ha', ⟨i', _, rfl⟩ | ⟨hrf', rfl⟩⟩ := mem_elems.1 hy
        · exact absurd hmember (member_ne a'.key a'.mem_table)
        · rw [eq_of_itm_eq ha' ha (hrf'.trans hrf.symm)]
      · show a.values.length % 256 ^ 4 = _ % 256 ^ 4
        omega
  · refine get_store_of_forall_ne hi (fun _ => index_lt) ?_
    rintro x hx ⟨hmember, hindex⟩
    obtain ⟨a, ha, ⟨i', hi', rfl⟩ | ⟨hrf, rfl⟩⟩ := mem_elems.1 hx
    · have hnames := names_eq a.key a.mem_table (hsw a ha i' hi')
      have hle := hnamed a ha (hnames.trans hmember)
      have hindex : i' = i := hindex
      omega
    · exact hlen hmember.symm a ha hrf

/-- A file that sets what its keys name has no values for a key with the offset of another
    member. -/
theorem values_eq_nil (h : Independent f) (ha : a ∈ f.assigns) (hsw : a.key.itm ∈ swapped) :
    a.values = [] := by
  by_contra hne
  have hpos := List.length_pos_iff.2 hne
  obtain ⟨hlen, hmember⟩ := member_ne_names a.key a.mem_table hsw
  have hget : ∀ conf, a.key.names.get conf 0 = a.values[0].number := by
    intro conf
    obtain ⟨cmds, conf', hok, hcal⟩ := h (fun _ => 0) conf
    obtain ⟨_, heq⟩ := wifiNvmBufOperate_eq_ok.1 hok
    rw [flatMap_lineWrites, Prod.mk.injEq] at heq
    rw [← hcal.named a ha 0 hpos, heq.2]
    refine (get_store_of_forall_ne (hpos.trans_le a.count) (fun _ => index_lt) ?_).symm
    rintro x hx ⟨heq, _⟩
    obtain ⟨a', _, ⟨i, _, rfl⟩ | ⟨_, rfl⟩⟩ := mem_elems.1 hx
    · exact hmember a'.key a'.mem_table heq
    · exact hlen heq.symm
  exact get_const a.key a.mem_table hsw ((hget _).trans (hget _).symm)

/-- The keys of a file set what they name, and nothing else, iff the words of each line have room
    and no key has the offset of another member. -/
theorem independent_iff_readable (f : Config) : Independent f ↔ Readable f := by
  constructor
  · intro h l hl
    obtain ⟨cmds, conf', hok, _⟩ := h (fun _ => 0) fun _ => 0
    have hfits := (forall_linesOf f).1 (wifiNvmBufOperate_eq_ok.1 hok).1 l hl
    cases l with
    | assign a cr =>
      obtain ⟨htmp, hpar⟩ := a.fits_iff.1 (hfits a.le_length_text)
      exact ⟨htmp, hpar, values_eq_nil h (List.mem_filterMap.2 ⟨_, hl, rfl⟩)⟩
    | other o cr => exact hfits
  · intro h junk conf
    have hfits : ∀ x ∈ linesOf f.bytes, Fits (words (uncommented x.2)) := by
      refine (forall_linesOf f).2 fun l hl hlen => ?_
      cases l with
      | assign a cr =>
        obtain ⟨htmp, hpar, _⟩ := h _ hl
        exact a.fits_iff.2 ⟨htmp, hpar⟩
      | other o cr => exact h _ hl hlen
    refine ⟨_, _, wifiNvmBufOperate_eq_ok.2 ⟨hfits, rfl⟩, ?_⟩
    rw [flatMap_lineWrites]
    refine calibrated (fun a ha => ?_) conf
    obtain ⟨l, hl, hassign⟩ := List.mem_filterMap.1 ha
    cases l with
    | assign a' cr =>
      cases hassign
      exact (h _ hl).2.2
    | other o cr => cases hassign

/-- The line `Chain1_153 = 1`. -/
def chain1Line : Assign where
  key := cfTab "Chain1_153" (.chain0 35) 1
  mem_table := by decide +kernel
  values := [⟨[49], 1, .pos (.decimal (by decide) (by decide) (by decide))⟩]
  count := by decide +kernel
  inRange := by
    intro i hi
    obtain rfl : i = 0 := Nat.lt_one_iff.1 hi
    have hnames : (cfTab "Chain1_153" (.chain0 35) 1).names = .chain1 35 := by decide +kernel
    have hone : -256 ^ 1 ≤ 2 * (1 : ℤ) ∧ 2 * (1 : ℤ) < 256 ^ 1 := by decide
    rw [hnames, Member.InRange, if_pos (show (Member.chain1 35).signed 0 = true from rfl)]
    exact hone

/-- The value of `Chain1_153` is written to the other chain. -/
theorem chain1Line_not_independent : ¬∀ f : Config, Independent f := by
  intro h
  have hnil := values_eq_nil (f := ⟨[.assign chain1Line false], List.nodup_singleton _⟩)
    (a := chain1Line) (h _) List.mem_cons_self (by decide +kernel)
  exact List.cons_ne_nil _ _ hnil

end W132d.Nvm
