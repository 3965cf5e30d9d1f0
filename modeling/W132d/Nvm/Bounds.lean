import W132d.Nvm.Parse

/-!
# What the radio configuration writes to

For any file, the words have to have room in the arrays of `get_cmd_par`, each value has to be a
number, and a line may write only to the member that its key names.

* `Inside`: a write is in what a key names;
* `Bounded`: all this holds of what is read from a file;
* `LineOk`: what a line has to be like, and `wifiNvmBufOperate_bounded_iff`: it is exactly this.

How the theorem is proved: what the parser takes from a line is known in terms of its words
(`W132d.Nvm.Parse`), and so is what it writes, in terms of the row of the table (`mem_lineWrites`).
A write is inside of the member of its key exactly if there are no more values than elements
(`inside_iff`); the keys that have the offset of another member write outside as soon as there is a
value. The values are numbers exactly if all words are (`values_iff`). Each of these is a condition
on one line, and the lines of a file are read one by one.
-/

namespace W132d.Nvm

variable {e : NvmName} {cmd : Cmd} {w : Write} {buf : List UInt8} {junk : ℕ → ℤ} {conf : ℕ → UInt8}

/-! ## The writes of a line -/

/-- Where the part of the record begins that a key names. `rf_config` names a structure with the
    length of its data. -/
def NvmName.first (e : NvmName) : ℕ :=
  if e.itm = rfConfig then Member.rfDataLen.offset else e.names.offset

/-- A write is in the part of the record that a key names. -/
def Inside (e : NvmName) (w : Write) : Prop :=
  e.first ≤ w.pos ∧ w.pos + w.bytes.length ≤ e.names.offset + e.names.size

theorem inside_mk {pos : ℕ} {bytes : List UInt8} :
    Inside e ⟨pos, bytes⟩ ↔ e.first ≤ pos ∧ pos + bytes.length ≤ e.names.offset + e.names.size :=
  Iff.rfl

theorem cfTableMatch_eq_some : cfTableMatch cmd = some e ↔ e ∈ gConfigTable ∧ e.itm = cmd.itm := by
  rw [cfTableMatch]
  constructor
  · intro h
    exact ⟨List.mem_of_find?_eq_some h, by simpa using List.find?_some h⟩
  · rintro ⟨he, hitm⟩
    cases h : gConfigTable.find? fun e => e.itm = cmd.itm with
    | none => exact absurd hitm (by simpa using List.find?_eq_none.1 h e he)
    | some e' =>
      have hitm' : e'.itm = cmd.itm := by simpa using List.find?_some h
      rw [List.inj_on_of_nodup_map nodup_itm (List.mem_of_find?_eq_some h) he
        (hitm'.trans hitm.symm)]

theorem type_mem : ∀ e ∈ gConfigTable, e.type = 1 ∨ e.type = 2 ∨ e.type = 4 := by decide +kernel

/-- The writes of a line, if its key is in the table. -/
theorem mem_lineWrites (h : cfTableMatch cmd = some e) :
    w ∈ lineWrites cmd ↔
      (∃ i, ∃ hi : i < cmd.par.length,
        ⟨e.memOffset + i * e.type, Layout.leBytes e.type cmd.par[i].value⟩ = w) ∨
      e.itm = rfConfig ∧ w = ⟨Member.rfDataLen.offset, Layout.leBytes 4 cmd.par.length⟩ := by
  have htype := type_mem e (cfTableMatch_eq_some.1 h).1
  rw [lineWrites, h]
  show w ∈ wifiNvmSetCmd e cmd ++ _ ↔ _
  rw [wifiNvmSetCmd, if_neg (by omega), List.mem_append, List.mem_mapIdx]
  refine or_congr_right ?_
  split_ifs with hrf
  · rw [List.mem_singleton, and_iff_right hrf]
  · exact iff_of_false List.not_mem_nil fun h => hrf h.1

theorem size_pos (m : Member) : 0 < m.size := by
  cases m <;> simp [Member.size, Member.count, Member.width]

theorem names_swapped : ∀ e ∈ gConfigTable, e.itm ∈ swapped →
    e.itm ≠ rfConfig ∧ e.names ≠ e.member := by decide +kernel

theorem rfConfig_eq : ∀ e ∈ gConfigTable, e.itm = rfConfig → e.names = .rfData := by
  decide +kernel

theorem rfData_offset : Member.rfData.offset = Member.rfDataLen.offset + 4 := by decide +kernel

theorem first_le (he : e ∈ gConfigTable) : e.first ≤ e.names.offset := by
  rw [NvmName.first]
  split_ifs with hrf
  · rw [rfConfig_eq e he hrf, rfData_offset]
    exact Nat.le_add_right _ _
  · exact le_rfl

/-- The values of a line have room in the member that its key names, unless it is another one that
    they are written to. -/
theorem inside_iff (h : cfTableMatch cmd = some e) :
    (∀ w ∈ lineWrites cmd, Inside e w) ↔
      cmd.par.length ≤ e.names.count ∧ (e.itm ∈ swapped → cmd.par = []) := by
  have he := (cfTableMatch_eq_some.1 h).1
  have htype := type_mem e he
  have hwidth := type_eq e he
  by_cases hsw : e.itm ∈ swapped
  · -- The key has the offset of another member, so that no value is in its own.
    obtain ⟨hrf, hne⟩ := names_swapped e he hsw
    have hfirst : e.first = e.names.offset := if_neg hrf
    constructor
    · intro hw
      have hnil : cmd.par = [] := by
        by_contra hpar
        have hlen := List.length_pos_iff.2 hpar
        have hw := hw _ ((mem_lineWrites h).2 (.inl ⟨0, hlen, rfl⟩))
        rw [inside_mk, hfirst, NvmName.memOffset, Nat.zero_mul, Nat.add_zero,
          Layout.length_leBytes] at hw
        have hpos := size_pos e.member
        have hdisj := disjoint hne
        omega
      rw [hnil]
      exact ⟨Nat.zero_le _, fun _ => rfl⟩
    · rintro ⟨_, hnil⟩ w hw
      rcases (mem_lineWrites h).1 hw with ⟨i, hi, _⟩ | ⟨hrf', _⟩
      · rw [hnil hsw] at hi
        exact absurd hi (Nat.not_lt_zero i)
      · exact absurd hrf' hrf
  · have hnames := names_eq e he hsw
    have hsize : e.names.size = e.names.count * e.type := by rw [Member.size, hnames, hwidth]
    constructor
    · intro hw
      refine ⟨?_, fun hmem => absurd hmem hsw⟩
      by_contra hlen
      have hw := hw _ ((mem_lineWrites h).2 (.inl ⟨_, Nat.not_le.1 hlen, rfl⟩))
      rw [inside_mk, NvmName.memOffset, ← hnames, Layout.length_leBytes, hsize] at hw
      omega
    · rintro ⟨hlen, _⟩ w hw
      rcases (mem_lineWrites h).1 hw with ⟨i, hi, rfl⟩ | ⟨hrf, rfl⟩
      · have hfirst := first_le he
        have hmul : (i + 1) * e.type ≤ e.names.count * e.type := Nat.mul_le_mul_right _ (by omega)
        rw [Nat.succ_mul] at hmul
        rw [inside_mk, NvmName.memOffset, ← hnames, Layout.length_leBytes, hsize]
        omega
      · rw [inside_mk, NvmName.first, if_pos hrf, rfConfig_eq e he hrf, Layout.length_leBytes,
          rfData_offset]
        omega

/-! ## Files -/

/-- Everything that is read from a file stays in its array, is a number, and is written to the
    member that its key names. -/
def Bounded (buf : List UInt8) (junk : ℕ → ℤ) (conf : ℕ → UInt8) : Prop :=
  ∃ cmds conf', wifiNvmBufOperate buf junk conf = .ok (cmds, conf') ∧ ∀ cmd ∈ cmds,
    (∀ p ∈ cmd.par, ∃ n, kstrtol p.word = some n ∧ p.value = (n % 2 ^ 32).toNat) ∧
      ∀ e, cfTableMatch cmd = some e → ∀ w ∈ lineWrites cmd, Inside e w

/-- What a line has to be like, given its words. -/
structure LineOk (ws : List (List UInt8)) : Prop where
  fits : Fits ws
  number : ∀ word ∈ params ws, kstrtol word ≠ none
  named : ∀ e ∈ gConfigTable, e.itm = item ws →
    (params ws).length ≤ e.names.count ∧ (e.itm ∈ swapped → params ws = [])

variable {val : ℤ} {ws : List (List UInt8)}

@[simp] theorem length_values (val : ℤ) (ws : List (List UInt8)) :
    (values val ws).length = ws.length := by
  induction ws generalizing val with
  | nil => rfl
  | cons word ws ih => rw [values, List.length_cons, List.length_cons, ih]

/-- The values are those of their words iff all of these are numbers. -/
theorem values_iff :
    (∀ p ∈ values val ws, ∃ n, kstrtol p.word = some n ∧ p.value = (n % 2 ^ 32).toNat) ↔
      ∀ word ∈ ws, kstrtol word ≠ none := by
  induction ws generalizing val with
  | nil => exact iff_of_true (List.forall_mem_nil _) (List.forall_mem_nil _)
  | cons word ws ih =>
    rw [values, List.forall_mem_cons, List.forall_mem_cons, ih]
    refine and_congr_left fun _ => ?_
    cases h : kstrtol word with
    | none => simp
    | some n => simp

/-- What is taken from a line is bounded iff the line is as it has to be. -/
theorem lineOk_iff {l : ℕ × List UInt8} (hfits : Fits (words (uncommented l.2))) :
    ((∀ p ∈ (cmdOf junk l).par, ∃ n, kstrtol p.word = some n ∧ p.value = (n % 2 ^ 32).toNat) ∧
      ∀ e, cfTableMatch (cmdOf junk l) = some e → ∀ w ∈ lineWrites (cmdOf junk l), Inside e w) ↔
        LineOk (words (uncommented l.2)) := by
  have hlen : (cmdOf junk l).par.length = (params (words (uncommented l.2))).length :=
    length_values _ _
  have hnil : (cmdOf junk l).par = [] ↔ params (words (uncommented l.2)) = [] := by
    rw [← List.length_eq_zero_iff, hlen, List.length_eq_zero_iff]
  constructor
  · rintro ⟨hnumber, hinside⟩
    refine ⟨hfits, values_iff.1 hnumber, fun e he hitm => ?_⟩
    have hmatch : cfTableMatch (cmdOf junk l) = some e := cfTableMatch_eq_some.2 ⟨he, hitm⟩
    rw [← hlen, ← hnil]
    exact (inside_iff hmatch).1 (hinside e hmatch)
  · intro h
    refine ⟨values_iff.2 h.number, fun e hmatch => ?_⟩
    obtain ⟨he, hitm⟩ := cfTableMatch_eq_some.1 hmatch
    rw [inside_iff hmatch, hlen, hnil]
    exact h.named e he hitm

/-- A file is read as it should be iff each line is as it has to be. -/
theorem wifiNvmBufOperate_bounded_iff (buf : List UInt8) (junk : ℕ → ℤ) (conf : ℕ → UInt8) :
    Bounded buf junk conf ↔ ∀ l ∈ linesOf buf, LineOk (words (uncommented l.2)) := by
  simp only [Bounded, wifiNvmBufOperate_eq_ok, Prod.mk.injEq]
  constructor
  · rintro ⟨_, _, ⟨hfits, rfl, rfl⟩, hcmds⟩ l hl
    exact (lineOk_iff (hfits l hl)).1 (hcmds _ (List.mem_map_of_mem hl))
  · intro h
    refine ⟨_, _, ⟨fun l hl => (h l hl).fits, rfl, rfl⟩, ?_⟩
    rw [List.forall_mem_map]
    exact fun l hl => (lineOk_iff (h l hl).fits).2 (h l hl)

/-- A word of 128 characters has no room. -/
theorem wifiNvmBufOperate_not_bounded :
    ¬∀ (buf : List UInt8) (junk : ℕ → ℤ) (conf : ℕ → UInt8), Bounded buf junk conf := by
  intro h
  obtain ⟨cmds, conf', hok, _⟩ := h (List.replicate 128 97 ++ [10]) (fun _ => 0) fun _ => 0
  obtain ⟨hfits, _⟩ := wifiNvmBufOperate_eq_ok.1 hok
  have hline := hfits (0, List.replicate 128 97) (by decide +kernel)
  have hlen := hline.tmp (List.replicate 128 97) (by decide +kernel)
  rw [List.length_replicate] at hlen
  exact lt_irrefl _ hlen

end W132d.Nvm
