import W132d.Flash.Segments

/-!
# The commands of a flash

* `Command.write?`, `writes`: the sectors that are written, and what is written there;
* `Command.changes`: the commands that change the device or what runs on it;
* `flash_emits`: what a flash issues, whatever the device replies.

A flash is a program that issues commands and goes on with their replies, which may be anything.
What it has issued is known from how it is put together: `Harmless` for the parts that write
nothing, and `Writes` for those that write a list of segments, or a first part of it where they
fail. Both are closed under one program after the other (`Writes.bind`), so that the loop over the
segments is an induction on them (`flashSegments_writes`), and the whole flash is put together from
its parts (`flash_writes`).

That the capacity was reported before the first write is a statement about prefixes: the commands
before a write contain the one that asked for the capacity (`flash_reported`).
-/

namespace W132d.Flash

open Prog

/-- The first sector and the contents that a command writes. -/
def Command.write? : Command → Option (ℤ × List UInt8)
  | .wl sector file => some (sector, file)
  | _ => none

/-- The commands that write to the device, give it a loader, or reset it. -/
def Command.changes : Command → Bool
  | .wl _ _ | .db _ | .rd _ => true
  | .ld | .rfi | .rl _ _ => false

/-- The writes of a sequence of commands. -/
def writes (cs : List Command) : List (ℤ × List UInt8) := cs.filterMap Command.write?

/-- The writes of two lists of commands are those of both. -/
theorem writes_append (cs cs' : List Command) : writes (cs ++ cs') = writes cs ++ writes cs' :=
  List.filterMap_append

/-- There are none if no command writes. -/
theorem writes_eq_nil {cs : List Command} : writes cs = [] ↔ ∀ c ∈ cs, c.write? = none :=
  List.filterMap_eq_nil_iff

section

variable {env : List Command → Reply} {re : Patterns} {P : Command → Prop}

/-- A command is run once, and its reply is that of the device. -/
theorem run_emits (c : Command) :
    Emits (run env c) fun past cs r => cs = [c] ∧
      ∀ reply, r = .ok reply → reply = env (past ++ [c]) ∧ reply.failed = false := by
  refine (emits_issue env c).bind (fun past cs reply h => ?_) fun _ _ _ h => ?_
  · obtain ⟨rfl, hreply⟩ := h
    cases hreply
    split
    · exact (emits_throw _).mono fun _ _ _ ⟨hcs, hr⟩ _ => by simp [hcs, hr]
    · rename_i hok
      refine (emits_pure _).mono fun _ _ _ ⟨hcs, hr⟩ _ => ⟨by simp [hcs], fun reply hreply => ?_⟩
      obtain rfl := Except.ok.inj (hr.symm.trans hreply)
      exact ⟨rfl, Bool.eq_false_iff.2 hok⟩
  · cases h.2

/-- A command that is run is the only one. -/
theorem run_issues {c : Command} (hc : P c) : Issues P (run env c) :=
  (run_emits c).mono fun _ _ _ h => by simpa [h.1] using hc

theorem one_issues (h : P .ld) : Issues P (one env re) := by
  refine (run_issues h).bind fun listing => ?_
  split
  · split
    · exact issues_pure _
    · split
      · exact issues_pure _
      · exact issues_throw _
  · exact issues_throw _

theorem wait_issues (h : P .ld) (mode : Mode) (attempts : ℕ) :
    Issues P (wait env re mode attempts) := by
  induction attempts with
  | zero => exact issues_throw _
  | succ attempts ih =>
    refine (run_issues h).bind fun listing => ?_
    dsimp only
    split
    · exact issues_throw _
    · split
      · refine (one_issues h).bind fun now => ?_
        split
        · exact issues_pure _
        · exact ih
      · exact ih

variable {d : Directory} {verifyOnly : Bool}

/-- Reading a file of the bundle runs no command. -/
theorem contained_issues (name : String) :
    Issues P (MonadExcept.ofExcept (contained d name) : Prog Command String (List UInt8)) := by
  cases contained d name with
  | ok data => exact issues_pure data
  | error e => exact issues_throw e

/-- Commands that write nothing, nor change anything when the device is only read. -/
def Harmless (verifyOnly : Bool) (c : Command) : Prop :=
  c.write? = none ∧ (verifyOnly = true → c.changes = false)

/-- Entering the loader runs these commands. -/
theorem enterLoader_issues (manifest : Manifest) (hld : P .ld)
    (hrd : verifyOnly = false → P (.rd (some 3)))
    (hdb : verifyOnly = false → ∀ loader, P (.db loader)) :
    Issues P (enterLoader env re d verifyOnly manifest) := by
  refine (one_issues hld).bind fun mode => ?_
  cases verifyOnly with
  | true =>
    rw [if_pos rfl]
    split
    · exact issues_pure _
    · exact issues_throw _
  | false =>
    have hload : Issues P (do
        let loader ← MonadExcept.ofExcept (contained d manifest.loaderFile)
        let _ ← run env (.db loader)
        wait env re .loader 20 : Prog Command String Unit) :=
      (contained_issues _).bind fun loader => (run_issues (hdb rfl loader)).bind fun _ =>
        wait_issues hld .loader 20
    rw [if_neg Bool.false_ne_true]
    split
    · exact (run_issues (hrd rfl)).bind fun _ => (wait_issues hld .maskrom 20).bind fun _ => hload
    · exact hload

theorem enterLoader_harmless (manifest : Manifest) :
    Issues (Harmless verifyOnly) (enterLoader env re d verifyOnly manifest) :=
  enterLoader_issues manifest ⟨rfl, fun _ => rfl⟩
    (fun hfalse => ⟨rfl, fun htrue => absurd (hfalse.symm.trans htrue) nofun⟩)
    fun hfalse _ => ⟨rfl, fun htrue => absurd (hfalse.symm.trans htrue) nofun⟩

/-- The capacity of the device that was confirmed by the commands `cs`, of which the first
    ones are `past`: the tool was asked for it, and reported one. -/
def Reported (env : List Command → Reply) (re : Patterns) (cs : List Command) (capacity : ℕ) :
    Prop :=
  ∃ pre post, cs = pre ++ .rfi :: post ∧
    re.flashSizes (env (pre ++ [.rfi])).output = [capacity]

/-- The check of the capacity passes only if the device reports one, and the image fits. -/
theorem checkCapacity_emits (manifest : Manifest) :
    Emits (checkCapacity env re manifest) fun past cs r => cs = [.rfi] ∧ (r = .ok () →
      ∃ capacity, Reported env re (past ++ cs) capacity ∧ manifest.imageSize ≤ capacity * 512) := by
  refine (run_emits .rfi).bind (fun past cs reply h => ?_) fun _ _ _ h => ⟨h.1, nofun⟩
  obtain ⟨rfl, hreply⟩ := h
  rw [(hreply reply rfl).1]
  split
  case h_1 capacity hsizes =>
    split
    · exact (emits_throw _).mono fun _ _ _ ⟨hcs, hr⟩ _ => by simp [hcs, hr]
    · refine (emits_pure _).mono fun _ _ _ ⟨hcs, hr⟩ hpast => ⟨by simp [hcs], fun _ => ?_⟩
      subst hcs
      exact ⟨capacity, ⟨past, [], by simp, hsizes⟩, by omega⟩
  case h_2 => exact (emits_throw _).mono fun _ _ _ ⟨hcs, hr⟩ _ => by simp [hcs, hr]

/-- Reading back reads only. -/
theorem readBack_issues (hrl : ∀ sector count, P (.rl sector count)) (item : Segment)
    (expected : List UInt8) (offset : ℤ) : Issues P (readBack env item expected offset) := by
  induction offset using readBack.induct item expected with
  | case1 offset h size ih =>
    rw [readBack, dif_pos h]
    refine (run_issues (hrl _ _)).bind fun reply => ?_
    cases reply.readback with
    | none => exact issues_throw _
    | some rb =>
      dsimp only
      split
      case isTrue => exact issues_throw _
      case isFalse hrb => exact ih rb hrb
  | case2 offset h =>
    rw [readBack, dif_neg h]
    exact issues_pure _

end

/-! ## Writes -/

/-- What the commands `cs` write of `ws`: a first part, and all of it after a normal return,
    unless the device is only read, when they change nothing. -/
def Wrote {α : Type} (verifyOnly : Bool) (ws : List (ℤ × List UInt8)) (cs : List Command)
    (r : Except String α) : Prop :=
  match verifyOnly with
  | true => ∀ c ∈ cs, c.changes = false
  | false => writes cs <+: ws ∧ ∀ a, r = .ok a → writes cs = ws

/-- The program writes (a first part of) `ws`. -/
def Writes {α : Type} (verifyOnly : Bool) (ws : List (ℤ × List UInt8))
    (m : Prog Command String α) : Prop :=
  Emits m fun _ cs r => Wrote verifyOnly ws cs r

section

variable {α β : Type} {verifyOnly : Bool} {ws ws' : List (ℤ × List UInt8)}
  {m : Prog Command String α} {f : α → Prog Command String β}

/-- What is harmless writes nothing. -/
theorem Writes.of_issues (h : Issues (Harmless verifyOnly) m) : Writes verifyOnly [] m := by
  refine h.mono fun _ cs r hcs => ?_
  cases verifyOnly with
  | true => exact fun c hc => (hcs c hc).2 rfl
  | false =>
    have hnil : writes cs = [] := writes_eq_nil.2 fun c hc => (hcs c hc).1
    exact ⟨hnil ▸ List.prefix_rfl, fun _ _ => hnil⟩

/-- Two programs write one after the other. -/
theorem Writes.bind (h : Writes verifyOnly ws m) (hf : ∀ a, Writes verifyOnly ws' (f a)) :
    Writes verifyOnly (ws ++ ws') (m >>= f) := by
  refine Emits.bind h (fun _ cs a hcs => (hf a).mono fun _ cs' r hcs' _ => ?_)
    fun _ cs e hcs => ?_
  · cases verifyOnly with
    | true =>
      intro c hc
      rcases List.mem_append.1 hc with hc | hc
      · exact hcs c hc
      · exact hcs' c hc
    | false =>
      -- The first program returned, so that it wrote all of `ws`.
      rw [Wrote, writes_append, hcs.2 a rfl]
      exact ⟨(List.prefix_append_right_inj ws).2 hcs'.1, fun b hb => by rw [hcs'.2 b hb]⟩
  · cases verifyOnly with
    | true => exact hcs
    | false => exact ⟨hcs.1.trans (List.prefix_append ws ws'), nofun⟩

theorem writes_throw (e : String) : Writes verifyOnly ws (throw e : Prog Command String α) := by
  refine (emits_throw e).mono fun _ cs r ⟨hcs, hr⟩ => ?_
  subst hcs hr
  cases verifyOnly with
  | true => exact fun c hc => absurd hc List.not_mem_nil
  | false => exact ⟨List.nil_prefix, nofun⟩

end

section

variable {env : List Command → Reply} {re : Patterns} {d : Directory} {verifyOnly : Bool}

/-- The command writes its file. -/
theorem wl_writes (sector : ℤ) (file : List UInt8) :
    Writes false [(sector, file)] (run env (.wl sector file)) :=
  (run_emits _).mono fun _ cs r h => by
    have hcs : writes cs = [(sector, file)] := by rw [h.1]; rfl
    exact ⟨hcs ▸ List.prefix_rfl, fun _ _ => hcs⟩

/-- A turn of the loop over the segments writes the segment. -/
theorem flashSegment_writes {item : Segment} {data : List UInt8}
    (hdata : d item.file = some data) :
    Writes verifyOnly [(item.sector, data)] (flashSegment env re d verifyOnly item) := by
  have hld : Harmless verifyOnly .ld := ⟨rfl, fun _ => rfl⟩
  have hread (v : Bool) : Writes v [] (readBack env item data 0) :=
    Writes.of_issues (readBack_issues (fun _ _ => ⟨rfl, fun _ => rfl⟩) item data 0)
  rw [flashSegment, contained_eq_ok.2 hdata]
  refine (Writes.of_issues (one_issues hld)).bind fun mode => ?_
  split
  · exact writes_throw _
  · cases verifyOnly with
    | true => exact hread true
    | false => exact (wl_writes item.sector data).bind fun _ => hread false

/-- The loop over the segments writes them one after the other. -/
theorem flashSegments_writes {items : List Segment} {data : Segment → List UInt8}
    (hdata : ∀ item ∈ items, d item.file = some (data item)) :
    Writes verifyOnly (items.map fun item => (item.sector, data item))
      (flashSegments env re d verifyOnly items) := by
  induction items with
  | nil => exact Writes.of_issues (issues_pure _)
  | cons item items ih =>
    rw [List.forall_mem_cons] at hdata
    exact (flashSegment_writes hdata.1).bind fun _ => ih hdata.2

/-- The check of the capacity writes nothing. -/
theorem checkCapacity_writes (manifest : Manifest) :
    Writes verifyOnly [] (checkCapacity env re manifest) := by
  refine Writes.of_issues ((checkCapacity_emits manifest).mono fun _ cs _ h c hc => ?_)
  rw [h.1, List.mem_singleton] at hc
  subst hc
  exact ⟨rfl, fun _ => rfl⟩

theorem reboot_writes : Writes verifyOnly [] (reboot env re verifyOnly) := by
  refine Writes.of_issues ?_
  cases verifyOnly with
  | true => exact issues_pure _
  | false =>
    have hrd : Harmless false (.rd none) := ⟨rfl, nofun⟩
    exact (one_issues ⟨rfl, fun _ => rfl⟩).bind fun _ => (run_issues hrd).bind fun _ =>
      issues_pure _

/-- A flash writes its segments one after the other. -/
theorem flash_writes {manifest : Manifest} {data : Segment → List UInt8}
    (hdata : ∀ item ∈ manifest.segments, d item.file = some (data item)) :
    Writes verifyOnly (manifest.segments.map fun item => (item.sector, data item))
      (flash env re d verifyOnly manifest) := by
  rw [← List.append_nil (List.map ..)]
  exact (Writes.of_issues (enterLoader_harmless manifest)).bind fun _ =>
    (checkCapacity_writes manifest).bind fun _ =>
    (flashSegments_writes hdata).bind fun _ => reboot_writes

/-! ## The capacity -/

/-- A capacity that was reported stays reported. -/
theorem Reported.append {cs : List Command} {capacity : ℕ} (h : Reported env re cs capacity)
    (cs' : List Command) : Reported env re (cs ++ cs') capacity := by
  obtain ⟨pre, post, rfl, hsizes⟩ := h
  exact ⟨pre, post ++ cs', by simp, hsizes⟩

/-- A write that follows commands that write nothing is among the others. -/
theorem append_eq_append_write {cs cs' pre post : List Command} {c : Command}
    (hcs : ∀ c ∈ cs, c.write? = none) (hc : c.write? ≠ none) (h : cs ++ cs' = pre ++ c :: post) :
    ∃ pre', pre = cs ++ pre' ∧ cs' = pre' ++ c :: post := by
  rcases List.append_eq_append_iff.1 h with ⟨pre', hpre, hcs'⟩ | ⟨post', hcs', hpost⟩
  · exact ⟨pre', hpre, hcs'⟩
  · cases post' with
    | nil => exact ⟨[], by simpa using hcs'.symm, hpost.symm⟩
    | cons c' post' =>
      have hmem : c ∈ cs := by
        rw [hcs', (List.cons.inj hpost).1]
        exact List.mem_append_right _ List.mem_cons_self
      exact absurd (hcs c hmem) hc

/-- A flash writes only after the device reported a capacity that the image fits in. -/
theorem flash_reported {manifest : Manifest} {data : Segment → List UInt8}
    (hdata : ∀ item ∈ manifest.segments, d item.file = some (data item)) :
    Emits (flash env re d verifyOnly manifest) fun past cs _ =>
      ∀ pre c post, cs = pre ++ c :: post → c.write? ≠ none →
        ∃ capacity, Reported env re (past ++ pre) capacity ∧
          manifest.imageSize ≤ capacity * 512 := by
  have hnone {cs pre post : List Command} {c : Command} (hcs : ∀ c ∈ cs, c.write? = none)
      (h : cs = pre ++ c :: post) (hc : c.write? ≠ none) : False :=
    hc (hcs c (h ▸ List.mem_append_right _ List.mem_cons_self))
  have hsegments : Writes verifyOnly _ (do
      flashSegments env re d verifyOnly manifest.segments
      reboot env re verifyOnly) := (flashSegments_writes hdata).bind fun _ => reboot_writes
  refine Emits.bind (enterLoader_harmless manifest) (fun past cs _ hcs => ?_) fun _ cs _ hcs => ?_
  · refine Emits.bind (checkCapacity_emits manifest)
      (fun past' cs' _ hcs' => hsegments.mono fun past'' cs'' _ _ hpast'' hpast' => ?_)
      fun _ cs' _ hcs' => ?_
    · -- The check passed.
      intro pre c post h hc
      have hrfi : ∀ c ∈ cs', c.write? = none := by simp [hcs'.1, Command.write?]
      obtain ⟨pre', rfl, h'⟩ := append_eq_append_write (fun c hc => (hcs c hc).1) hc h
      obtain ⟨pre'', rfl, -⟩ := append_eq_append_write hrfi hc h'
      obtain ⟨capacity, hcapacity, hsize⟩ := hcs'.2 rfl
      refine ⟨capacity, ?_, hsize⟩
      rw [hpast', List.append_assoc] at hcapacity
      simpa using hcapacity.append pre''
    · -- The check failed: the commands end with it.
      intro hpast pre c post h hc
      have hrfi : ∀ c ∈ cs', c.write? = none := by simp [hcs'.1, Command.write?]
      obtain ⟨pre', -, h'⟩ := append_eq_append_write (fun c hc => (hcs c hc).1) hc h
      exact (hnone hrfi h' hc).elim
  · exact fun pre c post h hc => (hnone (fun c hc => (hcs c hc).1) h hc).elim

end

end W132d.Flash
