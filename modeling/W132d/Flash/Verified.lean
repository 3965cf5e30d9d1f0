import W132d.Flash.Reserved

/-!
# Verification

A flash reboots the device only once it has read every segment back.

* `ReadBack`: the commands that read a segment back, in consecutive pieces, each of which is what
  the file has there;
* `Verified`: the commands that write and read the segments, one after the other;
* `readBackFile_eq`: the file that the tool writes what it reads to is removed before each piece, so
  that nothing of an earlier one is compared;
* `Ending`: how a flash ends, and `flash_emits`, that it ends like that;
* `verified_before_reboot`: of a valid manifest, all segments have been read back by then.

What a flash has issued when it comes to its end is described by two inductive predicates, which
follow its two loops: `ReadBack` has a rule for each piece that is read back, and `Verified` one for
each segment. A run that returns from a loop has issued such commands (`readBack_emits`,
`flashSegments_emits`), by induction on what is left; one that raises has not rebooted the device,
as no command of the loops does (`flashSegments_issues`). So a reboot can only be the last command,
behind all segments.
-/

namespace W132d.Flash

open Prog

/-! ## The file that is read back -/

section

variable (env : List Command → Reply)

/-- `Path.unlink(missing_ok=True)`, of a file that may be there. -/
def unlink (_ : Option (List UInt8)) : Option (List UInt8) := none

/-- The loop that reads a segment back, with the file `rb` that the tool has written to: the tool
    may write it again or leave it. -/
def readBackFile (item : Segment) (expected : List UInt8) (offset : ℤ) (rb : Option (List UInt8)) :
    Prog Command String Unit :=
  if _h : offset < item.size then do
    let size := min readbackSize (item.size - offset)
    let rb := unlink rb
    let reply ← run env (.rl (item.sector + offset / 512) (size / 512))
    let rb := reply.readback <|> rb
    match rb with
    | some bytes =>
      if bytes.length ≠ size ∨ bytes ≠ (expected.drop offset.toNat).take size.toNat then
        throw "Readback mismatch; device has NOT been rebooted"
      else readBackFile item expected (offset + size) rb
    | none => throw "Readback mismatch; device has NOT been rebooted"
  else return ()
termination_by (item.size - offset).toNat
decreasing_by
  have hpos : 0 < readbackSize := by decide
  omega

/-- What the file was before makes no difference. -/
theorem readBackFile_eq (item : Segment) (expected : List UInt8) (offset : ℤ)
    (rb : Option (List UInt8)) :
    readBackFile env item expected offset rb = readBack env item expected offset := by
  induction offset using readBack.induct item expected generalizing rb with
  | case1 offset h size ih =>
    rw [readBackFile, readBack, dif_pos h, dif_pos h]
    refine bind_congr fun reply => ?_
    cases hrb : reply.readback with
    | none => rfl
    | some bytes =>
      dsimp only [Option.orElse_eq_orElse, Option.orElse_some]
      split
      · rfl
      · rename_i hok
        exact ih bytes hok _
  | case2 offset h => rw [readBackFile, readBack, dif_neg h, dif_neg h]

/-! ## Commands that verify -/

/-- The commands that follow `past` read a segment back, from the byte `offset` on, and each of them
    returns what `data` has there. -/
inductive ReadBack (item : Segment) (data : List UInt8) : List Command → ℤ → List Command → Prop
  | done {past : List Command} : ReadBack item data past item.size []
  | piece {past cs : List Command} {offset size : ℤ} : 0 < size → size % 512 = 0 →
      (env (past ++ [.rl (item.sector + offset / 512) (size / 512)])).failed = false →
      (env (past ++ [.rl (item.sector + offset / 512) (size / 512)])).readback =
        some ((data.drop offset.toNat).take size.toNat) →
      ReadBack item data (past ++ [.rl (item.sector + offset / 512) (size / 512)]) (offset + size)
        cs →
      ReadBack item data past offset (.rl (item.sector + offset / 512) (size / 512) :: cs)

/-- The commands before a segment is read back. -/
def beforeReads (verifyOnly : Bool) (item : Segment) (data : List UInt8) : List Command :=
  if verifyOnly then [.ld] else [.ld, .wl item.sector data]

/-- The commands that follow `past` write the segments, unless the device is only read, and read all
    bytes of each of them back. -/
inductive Verified (d : Directory) (verifyOnly : Bool) :
    List Command → List Segment → List Command → Prop
  | nil {past : List Command} : Verified d verifyOnly past [] []
  | cons {past reads cs : List Command} {item : Segment} {items : List Segment}
      {data : List UInt8} : d item.file = some data → data.length = item.size →
      ReadBack env item data (past ++ beforeReads verifyOnly item data) 0 reads →
      Verified d verifyOnly (past ++ (beforeReads verifyOnly item data ++ reads)) items cs →
      Verified d verifyOnly past (item :: items) (beforeReads verifyOnly item data ++ reads ++ cs)

/-- Commands before the segments: they read nothing, write nothing and do not reboot the device. -/
def Command.before (c : Command) : Bool :=
  match c with
  | .ld | .rd (some _) | .db _ | .rfi => true
  | .rd none | .wl _ _ | .rl _ _ => false

/-- The commands verify all segments of a manifest. -/
def AllVerified (d : Directory) (verifyOnly : Bool) (manifest : Manifest) (cs : List Command) :
    Prop :=
  ∃ setup segments, cs = setup ++ segments ∧ (∀ c ∈ setup, c.before = true) ∧
    Verified env d verifyOnly setup manifest.segments segments

end

/-! ## What a flash issues -/

section

variable {env : List Command → Reply} {re : Patterns} {d : Directory} {verifyOnly : Bool}
  {P : Command → Prop}

theorem one_emits : Emits (one env re) fun _ cs _ => cs = [.ld] := by
  refine (run_emits .ld).bind (fun past cs listing h => ?_) fun _ _ _ h => h.1
  obtain ⟨rfl, -⟩ := h
  have hpure (m : Mode) : Emits (pure m : Prog Command String Mode) fun past' cs' _ =>
      past' = past ++ [.ld] → [Command.ld] ++ cs' = [.ld] :=
    (emits_pure m).mono fun _ _ _ h _ => by rw [h.1, List.append_nil]
  have hthrow (e : String) : Emits (throw e : Prog Command String Mode) fun past' cs' _ =>
      past' = past ++ [.ld] → [Command.ld] ++ cs' = [.ld] :=
    (emits_throw e).mono fun _ _ _ h _ => by rw [h.1, List.append_nil]
  split
  · split
    · exact hpure _
    · split
      · exact hpure _
      · exact hthrow _
  · exact hthrow _

/-- What the loop that reads a segment back has issued when it returns. -/
theorem readBack_emits {item : Segment} {data : List UInt8} (hunit : item.size % 512 = 0)
    {offset : ℤ} (hle : offset ≤ item.size) (hoffset : offset % 512 = 0) :
    Emits (readBack env item data offset) fun past cs r =>
      r = .ok () → ReadBack env item data past offset cs := by
  induction offset using readBack.induct item data with
  | case1 offset h size ih =>
    have hread : readbackSize % 512 = 0 := by decide
    have hpos : 0 < readbackSize := by decide
    rw [readBack, dif_pos h]
    refine (run_emits _).bind_ok fun past cs reply hrun => ?_
    obtain ⟨rfl, hreply⟩ := hrun
    obtain ⟨rfl, hok⟩ := hreply reply rfl
    cases hrb : (env (past ++
        [.rl (item.sector + offset / 512) (size / 512)])).readback with
    | none => exact (emits_throw_ok _).mono fun _ _ _ h _ => h
    | some rb =>
      dsimp only
      split
      · exact (emits_throw_ok _).mono fun _ _ _ h _ => h
      · rename_i hsame
        refine (ih rb hsame (by omega) (by omega)).mono fun past' cs hcs hback hpast hr => ?_
        subst hpast
        rw [not_or, not_not, not_not] at hsame
        refine .piece (by omega) (by omega) hok ?_ (hback hr)
        rw [hrb, hsame.2]
  | case2 offset h =>
    rw [readBack, dif_neg h]
    obtain rfl : offset = item.size := by omega
    exact (emits_pure _).mono fun _ _ _ h _ => h.1 ▸ .done

/-- What a turn of the loop over the segments has issued when it returns. -/
theorem flashSegment_emits {item : Segment} {data : List UInt8} (hdata : d item.file = some data)
    (hpos : 0 < item.size) (hunit : item.size % 512 = 0) :
    Emits (flashSegment env re d verifyOnly item) fun past cs r => r = .ok () →
      ∃ reads, cs = beforeReads verifyOnly item data ++ reads ∧
        ReadBack env item data (past ++ beforeReads verifyOnly item data) 0 reads := by
  have hread := @readBack_emits env item data hunit 0 hpos.le (Int.zero_emod 512)
  rw [flashSegment, contained_eq_ok.2 hdata]
  refine one_emits.bind_ok fun past cs mode hcs => ?_
  subst hcs
  split
  · exact (emits_throw_ok _).mono fun _ _ _ h _ => h
  · rw [beforeReads]
    cases verifyOnly with
    | true =>
      refine hread.mono fun past' reads r hback hpast hr => ⟨reads, rfl, ?_⟩
      exact hpast ▸ hback hr
    | false =>
      refine (run_emits _).bind (fun past' cs _ hrun => ?_) fun _ _ _ _ _ hr => by cases hr
      obtain ⟨rfl, -⟩ := hrun
      refine hread.mono fun past'' reads r hback hpast' hpast hr => ⟨reads, rfl, ?_⟩
      rw [hpast] at hpast'
      subst hpast'
      simpa using hback hr

/-- What the loop over the segments has issued when it returns. -/
theorem flashSegments_emits {items : List Segment}
    (hitems : ∀ item ∈ items, ∃ data, d item.file = some data ∧ data.length = item.size ∧
      0 < item.size ∧ item.size % 512 = 0) :
    Emits (flashSegments env re d verifyOnly items) fun past cs r => r = .ok () →
      Verified env d verifyOnly past items cs := by
  induction items with
  | nil => exact (emits_pure _).mono fun _ _ _ h _ => h.1 ▸ .nil
  | cons item items ih =>
    rw [List.forall_mem_cons] at hitems
    obtain ⟨⟨data, hdata, hsize, hpos, hunit⟩, hitems⟩ := hitems
    refine (flashSegment_emits hdata hpos hunit).bind_ok fun past cs _ hcs => ?_
    obtain ⟨reads, rfl, hback⟩ := hcs rfl
    refine (ih hitems).mono fun past' cs' _ hverified hpast hr => ?_
    subst hpast
    exact .cons hdata hsize hback (hverified hr)

/-- No command of the loops over the segments reboots the device. -/
theorem flashSegments_issues (items : List Segment) :
    Issues (· ≠ .rd none) (flashSegments env re d verifyOnly items) := by
  have hread (item : Segment) (data : List UInt8) :
      Issues (· ≠ .rd none) (readBack env item data 0) :=
    readBack_issues (fun _ _ => nofun) item data 0
  induction items with
  | nil => exact issues_pure _
  | cons item items ih =>
    refine Issues.bind ?_ fun _ => ih
    refine (contained_issues _).bind fun path => (one_issues nofun).bind fun mode => ?_
    split
    · exact issues_throw _
    · cases verifyOnly with
      | true => exact hread item path
      | false => exact (run_issues nofun).bind fun _ => hread item path

/-- How a flash ends: it fails, or all segments are verified; then it returns if the device is only
    read, and reboots it if not. -/
inductive Ending (env : List Command → Reply) (d : Directory) (verifyOnly : Bool)
    (manifest : Manifest) : List Command → Except String Unit → Prop
  | failed {cs : List Command} {e : String} :
    .rd none ∉ cs → Ending env d verifyOnly manifest cs (.error e)
  | verified {cs : List Command} : verifyOnly = true → .rd none ∉ cs →
    AllVerified env d verifyOnly manifest cs → Ending env d verifyOnly manifest cs (.ok ())
  | rebooted {cs : List Command} {r : Except String Unit} : verifyOnly = false → .rd none ∉ cs →
    AllVerified env d verifyOnly manifest cs →
    Ending env d verifyOnly manifest (cs ++ [.ld, .rd none]) r

theorem notMem_rd_ld {cs : List Command} (h : .rd none ∉ cs) : .rd none ∉ cs ++ [.ld] :=
  List.not_mem_append h (List.not_mem_cons_of_ne_of_not_mem nofun List.not_mem_nil)

theorem notMem_rd {cs : List Command} (h : ∀ c ∈ cs, c ≠ .rd none) : .rd none ∉ cs :=
  fun hmem => h _ hmem rfl

/-- The end of a flash, once all segments are verified. -/
theorem reboot_emits {manifest : Manifest} {before : List Command} (hrd : .rd none ∉ before) :
    Emits (reboot env re verifyOnly) fun _ cs r =>
      AllVerified env d verifyOnly manifest before →
        Ending env d verifyOnly manifest (before ++ cs) r := by
  rw [reboot]
  cases verifyOnly with
  | true =>
    refine (emits_pure _).mono fun _ cs r hcs h => ?_
    rw [hcs.1, hcs.2, List.append_nil]
    exact .verified rfl hrd h
  | false =>
    refine one_emits.bind (fun past cs mode hcs => ?_)
      fun _ cs e hcs _ => hcs ▸ .failed (notMem_rd_ld hrd)
    subst hcs
    refine (run_emits _).bind (fun past' cs _ hrun => ?_) fun _ cs e hrun _ h => ?_
    · rw [hrun.1]
      refine (emits_pure _).mono fun _ cs' r hcs' _ _ h => ?_
      rw [hcs'.1, List.append_nil]
      exact .rebooted rfl hrd h
    · rw [hrun.1]
      exact .rebooted rfl hrd h

/-- A flash of segments that are stored ends like that. -/
theorem flash_emits {manifest : Manifest}
    (hitems : ∀ item ∈ manifest.segments, ∃ data, d item.file = some data ∧
      data.length = item.size ∧ 0 < item.size ∧ item.size % 512 = 0) :
    Emits (flash env re d verifyOnly manifest) fun past cs r =>
      past = [] → Ending env d verifyOnly manifest cs r := by
  have hrd {cs : List Command} (h : ∀ c ∈ cs, c.before = true) : ∀ c ∈ cs, c ≠ .rd none := by
    rintro c hc rfl
    exact absurd (h _ hc) nofun
  have henter : Issues (fun c => c.before = true) (enterLoader env re d verifyOnly manifest) :=
    enterLoader_issues manifest rfl (fun _ => rfl) fun _ _ => rfl
  refine Emits.bind henter (fun past cs _ hcs => ?_)
    fun _ _ _ hcs _ => .failed (notMem_rd (hrd hcs))
  refine (checkCapacity_emits manifest).bind (fun past' cs' _ hcs' => ?_) fun _ cs' _ hcs' _ _ => ?_
  · -- Both parts before the segments.
    have hbefore : ∀ c ∈ cs ++ cs', c.before = true := by
      rw [hcs'.1]
      exact List.forall_mem_append.2 ⟨hcs, List.forall_mem_singleton.2 rfl⟩
    refine ((flashSegments_emits hitems).and (flashSegments_issues _)).bind
      (fun past'' cs'' _ hcs'' => ?_) fun _ cs'' _ hcs'' _ _ _ => ?_
    · have hnone : ∀ c ∈ cs ++ cs' ++ cs'', c ≠ .rd none :=
        List.forall_mem_append.2 ⟨hrd hbefore, hcs''.2⟩
      have hreboot := @reboot_emits env re d verifyOnly manifest _ (notMem_rd hnone)
      refine hreboot.mono fun _ _ _ hend _ hpast'' hpast' hnil => ?_
      rw [hpast', hnil] at hpast''
      simpa using hend ⟨cs ++ cs', cs'', rfl, hbefore, hpast'' ▸ hcs''.1 rfl⟩
    · rw [← List.append_assoc]
      exact .failed (notMem_rd (List.forall_mem_append.2 ⟨hrd hbefore, hcs''.2⟩))
  · rw [hcs'.1]
    exact .failed (notMem_rd (List.forall_mem_append.2
      ⟨hrd hcs, List.forall_mem_singleton.2 nofun⟩))

end

/-! ## Valid manifests -/

/-- The segments of a valid manifest are stored, and consist of sectors. -/
theorem segments_of_validate {sha256 : List UInt8 → String} {d : Directory} {manifest : Manifest}
    (h : validate sha256 d manifest = .ok ()) : ∀ item ∈ manifest.segments,
      ∃ data, d item.file = some data ∧ data.length = item.size ∧ 0 < item.size ∧
        item.size % 512 = 0 := by
  obtain ⟨low, high, head, system, hsplit⟩ := split_of_validate h
  have hlow := hsplit.low_pos
  have hhead := hsplit.head_size
  intro item hitem
  obtain ⟨data, hdata, hsize, -⟩ := hsplit.stored item (hsplit.segments.subset hitem)
  rcases List.mem_pair.1 (hsplit.segments.subset hitem) with rfl | rfl
  · exact ⟨data, hdata, hsize, by omega, by omega⟩
  · exact ⟨data, hdata, hsize, hsplit.system_pos, hsplit.system_unit⟩

/-- A flash of a valid manifest reboots the device, last of all, only after all bytes of every
    segment have been read back, once and in consecutive pieces, and were what its file has. If they
    have not been, it fails and does not reboot the device; and if it does not reboot a device that
    it writes, it fails. -/
theorem verified_before_reboot {sha256 : List UInt8 → String} {d : Directory}
    {manifest : Manifest} (h : validate sha256 d manifest = .ok ()) (env : List Command → Reply)
    (re : Patterns) (verifyOnly : Bool) :
    let run := (flash env re d verifyOnly manifest).after []
    (∀ pre post, run.2 = pre ++ .rd none :: post → verifyOnly = false ∧ post = [] ∧
      ∃ cs, pre = cs ++ [.ld] ∧ AllVerified env d verifyOnly manifest cs) ∧
    (.rd none ∉ run.2 → verifyOnly = false → ∃ e, run.1 = .error e) ∧
    ((¬∃ cs, cs <+: run.2 ∧ AllVerified env d verifyOnly manifest cs) →
      .rd none ∉ run.2 ∧ ∃ e, run.1 = .error e) := by
  obtain ⟨cs, r, hrun, hend⟩ := @flash_emits env re d verifyOnly manifest
    (segments_of_validate h) []
  rw [hrun, List.nil_append]
  dsimp only
  cases hend rfl with
  | failed hrd =>
    refine ⟨fun pre post hcs => ?_, fun _ _ => ⟨_, rfl⟩, fun _ => ⟨hrd, _, rfl⟩⟩
    exact absurd (hcs ▸ List.mem_append_right _ List.mem_cons_self) hrd
  | verified hverify hrd hall =>
    refine ⟨fun pre post hcs => ?_, fun _ hnot => absurd (hverify.symm.trans hnot) nofun,
      fun hnot => absurd ⟨cs, List.prefix_rfl, hall⟩ hnot⟩
    exact absurd (hcs ▸ List.mem_append_right _ List.mem_cons_self) hrd
  | @rebooted cs _ hverify hrd hall =>
    refine ⟨fun pre post hcs => ?_, fun hnot _ => absurd (by simp) hnot,
      fun hnot => absurd ⟨cs, List.prefix_append _ _, hall⟩ hnot⟩
    -- The reboot is the last command.
    have hcs' : (cs ++ [.ld]) ++ .rd none :: [] = pre ++ .rd none :: post := by
      rw [← hcs, List.append_assoc]
      rfl
    obtain ⟨hpre, -, hpost⟩ :=
      (List.append_cons_inj_of_notMem (notMem_rd_ld hrd) List.not_mem_nil).1 hcs'
    exact ⟨hverify, hpost.symm, cs, hpre.symm, hall⟩

/-- The fixture is written, verified and rebooted. -/
theorem verified_before_reboot_fixture :
    ∃ cs, ((flash fixtureDevice fixturePatterns fixtureFiles false fixture).after []).2 =
        cs ++ [.ld] ++ [.rd none] ∧
      AllVerified fixtureDevice fixtureFiles false fixture cs := by
  have hvalid : validate fixtureSha256 fixtureFiles fixture = .ok () := by decide +kernel
  have hlast : ((flash fixtureDevice fixturePatterns fixtureFiles false fixture).after []).2 =
      ((flash fixtureDevice fixturePatterns fixtureFiles false fixture).after []).2.dropLast ++
        [.rd none] := by decide +kernel
  obtain ⟨-, -, cs, hpre, hall⟩ :=
    (verified_before_reboot hvalid fixtureDevice fixturePatterns false).1 _ [] hlast
  exact ⟨cs, hpre ▸ hlast, hall⟩

end W132d.Flash
