import W132d.Machine

/-!
# Voice reports

The remote control sends a recording in frames of 40 bytes every 20 ms, each as three
reports of 20 bytes: a sequence number, the number of the fragment in the frame, and 16
bytes of it. The bridge puts the frames together again (`on_voice_report` in
`ble-remote.py`), hands them to a decoder and appends them to a file. A report may be lost
on the way, or have a wrong length.

* `onVoiceReport`: a report;
* `Collecting`, `Missed`: the fragments of a frame that came so far, either all of them or
  not;
* `frame_reports`: the reports of a frame emit it if all three are there, and nothing if
  not;
* `voice_frames`: of a recording, exactly the frames whose reports are all there are
  emitted.

What the bridge cannot foresee is a parameter: `env n` tells how the decoder and the
remote control behave when the `n`th frame is complete.
-/

namespace W132d.Remote

/-! ## The bridge -/

/-- `VOICE_MAX_FRAMES`. -/
def voiceMaxFrames : ℕ := 50 * 120

/-- What happens around a complete frame: the time, whether the decoder has exited, whether
    it can be started, whether it takes the frame, and whether the remote control can be
    written to. -/
structure Env where
  now : ℕ
  exited : Bool
  starts : Bool
  takes : Bool
  control : Bool

/-- The fields of `voice` that a report reads or writes, with the frames emitted
    (`append_raw_voice`). Of the decoder, `proc` tells whether there is one. -/
structure Voice where
  proc : Bool
  frames : ℕ
  buf : List UInt8
  seq : ℤ
  frag : ℤ
  vol : UInt8
  codecFailed : Bool
  fails : ℕ
  nwav : ℕ
  lastFrame : ℕ
  recording : Bool
  ctlSeq : ℕ
  emitted : List (List UInt8)
  deriving DecidableEq, Repr

/-- A failure of the decoder; the third one is the last. -/
def decoderFailed (v : Voice) : Voice :=
  { v with fails := v.fails + 1, codecFailed := v.codecFailed || decide (v.fails + 1 ≥ 3) }

/-- `voice_open`. -/
def voiceOpen (env : Env) (v : Voice) : Voice :=
  if v.proc && !env.exited then v
  else
    let v := if v.proc then { decoderFailed v with proc := false } else v
    if v.codecFailed then v
    else
      let v := { v with nwav := v.nwav + 1 }
      if env.starts then { v with proc := true }
      else { v with proc := false, codecFailed := true }

/-- `voice_close`. -/
def voiceClose (v : Voice) : Voice :=
  { v with proc := false, frames := 0, seq := -1, frag := -1 }

/-- `voice_ctl`, which only counts the writes here. -/
def voiceCtl (env : Env) (v : Voice) : Voice :=
  if env.control then { v with ctlSeq := v.ctlSeq + 1 } else v

/-- The end of `on_voice_report`, when the frame in `buf` is complete. -/
def completeFrame (env : Env) (v : Voice) (vol : UInt8) : Voice :=
  let frame := v.buf.take 40
  let v := { v with vol := vol, frames := v.frames + 1, lastFrame := env.now }
  let v := voiceOpen env v
  let v := if v.proc && !env.takes then voiceClose (decoderFailed v) else v
  let v := { v with emitted := v.emitted ++ [frame] }
  if v.frames ≥ voiceMaxFrames then voiceClose (voiceCtl env { v with recording := false })
  else v

section

variable (env : ℕ → Env)

/-- Storing the fragment `idx` of a frame. -/
def storeFragment (v : Voice) (idx : ℕ) (body : List UInt8) : Voice :=
  let buf := v.buf.take (idx * 16) ++ (body.drop 4).take 16 ++ v.buf.drop (idx * 16 + 16)
  let v := { v with buf := buf }
  if idx ≠ 2 then v else completeFrame (env v.emitted.length) v (body.getD 12 0)

/-- `on_voice_report`. -/
def onVoiceReport (v : Voice) (body : List UInt8) : Voice :=
  if !v.recording then v
  else if body.length ≠ 20 then v
  else
    let seq : ℤ := (body.getD 0 0).toNat + 256 * (body.getD 1 0).toNat
    let idx := (body.getD 2 0).toNat
    if seq ≠ v.seq then
      -- A new frame starts with its first fragment.
      let v := { v with seq := seq }
      if idx ≠ 0 then { v with frag := -1 }
      else storeFragment env { v with frag := 0 } idx body
    else if (idx : ℤ) ≠ v.frag + 1 then { v with frag := -1 }
    else storeFragment env { v with frag := idx } idx body

end

/-! ## What the remote control sends -/

/-- A frame: its 40 bytes, the 8 bytes that fill up its last report (with the volume), the
    byte between the header and the data in each report, and whether each of the three
    reports comes. -/
structure Frame where
  data : List UInt8
  tail : List UInt8
  pad : ℕ → UInt8
  kept : ℕ → Bool
  length_data : data.length = 40
  length_tail : tail.length = 8

namespace Frame

/-- The bytes of a frame that fragment `idx` has. -/
def chunk (f : Frame) (idx : ℕ) : List UInt8 := ((f.data ++ f.tail).drop (idx * 16)).take 16

/-- The report with fragment `idx` of a frame, with sequence number `n` (its lower 16
    bits). -/
def report (f : Frame) (n idx : ℕ) : List UInt8 :=
  [UInt8.ofNat n, UInt8.ofNat (n / 256), UInt8.ofNat idx, f.pad idx] ++ f.chunk idx

/-- The report with fragment `idx`, if it comes. -/
def arrived (f : Frame) (n idx : ℕ) : List (List UInt8) :=
  if f.kept idx then [f.report n idx] else []

/-- The reports of a frame that come. -/
def reports (f : Frame) (n : ℕ) : List (List UInt8) :=
  f.arrived n 0 ++ f.arrived n 1 ++ f.arrived n 2

/-- All reports of a frame come. -/
def complete (f : Frame) : Bool := f.kept 0 && f.kept 1 && f.kept 2

end Frame

/-- The reports that come of a recording whose first frame has sequence number `n`. -/
def recorded : ℕ → List Frame → List (List UInt8)
  | _, [] => []
  | n, f :: fs => f.reports n ++ recorded (n + 1) fs

/-! ## Reports -/

variable {env : ℕ → Env} {v v' : Voice} {f : Frame} {n idx : ℕ}

theorem Frame.length_chunk (f : Frame) (h : idx < 3) : (f.chunk idx).length = 16 := by
  rw [chunk, List.length_take, List.length_drop, List.length_append, f.length_data,
    f.length_tail]
  omega

theorem Frame.length_report (f : Frame) (h : idx < 3) : (f.report n idx).length = 20 := by
  rw [report, List.length_append, f.length_chunk h]
  rfl

/-- The sequence number that a report has. -/
theorem seq_report (n : ℕ) :
    (((UInt8.ofNat n).toNat : ℤ) + 256 * (UInt8.ofNat (n / 256)).toNat) = (n % 65536 : ℕ) := by
  rw [UInt8.toNat_ofNat', UInt8.toNat_ofNat']
  omega

theorem Frame.data_report (f : Frame) (h : idx < 3) :
    ((f.report n idx).drop 4).take 16 = f.chunk idx := by
  change (f.chunk idx).take 16 = f.chunk idx
  rw [List.take_of_length_le (f.length_chunk h).le]

/-- The bytes of the first fragments of a frame. -/
theorem Frame.take_succ (f : Frame) (idx : ℕ) :
    (f.data ++ f.tail).take (idx * 16 + 16) =
      (f.data ++ f.tail).take (idx * 16) ++ f.chunk idx := by
  rw [List.take_add, chunk]

/-- A step that touches neither the reports nor the frames. -/
structure Unchanged (v v' : Voice) : Prop where
  emitted : v'.emitted = v.emitted
  recording : v'.recording = v.recording
  buf : v'.buf = v.buf
  frames : v'.frames = v.frames
  seq : v'.seq = v.seq

theorem voiceOpen_unchanged (e : Env) (v : Voice) : Unchanged v (voiceOpen e v) := by
  rw [voiceOpen]
  dsimp only
  split_ifs <;> exact ⟨rfl, rfl, rfl, rfl, rfl⟩

/-- A complete frame is emitted. The decoder may fail and be closed, which ends the
    numbering of the reports. -/
theorem completeFrame_emits {e : Env} {vol : UInt8} (hframes : v.frames + 1 < voiceMaxFrames) :
    (completeFrame e v vol).emitted = v.emitted ++ [v.buf.take 40] ∧
      (completeFrame e v vol).recording = v.recording ∧ (completeFrame e v vol).buf = v.buf ∧
      (completeFrame e v vol).frames ≤ v.frames + 1 ∧
      ((completeFrame e v vol).seq = v.seq ∨ (completeFrame e v vol).seq = -1) := by
  have h := voiceOpen_unchanged e
    { v with vol := vol, frames := v.frames + 1, lastFrame := e.now }
  rw [completeFrame]
  dsimp only
  set v₁ := voiceOpen e { v with vol := vol, frames := v.frames + 1, lastFrame := e.now }
  have hframes₁ : v₁.frames = v.frames + 1 := h.frames
  split_ifs with hfail hmax hmax
  · exact absurd hmax (by change ¬(0 ≥ voiceMaxFrames); decide)
  · exact ⟨congrArg (· ++ [v.buf.take 40]) h.emitted, h.recording, h.buf, Nat.zero_le _, .inr rfl⟩
  · exact absurd hmax (by omega)
  · exact ⟨congrArg (· ++ [v.buf.take 40]) h.emitted, h.recording, h.buf, hframes₁.le, .inl h.seq⟩

/-- What a report does, once its header is read. -/
theorem onVoiceReport_report (hrec : v.recording = true) (hidx : idx < 3) :
    onVoiceReport env v (f.report n idx) =
      if ((n % 65536 : ℕ) : ℤ) ≠ v.seq then
        if idx ≠ 0 then { v with seq := (n % 65536 : ℕ), frag := -1 }
        else storeFragment env { v with seq := (n % 65536 : ℕ), frag := 0 } idx (f.report n idx)
      else if (idx : ℤ) ≠ v.frag + 1 then { v with frag := -1 }
      else storeFragment env { v with frag := idx } idx (f.report n idx) := by
  have hseq : (((f.report n idx).getD 0 0).toNat + 256 * ((f.report n idx).getD 1 0).toNat : ℤ) =
      (n % 65536 : ℕ) := seq_report n
  have hnum : ((f.report n idx).getD 2 0).toNat = idx := by
    change (UInt8.ofNat idx).toNat = idx
    rw [UInt8.toNat_ofNat']
    omega
  have hlen : ¬(f.report n idx).length ≠ 20 := not_not.2 (f.length_report hidx)
  rw [onVoiceReport, hrec, if_neg hlen]
  dsimp only
  rw [hseq, hnum]
  rfl

/-- All fragments of a frame before `idx` came. -/
structure Collecting (f : Frame) (n idx : ℕ) (v : Voice) : Prop where
  first : idx = 0 → v.seq ≠ (n % 65536 : ℕ)
  seq : idx ≠ 0 → v.seq = (n % 65536 : ℕ) ∧ v.frag + 1 = idx
  buf : v.buf.take (idx * 16) = (f.data ++ f.tail).take (idx * 16)

/-- A fragment of a frame before `idx` did not come. -/
structure Missed (n idx : ℕ) (v : Voice) : Prop where
  pos : idx ≠ 0
  frag : v.seq = (n % 65536 : ℕ) → v.frag + 1 < idx

/-- The bridge `v'` is `v` with some fragments of frame `n` taken. -/
structure Taking (n : ℕ) (v v' : Voice) : Prop where
  recording : v'.recording = true
  length_buf : v'.buf.length = 48
  emitted : v'.emitted = v.emitted
  frames : v'.frames = v.frames
  seq : v'.seq = v.seq ∨ v'.seq = (n % 65536 : ℕ)

/-- A frame whose fragments were stored up to the next one. -/
theorem take_buf (hlen : v.buf.length = 48) (hidx : idx < 3)
    (hbuf : v.buf.take (idx * 16) = (f.data ++ f.tail).take (idx * 16)) :
    (v.buf.take (idx * 16) ++ ((f.report n idx).drop 4).take 16 ++
        v.buf.drop (idx * 16 + 16)).length = 48 ∧
      (v.buf.take (idx * 16) ++ ((f.report n idx).drop 4).take 16 ++
        v.buf.drop (idx * 16 + 16)).take ((idx + 1) * 16) =
        (f.data ++ f.tail).take ((idx + 1) * 16) := by
  have hchunk := f.length_chunk hidx
  have hpre : (v.buf.take (idx * 16)).length = idx * 16 := by
    rw [List.length_take]
    omega
  rw [f.data_report hidx]
  refine ⟨?_, ?_⟩
  · rw [List.length_append, List.length_append, hpre, hchunk, List.length_drop]
    omega
  · rw [Nat.succ_mul, f.take_succ, ← hbuf]
    refine List.take_left' ?_
    rw [List.length_append, hpre, hchunk]

/-- The next fragment of a frame comes. -/
theorem Collecting.next {v₀ : Voice} (h : Collecting f n idx v) (ht : Taking n v₀ v)
    (hidx : idx < 2) :
    Collecting f n (idx + 1) (onVoiceReport env v (f.report n idx)) ∧
      Taking n v₀ (onVoiceReport env v (f.report n idx)) := by
  obtain ⟨hlen, htake⟩ := @take_buf v f n idx ht.length_buf (by omega) h.buf
  have hstore : ∀ frag : ℤ, frag + 1 = (idx + 1 : ℕ) → onVoiceReport env v (f.report n idx) =
      storeFragment env { v with seq := (n % 65536 : ℕ), frag := frag } idx (f.report n idx) →
      Collecting f n (idx + 1) (onVoiceReport env v (f.report n idx)) ∧
        Taking n v₀ (onVoiceReport env v (f.report n idx)) := by
    intro frag hfrag heq
    rw [heq, storeFragment]
    dsimp only
    rw [if_pos (by omega)]
    exact ⟨⟨fun h0 => absurd h0 idx.succ_ne_zero, fun _ => ⟨rfl, hfrag⟩, htake⟩,
      ht.recording, hlen, ht.emitted, ht.frames, .inr rfl⟩
  have hreport := @onVoiceReport_report env v f n idx ht.recording (by omega)
  rcases eq_or_ne idx 0 with rfl | hne
  · rw [if_pos (h.first rfl).symm, if_neg (not_not.2 rfl)] at hreport
    exact hstore 0 rfl hreport
  · obtain ⟨hseq, hfrag⟩ := h.seq hne
    rw [if_neg (not_not.2 hseq.symm), if_neg (not_not.2 hfrag.symm)] at hreport
    refine hstore idx rfl (hreport.trans ?_)
    rw [← hseq]

/-- The next fragment of a frame does not come. -/
theorem Collecting.skip (h : Collecting f n idx v) : Missed n (idx + 1) v := by
  refine ⟨idx.succ_ne_zero, fun hseq => ?_⟩
  rcases eq_or_ne idx 0 with rfl | hne
  · exact absurd hseq (h.first rfl)
  · have hfrag := (h.seq hne).2
    omega

/-- Once a fragment did not come, the others are dropped. -/
theorem Missed.next {v₀ : Voice} (h : Missed n idx v) (ht : Taking n v₀ v) (hidx : idx < 3) :
    Missed n (idx + 1) (onVoiceReport env v (f.report n idx)) ∧
      Taking n v₀ (onVoiceReport env v (f.report n idx)) := by
  rw [onVoiceReport_report ht.recording hidx]
  by_cases hseq : v.seq = (n % 65536 : ℕ)
  · have hfrag := h.frag hseq
    rw [if_neg (not_not.2 hseq.symm), if_pos (by omega)]
    exact ⟨⟨idx.succ_ne_zero, fun _ => by dsimp only; omega⟩,
      ht.recording, ht.length_buf, ht.emitted, ht.frames, .inr hseq⟩
  · rw [if_pos (Ne.symm hseq), if_pos h.pos]
    exact ⟨⟨idx.succ_ne_zero, fun _ => by dsimp only; omega⟩,
      ht.recording, ht.length_buf, ht.emitted, ht.frames, .inr rfl⟩

theorem Missed.skip (h : Missed n idx v) : Missed n (idx + 1) v :=
  ⟨idx.succ_ne_zero, fun hseq => by have hfrag := h.frag hseq; omega⟩

theorem Missed.arrived {v₀ : Voice} (h : Missed n idx v) (ht : Taking n v₀ v) (hidx : idx < 3) :
    Missed n (idx + 1) ((f.arrived n idx).foldl (onVoiceReport env) v) ∧
      Taking n v₀ ((f.arrived n idx).foldl (onVoiceReport env) v) := by
  rw [Frame.arrived]
  split_ifs
  · exact h.next ht hidx
  · exact ⟨h.skip, ht⟩

/-- The bridge `v'` after the reports of frame `n`, which emitted `frames`. -/
structure Received (n : ℕ) (frames : List (List UInt8)) (v v' : Voice) : Prop where
  emitted : v'.emitted = v.emitted ++ frames
  recording : v'.recording = true
  length_buf : v'.buf.length = 48
  frames_le : v'.frames ≤ v.frames + 1
  seq : v'.seq = v.seq ∨ v'.seq = (n % 65536 : ℕ) ∨ v'.seq = -1

/-- A frame with fragments that did not come emits nothing. -/
theorem Taking.received {v₀ : Voice} (h : Taking n v₀ v) : Received n [] v₀ v :=
  ⟨h.emitted.trans (List.append_nil _).symm, h.recording, h.length_buf, h.frames ▸ Nat.le_succ _,
    h.seq.imp_right .inl⟩

/-- The last fragment completes a frame. -/
theorem Collecting.complete {v₀ : Voice} (h : Collecting f n 2 v) (ht : Taking n v₀ v)
    (hframes : v₀.frames + 1 < voiceMaxFrames) :
    Received n [f.data] v₀ (onVoiceReport env v (f.report n 2)) := by
  obtain ⟨hlen, htake⟩ := @take_buf v f n 2 ht.length_buf (by decide) h.buf
  obtain ⟨hseq, hfrag⟩ := h.seq (by decide)
  have hreport := @onVoiceReport_report env v f n 2 ht.recording (by decide)
  rw [if_neg (not_not.2 hseq.symm), if_neg (not_not.2 hfrag.symm)] at hreport
  rw [hreport, storeFragment]
  dsimp only
  rw [if_neg (not_not.2 rfl)]
  set buf := v.buf.take (2 * 16) ++ ((f.report n 2).drop 4).take 16 ++ v.buf.drop (2 * 16 + 16)
  have hdata : buf.take 40 = f.data := by
    have hall : buf = f.data ++ f.tail := by
      rw [← List.take_of_length_le hlen.le, ← @List.take_of_length_le _ 48 (f.data ++ f.tail)]
      · exact htake
      · rw [List.length_append, f.length_data, f.length_tail]
    rw [hall]
    exact List.take_left' f.length_data
  obtain ⟨hemit, hrec, hbuf, hle, hnum⟩ := @completeFrame_emits
    { v with frag := (2 : ℕ), buf := buf } (env v.emitted.length) ((f.report n 2).getD 12 0)
    (by rw [← ht.frames] at hframes; exact hframes)
  refine ⟨?_, hrec.trans ht.recording, by rw [hbuf]; exact hlen, ?_, ?_⟩
  · rw [hemit, hdata]
    exact congrArg (· ++ [f.data]) ht.emitted
  · exact ht.frames ▸ hle
  · rcases hnum with hnum | hnum
    · exact .inr (.inl (hnum.trans hseq))
    · exact .inr (.inr hnum)

/-- The reports of a frame emit it if all three come, and nothing if not. -/
theorem frame_reports (hrec : v.recording = true) (hlen : v.buf.length = 48)
    (hframes : v.frames + 1 < voiceMaxFrames) (hseq : v.seq ≠ (n % 65536 : ℕ)) :
    Received n (if f.complete then [f.data] else []) v
      ((f.reports n).foldl (onVoiceReport env) v) := by
  -- With the first report that is missing, the frame is given up.
  have hstart : Collecting f n 0 v :=
    ⟨fun _ => hseq, fun h => absurd rfl h, by rw [Nat.zero_mul, List.take_zero, List.take_zero]⟩
  have ht : Taking n v v := ⟨hrec, hlen, rfl, rfl, .inl rfl⟩
  rw [Frame.reports, List.foldl_append, List.foldl_append, Frame.complete]
  cases h₀ : f.kept 0 with
  | false =>
    have hskip : f.arrived n 0 = [] := by rw [Frame.arrived, h₀]; rfl
    rw [hskip]
    obtain ⟨hmiss, ht₁⟩ := @Missed.arrived env v f n 1 v hstart.skip ht (by decide)
    exact (hmiss.arrived ht₁ (by decide)).2.received
  | true =>
    have hkeep : f.arrived n 0 = [f.report n 0] := by rw [Frame.arrived, h₀]; rfl
    rw [hkeep]
    obtain ⟨hcoll, ht₁⟩ := @Collecting.next env v f n 0 v hstart ht (by decide)
    cases h₁ : f.kept 1 with
    | false =>
      have hskip : f.arrived n 1 = [] := by rw [Frame.arrived, h₁]; rfl
      rw [hskip]
      exact (hcoll.skip.arrived ht₁ (by decide)).2.received
    | true =>
      have hkeep₁ : f.arrived n 1 = [f.report n 1] := by rw [Frame.arrived, h₁]; rfl
      rw [hkeep₁]
      obtain ⟨hcoll₁, ht₂⟩ := @Collecting.next env _ f n 1 v hcoll ht₁ (by decide)
      cases h₂ : f.kept 2 with
      | false =>
        have hskip : f.arrived n 2 = [] := by rw [Frame.arrived, h₂]; rfl
        rw [hskip]
        exact ht₂.received
      | true =>
        have hkeep₂ : f.arrived n 2 = [f.report n 2] := by rw [Frame.arrived, h₂]; rfl
        rw [hkeep₂]
        exact hcoll₁.complete ht₂ hframes

/-! ## Recordings -/

/-- A report of a wrong length is dropped. -/
theorem onVoiceReport_of_length {body : List UInt8} (h : body.length ≠ 20) :
    onVoiceReport env v body = v := by
  rw [onVoiceReport]
  split_ifs <;> rfl

theorem foldl_onVoiceReport_filter (reports : List (List UInt8)) :
    reports.foldl (onVoiceReport env) v =
      (reports.filter (·.length = 20)).foldl (onVoiceReport env) v := by
  induction reports generalizing v with
  | nil => rfl
  | cons body reports ih =>
    by_cases hlen : body.length = 20
    · rw [List.filter_cons, if_pos (decide_eq_true hlen), List.foldl_cons, List.foldl_cons]
      exact ih
    · rw [List.filter_cons, if_neg (by rw [decide_eq_true_iff]; exact hlen), List.foldl_cons,
        onVoiceReport_of_length hlen]
      exact ih

/-- The frames of a recording, one after the other, which goes on. The numbers of those to come
    are none that was met. -/
theorem recorded_frames {fs : List Frame} (hrec : v.recording = true) (hlen : v.buf.length = 48)
    (hframes : v.frames + fs.length < voiceMaxFrames)
    (hfresh : ∀ i < fs.length, v.seq ≠ ((n + i) % 65536 : ℕ)) :
    ((recorded n fs).foldl (onVoiceReport env) v).emitted =
        v.emitted ++ (fs.filter Frame.complete).map Frame.data ∧
      ((recorded n fs).foldl (onVoiceReport env) v).recording = true := by
  induction fs generalizing v n with
  | nil => exact ⟨(List.append_nil _).symm, hrec⟩
  | cons f fs ih =>
    have hmax : voiceMaxFrames = 6000 := rfl
    rw [List.length_cons] at hframes hfresh
    have hf := @frame_reports env v f n hrec hlen (by omega) (hfresh 0 (Nat.succ_pos _))
    rw [recorded, List.foldl_append]
    set v' := (f.reports n).foldl (onVoiceReport env) v
    have hle := hf.frames_le
    obtain ⟨hrest, hrecord⟩ := @ih v' (n + 1) hf.recording hf.length_buf (by omega) (by
      intro i hi
      have hnext := hfresh (i + 1) (Nat.succ_lt_succ hi)
      rw [← add_assoc, add_right_comm] at hnext
      rcases hf.seq with hseq | hseq | hseq
      · rw [hseq]
        exact hnext
      · -- Frame `n` has a number of its own among fewer than 65536 frames.
        rw [hseq]
        intro heq
        have hmod : n % 65536 = (n + 1 + i) % 65536 := Int.ofNat.inj heq
        omega
      · rw [hseq]
        exact (Int.negSucc_lt_zero 0).trans_le (Int.natCast_nonneg _) |>.ne)
    refine ⟨?_, hrecord⟩
    rw [hrest, hf.emitted, List.append_assoc]
    cases hc : f.complete with
    | true => rw [List.filter_cons_of_pos hc]; rfl
    | false => rw [List.filter_cons_of_neg (by rw [hc]; exact Bool.false_ne_true)]; rfl

/-- Of a recording with consecutive sequence numbers, exactly the frames all of whose
    reports come are emitted, in order, whatever reports of a wrong length come between
    them. -/
theorem voice_frames (env : ℕ → Env) (v : Voice) (hrec : v.recording = true)
    (hbuf : v.buf.length = 48) (hseq : v.seq = -1) (hframes : v.frames = 0) (fs : List Frame)
    (hfs : fs.length < voiceMaxFrames) (n : ℕ) (reports : List (List UInt8))
    (hreports : reports.filter (·.length = 20) = recorded n fs) :
    (reports.foldl (onVoiceReport env) v).emitted =
      v.emitted ++ (fs.filter Frame.complete).map Frame.data := by
  rw [foldl_onVoiceReport_filter, hreports]
  refine (recorded_frames hrec hbuf (by omega) fun i _ => ?_).1
  rw [hseq]
  exact (Int.negSucc_lt_zero 0).trans_le (Int.natCast_nonneg _) |>.ne

/-- The bridge when a recording begins. -/
def started : Voice where
  proc := false
  frames := 0
  buf := List.replicate 48 0
  seq := -1
  frag := -1
  vol := 0
  codecFailed := false
  fails := 0
  nwav := 0
  lastFrame := 0
  recording := true
  ctlSeq := 1
  emitted := []

/-- A frame of forty equal bytes. -/
def plainFrame (b : UInt8) (kept : ℕ → Bool) : Frame where
  data := List.replicate 40 b
  tail := List.replicate 8 0
  pad := fun _ => 0
  kept := kept
  length_data := List.length_replicate
  length_tail := List.length_replicate

/-- Three frames around the wrap of the sequence number, of which the second one lost its
    first report, and a report of a wrong length after them. -/
def threeFrames : List Frame :=
  [plainFrame 1 fun _ => true, plainFrame 2 fun idx => idx ≠ 0, plainFrame 3 fun _ => true]

theorem voice_frames_lost :
    ((recorded 65535 threeFrames ++ [[0x00]]).foldl
        (onVoiceReport fun _ => ⟨0, false, true, false, true⟩) started).emitted =
      started.emitted ++ (threeFrames.filter Frame.complete).map Frame.data :=
  voice_frames _ started rfl rfl rfl rfl threeFrames (by decide) 65535 _ (by decide)

end W132d.Remote
