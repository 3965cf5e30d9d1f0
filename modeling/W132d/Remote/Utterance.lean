import W132d.Remote.Recording

/-!
# Utterances

An utterance is what a recording captures: the frames that `on_voice_report` appends to the raw
file, from the press that starts the recording until `voice["recording"]` is cleared. It is to be
no longer than 120 seconds, i.e., `VOICE_MAX_FRAMES` frames of 20 ms, and `voice["frames"]` counts
them. But `voice_close` resets the counter, and it also runs where the decoder cannot be written to,
in the middle of a recording.

* `step_voice`: what a step does to `voice`. A recording goes on with nothing captured, or it
  takes a report, or a press begins one;
* `Broken`: a complete frame cannot be written to the decoder;
* `utterance_bounded`: an utterance in which that does not happen is no longer than the limit;
* `not_utterance_bounded`: one in which it does can be.

The counter of frames and the number of frames captured are two things: the counter is compared with
the limit, and `voice_close` resets it; what is captured is in the raw file, and stays there. They
go together from the press on, unless a frame is captured that cannot be written to the decoder
(`Limited`).

How the theorem is proved: every handler but two leaves `voice`, or ends a recording (`step_voice`).
A press begins a recording with nothing captured, and a report that completes a frame captures one,
counts it and stops the recording at the limit (`Reports`). So an induction over the events of a
recording is about reports only. In the counterexample, two frames are captured that cannot be
written, which leaves the counter at 0, so that 6001 frames are captured in all; the reports of a
recording are given by their frames (`W132d.Remote.Voice`), which makes the run short to state.
-/

namespace W132d.Remote

open Raising

/-! ## Reports -/

/-- The report completes a frame: it has the third fragment, after the second one. -/
structure Completes (v : Voice) (body : List UInt8) : Prop where
  recording : v.recording = true
  length : body.length = 20
  seq : ((body.getD 0 0).toNat + 256 * (body.getD 1 0).toNat : ℤ) = v.seq
  frag : v.frag = 1
  idx : (body.getD 2 0).toNat = 2

instance (v : Voice) (body : List UInt8) : Decidable (Completes v body) :=
  decidable_of_iff (v.recording = true ∧ body.length = 20 ∧
      ((body.getD 0 0).toNat + 256 * (body.getD 1 0).toNat : ℤ) = v.seq ∧ v.frag = 1 ∧
      (body.getD 2 0).toNat = 2)
    ⟨fun ⟨hrec, hlen, hseq, hfrag, hidx⟩ => ⟨hrec, hlen, hseq, hfrag, hidx⟩,
      fun h => ⟨h.recording, h.length, h.seq, h.frag, h.idx⟩⟩

/-- A decoder is running when `voice_open` returns: it did not exit, or is started again. -/
def decoding (e : Env) (v : Voice) : Bool :=
  v.proc && !e.exited || e.starts && !(v.codecFailed || v.proc && decide (v.fails + 1 ≥ 3))

/-- The decoder runs once it was opened, if it can. -/
theorem voiceOpen_proc (e : Env) (v : Voice) : (voiceOpen e v).proc = decoding e v := by
  rw [voiceOpen, decoding, decoderFailed]
  cases hproc : v.proc <;> cases e.exited <;> cases hfailed : v.codecFailed <;> cases e.starts <;>
    simp [hproc, hfailed] <;> split <;> simp_all

theorem voiceOpen_ctlSeq (e : Env) (v : Voice) : (voiceOpen e v).ctlSeq = v.ctlSeq := by
  rw [voiceOpen]
  dsimp only
  split_ifs <;> rfl

namespace Bridge

variable {e : Env} {v : Voice} {body : List UInt8}

/-- What a complete frame does, up to the limit. -/
theorem takeFrame_spec (e : Env) (v : Voice) (vol : UInt8) :
    (takeFrame e v vol).emitted = v.emitted ++ [v.buf.take 40] ∧
      (takeFrame e v vol).ctlSeq = v.ctlSeq ∧
      (takeFrame e v vol).frames = if decoding e v && !e.takes then 0 else v.frames + 1 := by
  have hopen := voiceOpen_unchanged e
    { v with vol := vol, frames := v.frames + 1, lastFrame := e.now }
  have hproc := voiceOpen_proc e { v with vol := vol, frames := v.frames + 1, lastFrame := e.now }
  have hctl := voiceOpen_ctlSeq e { v with vol := vol, frames := v.frames + 1, lastFrame := e.now }
  change _ = decoding e v at hproc
  rw [takeFrame]
  dsimp only
  rw [hproc]
  split
  · exact ⟨congrArg (· ++ [v.buf.take 40]) hopen.emitted, hctl, rfl⟩
  · exact ⟨congrArg (· ++ [v.buf.take 40]) hopen.emitted, hctl, hopen.frames⟩

/-- A report that does not complete a frame. -/
structure Stored (v v' : Voice) : Prop where
  emitted : v'.emitted = v.emitted
  ctlSeq : v'.ctlSeq = v.ctlSeq
  frames : v'.frames = v.frames

/-- A report that completes a frame, up to the limit. -/
structure Captured (e : Env) (v v' : Voice) : Prop where
  emitted : v'.emitted.length = v.emitted.length + 1
  ctlSeq : v'.ctlSeq = v.ctlSeq
  frames : v'.frames = if decoding e v && !e.takes then 0 else v.frames + 1

/-- A report that completes a frame captures it, if the frame is decoded. -/
theorem takeReport_completes (h : Completes v body) :
    (takeReport e v body).2 = true ∧ Captured e v (takeReport e v body).1 := by
  have hidx : ((body.getD 2 0).toNat : ℤ) = v.frag + 1 := by rw [h.idx, h.frag]; rfl
  have hrec : ¬(!v.recording) = true := by rw [h.recording]; exact Bool.false_ne_true
  rw [takeReport, if_neg hrec, if_neg (not_not.2 h.length)]
  dsimp only
  rw [if_neg (not_not.2 h.seq), if_neg (not_not.2 hidx), h.idx, takeFragment]
  dsimp only
  rw [if_neg (not_not.2 rfl)]
  obtain ⟨hemitted, hctl, hframes⟩ := takeFrame_spec e { v with
    frag := (2 : ℕ),
    buf := v.buf.take (2 * 16) ++ (body.drop 4).take 16 ++ v.buf.drop (2 * 16 + 16) }
    (body.getD 12 0)
  refine ⟨rfl, ?_, hctl, hframes⟩
  rw [hemitted, List.length_append, List.length_singleton]

/-- A fragment that is not the last one is stored. -/
theorem takeFragment_stored {idx : ℕ} (h : idx ≠ 2) :
    (takeFragment e v idx body).2 = false ∧ Stored v (takeFragment e v idx body).1 := by
  rw [takeFragment, if_pos h]
  exact ⟨rfl, rfl, rfl, rfl⟩

theorem takeReport_stored (h : ¬Completes v body) :
    (takeReport e v body).2 = false ∧ Stored v (takeReport e v body).1 := by
  rw [takeReport]
  dsimp only
  split_ifs with hrec hlen hseq hidx hfrag
  · exact ⟨rfl, rfl, rfl, rfl⟩
  · exact ⟨rfl, rfl, rfl, rfl⟩
  · exact ⟨rfl, rfl, rfl, rfl⟩
  · -- The first fragment of a frame does not complete it.
    obtain ⟨htaken, hst⟩ := @takeFragment_stored e { v with
      seq := (body.getD 0 0).toNat + 256 * (body.getD 1 0).toNat, frag := 0 } body
      (body.getD 2 0).toNat (by omega)
    exact ⟨htaken, hst.emitted, hst.ctlSeq, hst.frames⟩
  · exact ⟨rfl, rfl, rfl, rfl⟩
  · rw [not_not] at hseq hlen hfrag
    have hidx : (body.getD 2 0).toNat ≠ 2 := fun hidx =>
      h ⟨by simpa using hrec, hlen, hseq, by omega, hidx⟩
    obtain ⟨htaken, hst⟩ := @takeFragment_stored e { v with
      frag := ((body.getD 2 0).toNat : ℤ) } body (body.getD 2 0).toNat hidx
    exact ⟨htaken, hst.emitted, hst.ctlSeq, hst.frames⟩

/-! ## Steps -/

/-- Nothing is captured, and a recording goes on or ends. -/
structure Continues (v v' : Voice) : Prop where
  emitted : v'.emitted = v.emitted
  recording : v'.recording = true →
    v.recording = true ∧ v'.frames = v.frames ∧ v'.ctlSeq = v.ctlSeq

/-- Doing nothing leaves the recording. -/
theorem Continues.refl (v : Voice) : Continues v v := ⟨rfl, fun h => ⟨h, rfl, rfl⟩⟩

/-- A recording that ends. -/
theorem continues_ended {v v' : Voice} (hemitted : v'.emitted = v.emitted)
    (hrec : v'.recording = false) : Continues v v' :=
  ⟨hemitted, fun h => absurd (hrec.symm.trans h) Bool.false_ne_true⟩

theorem vocal_continues (v : Voice) : Vocal fun _ => Continues v where
  ended _ _ h := continues_ended h.emitted rfl
  trusted _ _ h := ⟨h.emitted, h.recording⟩

variable {s s' t : Bridge} {env : ControlEnv}

/-- Stopping a recording leaves it, or ends it. -/
theorem stopRecording_continues : Continues s.voice ((stopRecording env).runFrom s).2.voice := by
  rw [stopRecording_voice]
  split
  · exact continues_ended rfl rfl
  · exact continues_ended rfl rfl

/-- A report takes `v` to `v'`. -/
structure Reports (e : Env) (body : List UInt8) (v v' : Voice) : Prop where
  emitted : v'.emitted = (takeReport e v body).1.emitted
  recording : v'.recording = true →
    v' = (takeReport e v body).1 ∧ full (takeReport e v body) = false

theorem onVoiceReport_reports :
    Reports e body s.voice ((onVoiceReport e env body).runFrom s).2.voice := by
  rw [onVoiceReport, runFrom_bind_ok runFrom_get, runFrom_bind_ok (runFrom_modify _)]
  split
  · have hstop := @stopRecording_continues { s with voice := (takeReport e s.voice body).1 } env
    refine ⟨hstop.emitted, fun hrec => absurd hrec ?_⟩
    rw [stopRecording_voice]
    split <;> exact Bool.false_ne_true
  · rename_i hfull
    exact ⟨rfl, fun _ => ⟨rfl, Bool.eq_false_iff.2 hfull⟩⟩

/-- A write of the recording control. Only a lookup that raises gets past its return. -/
theorem voiceCtl_issues (env : ControlEnv) (on : Bool) (s : Bridge) :
    ∃ x t, (voiceCtl env on).runFrom s = (x, t) ∧ t.voice.emitted = s.voice.emitted ∧
      match x with
      | .ok true => t.controls = (on, t.voice.ctlSeq) :: s.controls
      | .ok false => True
      | .error _ => env.lookup = false := by
  rw [voiceCtl, runFrom_bind_ok (runFrom_modify _), runFrom_bind_ok runFrom_get]
  split
  · exact ⟨_, _, rfl, rfl, trivial⟩
  · cases hlookup : env.lookup with
    | false => exact ⟨_, _, rfl, rfl, rfl⟩
    | true =>
      cases hwrite : env.write with
      | false => exact ⟨_, _, rfl, rfl, trivial⟩
      | true => exact ⟨_, _, rfl, rfl, rfl⟩

/-- A press that begins a recording takes `s` to `s'`. Where the control characteristic is found,
    the recording waits for the reply to the write with the latest number. -/
structure Presses (env : ControlEnv) (s s' : Bridge) : Prop where
  idle : s.voice.recording = false
  emitted : s'.voice.emitted = s.voice.emitted
  issued : env.lookup = true → s'.voice.recording = true →
    s'.controls = (true, s'.voice.ctlSeq) :: s.controls

/-- A press begins a recording if there is none. -/
theorem press_presses {now : ℕ} (h : s.voice.recording = false) :
    Presses env s ((press now env).runFrom s).2 := by
  rw [press, runFrom_bind_ok (runFrom_modify _)]
  obtain ⟨x, t, hrun, hemitted, hx⟩ := voiceCtl_issues env true { s with
    voice := { s.voice with recording := true, lastFrame := 0 }, recordingSince := now }
  cases x with
  | error x =>
    rw [runFrom_bind_error hrun]
    exact ⟨h, hemitted, fun htrue => absurd (hx.symm.trans htrue) Bool.false_ne_true⟩
  | ok started =>
    rw [runFrom_bind_ok hrun]
    cases started with
    | true => exact ⟨h, hemitted, fun _ _ => hx⟩
    | false => exact ⟨h, hemitted, fun _ hrec => absurd hrec Bool.false_ne_true⟩

/-- What a vendor key event does. -/
theorem keyEvent_voice (now : ℕ) (env : ControlEnv) (data : List UInt8) (s : Bridge) :
    Continues s.voice ((keyEvent now env data).runFrom s).2.voice ∨
      Presses env s ((keyEvent now env data).runFrom s).2 := by
  rw [keyEvent, runFrom_bind_ok runFrom_get]
  split_ifs with hpress hrelease
  · exact .inr (press_presses (by simpa using hpress.2))
  · refine .inl ?_
    rw [release, runFrom_bind_ok runFrom_get]
    split
    · exact stopRecording_continues
    · rename_i hrec
      exact continues_ended rfl (Bool.eq_false_iff.2 hrec)
  · exact .inl (.refl _)

/-- What a dispatched report does. -/
theorem onReport_voice (e : Env) (env : ControlEnv) (rid : ℕ) (data : List UInt8) (s : Bridge) :
    Continues s.voice ((onReport e env rid data).runFrom s).2.voice ∨
      (rid = rptVoiceIn ∧
        Reports e data s.voice ((onReport e env rid data).runFrom s).2.voice) ∨
      Presses env s ((onReport e env rid data).runFrom s).2 := by
  rw [onReport]
  split_ifs with hvoice hkey
  · exact .inr (.inl ⟨hvoice, onVoiceReport_reports⟩)
  · exact (keyEvent_voice e.now env data s).imp_right .inr
  · exact .inl (.refl _)

/-- A tick leaves the recording, or ends it. -/
theorem tick_continues (env : TickEnv) (s : Bridge) : Continues s.voice (tick env s).voice := by
  have hkeeps := (vocal_continues s.voice).beforeSilence env s (.refl _)
  rw [tick_voice, tickBody, runFrom_bind]
  cases hrun : (beforeSilence env).runFrom s with
  | mk x t =>
    rw [hrun] at hkeeps
    cases x with
    | error x => exact hkeeps
    | ok reached =>
      change Continues s.voice (runFrom (do
        let s ← get
        if reached && stalled (env.now .silence) s then stopRecording env.control
          else pure ()) t).2.voice
      rw [runFrom_bind_ok runFrom_get]
      split
      · refine continues_ended (stopRecording_continues.emitted.trans hkeeps.emitted) ?_
        rw [stopRecording_voice]
        split <;> rfl
      · exact hkeeps

/-- What a step does to `voice`: unless it is a report or a press, a recording goes on with nothing
    captured, or ends. -/
theorem step_voice {e : Event} (hstep : bridge.step s e = some s') :
    Continues s.voice s'.voice ∨
      (∃ env control path body, e = .value env control path body ∧
        s.route path = some rptVoiceIn ∧ Reports env body s.voice s'.voice) ∨
      ∃ env control path data, e = .value env control path data ∧ Presses control s s' := by
  -- Only a report may begin a recording or capture a frame. What else there is leaves the
  -- recording, or ends it.
  cases e with
  | value env control path data =>
    obtain rfl := Option.some.inj hstep
    cases hroute : s.route path with
    | none =>
      rw [onValue_none hroute]
      exact .inl (.refl _)
    | some rid =>
      rw [onValue_some hroute]
      obtain h | ⟨rfl, h⟩ | h :=
        onReport_voice env control rid data { s with rmap := s.rmap.mapPath path }
      · exact .inl h
      · exact .inr (.inl ⟨env, control, path, data, rfl, hroute, h⟩)
      · exact .inr (.inr ⟨env, control, path, data, rfl, h.idle, h.emitted, h.issued⟩)
  | device now env path =>
    obtain rfl := Option.some.inj hstep
    exact .inl ((vocal_continues s.voice).stable.onDevice now env path (.refl _))
  | ifaceAdded matching current path =>
    obtain rfl := Option.some.inj hstep
    exact .inl ((vocal_continues s.voice).stable.onIfaceAdded matching current path (.refl _))
  | controlReply on ctlSeq failed =>
    obtain ⟨-, rfl⟩ | ⟨-, rfl⟩ := step_controlReply hstep
    · exact .inl (.refl _)
    · -- The remote cannot record, and the reply ends what was begun.
      exact .inl (continues_ended rfl rfl)
  | tick env =>
    obtain rfl := Option.some.inj hstep
    exact .inl (tick_continues env s)
  | pairOk env token =>
    obtain ⟨-, rfl⟩ := step_pairOk hstep
    exact .inl ((vocal_continues s.voice).stable.finishPair env token _ (.refl _))
  | pairFailed env token =>
    obtain ⟨-, rfl⟩ := step_pairFailed hstep
    exact .inl ((vocal_continues s.voice).stable.pairFailed env token _ (.refl _))
  | openWindow now session =>
    obtain rfl := Option.some.inj hstep
    exact .inl (.refl _)

/-! ## The limit -/

/-- A report completes a frame that cannot be written to the decoder. -/
def Broken (s : Bridge) : Event → Prop
  | .value env _ path body =>
    s.route path = some rptVoiceIn ∧ Completes s.voice body ∧ decoding env s.voice = true ∧
      env.takes = false
  | _ => False

instance (s : Bridge) : DecidablePred (Broken s)
  | .value .. => inferInstanceAs (Decidable (_ ∧ _ ∧ _ ∧ _))
  | .device .. | .ifaceAdded .. | .controlReply .. | .tick .. | .pairOk .. | .pairFailed ..
  | .openWindow .. => .isFalse id

/-- The event is handled while the bridge records. -/
def Recording (s : Bridge) (_ : Event) : Prop := s.voice.recording = true

instance (s : Bridge) (e : Event) : Decidable (Recording s e) :=
  inferInstanceAs (Decidable (s.voice.recording = true))

/-- Of a recording that began with `n` frames captured: there are no more than the limit, and as
    long as it goes on, no more than the counter says. -/
structure Limited (n : ℕ) (v : Voice) : Prop where
  captured : v.emitted.length ≤ n + voiceMaxFrames
  counted : v.recording = true →
    v.emitted.length ≤ n + v.frames ∧ v.emitted.length < n + voiceMaxFrames

/-- A recording that goes on stays as limited as it was. -/
theorem Limited.continues {n : ℕ} {v v' : Voice} (h : Limited n v) (hv : Continues v v') :
    Limited n v' := by
  refine ⟨hv.emitted ▸ h.captured, fun hrec => ?_⟩
  obtain ⟨hrec, hframes, -⟩ := hv.recording hrec
  rw [hv.emitted, hframes]
  exact h.counted hrec

/-- A report that can be written keeps the limit: the counter goes with what is captured. -/
theorem Limited.reports {n : ℕ} {v v' : Voice} (h : Limited n v) (hv : Reports e body v v')
    (hwritten : Completes v body → (decoding e v && !e.takes) = false) : Limited n v' := by
  by_cases hcomp : Completes v body
  · obtain ⟨htaken, hcap⟩ := @takeReport_completes e v body hcomp
    obtain ⟨hcounted, hlt⟩ := h.counted hcomp.recording
    have hlen : v'.emitted.length = v.emitted.length + 1 := hv.emitted ▸ hcap.emitted
    refine ⟨by omega, fun hrec => ?_⟩
    obtain ⟨hv', hfull⟩ := hv.recording hrec
    have hframes := hcap.frames
    rw [hwritten hcomp, if_neg Bool.false_ne_true, ← hv'] at hframes
    rw [full, htaken, Bool.true_and, decide_eq_false_iff_not, ← hv', hframes] at hfull
    omega
  · obtain ⟨-, hst⟩ := @takeReport_stored e v body hcomp
    refine ⟨hv.emitted ▸ hst.emitted ▸ h.captured, fun hrec => ?_⟩
    obtain ⟨hv', -⟩ := hv.recording hrec
    rw [hv', hst.emitted, hst.frames]
    exact h.counted ((takeReport_recording e v body).symm.trans (hv' ▸ hrec))

/-- A step of a recording whose frame can be written keeps the limit. -/
theorem step_limited {n : ℕ} {e : Event} (hs : Limited n s.voice) (hrec : Recording s e)
    (hok : ¬Broken s e) (hstep : bridge.step s e = some s') : Limited n s'.voice := by
  obtain h | ⟨env, control, path, body, rfl, hroute, h⟩ | ⟨_, _, _, _, _, h⟩ := step_voice hstep
  · exact hs.continues h
  · refine hs.reports h fun hcomp => ?_
    by_contra hbroken
    rw [Bool.not_eq_false, Bool.and_eq_true, Bool.not_eq_true'] at hbroken
    exact hok ⟨hroute, hcomp, hbroken⟩
  · exact absurd (h.idle.symm.trans hrec) Bool.false_ne_true

/-- A recording starts with nothing captured. -/
theorem limited_start {e : Event} (hidle : s.voice.recording = false)
    (hstep : bridge.step s e = some s') : Limited s.voice.emitted.length s'.voice := by
  have hstart : s'.voice.emitted = s.voice.emitted → Limited s.voice.emitted.length s'.voice := by
    have hmax : voiceMaxFrames = 6000 := rfl
    intro h
    rw [← h]
    exact ⟨by omega, fun _ => ⟨by omega, by omega⟩⟩
  obtain h | ⟨env, control, path, body, -, -, h⟩ | ⟨_, _, _, _, _, h⟩ := step_voice hstep
  · exact hstart h.emitted
  · refine hstart (h.emitted.trans ?_)
    rw [takeReport_of_not_recording hidle]
  · exact hstart h.emitted

/-- If no complete frame of it fails to be written to the decoder, an utterance has no more frames
    than the limit: those captured from the press on, up to the event that ends the recording. -/
theorem utterance_bounded {s₀ s₁ : Bridge} {e : Event} {es : List Event}
    (hidle : s₀.voice.recording = false) (hpress : bridge.step s₀ e = some s₁)
    (hrec : bridge.Along Recording s₁ es) (hok : bridge.Along (fun s e => ¬Broken s e) s₁ es)
    (hrun : bridge.run s₁ es = some s) :
    s.voice.emitted.length ≤ s₀.voice.emitted.length + voiceMaxFrames :=
  (Machine.invariant (I := fun s => Limited s₀.voice.emitted.length s.voice)
    (fun _ _ _ hs hG hstep => step_limited hs hG.1 hG.2 hstep) (limited_start hidle hpress)
    (hrec.and hok) hrun).captured

/-- A report to the bridge, where the decoder takes a complete frame or not. -/
def heard (takes : Bool) (body : List UInt8) : Event :=
  .value ⟨1000, false, true, takes, true⟩ ⟨[remote ++ ["char0037"]], true, true⟩
    (remote ++ ["char0033"]) body

/-- A press of the voice key. -/
def pressed : Event :=
  .value ⟨1000, false, true, true, true⟩ ⟨[remote ++ ["char0037"]], true, true⟩
    (remote ++ ["char003a"]) [0x82, voiceKey, 1, 0]

/-- `n` equal frames, all of whose reports come. -/
def plainFrames (n : ℕ) : List Frame := List.replicate n (plainFrame 1 fun _ => true)

/-- Two frames, of which both are captured. -/
theorem utterance_bounded_two : ∃ s₀ s₁ s,
    bridge.run init [.ifaceAdded true false remote] = some s₀ ∧ bridge.step s₀ pressed = some s₁ ∧
      bridge.run s₁ ((recorded 0 (plainFrames 2)).map (heard true)) = some s ∧
      s.voice.emitted.length = 2 ∧
      s.voice.emitted.length ≤ s₀.voice.emitted.length + voiceMaxFrames := by
  obtain ⟨s₀, s₁, hrun, hpress, hidle, hrec, hok, hany⟩ := @Machine.exists_run_step _ _ bridge
    init pressed [.ifaceAdded true false remote] (fun s₀ s₁ => s₀.voice.recording = false ∧
      bridge.Along Recording s₁ ((recorded 0 (plainFrames 2)).map (heard true)) ∧
      bridge.Along (fun s e => ¬Broken s e) s₁ ((recorded 0 (plainFrames 2)).map (heard true)) ∧
      (bridge.run s₁ ((recorded 0 (plainFrames 2)).map (heard true))).any
        (fun s => s.voice.emitted.length = 2) = true) _ (by decide +kernel)
  obtain ⟨s, hrun', htwo⟩ := Machine.exists_run hany
  exact ⟨s₀, s₁, s, hrun, hpress, hrun', htwo, utterance_bounded hidle hpress hrec hok hrun'⟩

/-- The reports of the recorded sound are dispatched as such. -/
structure Listening (s : Bridge) : Prop where
  dev : s.dev = some remote
  mapped : s.rmap.byPath.lookup (remote ++ ["char0033"]) = some (rptVoiceIn, 1)

instance (s : Bridge) : Decidable (Listening s) :=
  decidable_of_iff (s.dev = some remote ∧
      s.rmap.byPath.lookup (remote ++ ["char0033"]) = some (rptVoiceIn, 1))
    ⟨fun ⟨hdev, hmapped⟩ => ⟨hdev, hmapped⟩, fun h => ⟨h.dev, h.mapped⟩⟩

/-- The voice comes in a report of its own. -/
theorem Listening.route (h : Listening s) : s.route (remote ++ ["char0033"]) = some rptVoiceIn ∧
    s.rmap.mapPath (remote ++ ["char0033"]) = s.rmap := by
  have hmap : s.rmap.mapPath (remote ++ ["char0033"]) = s.rmap := by
    rw [ReportMap.mapPath, h.mapped]
  have hknown : ¬((knownReport (remote ++ ["char0033"])).isNone ∧
      (s.rmap.byPath.lookup (remote ++ ["char0033"])).isNone) := by
    rw [h.mapped]
    exact fun h => absurd h.2 Bool.false_ne_true
  have hwithin : ¬s.dev.any (fun dev => !(remote ++ ["char0033"]).within dev) = true := by
    rw [h.dev]
    decide
  rw [Bridge.route, if_neg hknown, if_neg hwithin, hmap, h.mapped]
  exact ⟨rfl, rfl⟩

/-- A report that leaves the bridge recording is taken as in `W132d.Remote.Voice`. -/
theorem step_heard {takes : Bool} {body : List UInt8} (hs : Listening s)
    (hrec : (Remote.onVoiceReport (fun _ => ⟨1000, false, true, takes, true⟩) s.voice
      body).recording = true) :
    bridge.step s (heard takes body) = some { s with
      voice := Remote.onVoiceReport (fun _ => ⟨1000, false, true, takes, true⟩) s.voice body } := by
  obtain ⟨hroute, hmap⟩ := hs.route
  rw [takeReport_eq, limited] at hrec ⊢
  split_ifs at hrec ⊢ with hfull
  · exact absurd hrec (by rw [Remote.voiceCtl, if_pos rfl]; exact Bool.false_ne_true)
  · rw [heard, bridge]
    dsimp only
    rw [onValue_some hroute, hmap, onReport, if_pos rfl, onVoiceReport,
      runFrom_bind_ok runFrom_get, runFrom_bind_ok (runFrom_modify _), if_neg hfull]
    rfl

/-- Reports that come when the bridge is not recording are dropped, so that it goes on recording if
    it does after them. -/
theorem recording_of_foldl {env : ℕ → Env} {bodies : List (List UInt8)} {v : Voice}
    (h : (bodies.foldl (Remote.onVoiceReport env) v).recording = true) : v.recording = true := by
  induction bodies with
  | nil => exact h
  | cons body bodies ih =>
    by_contra hv
    have hdropped : Remote.onVoiceReport env v body = v := by
      rw [Remote.onVoiceReport, Bool.eq_false_iff.2 hv]
      rfl
    rw [List.foldl_cons, hdropped] at h
    exact hv (ih h)

/-- So are reports one after the other. -/
theorem run_heard {takes : Bool} {bodies : List (List UInt8)} (hs : Listening s)
    (hrec : (bodies.foldl (Remote.onVoiceReport fun _ => ⟨1000, false, true, takes, true⟩)
      s.voice).recording = true) :
    bridge.Along Recording s (bodies.map (heard takes)) ∧
      bridge.run s (bodies.map (heard takes)) = some { s with
        voice := bodies.foldl (Remote.onVoiceReport fun _ => ⟨1000, false, true, takes, true⟩)
          s.voice } := by
  induction bodies generalizing s with
  | nil => exact ⟨trivial, rfl⟩
  | cons body bodies ih =>
    have hfirst : s.voice.recording = true := recording_of_foldl hrec
    rw [List.foldl_cons] at hrec
    have hstep := step_heard hs (recording_of_foldl hrec)
    obtain ⟨halong, hrun⟩ := @ih { s with
      voice := Remote.onVoiceReport (fun _ => ⟨1000, false, true, takes, true⟩) s.voice body }
      ⟨hs.dev, hs.mapped⟩ hrec
    rw [List.map_cons, Machine.along_cons hstep, Machine.run_cons hstep]
    exact ⟨⟨hfirst, halong⟩, hrun⟩

/-- Two frames cannot be written to the decoder, so that 5999 more are not too many. -/
theorem not_utterance_bounded : ¬∀ pre s₀ e s₁ es s, bridge.run init pre = some s₀ →
    s₀.voice.recording = false → bridge.step s₀ e = some s₁ → bridge.Along Recording s₁ es →
    bridge.run s₁ es = some s →
    s.voice.emitted.length ≤ s₀.voice.emitted.length + voiceMaxFrames := by
  intro h
  obtain ⟨s₀, s₁, hrun, hpress, hidle, hnone, hrec, hany⟩ := @Machine.exists_run_step _ _ bridge
    init pressed [.ifaceAdded true false remote] (fun s₀ s₁ => s₀.voice.recording = false ∧
      s₀.voice.emitted = [] ∧
      bridge.Along Recording s₁ ((recorded 0 (plainFrames 2)).map (heard false)) ∧
      (bridge.run s₁ ((recorded 0 (plainFrames 2)).map (heard false))).any
        (fun s => Listening s ∧ s.voice.recording = true ∧ s.voice.buf.length = 48 ∧
          s.voice.frames = 0 ∧ s.voice.seq = -1 ∧ s.voice.emitted.length = 2) = true) _
    (by decide +kernel)
  obtain ⟨t, hrun₁, ht, hrecording, hbuf, hframes, hseq, htwo⟩ := Machine.exists_run hany
  obtain ⟨fs, hlen, hcomplete⟩ : ∃ fs : List Frame,
      fs.length = 5999 ∧ fs.filter Frame.complete = fs :=
    ⟨plainFrames 5999, List.length_replicate, List.filter_eq_self.2 fun f hf =>
      (List.eq_of_mem_replicate hf) ▸ rfl⟩
  have hmax : voiceMaxFrames = 6000 := rfl
  obtain ⟨hemitted, hlast⟩ := @recorded_frames
    (fun _ => ⟨1000, false, true, true, true⟩) t.voice 2 fs hrecording hbuf (by omega)
    (fun i _ => by rw [hseq]; omega)
  have hrest := run_heard ht hlast
  have hall := h _ s₀ _ s₁ _ _ hrun hidle hpress
    ((Machine.along_append_iff hrun₁).2 ⟨hrec, hrest.1⟩) ((Machine.run_append hrun₁).trans hrest.2)
  change (List.foldl _ t.voice (recorded 2 fs)).emitted.length ≤ _ at hall
  rw [hemitted, hcomplete, hnone, List.length_append, List.length_map, htwo, hlen] at hall
  rw [hmax] at hall
  exact absurd hall (by decide)

end Bridge

end W132d.Remote
