import W132d.Remote.Bridge

/-!
# Recording

A recording starts with a press of the voice key. It is stopped when the key is released, at the
limit of 120 seconds, when it is silent, when the write that starts it fails, and with the link or
the device. Each of these clears `voice["recording"]` and closes the decoder (`voice_close`), so
that the next press starts with nothing open.

In the first three, `voice_ctl(False)` stands between the two, and it looks up the control
characteristic outside of its `try`. If the lookup raises, the handler ends there.

* `Consistent`: if the bridge is not recording, nothing is open;
* `stops`: where the handler of an event stops a recording with `voice_ctl(False)`;
* `consistent_iff`: a run is consistent exactly if no such lookup raises while something is open;
* `press_fresh`: a press starts with nothing open;
* `onVoiceReport_voice`: unless the lookup raises, reports are put together as in
  `W132d.Remote.Voice`.

How the theorem is proved: for each handler, either it does not stop a recording with
`voice_ctl(False)`, and keeps the bridge consistent (`step_consistent`), or it gets to a state in
which it does, and then `stopRecording` decides (`step_stops`). Where the lookup raises,
`voice["recording"]` was cleared already, and what is open stays open (`stopRecording_consistent`);
this is why the condition is exact for each step. The handlers that are not about the voice at all
are dealt with by one rule each (`Vocal`, `Stable` of `W132d.Remote.Bridge`).
-/

namespace W132d.Remote

open Raising

/-- Nothing of a recording is open. -/
structure Closed (v : Voice) : Prop where
  proc : v.proc = false
  frames : v.frames = 0
  seq : v.seq = -1
  frag : v.frag = -1

instance (v : Voice) : Decidable (Closed v) :=
  decidable_of_iff (v.proc = false ∧ v.frames = 0 ∧ v.seq = -1 ∧ v.frag = -1)
    ⟨fun ⟨hproc, hframes, hseq, hfrag⟩ => ⟨hproc, hframes, hseq, hfrag⟩,
      fun h => ⟨h.proc, h.frames, h.seq, h.frag⟩⟩

theorem closed_voiceClose (v : Voice) : Closed (voiceClose v) := ⟨rfl, rfl, rfl, rfl⟩

namespace Bridge

/-- If the bridge is not recording, nothing is open. -/
def Consistent (s : Bridge) : Prop := s.voice.recording = false → Closed s.voice

instance : DecidablePred Consistent := fun s =>
  inferInstanceAs (Decidable (s.voice.recording = false → Closed s.voice))

/-! ## Where a recording is stopped -/

/-- The report that a notification is dispatched as. -/
def route (s : Bridge) (path : Path) : Option ℕ :=
  if (knownReport path).isNone ∧ (s.rmap.byPath.lookup path).isNone then none
  else if s.dev.any (fun dev => !path.within dev) then none
  else ((s.rmap.mapPath path).byPath.lookup path).map (·.1)

/-- Where a report stops a recording: it completes the last frame, or says that the key is
    released. -/
def reportStops (env : Env) (rid : ℕ) (data : List UInt8) (s : Bridge) : Option Bridge :=
  if rid = rptVoiceIn then
    if full (takeReport env s.voice data) then
      some { s with voice := (takeReport env s.voice data).1 }
    else none
  else if rid = rptKeyevent ∧ voiceKeyAction data = some 0 ∧ s.voice.recording then some s
  else none

/-- Where `_tick` stops a recording: it is silent when the handler gets to the check. -/
def tickStops (env : TickEnv) (s : Bridge) : Option Bridge :=
  match (beforeSilence env).runFrom s with
  | (.ok true, t) => if stalled (env.now .silence) t then some t else none
  | _ => none

/-- The state in which the handler of an event stops a recording, and what `voice_ctl(False)` meets
    there. -/
def stops (s : Bridge) : Event → Option (Bridge × ControlEnv)
  | .value env control path data =>
    (s.route path).bind fun rid =>
      (reportStops env rid data { s with rmap := s.rmap.mapPath path }).map (·, control)
  | .tick env => (tickStops env s).map (·, env.control)
  | _ => none

/-- `voice_ctl` looks up the control characteristic and that raises. -/
def lookupRaises (env : ControlEnv) (s : Bridge) : Bool :=
  ((s.controlMap env.objects).byId.lookup (rptVoiceCtl, 2)).isSome && !env.lookup

/-- If the handler of an event stops a recording while something is open, the lookup of the control
    characteristic does not raise. -/
def Clean (s : Bridge) (e : Event) : Prop :=
  ∀ t control, stops s e = some (t, control) → lookupRaises control t = true → Closed t.voice

instance (s : Bridge) (e : Event) : Decidable (Clean s e) :=
  match h : stops s e with
  | none => .isTrue fun _ _ h' => absurd (h.symm.trans h') nofun
  | some (t, control) =>
    decidable_of_iff (lookupRaises control t = true → Closed t.voice)
      ⟨fun hclosed t' control' h' => by
        obtain ⟨rfl, rfl⟩ := Prod.mk.inj (Option.some.inj (h.symm.trans h'))
        exact hclosed, fun hclean => hclean t control h⟩

/-! ## Handlers -/

variable {s s' t : Bridge} {env : ControlEnv} {on : Bool}

/-- If the lookup raises, nothing of the recording has changed. -/
theorem voiceCtl_raises (h : lookupRaises env s = true) :
    (voiceCtl env on).runFrom s = (.error .other, { s with rmap := s.controlMap env.objects }) := by
  obtain ⟨hknown, hlookup⟩ := Bool.and_eq_true_iff.1 h
  rw [Bool.not_eq_true'] at hlookup
  have hsome : ¬((s.controlMap env.objects).byId.lookup (rptVoiceCtl, 2)).isNone :=
    ne_true_of_eq_false (Option.isNone_eq_false_iff.2 hknown)
  rw [voiceCtl, runFrom_bind_ok (runFrom_modify _), runFrom_bind_ok runFrom_get, if_neg hsome,
    if_neg (ne_true_of_eq_false hlookup)]
  rfl

/-- If not, only the writes have changed, and the characteristic is known if one is counted. -/
theorem voiceCtl_returns (h : lookupRaises env s = false) :
    ∃ started controls, (voiceCtl env on).runFrom s = (.ok started, { s with
      rmap := s.controlMap env.objects,
      voice := { s.voice with
        ctlSeq := if ((s.controlMap env.objects).byId.lookup (rptVoiceCtl, 2)).isSome
          then s.voice.ctlSeq + 1 else s.voice.ctlSeq },
      controls := controls }) := by
  rw [voiceCtl, runFrom_bind_ok (runFrom_modify _), runFrom_bind_ok runFrom_get]
  dsimp only
  cases hknown : (s.controlMap env.objects).byId.lookup (rptVoiceCtl, 2) with
  | none => exact ⟨false, s.controls, rfl⟩
  | some path =>
    rw [lookupRaises, hknown, Option.isSome_some, Bool.true_and, Bool.not_eq_false'] at h
    rw [h]
    cases env.write with
    | false => exact ⟨false, s.controls, rfl⟩
    | true => exact ⟨true, (on, s.voice.ctlSeq + 1) :: s.controls, rfl⟩

/-- What is open when a recording was stopped: nothing, unless the lookup raised. -/
theorem stopRecording_voice : ((stopRecording env).runFrom s).2.voice =
    if lookupRaises env s then { s.voice with recording := false }
    else voiceClose { s.voice with
      recording := false,
      ctlSeq := if ((s.controlMap env.objects).byId.lookup (rptVoiceCtl, 2)).isSome
        then s.voice.ctlSeq + 1 else s.voice.ctlSeq } := by
  rw [stopRecording, runFrom_bind_ok (runFrom_modify _)]
  cases h : lookupRaises env s with
  | true =>
    have hraises := @voiceCtl_raises { s with voice := { s.voice with recording := false } }
      env false h
    rw [runFrom_bind_error hraises]
    rfl
  | false =>
    obtain ⟨started, controls, hreturns⟩ := @voiceCtl_returns
      { s with voice := { s.voice with recording := false } } env false h
    rw [runFrom_bind_ok hreturns]
    rfl

/-- A recording that is stopped leaves the bridge consistent exactly if the lookup does not raise
    while something is open. -/
theorem stopRecording_consistent : Consistent ((stopRecording env).runFrom s).2 ↔
    (lookupRaises env s = true → Closed s.voice) := by
  rw [Consistent, stopRecording_voice]
  split
  · rename_i hraises
    have hclosed : Closed { s.voice with recording := false } ↔ Closed s.voice :=
      ⟨fun h => ⟨h.proc, h.frames, h.seq, h.frag⟩, fun h => ⟨h.proc, h.frames, h.seq, h.frag⟩⟩
    rw [hclosed]
    exact ⟨fun h _ => h rfl, fun h _ => h hraises⟩
  · rename_i hraises
    exact iff_of_true (fun _ => closed_voiceClose _) fun h => absurd h hraises

theorem takeFrame_recording (e : Env) (v : Voice) (vol : UInt8) :
    (takeFrame e v vol).recording = v.recording := by
  have h := (voiceOpen_unchanged e
    { v with vol := vol, frames := v.frames + 1, lastFrame := e.now }).recording
  rw [takeFrame]
  dsimp only
  split
  · exact h
  · exact h

/-- A report that does not stop the recording does not end it. -/
theorem takeReport_recording (e : Env) (v : Voice) (body : List UInt8) :
    (takeReport e v body).1.recording = v.recording := by
  have hfragment : ∀ (v : Voice) idx, (takeFragment e v idx body).1.recording = v.recording := by
    intro v idx
    rw [takeFragment]
    split
    · rfl
    · exact takeFrame_recording e _ _
  rw [takeReport]
  dsimp only
  split_ifs
  · rfl
  · rfl
  · rfl
  · exact hfragment _ _
  · rfl
  · exact hfragment _ _

/-- A report without a recording is discarded. -/
theorem takeReport_of_not_recording {e : Env} {v : Voice} {body : List UInt8}
    (h : v.recording = false) : takeReport e v body = (v, false) := by
  rw [takeReport, h]
  rfl

/-- What the limit adds to a report. -/
def limited (e : Env) (taken : Voice × Bool) : Voice :=
  if full taken then voiceClose (Remote.voiceCtl e { taken.1 with recording := false }) else taken.1

theorem takeFragment_eq (e : Env) (v : Voice) (idx : ℕ) (body : List UInt8) :
    storeFragment (fun _ => e) v idx body = limited e (takeFragment e v idx body) := by
  have hframe : ∀ v vol, completeFrame e v vol =
      if (takeFrame e v vol).frames ≥ voiceMaxFrames then
        voiceClose (Remote.voiceCtl e { takeFrame e v vol with recording := false })
      else takeFrame e v vol := fun _ _ => rfl
  rw [storeFragment, takeFragment]
  split
  · rfl
  · rw [hframe, limited, full, Bool.true_and]
    simp only [decide_eq_true_eq]

/-- A report is taken as in `W132d.Remote.Voice`, up to the limit. -/
theorem takeReport_eq (e : Env) (v : Voice) (body : List UInt8) :
    Remote.onVoiceReport (fun _ => e) v body = limited e (takeReport e v body) := by
  rw [Remote.onVoiceReport, takeReport]
  dsimp only
  split_ifs
  · rfl
  · rfl
  · rfl
  · exact takeFragment_eq e _ _ _
  · rfl
  · exact takeFragment_eq e _ _ _

/-- If the lookup does not raise, a report is handled as in `W132d.Remote.Voice`. -/
theorem onVoiceReport_voice {e : Env} {body : List UInt8} (h : lookupRaises env s = false)
    (hcontrol : e.control = ((s.controlMap env.objects).byId.lookup (rptVoiceCtl, 2)).isSome) :
    ((onVoiceReport e env body).runFrom s).2.voice =
      Remote.onVoiceReport (fun _ => e) s.voice body := by
  rw [onVoiceReport, runFrom_bind_ok runFrom_get, runFrom_bind_ok (runFrom_modify _),
    takeReport_eq, limited]
  split
  · rw [stopRecording_voice]
    have hraises : ¬lookupRaises env { s with voice := (takeReport e s.voice body).1 } = true :=
      ne_true_of_eq_false h
    rw [if_neg hraises, Remote.voiceCtl, hcontrol]
    generalize (takeReport e s.voice body).1 = v
    change voiceClose { v with
      recording := false,
      ctlSeq := if ((s.controlMap env.objects).byId.lookup (rptVoiceCtl, 2)).isSome
        then v.ctlSeq + 1 else v.ctlSeq } = _
    split <;> rfl
  · rfl

theorem consistent_of_voice (h : s'.voice = s.voice) (hs : Consistent s) : Consistent s' := by
  rw [Consistent, h]
  exact hs

/-- A press starts with nothing open. -/
theorem press_fresh {now : ℕ} (hs : Closed s.voice) :
    Closed ((press now env).runFrom s).2.voice := by
  have hpress : ∀ ctlSeq recording, Closed
      { s.voice with recording := recording, lastFrame := 0, ctlSeq := ctlSeq } :=
    fun _ _ => ⟨hs.proc, hs.frames, hs.seq, hs.frag⟩
  rw [press, runFrom_bind_ok (runFrom_modify _)]
  cases h : lookupRaises env s with
  | true =>
    have hraises := @voiceCtl_raises { s with
      voice := { s.voice with recording := true, lastFrame := 0 },
      recordingSince := now } env true h
    rw [runFrom_bind_error hraises]
    exact hpress _ _
  | false =>
    obtain ⟨started, controls, hreturns⟩ := @voiceCtl_returns { s with
      voice := { s.voice with recording := true, lastFrame := 0 },
      recordingSince := now } env true h
    rw [runFrom_bind_ok hreturns]
    cases started with
    | true => exact hpress _ _
    | false => exact hpress _ _

/-- A report that does not stop a recording. -/
theorem onReport_consistent {e : Env} {rid : ℕ} {data : List UInt8}
    (h : reportStops e rid data s = none) (hs : Consistent s) :
    Consistent ((onReport e env rid data).runFrom s).2 := by
  rw [onReport]
  rw [reportStops] at h
  by_cases hvoice : rid = rptVoiceIn
  · rw [if_pos hvoice] at h ⊢
    have hfull : ¬full (takeReport e s.voice data) = true := fun hfull =>
      absurd ((if_pos hfull).symm.trans h) nofun
    rw [onVoiceReport, runFrom_bind_ok runFrom_get, runFrom_bind_ok (runFrom_modify _),
      if_neg hfull]
    intro hrec
    have hrec : s.voice.recording = false := (takeReport_recording _ _ _).symm.trans hrec
    change Closed (takeReport e s.voice data).1
    rw [takeReport_of_not_recording hrec]
    exact hs hrec
  rw [if_neg hvoice] at h ⊢
  by_cases hid : rid = rptKeyevent
  · rw [if_pos hid]
    rw [keyEvent, runFrom_bind_ok runFrom_get]
    split_ifs with hpress hrelease
    · exact fun _ => press_fresh (hs (Bool.not_eq_true' _ ▸ hpress.2))
    · have hrec : ¬s.voice.recording = true := fun hrec =>
        absurd ((if_pos ⟨hid, hrelease, hrec⟩).symm.trans h) nofun
      rw [release, runFrom_bind_ok runFrom_get, if_neg hrec]
      exact fun _ => closed_voiceClose _
    · exact hs
  · rw [if_neg hid]
    exact hs

/-- A report that stops a recording. -/
theorem onReport_stops {e : Env} {rid : ℕ} {data : List UInt8}
    (h : reportStops e rid data s = some t) :
    (onReport e env rid data).runFrom s = (stopRecording env).runFrom t := by
  rw [onReport]
  rw [reportStops] at h
  by_cases hvoice : rid = rptVoiceIn
  · rw [if_pos hvoice] at h ⊢
    by_cases hfull : full (takeReport e s.voice data) = true
    · rw [if_pos hfull] at h
      obtain rfl := Option.some.inj h
      rw [onVoiceReport, runFrom_bind_ok runFrom_get, runFrom_bind_ok (runFrom_modify _),
        if_pos hfull]
    · exact absurd ((if_neg hfull).symm.trans h) nofun
  · rw [if_neg hvoice] at h ⊢
    by_cases hkey : rid = rptKeyevent ∧ voiceKeyAction data = some 0 ∧ s.voice.recording
    · rw [if_pos hkey] at h
      obtain rfl := Option.some.inj h
      obtain ⟨hid, hrelease, hrec⟩ := hkey
      rw [if_pos hid]
      rw [keyEvent, runFrom_bind_ok runFrom_get, hrelease, if_neg (fun h => absurd h.1 (by decide)),
        if_pos rfl]
      rw [release, runFrom_bind_ok runFrom_get, if_pos hrec]
    · exact absurd ((if_neg hkey).symm.trans h) nofun

/-- A notification that is not dispatched. -/
theorem onValue_none {e : Env} {path : Path} {data : List UInt8} (h : s.route path = none) :
    ((onValue e env path data).runFrom s).2.voice = s.voice := by
  rw [onValue, runFrom_bind_ok runFrom_get]
  rw [route] at h
  split_ifs at h ⊢ with hunknown hother
  · rfl
  · rfl
  · rw [dispatchNotification, runFrom_bind_ok (runFrom_modify _), runFrom_bind_ok runFrom_get]
    dsimp only
    rw [Option.map_eq_none_iff.1 h]
    rfl

/-- A notification that is dispatched. -/
theorem onValue_some {e : Env} {path : Path} {data : List UInt8} {rid : ℕ}
    (h : s.route path = some rid) : (onValue e env path data).runFrom s =
      (onReport e env rid data).runFrom { s with rmap := s.rmap.mapPath path } := by
  rw [onValue, runFrom_bind_ok runFrom_get]
  rw [route] at h
  split_ifs at h ⊢ with hunknown hother
  obtain ⟨⟨rid, rtype⟩, hent, rfl⟩ := Option.map_eq_some_iff.1 h
  rw [dispatchNotification, runFrom_bind_ok (runFrom_modify _), runFrom_bind_ok runFrom_get]
  dsimp only
  rw [hent]

/-! ## The handler that is called every second -/

theorem vocal_consistent : Vocal fun _ v => v.recording = false → Closed v where
  ended _ _ _ _ := closed_voiceClose _
  trusted _ _ h hrec := ⟨(h hrec).proc, (h hrec).frames, (h hrec).seq, (h hrec).frag⟩

theorem stable_consistent : Stable Consistent := vocal_consistent.stable

/-- The handler does not catch anything of the recording. -/
theorem tick_voice (e : TickEnv) : (tick e s).voice = ((tickBody e).runFrom s).2.voice := by
  rw [tick]
  cases (tickBody e).runFrom s with
  | mk x t => cases x <;> rfl

/-- The handler does not get to the stop of a recording. -/
theorem tick_consistent {e : TickEnv} (h : tickStops e s = none) (hs : Consistent s) :
    Consistent (tick e s) := by
  refine consistent_of_voice (tick_voice e) ?_
  have hkeeps := vocal_consistent.beforeSilence e s hs
  rw [tickStops] at h
  rw [tickBody]
  cases hrun : (beforeSilence e).runFrom s with
  | mk x t =>
    rw [hrun] at h hkeeps
    cases x with
    | error x =>
      rw [runFrom_bind_error hrun]
      exact hkeeps
    | ok reached =>
      rw [runFrom_bind_ok hrun, runFrom_bind_ok runFrom_get, if_neg]
      · exact hkeeps
      · intro hstop
        obtain ⟨rfl, hstalled⟩ := Bool.and_eq_true_iff.1 hstop
        exact absurd ((if_pos hstalled).symm.trans h) nofun

/-- The handler gets to the stop of a recording. -/
theorem tick_stops {e : TickEnv} (h : tickStops e s = some t) :
    (tick e s).voice = ((stopRecording e.control).runFrom t).2.voice := by
  rw [tick_voice]
  rw [tickStops] at h
  rw [tickBody]
  split at h
  · rename_i t' hrun
    split at h
    · rename_i hstalled
      obtain rfl := Option.some.inj h
      rw [runFrom_bind_ok hrun, runFrom_bind_ok runFrom_get, if_pos]
      rwa [Bool.true_and]
    · exact absurd h nofun
  · exact absurd h nofun

/-! ## Runs -/

/-- Where the handler of an event stops a recording. -/
theorem step_stops {e : Event} (h : stops s e = some (t, env)) (hstep : bridge.step s e = some s') :
    s'.voice = ((stopRecording env).runFrom t).2.voice := by
  cases e with
  | value e control path data =>
    obtain ⟨rid, hroute, h⟩ := Option.bind_eq_some_iff.1 h
    obtain ⟨t', hstops, h⟩ := Option.map_eq_some_iff.1 h
    obtain ⟨rfl, rfl⟩ := Prod.mk.inj h
    obtain rfl := Option.some.inj hstep
    rw [onValue_some hroute, onReport_stops hstops]
  | tick e =>
    obtain ⟨t', hstops, h⟩ := Option.map_eq_some_iff.1 h
    obtain ⟨rfl, rfl⟩ := Prod.mk.inj h
    obtain rfl := Option.some.inj hstep
    exact tick_stops hstops
  | device | ifaceAdded | controlReply | pairOk | pairFailed | openWindow => exact absurd h nofun

/-- An event whose handler does not stop a recording with `voice_ctl(False)`. -/
theorem step_consistent {e : Event} (h : stops s e = none) (hs : Consistent s)
    (hstep : bridge.step s e = some s') : Consistent s' := by
  -- By the condition, the event does not stop the recording while a control message waits; all but
  -- reports and ticks leave the voice.
  cases e with
  | value e control path data =>
    obtain rfl := Option.some.inj hstep
    cases hroute : s.route path with
    | none => exact consistent_of_voice (onValue_none hroute) hs
    | some rid =>
      rw [onValue_some hroute]
      refine onReport_consistent ?_ hs
      rw [stops, hroute] at h
      exact Option.map_eq_none_iff.1 h
  | device now e path =>
    obtain rfl := Option.some.inj hstep
    exact stable_consistent.onDevice now e path hs
  | ifaceAdded matching current path =>
    obtain rfl := Option.some.inj hstep
    exact stable_consistent.onIfaceAdded matching current path hs
  | controlReply on ctlSeq failed =>
    obtain ⟨-, rfl⟩ | ⟨-, rfl⟩ := step_controlReply hstep
    · exact hs
    · -- The reply closes the voice, so that there is nothing to be consistent with.
      exact fun _ => closed_voiceClose _
  | tick e =>
    obtain rfl := Option.some.inj hstep
    exact tick_consistent (Option.map_eq_none_iff.1 h) hs
  | pairOk e token =>
    obtain ⟨-, rfl⟩ := step_pairOk hstep
    exact stable_consistent.finishPair e token _ hs
  | pairFailed e token =>
    obtain ⟨-, rfl⟩ := step_pairFailed hstep
    exact stable_consistent.pairFailed e token _ hs
  | openWindow now session =>
    obtain rfl := Option.some.inj hstep
    exact hs

/-- In every run, the bridge is consistent all along exactly if no handler that stops a recording
    looks up the control characteristic in vain while something is open. -/
theorem consistent_iff {es : List Event} (hrun : bridge.run init es = some s) :
    bridge.Always Consistent init es ↔ bridge.Along Clean init es := by
  refine Machine.always_iff_along (I := fun _ => True) (fun _ _ _ _ _ => trivial) ?_ trivial
    (by decide) hrun
  intro s e s' _ hs hstep
  cases hstops : stops s e with
  | none =>
    exact iff_of_true (step_consistent hstops hs hstep) fun t control h =>
      absurd (hstops.symm.trans h) nofun
  | some x =>
    obtain ⟨t, control⟩ := x
    have hiff : Consistent s' ↔ (lookupRaises control t = true → Closed t.voice) := by
      rw [← stopRecording_consistent, Consistent, step_stops hstops hstep]
      rfl
    rw [hiff, Clean]
    refine ⟨fun h t' control' heq => ?_, fun h => h t control hstops⟩
    obtain ⟨rfl, rfl⟩ := Prod.mk.inj (Option.some.inj (hstops.symm.trans heq))
    exact h

/-- The device of the runs below. -/
def remote : Path := ["org", "bluez", "hci0", "dev_A0"]

/-- A press of the voice key, the first report of a recording and the release of the key, where the
    lookup of the control characteristic raises or not. -/
def utterance (lookup : Bool) : List Event :=
  let env : Env := ⟨1000, false, true, true, true⟩
  let control (lookup : Bool) : ControlEnv := ⟨[remote ++ ["char0037"]], lookup, true⟩
  let key (action : UInt8) : List UInt8 := [0x82, voiceKey, action, 0]
  [.ifaceAdded true false remote,
    .value env (control true) (remote ++ ["char003a"]) (key 1),
    .value env (control true) (remote ++ ["char0033"]) (List.replicate 20 0),
    .value env (control lookup) (remote ++ ["char003a"]) (key 0)]

theorem consistent_utterance : ∃ s, bridge.run init (utterance true) = some s ∧
    bridge.Always Consistent init (utterance true) := by
  obtain ⟨s, hrun, -⟩ := @Machine.exists_run _ _ bridge init (utterance true) (fun _ => True) _
    (by decide)
  exact ⟨s, hrun, (consistent_iff hrun).2 (by decide)⟩

/-- If the lookup raises when the key is released, the next press starts with what is left. -/
theorem not_consistent : ¬∀ es s, bridge.run init es = some s → Consistent s := by
  intro h
  obtain ⟨s, hrun, hs⟩ := @Machine.exists_run _ _ bridge init (utterance false)
    (fun s => ¬Consistent s) _ (by decide)
  exact hs (h _ s hrun)

end Bridge

end W132d.Remote
