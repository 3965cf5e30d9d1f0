import W132d.Remote.Utterance

/-!
# The failure of a start

A press of the voice key starts a recording with a write to the recording control, and does not wait
for the reply. If that is an error, the recording is undone (`_wfail`). But the reply may be late:
the recording may have ended since, and others may have begun. So a write has a number
(`voice["ctl_seq"]`), and the failure of one that is not the latest is ignored.

Not every recording ends with a write. The one that has the latest number was begun by the write
with it all the same, as long as the control characteristic is found when it is looked up.

* `numbered`: of the writes whose reply is to come, each has a number of its own;
* `Begun`: the recording in progress was begun by the press that issued a write;
* `start_failure`: the failure of the write that starts a recording undoes the recording in
  progress if it was begun with it, and nothing if not.

How the theorem is proved: the number of a write is that of the count when it was issued, and the
count goes up with every write, so that the numbers of the replies to come differ (`Numbered`).
Every handler keeps this, by the rules of `W132d.Remote.Bridge` (`step_numbered`). A recording that
goes on issues no write, so that it has the number of the press that has begun it
(`step_recording`); a write that is not the latest is therefore not the one of the recording in
progress.
-/

namespace W132d.Remote

open Raising

namespace Bridge

variable {s s' : Bridge} {env : ControlEnv} {e : Event} {es : List Event} {n : ℕ}

/-! ## The numbers of writes -/

/-- Writes whose reply is to come have numbers of their own, up to the latest one. -/
structure Numbered (writes : List (Bool × ℕ)) (v : Voice) : Prop where
  le : ∀ write ∈ writes, write.2 ≤ v.ctlSeq
  nodup : (writes.map Prod.snd).Nodup

/-- The numbering depends only on the next number of the voice. -/
theorem Numbered.voice {writes : List (Bool × ℕ)} {v v' : Voice} (h : Numbered writes v)
    (hctl : v'.ctlSeq = v.ctlSeq) : Numbered writes v' :=
  ⟨fun write hwrite => hctl ▸ h.le write hwrite, h.nodup⟩

theorem vocal_numbered : Vocal Numbered where
  ended _ _ h := h.voice rfl
  trusted _ _ h := h.voice rfl

/-- A control message takes the next one. -/
theorem keeps_voiceCtl (env : ControlEnv) (on : Bool) :
    Keeps (fun s => Numbered s.controls s.voice) (voiceCtl env on) := by
  intro s hs
  rw [voiceCtl, runFrom_bind_ok (runFrom_modify _), runFrom_bind_ok runFrom_get]
  have hle : ∀ write ∈ s.controls, write.2 ≤ s.voice.ctlSeq + 1 := fun write hwrite =>
    (hs.le write hwrite).trans (Nat.le_succ _)
  split_ifs with hknown hlookup hwrite
  · exact hs
  · refine ⟨List.forall_mem_cons.2 ⟨le_rfl, hle⟩, List.nodup_cons.2 ⟨fun hmem => ?_, hs.nodup⟩⟩
    obtain ⟨write, hwrite, heq⟩ := List.mem_map.1 hmem
    exact absurd (heq ▸ hs.le write hwrite) (Nat.not_succ_le_self _)
  · exact ⟨hle, hs.nodup⟩
  · exact hs

theorem keeps_stopRecording (env : ControlEnv) :
    Keeps (fun s => Numbered s.controls s.voice) (stopRecording env) := by
  refine (keeps_modify fun s hs => hs.voice rfl).bind fun _ => ?_
  exact (keeps_voiceCtl env false).bind fun _ => keeps_modify fun s hs => hs.voice rfl

theorem keeps_keyEvent (now : ℕ) (env : ControlEnv) (data : List UInt8) :
    Keeps (fun s => Numbered s.controls s.voice) (keyEvent now env data) := by
  refine keeps_get.bind fun s =>
    Keeps.ite (fun _ => ?_) fun _ => Keeps.ite (fun _ => ?_) fun _ => ?_
  · refine (keeps_modify fun s hs => hs.voice rfl).bind fun _ => ?_
    refine (keeps_voiceCtl env true).bind fun _ => Keeps.ite (fun _ => keeps_pure _) fun _ => ?_
    exact keeps_modify fun s hs => hs.voice rfl
  · exact keeps_get.bind fun s => Keeps.ite (fun _ => keeps_stopRecording env) fun _ =>
      keeps_modify fun s hs => hs.voice rfl
  · exact keeps_pure _

/-- A report takes none. -/
theorem takeReport_ctlSeq (e : Env) (v : Voice) (body : List UInt8) :
    (takeReport e v body).1.ctlSeq = v.ctlSeq := by
  by_cases h : Completes v body
  · exact (takeReport_completes h).2.ctlSeq
  · exact (takeReport_stored h).2.ctlSeq

theorem keeps_onReport (e : Env) (env : ControlEnv) (rid : ℕ) (data : List UInt8) :
    Keeps (fun s => Numbered s.controls s.voice) (onReport e env rid data) := by
  refine Keeps.ite (fun _ => ?_) fun _ =>
    Keeps.ite (fun _ => keeps_keyEvent _ env data) fun _ => keeps_pure _
  intro s hs
  rw [onVoiceReport, runFrom_bind_ok runFrom_get, runFrom_bind_ok (runFrom_modify _)]
  have htaken : Numbered s.controls (takeReport e s.voice data).1 :=
    hs.voice (takeReport_ctlSeq e s.voice data)
  split
  · exact keeps_stopRecording env _ htaken
  · exact htaken

theorem keeps_onValue (e : Env) (env : ControlEnv) (path : Path) (data : List UInt8) :
    Keeps (fun s => Numbered s.controls s.voice) (onValue e env path data) := by
  refine keeps_get.bind fun s => Keeps.ite (fun _ => keeps_pure _) fun _ =>
    Keeps.ite (fun _ => keeps_pure _) fun _ => ?_
  refine Keeps.bind (fun s hs => hs) fun _ => keeps_get.bind fun s => ?_
  split
  · exact keeps_pure _
  · exact keeps_onReport e env _ data

/-- A tick may take one. -/
theorem tick_numbered (env : TickEnv) (hs : Numbered s.controls s.voice) :
    Numbered (tick env s).controls (tick env s).voice := by
  have hbody : Keeps (fun s => Numbered s.controls s.voice) (tickBody env) :=
    (vocal_numbered.beforeSilence env).bind fun _ => keeps_get.bind fun s =>
      Keeps.ite (fun _ => keeps_stopRecording env.control) fun _ => keeps_pure _
  have hrun := hbody s hs
  rw [tick]
  cases h : (tickBody env).runFrom s with
  | mk x t =>
    rw [h] at hrun
    cases x <;> exact hrun

theorem step_numbered (hs : Numbered s.controls s.voice) (hstep : bridge.step s e = some s') :
    Numbered s'.controls s'.voice := by
  cases e with
  | value env control path data =>
    obtain rfl := Option.some.inj hstep
    exact keeps_onValue env control path data s hs
  | device now env path =>
    obtain rfl := Option.some.inj hstep
    exact vocal_numbered.stable.onDevice now env path hs
  | ifaceAdded matching current path =>
    obtain rfl := Option.some.inj hstep
    exact vocal_numbered.stable.onIfaceAdded matching current path hs
  | controlReply on ctlSeq failed =>
    -- The reply takes its write away.
    have herase : Numbered (s.controls.erase (on, ctlSeq)) s.voice :=
      ⟨fun write hwrite => hs.le write (List.mem_of_mem_erase hwrite),
        hs.nodup.sublist (List.erase_sublist.map _)⟩
    obtain ⟨-, rfl⟩ | ⟨-, rfl⟩ := step_controlReply hstep
    · exact herase
    · exact herase.voice rfl
  | tick env =>
    obtain rfl := Option.some.inj hstep
    exact tick_numbered env hs
  | pairOk env token =>
    obtain ⟨-, rfl⟩ := step_pairOk hstep
    exact vocal_numbered.stable.finishPair env token _ hs
  | pairFailed env token =>
    obtain ⟨-, rfl⟩ := step_pairFailed hstep
    exact vocal_numbered.stable.pairFailed env token _ hs
  | openWindow now session =>
    obtain rfl := Option.some.inj hstep
    exact hs

/-- In every run, each write whose reply is to come has a number of its own. -/
theorem numbered (hrun : bridge.run init es = some s) : Numbered s.controls s.voice :=
  Machine.invariant_of_step (I := fun s => Numbered s.controls s.voice)
    (fun _ _ _ hs hstep => step_numbered hs hstep)
    (show Numbered [] init.voice from ⟨List.forall_mem_nil _, List.nodup_nil⟩) hrun

/-! ## The recording in progress -/

/-- A recording that goes on has the latest number that it began with. -/
theorem step_recording (hrec : s.voice.recording = true) (hstep : bridge.step s e = some s')
    (hrec' : s'.voice.recording = true) : s'.voice.ctlSeq = s.voice.ctlSeq := by
  obtain h | ⟨env, control, path, body, -, -, h⟩ | ⟨_, _, _, _, _, h⟩ := step_voice hstep
  · exact (h.recording hrec').2.2
  · rw [(h.recording hrec').1]
    exact takeReport_ctlSeq env s.voice body
  · exact absurd (h.idle.symm.trans hrec) Bool.false_ne_true

/-- If the handler of an event looks up the control characteristic to start a recording, it is
    found. -/
def LooksUp : Event → Prop
  | .value _ control _ _ => control.lookup = true
  | _ => True

instance : DecidablePred LooksUp
  | .value .. => inferInstanceAs (Decidable (_ = true))
  | .device .. | .ifaceAdded .. | .controlReply .. | .tick .. | .pairOk .. | .pairFailed ..
  | .openWindow .. => .isTrue trivial

/-- A recording is begun by a press, with the write that has the latest number. -/
theorem step_begins (hidle : s.voice.recording = false) (hlookup : LooksUp e)
    (hstep : bridge.step s e = some s') (hrec : s'.voice.recording = true) :
    s'.controls = (true, s'.voice.ctlSeq) :: s.controls := by
  obtain h | ⟨env, control, path, body, -, -, h⟩ | ⟨_, _, _, _, rfl, h⟩ := step_voice hstep
  · exact absurd (hidle.symm.trans (h.recording hrec).1) Bool.false_ne_true
  · have hsame : s'.voice = s.voice := by
      rw [(h.recording hrec).1, takeReport_of_not_recording hidle]
    exact absurd (hidle.symm.trans (hsame ▸ hrec)) Bool.false_ne_true
  · exact h.issued hlookup hrec

/-- The bridge is recording. -/
def IsRecording (s : Bridge) : Prop := s.voice.recording = true

/-- The recording in progress after `es` was begun by the press that issued the write with number
    `n`: the last of the events that found the bridge not recording. -/
def Begun (es : List Event) (n : ℕ) : Prop :=
  ∃ pre e rest s₀ s₁, es = pre ++ e :: rest ∧ bridge.run init pre = some s₀ ∧ ¬IsRecording s₀ ∧
    bridge.step s₀ e = some s₁ ∧ s₁.controls = (true, n) :: s₀.controls ∧
    bridge.Always IsRecording s₁ rest

/-- The recording in progress has the latest number. -/
theorem begun_ctlSeq (hlookup : ∀ e ∈ es, LooksUp e) (hrun : bridge.run init es = some s)
    (hbegun : Begun es n) : s.voice.ctlSeq = n := by
  obtain ⟨pre, e, rest, s₀, s₁, rfl, hpre, hidle, hstep, hissued, hrest⟩ := hbegun
  have hrun₁ : bridge.run s₁ rest = some s := by
    rw [Machine.run_append hpre, Machine.run_cons hstep] at hrun
    exact hrun
  have hbegins := step_begins (Bool.eq_false_iff.2 hidle) (hlookup e (by simp)) hstep hrest.head
  have hn : s₁.voice.ctlSeq = n := by
    rw [hbegins] at hissued
    exact (Prod.mk.inj (List.cons.inj hissued).1).2
  rw [← hn]
  clear hlookup hpre hidle hstep hissued hbegins hn hrun
  induction rest generalizing s₁ with
  | nil =>
    rw [Machine.run_nil, Option.some_inj] at hrun₁
    rw [hrun₁]
  | cons a rest ih =>
    obtain ⟨t, ht, hrun₁⟩ := Machine.run_cons_eq_some hrun₁
    obtain ⟨hrec, hrest⟩ := (Machine.always_cons ht).1 hrest
    exact (ih t hrest hrun₁).trans (step_recording hrec ht hrest.head)

/-- A recording that goes on. -/
theorem Begun.concat (h : Begun es n) (hrun : bridge.run init es = some s)
    (hstep : bridge.step s e = some s') (hrec : IsRecording s') : Begun (es ++ [e]) n := by
  obtain ⟨pre, a, rest, s₀, s₁, rfl, hpre, hidle, ha, hissued, hrest⟩ := h
  rw [Machine.run_append hpre, Machine.run_cons ha] at hrun
  exact ⟨pre, a, rest ++ [e], s₀, s₁, by rw [List.append_assoc, List.cons_append], hpre, hidle, ha,
    hissued, hrest.concat hrun hstep hrec⟩

/-- Whatever came before, the recording in progress was begun with the write that has the latest
    number. -/
theorem begun_of_recording (hlookup : ∀ e ∈ es, LooksUp e) (hrun : bridge.run init es = some s)
    (hrec : IsRecording s) : Begun es s.voice.ctlSeq := by
  have hinv := Machine.invariant_history (m := bridge) (s := init)
    (G := fun _ e => LooksUp e)
    (I := fun es s => bridge.run init es = some s ∧ (IsRecording s → Begun es s.voice.ctlSeq))
    ?_ ⟨rfl, fun h => absurd h Bool.false_ne_true⟩ ((Machine.along_iff_forall hrun).2 hlookup) hrun
  · exact hinv.2 hrec
  · intro es s e s' ⟨hrun, hs⟩ hlookup hstep
    refine ⟨Machine.run_concat hrun hstep, fun hrec' => ?_⟩
    by_cases hrec : IsRecording s
    · rw [step_recording hrec hstep hrec']
      exact (hs hrec).concat hrun hstep hrec'
    · exact ⟨es, e, [], s, s', rfl, hrun, hrec, hstep,
        step_begins (Bool.eq_false_iff.2 hrec) hlookup hstep hrec', hrec'⟩

/-- In every run in which the control characteristic is found, the failure of a write that starts a
    recording undoes the recording in progress if it was begun by the press that issued the write,
    and nothing if not. -/
theorem start_failure (hrun : bridge.run init es = some s) (hlookup : ∀ e ∈ es, LooksUp e)
    (hstep : bridge.step s (.controlReply true n true) = some s') (hrec : IsRecording s) :
    (Begun es n → s'.voice = voiceClose { s.voice with recording := false }) ∧
      (¬Begun es n → s'.voice = s.voice) := by
  have hbegun : Begun es n ↔ n = s.voice.ctlSeq :=
    ⟨fun h => (begun_ctlSeq hlookup hrun h).symm, fun h => h ▸ begun_of_recording hlookup hrun hrec⟩
  rw [hbegun]
  obtain ⟨hlate, rfl⟩ | ⟨hlatest, rfl⟩ := step_controlReply hstep
  · exact ⟨fun h => absurd ⟨rfl, rfl, h⟩ hlate, fun _ => rfl⟩
  · exact ⟨fun _ => rfl, fun h => absurd hlatest.2.2 h⟩

/-- The key is pressed, released and pressed again before the first write fails. -/
def pressedTwice : List Event :=
  let env : Env := ⟨1000, false, true, true, true⟩
  let control : ControlEnv := ⟨[remote ++ ["char0037"]], true, true⟩
  let key (action : UInt8) : Event :=
    .value env control (remote ++ ["char003a"]) [0x82, voiceKey, action, 0]
  [.ifaceAdded true false remote, key 1, key 0, key 1]

/-- The reply to the second press is not that to the first one. -/
theorem start_failure_late : ∃ s s', bridge.run init pressedTwice = some s ∧
    bridge.step s (.controlReply true 1 true) = some s' ∧ IsRecording s ∧
      (Begun pressedTwice 1 → s'.voice = voiceClose { s.voice with recording := false }) ∧
      (¬Begun pressedTwice 1 → s'.voice = s.voice) := by
  obtain ⟨s, s', hrun, hstep, hrec⟩ := @Machine.exists_run_step _ _ bridge init
    (.controlReply true 1 true) pressedTwice (fun s _ => s.voice.recording = true) _
    (by decide +kernel)
  exact ⟨s, s', hrun, hstep, hrec, start_failure hrun (by decide) hstep hrec⟩

end Bridge

end W132d.Remote
