import W132d.Remote.Session

/-!
# Pairing windows

`w132d-ble-pair` looks at the session file and replaces it under a lock. The bridge does not take
the lock: it opens and reads the file, compares the token, and then removes or replaces the file.
Each of these is an operation of the file system, and those of other processes may come between
them. A file that is open keeps its contents, since `PAIR_FLAG` is only ever replaced as a whole.

* `Files`: the file, the lock, the bridge and the commands that run;
* `undisturbed`: if nothing comes between its operations, the bridge does what the functions of
  `W132d.Remote.Session` say;
* `Spares`: the operations of the bridge that come next leave the sessions of other tokens alone;
* `Apart`: no command puts its session in place between the check of the bridge and what follows it;
* `spares_iff`: in a run, the bridge leaves the sessions of other tokens alone exactly if no
  command does that.

How the theorem is proved: what the bridge is about to do goes by what it has read, and the session
in the file may be another one by then. `Checked` says that it is still the same; a step of the
bridge keeps this, and so does a command unless it puts its session in place (`checked_step`). As
the next operations of the bridge go by its check alone, they spare the sessions of others exactly
if the check still holds (`spares_iff_checked`).
-/

namespace W132d.Remote.Window

/-! ## The processes -/

/-- What the bridge is asked to do with the session file. -/
inductive Op where
  /-- `close_window(token)`. -/
  | close (token : String)
  /-- `mark_pair_phase(token, phase)`. -/
  | mark (token phase : String)
  /-- `pairing_session()`. -/
  | session
  deriving DecidableEq, Repr

/-- What the bridge does next. -/
inductive Bridge where
  | idle
  /-- It reads the session file, for an operation. -/
  | read (op : Op)
  /-- It compares the time with the end of the session that it has read. -/
  | time (session : Session)
  /-- It removes the session file, after it has checked the token. -/
  | remove (token : String)
  /-- It writes a new session file, after it has checked the token. -/
  | write (session : Session)
  /-- It puts it in place. -/
  | replace (session : Session)
  /-- It removes what it has written of it. -/
  | unlink
  deriving DecidableEq, Repr

/-- What a command does next. -/
inductive Command where
  /-- It takes the lock. -/
  | lock
  /-- It looks at the session file. -/
  | read
  /-- It writes a new session file. -/
  | write (session : Session)
  /-- It puts it in place. -/
  | move (session : Session)
  /-- It gives the lock back. -/
  | unlock
  | done
  deriving DecidableEq, Repr

/-- The session file, the command that has the lock, the bridge and the commands. -/
structure Files where
  file : Option Session
  lock : Option ℕ
  bridge : Bridge
  commands : ℕ → Command

namespace Files

/-- No window is open, and nothing has begun. -/
def init : Files := ⟨none, none, .idle, fun _ => .lock⟩

/-- What the bridge does when it has read the session file. -/
def readBy (current : Option Session) : Op → Bridge
  | .close token =>
    match current with
    | none => .remove token
    | some current => if current.token ≠ token then .idle else .remove token
  | .mark token phase =>
    match current with
    | none => .idle
    | some current =>
      if current.token ≠ token then .idle
      else .write ⟨current.deadline / 1000 * 1000, token, phase⟩
  | .session =>
    match current with
    | none => .idle
    | some current => .time current

/-- An operation of the bridge, at a time; writing a file may fail. -/
def stepBridge (now : ℕ) (fails : Bool) (s : Files) : Files :=
  match s.bridge with
  | .idle => s
  | .read op => { s with bridge := readBy s.file op }
  | .time session =>
    { s with bridge := if now < session.deadline then .idle else .read (.close session.token) }
  | .remove _ => { s with file := none, bridge := .idle }
  | .write session => { s with bridge := if fails then .unlink else .replace session }
  | .replace session =>
    if fails then { s with bridge := .unlink } else { s with file := some session, bridge := .idle }
  | .unlink => { s with bridge := .idle }

/-- What a command meets: the time, the length and the token of the session to open, and whether a
    bond stops it. -/
structure CommandEnv where
  now : ℕ
  minutes : ℕ
  token : String
  bonded : Bool

/-- What a command does when it has looked at the session file. -/
def readByCommand (env : CommandEnv) (file : Option Session) : Command :=
  if file.any (fun current => decide (env.now / 1000 < current.deadline / 1000)) || env.bonded then
    .unlock
  else .write ⟨(env.now / 1000 + env.minutes * 60) * 1000, env.token, "fresh"⟩

/-- An operation of command `i`, if it can take it. -/
def stepCommand (i : ℕ) (env : CommandEnv) (s : Files) : Option Files :=
  match s.commands i with
  | .lock =>
    if s.lock = none then
      some { s with lock := some i, commands := Function.update s.commands i .read }
    else none
  | .read =>
    some { s with commands := Function.update s.commands i (readByCommand env s.file) }
  | .write session =>
    some { s with commands := Function.update s.commands i (.move session) }
  | .move session =>
    some { s with file := some session, commands := Function.update s.commands i .unlock }
  | .unlock =>
    some { s with lock := none, commands := Function.update s.commands i .done }
  | .done => none

end Files

/-- What happens: the bridge begins an operation, it goes on with it, or a command goes on. -/
inductive Event where
  | begin (op : Op)
  | bridge (now : ℕ) (fails : Bool)
  | command (i : ℕ) (env : Files.CommandEnv)

/-- The processes and the session file. -/
def files : Machine Files Event where
  step
    | s, .begin op => if s.bridge = .idle then some { s with bridge := .read op } else none
    | s, .bridge now fails => some (s.stepBridge now fails)
    | s, .command i env => s.stepCommand i env

namespace Files

/-! ## The bridge alone -/

/-- What an operation leaves of the session file. -/
def result (now : ℕ) (op : Op) (file : Option Session) : Option Session :=
  match op with
  | .close token => (Session.closeWindow (some token) file).2
  | .mark token phase => Session.markPairPhase token phase file
  | .session => (Session.pairingSession now file).2

/-- If nothing comes between its steps and no write fails, an operation does to the session file
    what the functions of the bridge say. -/
theorem undisturbed (s : Files) (hs : s.bridge = .idle) (now : ℕ) (op : Op) :
    files.run s (.begin op :: List.replicate 4 (.bridge now false)) =
      some { s with file := result now op s.file } := by
  obtain ⟨file, lock, bridge, commands⟩ := s
  obtain rfl : bridge = .idle := hs
  cases file with
  | none => cases op <;> rfl
  | some current =>
    cases op with
    | close token =>
      by_cases h : current.token = token
      · simp [files, Machine.run, List.replicate, stepBridge, readBy, result, Session.closeWindow,
          h]
      · simp [files, Machine.run, List.replicate, stepBridge, readBy, result, Session.closeWindow,
          h]
    | mark token phase =>
      by_cases h : current.token = token
      · simp [files, Machine.run, List.replicate, stepBridge, readBy, result,
          Session.markPairPhase, h]
      · simp [files, Machine.run, List.replicate, stepBridge, readBy, result,
          Session.markPairPhase, h]
    | session =>
      by_cases h : now < current.deadline
      · simp [files, Machine.run, List.replicate, stepBridge, readBy, result,
          Session.pairingSession, h]
      · simp [files, Machine.run, List.replicate, stepBridge, readBy, result,
          Session.pairingSession, Session.closeWindow, h]

end Files

/-! ## The sessions of other tokens -/

/-- The token that the bridge acts for. -/
def Bridge.token : Bridge → Option String
  | .idle | .read .session | .unlink => none
  | .read (.close token) | .read (.mark token _) => some token
  | .remove token => some token
  | .time session | .write session | .replace session => some session.token

/-- The token that the bridge has checked, and goes on for. -/
def Bridge.checked : Bridge → Option String
  | .idle | .read _ | .time _ | .unlink => none
  | .remove token => some token
  | .write session | .replace session => some session.token

namespace Files

/-- The next operation of the bridge, for a token, neither removes nor overwrites the session of
    another one. -/
def SparesNow (s : Files) : Prop :=
  ∀ now fails token session, s.bridge.token = some token → s.file = some session →
    session.token ≠ token → (s.stepBridge now fails).file = some session

/-- Nor do those that follow it. -/
def Spares (s : Files) : Prop :=
  ∀ steps : List (ℕ × Bool), files.Always SparesNow s (steps.map fun x => .bridge x.1 x.2)

/-- The session in the file is the one that the bridge has checked. -/
def Checked (s : Files) : Prop :=
  ∀ token session, s.bridge.checked = some token → s.file = some session → session.token = token

/-- No command puts its session in place while the bridge is between the check of a token and the
    removal or the replacement of the file. -/
def Apart (s : Files) : Event → Prop
  | .command i _ => ∀ token session, s.commands i = .move session →
      s.bridge.checked = some token → session.token = token
  | _ => True

instance (s : Files) (e : Event) : Decidable (Apart s e) :=
  match e with
  | .command i _ =>
    match hmove : s.commands i, hchecked : s.bridge.checked with
    | .move session, some token =>
      decidable_of_iff (session.token = token)
        ⟨fun h _ _ hmove' hchecked' => Command.move.inj (hmove.symm.trans hmove') ▸
          Option.some.inj (hchecked.symm.trans hchecked') ▸ h,
          fun h => h token session hmove hchecked⟩
    | .move _, none => .isTrue fun _ _ _ h => absurd (hchecked.symm.trans h) nofun
    | .lock, _ | .read, _ | .write _, _ | .unlock, _ | .done, _ =>
      .isTrue fun _ _ h => absurd (hmove.symm.trans h) nofun
  | .begin _ | .bridge _ _ => .isTrue trivial

variable {s s' : Files} {e : Event}

theorem checked_of_none (h : s.bridge.checked = none) : Checked s :=
  fun _ _ hchecked => absurd (h.symm.trans hchecked) nofun

/-- The bridge goes on for a token only if the session has it. -/
theorem token_of_checked {current : Session} {op : Op} {token : String}
    (h : (readBy (some current) op).checked = some token) : current.token = token := by
  cases op with
  | close token' | mark token' phase =>
    rw [readBy] at h
    split at h
    · exact absurd h nofun
    · rename_i heq
      exact (not_not.1 heq).trans (Option.some.inj h)
  | session => exact absurd h nofun

/-- The check of the bridge is right when it is made, and the bridge itself does not spoil it. -/
theorem checked_stepBridge (now : ℕ) (fails : Bool) (hs : Checked s) :
    Checked (s.stepBridge now fails) := by
  rw [stepBridge]
  split
  · exact hs
  · rename_i op hread
    intro token session hchecked hsession
    change (readBy s.file op).checked = some token at hchecked
    rw [show s.file = some session from hsession] at hchecked
    exact token_of_checked hchecked
  · split <;> exact checked_of_none rfl
  · exact checked_of_none rfl
  · rename_i session hwrite
    cases fails with
    | true => exact checked_of_none rfl
    | false =>
      rw [Checked, hwrite] at hs
      exact hs
  · split <;> exact checked_of_none rfl
  · exact checked_of_none rfl

/-- The bridge spares the session in the file if it has the token that was checked. -/
theorem Checked.sparesNow (hs : Checked s) : SparesNow s := by
  intro now fails token session htoken hsession hne
  rw [stepBridge]
  split
  · exact hsession
  · exact hsession
  · exact hsession
  · rename_i token' hremove
    rw [hremove] at htoken
    obtain rfl := Option.some.inj htoken
    exact absurd (hs token' session (by rw [hremove]; rfl) hsession) hne
  · exact hsession
  · rename_i session' hreplace
    rw [hreplace] at htoken
    obtain rfl := Option.some.inj htoken
    exact absurd (hs session'.token session (by rw [hreplace]; rfl) hsession) hne
  · exact hsession

/-- Whatever the bridge does next by itself spares the sessions of other tokens exactly if its
    check still holds. -/
theorem spares_iff_checked : Spares s ↔ Checked s := by
  constructor
  · intro h token session hchecked hsession
    by_contra hne
    cases hbridge : s.bridge with
    | idle | read | time | unlink =>
      rw [hbridge] at hchecked
      exact absurd hchecked nofun
    | remove token' =>
      rw [hbridge] at hchecked
      have hfile := (h []).head 0 false token session (by rw [hbridge]; exact hchecked) hsession hne
      rw [stepBridge, hbridge] at hfile
      exact absurd hfile nofun
    | replace session' =>
      rw [hbridge] at hchecked
      have hfile := (h []).head 0 false token session (by rw [hbridge]; exact hchecked) hsession hne
      rw [stepBridge, hbridge] at hfile
      exact hne (Option.some.inj hfile ▸ Option.some.inj hchecked)
    | write session' =>
      -- The bridge has yet to write its file before it puts it in place.
      rw [hbridge] at hchecked
      have hwrite : s.stepBridge 0 false = { s with bridge := .replace session' } := by
        rw [stepBridge, hbridge]
        rfl
      have hspares := (h [(0, false)]).2
      change SparesNow (s.stepBridge 0 false) at hspares
      rw [hwrite] at hspares
      have hfile := hspares 0 false token session hchecked hsession hne
      exact hne (Option.some.inj hfile ▸ Option.some.inj hchecked)
  · intro hs steps
    induction steps generalizing s with
    | nil => exact hs.sparesNow
    | cons x steps ih => exact ⟨hs.sparesNow, ih (checked_stepBridge x.1 x.2 hs)⟩

/-- The check of the bridge holds after an event exactly if it is not a command that puts its
    session in place of the checked one. -/
theorem checked_step (hs : Checked s) (hstep : files.step s e = some s') :
    Checked s' ↔ Apart s e := by
  cases e with
  | begin op =>
    rw [files] at hstep
    dsimp only at hstep
    split_ifs at hstep
    obtain rfl := Option.some.inj hstep
    exact iff_of_true (checked_of_none rfl) trivial
  | bridge now fails =>
    obtain rfl := Option.some.inj hstep
    exact iff_of_true (checked_stepBridge now fails hs) trivial
  | command i env =>
    change s.stepCommand i env = some s' at hstep
    rw [Apart]
    -- Only a command that moves its session into place touches the checked one.
    by_cases hmove : ∃ session, s.commands i = .move session
    · obtain ⟨session, hmove⟩ := hmove
      rw [stepCommand, hmove] at hstep
      obtain rfl := Option.some.inj hstep
      constructor
      · rintro h token _ heq hchecked
        obtain rfl := Command.move.inj (hmove.symm.trans heq)
        exact h token session hchecked rfl
      · rintro h token _ hchecked ⟨⟩
        exact h token session hmove hchecked
    · refine iff_of_true ?_ fun token session heq => absurd ⟨session, heq⟩ hmove
      rw [stepCommand] at hstep
      split at hstep
      · split_ifs at hstep
        obtain rfl := Option.some.inj hstep
        exact hs
      · obtain rfl := Option.some.inj hstep
        exact hs
      · obtain rfl := Option.some.inj hstep
        exact hs
      · rename_i session heq
        exact absurd ⟨session, heq⟩ hmove
      · obtain rfl := Option.some.inj hstep
        exact hs
      · exact absurd hstep nofun

/-- In a run, the bridge leaves the sessions of other tokens alone exactly if no command puts its
    session in place between the check of the bridge and what follows it. -/
theorem spares_iff {es : List Event} (hrun : files.run init es = some s) :
    files.Always Spares init es ↔ files.Along Apart init es := by
  refine Machine.always_iff_along (I := fun _ => True) (fun _ _ _ _ _ => trivial) ?_ trivial
    (spares_iff_checked.2 (checked_of_none rfl)) hrun
  intro s e s' _ hs hstep
  rw [spares_iff_checked]
  exact checked_step (spares_iff_checked.1 hs) hstep

/-- A command that opens a window at a time, unless it stops on the way. -/
def opening (i now : ℕ) (token : String) (steps : ℕ) : List Event :=
  List.replicate steps (.command i ⟨now, 1, token, false⟩)

/-- A window is opened and closed at its end, and another one is opened. -/
theorem spares_opening :
    files.Always Spares init (opening 0 0 "A" 5 ++ .begin .session ::
      List.replicate 4 (.bridge 60000 false) ++ opening 1 60000 "B" 5) := by
  obtain ⟨s, hrun, -⟩ := @Machine.exists_run _ _ files init (opening 0 0 "A" 5 ++
    .begin .session :: List.replicate 4 (.bridge 60000 false) ++ opening 1 60000 "B" 5)
    (fun _ => True) _ (by decide)
  exact (spares_iff hrun).2 (by decide)

/-- At the end of a session, the bridge removes the next one. -/
theorem not_spares : ¬∀ es s, files.run init es = some s → Spares s := by
  intro h
  obtain ⟨s, hrun, hbridge, hfile⟩ := @Machine.exists_run _ _ files init (opening 0 0 "A" 5 ++
    .begin .session :: List.replicate 3 (.bridge 60000 false) ++ opening 1 60000 "B" 4)
    (fun s => s.bridge = .remove "A" ∧ s.file = some ⟨120000, "B", "fresh"⟩) _ (by decide)
  have hspares := spares_iff_checked.1 (h _ s hrun)
  exact absurd (hspares "A" _ (by rw [hbridge]; rfl) hfile) (by decide)

end Files

end W132d.Remote.Window
