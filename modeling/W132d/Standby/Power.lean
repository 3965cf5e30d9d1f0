import W132d.Machine

/-!
# Power presses

The standby daemon (`soft-standby`) has two threads. The input loop reads the events of the remote
controls and puts a press of the power key on a queue of one entry (`enqueue_power`). A worker takes
it from there and makes the transition (`power_action_worker`), which takes its time; meanwhile an
event, `transitioning`, is set, and presses are ignored. A signal sets a flag, `STOP`, that ends
both loops. Each of them reads it on its own, and the worker only once the queue is empty.

* `Scans.parse`: how the events of an input device are read;
* `daemon`: the two threads, one access to what they share at a time, and the signal;
* `OnePending`: at most one transition is pending, and `onePending` that this holds in every state;
* `Late`: the input loop puts a press on the queue although the worker has ended;
* `processed_iff`: once both loops have ended, every press on the queue has been processed, exactly
  if none came late.

How the theorem is proved: a press is accepted only if `transitioning` is not set and the queue is
empty, and the worker clears `transitioning` only when it is done with what it has taken. `Inv`
lists what the two threads may be doing at the same time, for each place of the one and of the
other, and each step of a thread leaves the other where it is. For the second theorem, what was
accepted is always what was processed, what the worker has in hand, and the queue (`Accounted`); the
worker leaves with an empty queue, so that only a press that is put there afterwards is left over,
and it stays (`drained_of_step`).
-/

namespace W132d.Standby

/-! ## Input events -/

/-- An event of an input device. -/
structure InputEvent where
  sec : ℤ
  usec : ℤ
  type : ℕ
  code : ℕ
  value : ℕ
  deriving DecidableEq, Repr

/-- `EV_SYN`. -/
def evSyn : ℕ := 0x00

/-- `EV_KEY`. -/
def evKey : ℕ := 0x01

/-- `EV_MSC`. -/
def evMsc : ℕ := 0x04

/-- `SYN_REPORT`. -/
def synReport : ℕ := 0x00

/-- `MSC_SCAN`. -/
def mscScan : ℕ := 0x04

/-- `KEY_POWER`. -/
def keyPower : ℕ := 116

/-- `KEY_PRESS`. -/
def keyPress : ℕ := 1

/-- `POWER_SCANCODES`. -/
def powerScancodes : List ℕ := [0x22DC, 0x00070066, 0x000C0030]

/-- `POWER_DEBOUNCE_SECONDS`, in microseconds. -/
def powerDebounce : ℤ := 500000

/-- `RAW_SCAN_GAP_SECONDS`, in microseconds. -/
def rawScanGap : ℤ := 500000

/-- `event_at`, in microseconds. -/
def InputEvent.eventAt (ev : InputEvent) : ℤ := ev.sec * 1000000 + ev.usec

/-- A press of the power key: its time, the device, and the scan code if it is not mapped. -/
structure Press where
  eventAt : ℤ
  fd : ℕ
  scancode : Option ℕ
  deriving DecidableEq, Repr

/-- `pending_scans` and `last_raw_scans`. -/
structure Scans where
  pending : ℕ → Option (ℤ × ℕ × Bool)
  lastRaw : ℕ × ℕ → Option ℤ

namespace Scans

/-- The scans of a device that is gone. -/
def drop (scans : Scans) (fd : ℕ) : Scans :=
  ⟨Function.update scans.pending fd none,
    fun key => if key.1 = fd then none else scans.lastRaw key⟩

/-- An event of a device, and the press that it makes. -/
def parse (scans : Scans) (fd : ℕ) (ev : InputEvent) : Scans × Option Press :=
  if ev.type = evMsc ∧ ev.code = mscScan ∧ ev.value ∈ powerScancodes then
    let isNewSequence :=
      (scans.lastRaw (fd, ev.value)).all fun previous => decide (previous + rawScanGap ≤ ev.eventAt)
    (⟨Function.update scans.pending fd (some (ev.eventAt, ev.value, isNewSequence)),
      Function.update scans.lastRaw (fd, ev.value) (some ev.eventAt)⟩, none)
  else if ev.type = evKey ∧ ev.code = keyPower then
    -- A mapped key is authoritative.
    ({ scans with pending := Function.update scans.pending fd none },
      if ev.value = keyPress then some ⟨ev.eventAt, fd, none⟩ else none)
  else if ev.type = evSyn ∧ ev.code = synReport then
    ({ scans with pending := Function.update scans.pending fd none },
      match scans.pending fd with
      | some (scanAt, scancode, true) => some ⟨scanAt, fd, some scancode⟩
      | _ => none)
  else (scans, none)

end Scans

/-! ## The threads -/

/-- What the input loop gets from a device. -/
inductive Input where
  | event (fd : ℕ) (ev : InputEvent)
  /-- The device is gone. -/
  | closed (fd : ℕ)
  deriving DecidableEq, Repr

/-- What the input loop does next. -/
inductive Reader where
  /-- It looks at `STOP`. -/
  | test
  /-- It waits for events and reads them. -/
  | select
  /-- It takes the next event that it has read. -/
  | next
  /-- `enqueue_power`: it compares the time with the one of the last press. -/
  | debounce (p : Press)
  /-- It looks at `transitioning`. -/
  | isSet (p : Press)
  /-- It sets `transitioning`. -/
  | set (p : Press)
  /-- `put_nowait`. -/
  | put (p : Press)
  /-- It clears `transitioning`, since the queue was full. -/
  | clear
  | ended
  deriving DecidableEq, Repr

/-- What the worker does next. -/
inductive Worker where
  /-- It looks at `STOP`. -/
  | test
  /-- It looks whether the queue is empty. -/
  | empty
  /-- It gets a press, or waits in vain. -/
  | get
  /-- `toggle`. -/
  | process (p : Press)
  /-- It clears `transitioning`. -/
  | clear
  /-- `task_done`. -/
  | taskDone
  | ended
  deriving DecidableEq, Repr

/-- The daemon: what the threads share, the threads with the events that the input loop has read,
    and the presses that were put on the queue and that were processed so far. -/
structure Daemon where
  stop : Bool
  queue : List Press
  transitioning : Bool
  reader : Reader
  batch : List Input
  scans : Scans
  lastPowerEvent : Option ℤ
  worker : Worker
  accepted : List Press
  processed : List Press

namespace Daemon

/-- The daemon as it starts. -/
def init : Daemon :=
  ⟨false, [], false, .test, [], ⟨fun _ => none, fun _ => none⟩, none, .test, [], []⟩

/-- An input that the input loop takes. -/
def take (s : Daemon) : Daemon :=
  match s.batch with
  | [] => { s with reader := .test }
  | .closed fd :: batch => { s with batch := batch, scans := s.scans.drop fd }
  | .event fd ev :: batch =>
    { s with
      batch := batch, scans := (s.scans.parse fd ev).1,
      reader :=
        match (s.scans.parse fd ev).2 with
        | some p => .debounce p
        | none => .next }

/-- A step of the input loop, and what it reads if it waits for input. -/
def stepReader (inputs : List Input) (s : Daemon) : Daemon :=
  match s.reader with
  | .test => { s with reader := if s.stop then .ended else .select }
  | .select => { s with batch := inputs, reader := .next }
  | .next => s.take
  | .debounce p =>
    if s.lastPowerEvent.any fun last => decide (p.eventAt < last + powerDebounce) then
      { s with reader := .next }
    else { s with lastPowerEvent := some p.eventAt, reader := .isSet p }
  | .isSet p => { s with reader := if s.transitioning then .next else .set p }
  | .set p => { s with transitioning := true, reader := .put p }
  | .put p =>
    if s.queue = [] then
      { s with queue := [p], accepted := s.accepted ++ [p], reader := .next }
    else { s with reader := .clear }
  | .clear => { s with transitioning := false, reader := .next }
  | .ended => s

/-- A step of the worker. A transition that fails is processed as well. -/
def stepWorker (s : Daemon) : Daemon :=
  match s.worker with
  | .test => { s with worker := if s.stop then .empty else .get }
  | .empty => { s with worker := if s.queue = [] then .ended else .get }
  | .get =>
    match s.queue with
    | [] => { s with worker := .test }
    | p :: queue => { s with queue := queue, worker := .process p }
  | .process p => { s with processed := s.processed ++ [p], worker := .clear }
  | .clear => { s with transitioning := false, worker := .taskDone }
  | .taskDone => { s with worker := .test }
  | .ended => s

end Daemon

/-- What happens: a step of a thread, or the signal. -/
inductive Event where
  | reader (inputs : List Input)
  | worker
  | signal
  deriving DecidableEq, Repr

/-- The daemon. -/
def daemon : Machine Daemon Event where
  step
    | s, .reader inputs => some (s.stepReader inputs)
    | s, .worker => some s.stepWorker
    | s, .signal => some { s with stop := true }

namespace Daemon

/-! ## One transition at a time -/

/-- The worker has taken a press and not cleared `transitioning` yet. -/
def running : Worker → Bool
  | .process _ | .clear => true
  | .test | .empty | .get | .taskDone | .ended => false

/-- A press is on the queue or being processed. -/
def Pending (s : Daemon) : Prop := s.queue ≠ [] ∨ running s.worker = true

/-- At most one transition is pending. -/
structure OnePending (s : Daemon) : Prop where
  /-- The queue has at most one entry. -/
  length : s.queue.length ≤ 1
  /-- `put_nowait` finds it empty. -/
  put : ∀ p, s.reader = .put p → s.queue = []
  /-- `transitioning` is set while a transition is pending. -/
  set : s.Pending → s.transitioning = true
  /-- A press that comes while a transition is pending is ignored. -/
  ignored : ∀ p inputs, s.Pending → s.reader = .isSet p →
    s.stepReader inputs = { s with reader := .next }
  /-- Nothing is put on the queue while a transition is pending. -/
  kept : ∀ e s', s.Pending → daemon.step s e = some s' → s'.accepted = s.accepted

/-- What holds between the steps of the two threads. -/
structure Inv (s : Daemon) : Prop where
  set : s.Pending → s.transitioning = true
  /-- The input loop has seen that no transition is pending. -/
  idle : ∀ p, s.reader = .set p ∨ s.reader = .put p → ¬s.Pending
  /-- It has set `transitioning` itself. -/
  own : ∀ p, s.reader = .put p → s.transitioning = true
  length : s.queue.length ≤ 1
  /-- What is processed has been taken from the queue. -/
  taken : running s.worker = true → s.queue = []
  notFull : s.reader ≠ .clear

/-- The input loop neither sets `transitioning` nor puts a press on the queue next. -/
def quiet : Reader → Bool
  | .set _ | .put _ | .clear => false
  | .test | .select | .next | .debounce _ | .isSet _ | .ended => true

variable {s s' : Daemon} {e : Event}

/-- A step of the input loop on its own. -/
theorem Inv.moved (h : Inv s) {r : Reader} (hr : quiet r = true) (batch : List Input)
    (scans : Scans) (last : Option ℤ) :
    Inv { s with reader := r, batch := batch, scans := scans, lastPowerEvent := last } where
  set := h.set
  idle p hp := by
    obtain rfl | rfl := hp <;> exact absurd hr nofun
  own p hp := by
    obtain rfl := hp
    exact absurd hr nofun
  length := h.length
  taken := h.taken
  notFull := by
    rintro rfl
    exact absurd hr nofun

theorem Inv.take (h : Inv s) (hreader : s.reader = .next) : Inv s.take := by
  rw [Daemon.take]
  split
  · exact h.moved (r := .test) rfl s.batch s.scans s.lastPowerEvent
  · exact h.moved (r := s.reader) (by rw [hreader]; rfl) _ _ s.lastPowerEvent
  · refine h.moved ?_ _ _ s.lastPowerEvent
    split <;> rfl

/-- Every step of the input loop keeps the invariant. -/
theorem Inv.stepReader (h : Inv s) (inputs : List Input) : Inv (s.stepReader inputs) := by
  rw [Daemon.stepReader]
  cases hreader : s.reader with
  | test =>
    refine h.moved ?_ s.batch s.scans s.lastPowerEvent
    split <;> rfl
  | select => exact h.moved (r := .next) rfl inputs s.scans s.lastPowerEvent
  | next => exact h.take hreader
  | debounce p =>
    dsimp only
    split
    · exact h.moved (r := .next) rfl s.batch s.scans s.lastPowerEvent
    · exact h.moved (r := .isSet p) rfl s.batch s.scans (some p.eventAt)
  | isSet p =>
    dsimp only
    split
    · exact h.moved (r := .next) rfl s.batch s.scans s.lastPowerEvent
    · rename_i hset
      refine ⟨h.set, fun q _ hpending => hset (h.set hpending), nofun, h.length, h.taken, nofun⟩
  | set p =>
    have hidle := h.idle p (.inl hreader)
    exact ⟨fun _ => rfl, fun _ _ => hidle, fun _ _ => rfl, h.length, h.taken, nofun⟩
  | put p =>
    have hidle := h.idle p (.inr hreader)
    -- The reader has seen that nothing is pending, and nobody else puts anything.
    have hempty : s.queue = [] := by
      by_contra hne
      exact hidle (.inl hne)
    dsimp only
    rw [if_pos hempty]
    refine ⟨fun _ => h.own p hreader, nofun, nofun, le_rfl, fun hrunning => ?_, nofun⟩
    exact absurd (.inr hrunning) hidle
  | clear => exact absurd hreader h.notFull
  | ended => exact h

/-- A step of the worker that does not run a transition. -/
theorem Inv.rested (h : Inv s) {w : Worker} (hw : running w = false) :
    Inv { s with worker := w } := by
  have hpending : Pending { s with worker := w } → s.Pending := by
    rintro (hne | hrunning)
    · exact .inl hne
    · exact absurd (hw.symm.trans hrunning) nofun
  exact ⟨fun h' => h.set (hpending h'), fun p hp h' => h.idle p hp (hpending h'), h.own, h.length,
    fun hrunning => absurd (hw.symm.trans hrunning) nofun, h.notFull⟩

/-- So does every step of the worker. -/
theorem Inv.stepWorker (h : Inv s) : Inv s.stepWorker := by
  rw [Daemon.stepWorker]
  cases hworker : s.worker with
  | test =>
    refine h.rested ?_
    split <;> rfl
  | empty =>
    refine h.rested ?_
    split <;> rfl
  | get =>
    dsimp only
    split
    · exact h.rested (w := .test) rfl
    · rename_i p queue hqueue
      have hpending : s.Pending := .inl (hqueue ▸ List.cons_ne_nil p queue)
      obtain rfl : queue = [] := by
        have hlength := h.length
        rw [hqueue, List.length_cons] at hlength
        exact List.length_eq_zero_iff.1 (by omega)
      exact ⟨fun _ => h.set hpending, fun q hq => absurd hpending (h.idle q hq), h.own,
        Nat.zero_le 1, fun _ => rfl, h.notFull⟩
  | process p =>
    have hrunning : running s.worker = true := by rw [hworker]; rfl
    exact ⟨fun _ => h.set (.inr hrunning), fun q hq => absurd (.inr hrunning) (h.idle q hq), h.own,
      h.length, fun _ => h.taken hrunning, h.notFull⟩
  | clear =>
    -- The input loop cannot have set `transitioning` meanwhile.
    have hrunning : running s.worker = true := by rw [hworker]; rfl
    refine ⟨fun hpending => ?_, fun q hq => absurd (.inr hrunning) (h.idle q hq),
      fun q hq => absurd (.inr hrunning) (h.idle q (.inr hq)), h.length, nofun, h.notFull⟩
    obtain hne | hrunning' := hpending
    · exact absurd (h.taken hrunning) hne
    · exact absurd hrunning' nofun
  | taskDone => exact h.rested (w := .test) rfl
  | ended => exact h

theorem take_accepted (s : Daemon) : s.take.accepted = s.accepted := by
  rw [Daemon.take]
  split <;> rfl

theorem onePending_of_inv (h : Inv s) : OnePending s where
  length := h.length
  put p hput := by
    -- The reader is at `put` only with the event set and the queue empty.
    by_contra hne
    exact h.idle p (.inr hput) (.inl hne)
  set := h.set
  ignored p inputs hpending hreader := by
    rw [Daemon.stepReader, hreader]
    dsimp only
    rw [if_pos (h.set hpending)]
  -- The worker is the only one that takes the action out of the queue, and it has it in hand then.
  kept e s' hpending hstep := by
    cases e with
    | reader inputs =>
      obtain rfl := Option.some.inj hstep
      rw [Daemon.stepReader]
      cases hreader : s.reader with
      | put p => exact absurd hpending (h.idle p (.inr hreader))
      | next => exact take_accepted s
      | debounce p =>
        dsimp only
        split <;> rfl
      | test | select | isSet | set | clear | ended => rfl
    | worker =>
      obtain rfl := Option.some.inj hstep
      rw [Daemon.stepWorker]
      split
      · rfl
      · rfl
      · split <;> rfl
      · rfl
      · rfl
      · rfl
      · rfl
    | signal =>
      obtain rfl := Option.some.inj hstep
      rfl

theorem inv_init : Inv init :=
  ⟨fun h => absurd h (by rintro (h | h) <;> exact absurd h (by decide)),
    fun _ h => absurd h (by rintro (h | h) <;> exact absurd h nofun), nofun, Nat.zero_le 1, nofun,
    nofun⟩

theorem inv_step (h : Inv s) (hstep : daemon.step s e = some s') : Inv s' := by
  cases e with
  | reader inputs =>
    obtain rfl := Option.some.inj hstep
    exact h.stepReader inputs
  | worker =>
    obtain rfl := Option.some.inj hstep
    exact h.stepWorker
  | signal =>
    obtain rfl := Option.some.inj hstep
    exact ⟨h.set, h.idle, h.own, h.length, h.taken, h.notFull⟩

/-- In every state of the daemon, at most one transition is pending. -/
theorem onePending {es : List Event} (hrun : daemon.run init es = some s) : OnePending s :=
  onePending_of_inv
    (Machine.invariant_of_step (fun _ _ _ h hstep => inv_step h hstep) inv_init hrun)

/-! ## Every press is processed -/

/-- The press that the worker has taken. -/
def current : Worker → List Press
  | .process p => [p]
  | .test | .empty | .get | .clear | .taskDone | .ended => []

/-- The presses that were put on the queue have been processed or are yet to be, in their order. -/
def Accounted (s : Daemon) : Prop := s.accepted = s.processed ++ current s.worker ++ s.queue

/-- No press is left on the queue when the worker has ended. -/
def Drained (s : Daemon) : Prop := s.worker = .ended → s.queue = []

/-- The input loop puts a press on the queue after the worker has ended. -/
def Late (s : Daemon) : Event → Prop
  | .reader _ => (∃ p, s.reader = .put p) ∧ s.worker = .ended
  | .worker | .signal => False

/-- Both loops have ended. -/
structure Ended (s : Daemon) : Prop where
  reader : s.reader = .ended
  worker : s.worker = .ended

instance (s : Daemon) (e : Event) : Decidable (Late s e) :=
  match e with
  | .reader _ =>
    match h : s.reader with
    | .put p => decidable_of_iff (s.worker = .ended) ⟨fun h' => ⟨⟨p, h⟩, h'⟩, fun h' => h'.2⟩
    | .test | .select | .next | .debounce _ | .isSet _ | .set _ | .clear | .ended =>
      .isFalse fun h' => h'.1.elim fun _ hp => absurd (h.symm.trans hp) nofun
  | .worker | .signal => .isFalse id

/-- The queue and the worker after a step of the input loop. -/
theorem stepReader_queue (h : Inv s) (inputs : List Input) :
    (s.stepReader inputs).worker = s.worker ∧
      (s.stepReader inputs).processed = s.processed ∧
      ((∃ p, s.reader = .put p ∧ s.queue = [] ∧ (s.stepReader inputs).queue = [p] ∧
          (s.stepReader inputs).accepted = s.accepted ++ [p]) ∨
        (∀ p, s.reader ≠ .put p) ∧ (s.stepReader inputs).queue = s.queue ∧
          (s.stepReader inputs).accepted = s.accepted) := by
  rw [stepReader]
  cases hreader : s.reader with
  | put p =>
    have hempty : s.queue = [] := (onePending_of_inv h).put p hreader
    dsimp only
    rw [if_pos hempty]
    exact ⟨rfl, rfl, .inl ⟨p, rfl, hempty, rfl, rfl⟩⟩
  | next =>
    dsimp only
    rw [Daemon.take]
    split <;> exact ⟨rfl, rfl, .inr ⟨nofun, rfl, rfl⟩⟩
  | debounce p =>
    dsimp only
    split <;> exact ⟨rfl, rfl, .inr ⟨nofun, rfl, rfl⟩⟩
  | test | select | isSet | set | clear | ended => exact ⟨rfl, rfl, .inr ⟨nofun, rfl, rfl⟩⟩

theorem accounted_stepWorker (hs : Accounted s) : Accounted s.stepWorker := by
  rw [Accounted] at hs
  rw [stepWorker, Accounted]
  cases hworker : s.worker with
  | get =>
    rw [hworker] at hs
    dsimp only
    split
    · exact hs
    · rename_i p queue hqueue
      rw [hqueue, current, List.append_nil] at hs
      rw [current, List.append_assoc]
      exact hs
  | process p =>
    rw [hworker] at hs
    rw [current, List.append_nil]
    exact hs
  | test =>
    rw [hworker] at hs
    dsimp only
    split <;> exact hs
  | empty =>
    rw [hworker] at hs
    dsimp only
    split <;> exact hs
  | clear | taskDone =>
    rw [hworker] at hs
    exact hs
  | ended => exact hs

theorem accounted_step (h : Inv s) (hs : Accounted s) (hstep : daemon.step s e = some s') :
    Accounted s' := by
  cases e with
  | reader inputs =>
    obtain rfl := Option.some.inj hstep
    obtain ⟨hworker, hprocessed, hqueue⟩ := stepReader_queue h inputs
    rw [Accounted, hworker, hprocessed]
    obtain ⟨p, -, hempty, hqueue, haccepted⟩ | ⟨-, hqueue, haccepted⟩ := hqueue
    · rw [Accounted, hempty, List.append_nil] at hs
      rw [haccepted, hqueue, hs]
    · rw [haccepted, hqueue]
      exact hs
  | worker =>
    obtain rfl := Option.some.inj hstep
    exact accounted_stepWorker hs
  | signal =>
    obtain rfl := Option.some.inj hstep
    exact hs

/-- The worker ends only when the queue is empty, and then leaves it alone. -/
theorem stepWorker_ended (h : s.stepWorker.worker = .ended) :
    s.stepWorker.queue = s.queue ∧ (s.worker = .ended ∨ s.queue = []) := by
  rw [stepWorker] at h ⊢
  cases hworker : s.worker with
  | empty =>
    rw [hworker] at h
    dsimp only at h ⊢
    split_ifs at h with hempty
    exact ⟨rfl, .inr hempty⟩
  | ended => exact ⟨rfl, .inl rfl⟩
  | test =>
    rw [hworker] at h
    dsimp only at h
    split at h <;> exact absurd h nofun
  | get =>
    rw [hworker] at h
    dsimp only at h
    split at h <;> exact absurd h nofun
  | process | clear | taskDone =>
    rw [hworker] at h
    exact absurd h nofun

/-- A press is left on the queue exactly by a step that puts it there late. -/
theorem drained_step (h : Inv s) (hs : Drained s) (hstep : daemon.step s e = some s') :
    Drained s' ↔ ¬Late s e := by
  cases e with
  | reader inputs =>
    obtain rfl := Option.some.inj hstep
    obtain ⟨hworker, -, hqueue⟩ := stepReader_queue h inputs
    rw [Drained, hworker, Late]
    obtain ⟨p, hput, -, hqueue, -⟩ | ⟨hput, hqueue, -⟩ := hqueue
    · rw [hqueue]
      exact ⟨fun h h' => absurd (h h'.2) (List.cons_ne_nil p []),
        fun h hended => absurd ⟨⟨p, hput⟩, hended⟩ h⟩
    · rw [hqueue]
      exact iff_of_true hs fun ⟨⟨p, hp⟩, _⟩ => hput p hp
  | worker =>
    obtain rfl := Option.some.inj hstep
    refine iff_of_true (fun hended => ?_) id
    obtain ⟨hqueue, hended' | hempty⟩ := stepWorker_ended hended
    · rw [hqueue]
      exact hs hended'
    · rw [hqueue]
      exact hempty
  | signal =>
    obtain rfl := Option.some.inj hstep
    exact iff_of_true hs id

/-- A press that is left on the queue stays there. -/
theorem drained_of_step (h : Inv s) (hstep : daemon.step s e = some s') (hs' : Drained s') :
    Drained s := by
  intro hended
  cases e with
  | reader inputs =>
    obtain rfl := Option.some.inj hstep
    obtain ⟨hworker, -, ⟨p, -, hempty, -, -⟩ | ⟨-, hqueue, -⟩⟩ := stepReader_queue h inputs
    · exact hempty
    · rw [← hqueue]
      exact hs' (hworker.trans hended)
  | worker =>
    obtain rfl := Option.some.inj hstep
    have hstay : s.stepWorker = s := by rw [stepWorker, hended]
    rw [hstay] at hs'
    exact hs' hended
  | signal =>
    obtain rfl := Option.some.inj hstep
    exact hs' hended

/-- Once both loops have ended, every press that was put on the queue has been processed, once and
    in its order, exactly if none was put there after the worker had ended. -/
theorem processed_iff {es : List Event} (hrun : daemon.run init es = some s) (hs : s.Ended) :
    s.processed = s.accepted ↔ daemon.Along (fun s e => ¬Late s e) init es := by
  have hinv : ∀ s e s', Inv s → daemon.step s e = some s' → Inv s' :=
    fun _ _ _ h hstep => inv_step h hstep
  have haccounted : Accounted s :=
    (Machine.invariant_of_step (I := fun s => Inv s ∧ Accounted s)
      (fun _ _ _ h hstep => ⟨inv_step h.1 hstep, accounted_step h.1 h.2 hstep⟩)
      ⟨inv_init, rfl⟩ hrun).2
  have hdrained : s.processed = s.accepted ↔ Drained s := by
    rw [Accounted, hs.worker, current, List.append_nil] at haccounted
    rw [haccounted, Drained, List.self_eq_append_right]
    exact ⟨fun h _ => h, fun h => h hs.worker⟩
  rw [hdrained, ← Machine.always_iff_last hinv
    (fun s e s' h hstep hs' => drained_of_step h hstep hs') inv_init hrun]
  exact Machine.always_iff_along hinv (fun s e s' h hs hstep => drained_step h hs hstep) inv_init
    (fun _ => rfl) hrun

/-- A press of the power key, read by the input loop in some steps. -/
def pressing (steps : ℕ) : List Event :=
  List.replicate steps (.reader [.event 0 ⟨1, 0, evKey, keyPower, keyPress⟩])

theorem onePending_pressing :
    ∃ s, daemon.run init (pressing 7) = some s ∧ s.queue.length = 1 ∧ OnePending s := by
  obtain ⟨s, hrun, hs⟩ := @Machine.exists_run _ _ daemon init (pressing 7)
    (fun s => s.queue.length = 1) _ (by decide)
  exact ⟨s, hrun, hs, onePending hrun⟩

/-- The press is processed, the signal comes, and both loops end. -/
def stopping : List Event :=
  pressing 8 ++ List.replicate 5 .worker ++ [.signal, .worker, .worker, .reader []]

theorem processed_stopping :
    ∃ s, daemon.run init stopping = some s ∧ s.accepted.length = 1 ∧ s.processed = s.accepted := by
  obtain ⟨s, hrun, haccepted, hreader, hworker⟩ := @Machine.exists_run _ _ daemon init stopping
    (fun s => s.accepted.length = 1 ∧ s.reader = .ended ∧ s.worker = .ended) _ (by decide)
  exact ⟨s, hrun, haccepted, (processed_iff hrun ⟨hreader, hworker⟩).2 (by decide)⟩

/-- If the signal comes while the input loop handles the press, the worker ends before the press is
    on the queue. -/
theorem not_processed :
    ¬∀ es s, daemon.run init es = some s → s.Ended → s.processed = s.accepted := by
  intro h
  obtain ⟨s, hrun, hreader, hworker, hne⟩ := @Machine.exists_run _ _ daemon init
    (pressing 6 ++ [.signal, .worker, .worker, .reader [], .reader [], .reader []])
    (fun s => s.reader = .ended ∧ s.worker = .ended ∧ s.processed ≠ s.accepted) _ (by decide)
  exact hne (h _ s hrun ⟨hreader, hworker⟩)

end Daemon

end W132d.Standby
