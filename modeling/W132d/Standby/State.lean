import W132d.Machine
import W132d.Serial

/-!
# The standby state

The standby state is in three places: the state file, the DPMS state of the screen and the power
LED. The commands that change it (`set_state` and `toggle`, also from the daemon) take a lock for
that. When the daemon starts, it creates the state file if there is none, and if the screen or the
LED disagree with what it reads there, it sets all three (`reconcile_hardware`). For that, it does
not take the lock.

* `Op`: the operations on what is shared;
* `program`: the programs of the processes;
* `world`: any number of processes, one operation at a time;
* `Apart`: an operation of a start of the daemon does not come while another process is inside its
  program, nor the other way round;
* `serialisable`: then, once all processes have finished, they have run one after another, and the
  three places agree. `not_serialisable`: they may disagree if not.
-/

namespace W132d.Standby

open Serial

/-- The states `awake` and `standby`. -/
inductive Power where
  | awake
  | standby
  deriving DecidableEq, Repr

/-- The screen and the LED are on. -/
def Power.on : Power → Bool
  | awake => true
  | standby => false

/-- What a process does. -/
inductive Task where
  /-- The start of the daemon. -/
  | startup
  | toggle
  /-- `set_state`. -/
  | set (target : Power)
  deriving DecidableEq, Repr

/-- What the processes share: the state file and the file it is written to first, if they are there,
    and whether the screen and the LED are on. -/
structure Store where
  file : Option Power
  tmp : Option Power
  dpms : Bool
  led : Bool
  deriving DecidableEq, Repr

/-- `read_state`. -/
def Store.state (s : Store) : Power := s.file.getD .awake

/-- The three places agree. -/
def Agreed (s : Store) : Prop := s.dpms = s.state.on ∧ s.led = s.state.on

instance : DecidablePred Agreed := fun s =>
  inferInstanceAs (Decidable (s.dpms = s.state.on ∧ s.led = s.state.on))

/-- An operation, under the lock or not. -/
inductive Op where
  /-- `STATE_FILE.exists()`. -/
  | exists
  /-- `read_state()`. -/
  | read (task : Task)
  /-- `hardware_matches`: it reads the DPMS state, and then the LED. -/
  | readDpms (task : Task) (state : Power)
  | readLed (task : Task) (state : Power) (dpms : Bool)
  /-- `cec_standby()` or `cec_wake()`. -/
  | cec
  /-- `drm_dpms(on)`. -/
  | dpms (on : Bool)
  /-- `power_led(on)`. -/
  | led (on : Bool)
  /-- `write_state`: it writes a file, and then puts it in place. -/
  | write (state : Power)
  | replace
  deriving DecidableEq, Repr

/-- `write_state`. -/
def writeState (state : Power) : List Op := [.write state, .replace]

/-- `reconcile_hardware`. -/
def reconcileHardware (state : Power) : List Op :=
  [.dpms state.on, .led state.on] ++ writeState state

/-- `enter_standby`. -/
def enterStandby : List Op := [.cec, .dpms false, .led false] ++ writeState .standby

/-- `leave_standby`. -/
def leaveStandby : List Op := [.dpms true, .led true, .cec] ++ writeState .awake

/-- The transition to a state. -/
def transition : Power → List Op
  | .awake => leaveStandby
  | .standby => enterStandby

/-- What a process does once it has read the state. -/
def whenRead (state : Power) : Task → List Op
  | .startup => [.readDpms .startup state]
  | .toggle => if state = .awake then enterStandby else leaveStandby
  | .set target => if target = state then [.readDpms (.set target) state] else transition target

/-- What a process does once it has compared the hardware with the state. -/
def whenCompared (state : Power) (hardwareMatches : Bool) : Task → List Op
  | .startup => if hardwareMatches then [] else reconcileHardware state
  | .toggle => []
  | .set target => if hardwareMatches then [] else transition target

/-- What an operation does, and what comes after it. -/
def exec (op : Op) (rest : List Op) (s : Store) : Store × List Op :=
  match op with
  | .exists => (s, if s.file.isSome then rest else writeState .awake ++ rest)
  | .read task => (s, whenRead s.state task ++ rest)
  | .readDpms task state => (s, .readLed task state s.dpms :: rest)
  | .readLed task state dpms =>
    (s, whenCompared state (dpms == state.on && s.led == state.on) task ++ rest)
  | .cec => (s, rest)
  | .dpms on => ({ s with dpms := on }, rest)
  | .led on => ({ s with led := on }, rest)
  | .write state => ({ s with tmp := some state }, rest)
  | .replace =>
    match s.tmp with
    | some state => ({ s with file := some state, tmp := none }, rest)
    -- It raises, which ends the process.
    | none => (s, [])

/-- The program of a process, without the lock. -/
def program : Task → List Op
  | .startup => [.exists, .read .startup]
  | .toggle => [.read .toggle]
  | .set target => [.read (.set target)]

/-! ## A process alone -/

/-- What a process makes of the state. -/
def Task.result (p : Power) : Task → Power
  | .startup => p
  | .toggle => if p = .awake then .standby else .awake
  | .set target => target

/-- The store with a state in all three places. -/
def settled (p : Power) : Store := ⟨some p, none, p.on, p.on⟩

theorem agreed_settled (p : Power) : Agreed (settled p) := ⟨rfl, rfl⟩

variable {p : Power} {s t : Store}

theorem runs_transition (h : Runs exec (transition p) s t) : t = settled p := by
  cases p with
  | awake =>
    simpa [transition, leaveStandby, writeState, exec, settled, Power.on] using h
  | standby =>
    simpa [transition, enterStandby, writeState, exec, settled, Power.on] using h

theorem runs_reconcileHardware (h : Runs exec (reconcileHardware p) s t) : t = settled p := by
  simpa [reconcileHardware, writeState, exec, settled] using h

/-- A process that compares the hardware with the state `p`, which it has read, and then does what
    it does if they disagree, leaves `p` in all three places. -/
theorem runs_readDpms (task : Task) (hs : s.state = p)
    (hwhen : ∀ b, whenCompared p b task = if b then [] else whenCompared p false task)
    (hfalse : Runs exec (whenCompared p false task) s t → t = settled p)
    (h : Runs exec [.readDpms task p] s t) : t.state = p ∧ Agreed t := by
  simp only [runs_cons_iff, exec, List.append_nil] at h
  rw [hwhen] at h
  split at h
  · rename_i hmatch
    rw [runs_nil_iff] at h
    rw [Bool.and_eq_true, beq_iff_eq, beq_iff_eq] at hmatch
    rw [h, Agreed, hs]
    exact ⟨rfl, hmatch⟩
  · rw [hfalse h]
    exact ⟨rfl, agreed_settled p⟩

/-- A process that runs alone leaves its state in all three places. -/
theorem runs_program {task : Task} (h : Runs exec (program task) s t) :
    t.state = task.result s.state ∧ Agreed t := by
  cases task with
  | startup =>
    have hread : ∀ s : Store, Runs exec [.read .startup] s t → t.state = s.state ∧ Agreed t := by
      intro s h
      rw [runs_cons_iff] at h
      exact runs_readDpms .startup rfl (fun b => rfl) runs_reconcileHardware h
    rw [program, runs_cons_iff, exec] at h
    dsimp only at h
    split at h
    · exact hread s h
    · rename_i hfile
      -- It creates the file with the state that it would have read.
      have hstate : s.state = .awake := by
        rw [Store.state, Option.not_isSome_iff_eq_none.1 hfile]
        rfl
      have h : Runs exec [.read .startup] { s with file := some .awake, tmp := none } t := by
        simpa [writeState, exec] using h
      rw [Task.result, hstate]
      exact hread _ h
  | toggle =>
    rw [program, runs_cons_iff, exec] at h
    dsimp only at h
    rw [List.append_nil, whenRead] at h
    rw [Task.result]
    split at h
    · rw [if_pos ‹_›, runs_transition (p := .standby) h]
      exact ⟨rfl, agreed_settled _⟩
    · rw [if_neg ‹_›, runs_transition (p := .awake) h]
      exact ⟨rfl, agreed_settled _⟩
  | set target =>
    rw [program, runs_cons_iff, exec] at h
    dsimp only at h
    rw [List.append_nil, whenRead] at h
    rw [Task.result]
    split at h
    · rename_i hstate
      rw [← hstate] at h
      exact runs_readDpms (.set target) hstate.symm (fun b => rfl) runs_transition h
    · rw [runs_transition h]
      exact ⟨rfl, agreed_settled target⟩

/-! ## The processes -/

/-- What a process does next. -/
inductive Proc where
  /-- It takes the lock. -/
  | lock
  /-- The first operation of its program. -/
  | start
  /-- The rest of its program. -/
  | body (todo : List Op)
  /-- It gives the lock back. -/
  | unlock
  | done
  deriving DecidableEq, Repr

/-- The process is at an operation of its program. -/
def Proc.operates : Proc → Bool
  | .start | .body _ => true
  | .lock | .unlock | .done => false

/-- Where the process is. -/
def Proc.phase : Proc → Phase Op
  | .lock | .start => .before
  | .body todo => .inside todo
  | .unlock | .done => .after

/-- The store, the process that has the lock, and the processes. -/
structure World (ι : Type) where
  store : Store
  lock : Option ι
  proc : ι → Proc

namespace World

variable {ι : Type} (task : ι → Task)

/-- No process has begun. A start of the daemon does not take the lock. -/
def init (store : Store) : World ι :=
  ⟨store, none, fun i => if task i = .startup then .start else .lock⟩

/-- Where a process is after an operation that leaves it `todo`. -/
def goOn (i : ι) (todo : List Op) : Proc :=
  if todo = [] then (if task i = .startup then .done else .unlock) else .body todo

/-- The next step of a process, if it can take it. -/
def stepOf [DecidableEq ι] (i : ι) (s : World ι) : Option (World ι) :=
  match s.proc i with
  | .lock =>
    if s.lock.isNone then some { s with lock := some i, proc := Function.update s.proc i .start }
    else none
  | .unlock => some { s with lock := none, proc := Function.update s.proc i .done }
  | .done => none
  | p =>
    match p.phase.todo (program (task i)) with
    | [] => none
    | op :: rest =>
      let x := exec op rest s.store
      some { s with store := x.1, proc := Function.update s.proc i (goOn task i x.2) }

/-- The processes: an event is a step of one of them. -/
def world [DecidableEq ι] : Machine (World ι) ι where
  step s i := s.stepOf task i

/-- An operation of a start of the daemon does not come while another process is inside its program,
    nor does one of another process while a start of the daemon is. -/
def Apart (s : World ι) (i : ι) : Prop :=
  (s.proc i).operates = true → ∀ j, task i = .startup ∨ task j = .startup →
    (s.proc j).phase.IsInside → j = i

instance [Fintype ι] [DecidableEq ι] (s : World ι) (i : ι) : Decidable (Apart task s i) :=
  inferInstanceAs (Decidable (_ → ∀ _, _ → _ → _))

/-- The processes have run one after another, and the three places agree. -/
structure Serialisable (store : Store) (s : World ι) : Prop where
  agreed : Agreed s.store
  serial : ∃ order : List ι, order.Nodup ∧ (∀ i, i ∈ order) ∧
    RunsAll exec (order.map fun i => program (task i)) store s.store

/-- A process has the lock from the step in which it takes it to the one in which it gives it back,
    unless it is a start of the daemon. -/
structure Inv (store : Store) (s : World ι) : Prop where
  serialized : Serialized exec (fun i => program (task i)) store (fun i => (s.proc i).phase) s.store
  holds : ∀ i, task i ≠ .startup → s.proc i ≠ .lock → s.proc i ≠ .done → s.lock = some i
  startup : ∀ i, task i = .startup → s.proc i ≠ .lock ∧ s.proc i ≠ .unlock

variable {task} {store : Store} {s s' : World ι} {i : ι}

theorem phase_update [DecidableEq ι] (s : World ι) (i : ι) (p : Proc) :
    (fun j => (Function.update s.proc i p j).phase) =
      Function.update (fun j => (s.proc j).phase) i p.phase := by
  funext j
  by_cases h : j = i
  · subst h
    rw [Function.update_self, Function.update_self]
  · rw [Function.update_of_ne h, Function.update_of_ne h]

theorem phase_goOn (i : ι) (todo : List Op) : (goOn task i todo).phase = .next todo := by
  rw [goOn, Phase.next]
  split_ifs <;> rfl

theorem inv_init (store : Store) : Inv task store (init task store) where
  serialized := by
    refine serialized_init fun i => ?_
    change (if task i = .startup then Proc.start else .lock).phase = .before
    split_ifs <;> rfl
  holds i hi hlock := absurd (if_neg hi) hlock
  startup i hi := by
    rw [show (init task store).proc i = .start from if_pos hi]
    exact ⟨nofun, nofun⟩

/-- No other process is inside its program when a process operates: commands hold the lock, and a
    start of the daemon is apart. -/
theorem Inv.alone (h : Inv task store s) (hapart : Apart task s i)
    (hi : (s.proc i).operates = true) (j : ι) (hj : (s.proc j).phase.IsInside) : j = i := by
  by_cases hstartup : task i = .startup ∨ task j = .startup
  · exact hapart hi j hstartup hj
  · rw [not_or] at hstartup
    have hlock : ∀ k, (s.proc k).operates = true → task k ≠ .startup → s.lock = some k := by
      intro k hk htask
      refine h.holds k htask ?_ ?_ <;> rintro heq <;> rw [heq] at hk <;> exact absurd hk nofun
    have hoperates : (s.proc j).operates = true := by
      obtain ⟨todo, hj⟩ := hj
      cases hproc : s.proc j with
      | body => rfl
      | lock | start | unlock | done =>
        rw [hproc] at hj
        exact absurd hj nofun
    exact Option.some.inj ((hlock j hoperates hstartup.2).symm.trans (hlock i hi hstartup.1))

variable [DecidableEq ι]

/-- A process takes the lock. -/
theorem Inv.lock (h : Inv task store s) (hproc : s.proc i = .lock) (hlock : s.lock = none) :
    Inv task store { s with lock := some i, proc := Function.update s.proc i .start } where
  serialized := by
    dsimp only
    rw [phase_update, Function.update_eq_self_iff.2 (by rw [hproc]; rfl)]
    exact h.serialized
  holds j hj hne hdone := by
    by_cases heq : j = i
    · exact congrArg some heq.symm
    · dsimp only at hne hdone
      rw [Function.update_of_ne heq] at hne hdone
      exact absurd (hlock.symm.trans (h.holds j hj hne hdone)) nofun
  startup j hj := by
    by_cases heq : j = i
    · subst heq
      exact absurd hproc (h.startup j hj).1
    · dsimp only
      rw [Function.update_of_ne heq]
      exact h.startup j hj

/-- A process gives the lock back. -/
theorem Inv.unlock (h : Inv task store s) (hproc : s.proc i = .unlock) :
    Inv task store { s with lock := none, proc := Function.update s.proc i .done } where
  serialized := by
    dsimp only
    rw [phase_update, Function.update_eq_self_iff.2 (by rw [hproc]; rfl)]
    exact h.serialized
  holds j hj hne hdone := by
    have htask : task i ≠ .startup := fun htask => absurd hproc (h.startup i htask).2
    have hlock : s.lock = some i := by
      refine h.holds i htask ?_ ?_ <;> rw [hproc] <;> exact nofun
    by_cases heq : j = i
    · subst heq
      exact absurd (Function.update_self ..) hdone
    · dsimp only at hne hdone
      rw [Function.update_of_ne heq] at hne hdone
      exact absurd (Option.some.inj ((h.holds j hj hne hdone).symm.trans hlock)) heq
  startup j hj := by
    by_cases heq : j = i
    · subst heq
      exact absurd hproc (h.startup j hj).2
    · dsimp only
      rw [Function.update_of_ne heq]
      exact h.startup j hj

/-- An operation of a process that is apart. -/
theorem Inv.operate (h : Inv task store s) (hapart : Apart task s i)
    (hi : (s.proc i).operates = true) {op : Op} {rest : List Op}
    (htodo : (s.proc i).phase.todo (program (task i)) = op :: rest) :
    Inv task store { s with
      store := (exec op rest s.store).1,
      proc := Function.update s.proc i (goOn task i (exec op rest s.store).2) } where
  serialized := by
    dsimp only
    rw [phase_update, phase_goOn]
    exact h.serialized.step htodo (h.alone hapart hi)
  holds j hj hne hdone := by
    by_cases heq : j = i
    · subst heq
      refine h.holds j hj ?_ ?_ <;> rintro heq <;> rw [heq] at hi <;> exact absurd hi nofun
    · dsimp only at hne hdone
      rw [Function.update_of_ne heq] at hne hdone
      exact h.holds j hj hne hdone
  startup j hj := by
    by_cases heq : j = i
    · subst heq
      dsimp only
      rw [Function.update_self, goOn, if_pos hj]
      split_ifs
      · exact ⟨nofun, nofun⟩
      · exact ⟨nofun, nofun⟩
    · dsimp only
      rw [Function.update_of_ne heq]
      exact h.startup j hj

theorem inv_step (h : Inv task store s) (hapart : Apart task s i)
    (hstep : (world task).step s i = some s') : Inv task store s' := by
  change s.stepOf task i = some s' at hstep
  rw [stepOf] at hstep
  -- The lock is taken and given back here; what else a process does is one operation on the file,
  -- either its first or one of the rest.
  cases hproc : s.proc i with
  | lock =>
    rw [hproc] at hstep
    dsimp only at hstep
    split_ifs at hstep with hlock
    obtain rfl := Option.some.inj hstep
    exact h.lock hproc (Option.isNone_iff_eq_none.1 hlock)
  | unlock =>
    rw [hproc] at hstep
    obtain rfl := Option.some.inj hstep
    exact h.unlock hproc
  | done =>
    rw [hproc] at hstep
    exact absurd hstep nofun
  | start =>
    rw [hproc] at hstep
    dsimp only at hstep
    split at hstep
    · exact absurd hstep nofun
    · rename_i op rest htodo
      obtain rfl := Option.some.inj hstep
      exact h.operate hapart (by rw [hproc]; rfl) (by rw [hproc]; exact htodo)
  | body todo =>
    rw [hproc] at hstep
    dsimp only at hstep
    split at hstep
    · exact absurd hstep nofun
    · rename_i op rest htodo
      obtain rfl := Option.some.inj hstep
      exact h.operate hapart (by rw [hproc]; rfl) (by rw [hproc]; exact htodo)

/-- What programs that run one after another leave: the three places agree. -/
theorem agreed_of_runsAll {tasks : List Task} {s t : Store} (hne : tasks ≠ [])
    (h : RunsAll exec (tasks.map program) s t) : Agreed t := by
  obtain ⟨tasks, task, rfl⟩ := (List.eq_nil_or_concat tasks).resolve_left hne
  rw [List.concat_eq_append, List.map_append, List.map_singleton, runsAll_concat] at h
  obtain ⟨u, -, h⟩ := h
  exact (runs_program h).2

/-- If the starts of the daemon are apart from the other processes, then once all processes have
    finished, they have run one after another, and the three places agree. -/
theorem serialisable [Nonempty ι] {es : List ι}
    (hrun : (world task).run (init task store) es = some s)
    (hapart : (world task).Along (Apart task) (init task store) es)
    (hdone : ∀ i, s.proc i = .done) :
    Serialisable task store s := by
  have h : Inv task store s := Machine.invariant
    (fun _ _ _ h hapart hstep => inv_step h hapart hstep) (inv_init store) hapart hrun
  obtain ⟨order, hnodup, hmem, hruns⟩ := h.serialized.runsAll fun i => by rw [hdone i]; rfl
  refine ⟨@agreed_of_runsAll (order.map task) store s.store ?_ ?_, order, hnodup, hmem, hruns⟩
  · obtain ⟨i⟩ := ‹Nonempty ι›
    exact fun hnil => absurd (List.mem_map_of_mem (hmem i)) (hnil ▸ List.not_mem_nil)
  · rw [List.map_map]
    exact hruns

/-- A start of the daemon, and a press of the power key. -/
def tasks : Fin 2 → Task
  | 0 => .startup
  | 1 => .toggle

/-- The daemon starts with the screen off although the state is `awake`, and then the key is
    pressed. -/
theorem serialisable_tasks : ∃ s, (world tasks).run (init tasks ⟨some .awake, none, false, true⟩)
    (List.replicate 8 0 ++ List.replicate 8 1) = some s ∧ s.store = settled .standby ∧
      Serialisable tasks ⟨some .awake, none, false, true⟩ s := by
  obtain ⟨s, hrun, hs, hdone⟩ := @Machine.exists_run _ _ (world tasks)
    (init tasks ⟨some .awake, none, false, true⟩) (List.replicate 8 0 ++ List.replicate 8 1)
    (fun s => s.store = settled .standby ∧ ∀ i, s.proc i = .done) _ (by decide)
  exact ⟨s, hrun, hs, serialisable hrun (by decide) hdone⟩

/-- If the key is pressed while the daemon sets the screen and the LED, they do not agree in the
    end. -/
theorem not_serialisable : ¬∀ (task : Fin 2 → Task) store es s,
    (world task).run (init task store) es = some s → (∀ i, s.proc i = .done) →
      Serialisable task store s := by
  intro h
  obtain ⟨s, hrun, hdone, hs⟩ := @Machine.exists_run _ _ (world tasks)
    (init tasks ⟨some .awake, none, false, true⟩)
    (List.replicate 5 0 ++ List.replicate 8 1 ++ List.replicate 3 0)
    (fun s => (∀ i, s.proc i = .done) ∧ s.store = ⟨some .awake, none, false, true⟩) _ (by decide)
  have hagreed := (h tasks _ _ s hrun hdone).agreed
  rw [hs] at hagreed
  exact absurd hagreed (by decide)

end World

end W132d.Standby
