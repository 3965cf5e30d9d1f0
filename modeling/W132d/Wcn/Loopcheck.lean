import W132d.Machine
import W132d.WorkItem
import W132d.Completion

/-!
# The loop check

A work item asks the firmware every now and then whether it is alive (`loopcheck.c`). If there is no
answer in time, the check is closed, and the failure is reported, upon which the chip is reset.
Meanwhile, any thread may open and close the check, many of them while they hold the `power_lock` of
`marlin_set_power`, which the reset takes as well (`wcn_boot.c`).

* `Call`: where a thread is in `start_loopcheck` or `stop_loopcheck`;
* `WcnLoopcheck`: what they share, and `WcnLoopcheck.next`: what they do to it;
* `Worker`: where the function of the work item is, which calls them itself;
* `watchdog`: the machine of all threads, of `power_lock` and of the work item;
* `Sound`: the function never waits for itself, neither at once nor through `power_lock`, and a
  check without an answer is reported; and a check that was stopped stays stopped;
* `Orderly`: the condition on a step.

The check is configured, so that `WCN_LOOPCHECK_INIT` is set. That a run of orderly steps is sound
is proved in `W132d.Wcn.Watchdog`.
-/

namespace W132d.Loopcheck

variable {T : Type*}

/-! ## Opening and closing the check -/

/-- Where a thread is in `start_loopcheck` (`testAndSet` to `queue`) or in `stop_loopcheck`
    (`testAndClear` to `wait`). A thread that has cleared the open bit notes down how often it had
    been set (`sets`). -/
inductive Call where
  | done
  | testAndSet
  | reinit
  | queue
  | testAndClear
  | completeAll (sets : ℕ)
  | cancel (sets : ℕ)
  /-- In `cancel_delayed_work_sync`, until the runs of the work up to `last` have returned. -/
  | wait (sets last : ℕ)
  deriving DecidableEq

/-- `struct wcn_loopcheck`. How often the open bit was set, and whether the check is `stopped`,
    i.e., who has cleared the bit as it was set last has returned from `stop_loopcheck`, are a
    record only. -/
structure WcnLoopcheck where
  opened : Bool
  completion : Completion
  work : WorkItem
  sets : ℕ
  stopped : Bool
  /-- How many commands were sent. This, and what follows, is a record only. -/
  sent : ℕ
  /-- The last command was answered. -/
  answered : Bool
  /-- The check was open as the last command was sent, and ever since. -/
  kept : Bool

/-- What a thread does to the check, and where it goes on. -/
def WcnLoopcheck.next (loopcheck : WcnLoopcheck) : Call → WcnLoopcheck × Call
  | .done => (loopcheck, .done)
  | .testAndSet =>
    if loopcheck.opened then (loopcheck, .done)
    else
      ({ loopcheck with opened := true, sets := loopcheck.sets + 1, stopped := false }, .reinit)
  | .reinit => ({ loopcheck with completion := .reinit }, .queue)
  | .queue => ({ loopcheck with work := loopcheck.work.queueWork }, .done)
  | .testAndClear =>
    if loopcheck.opened then
      ({ loopcheck with opened := false, kept := false }, .completeAll loopcheck.sets)
    else (loopcheck, .done)
  | .completeAll sets => ({ loopcheck with completion := .completeAll }, .cancel sets)
  | .cancel sets =>
    ({ loopcheck with work := loopcheck.work.beginCancel }, .wait sets loopcheck.work.started)
  | .wait sets last =>
    if loopcheck.work.Flushed last then
      ({ loopcheck with
          work := loopcheck.work.endCancel
          stopped := loopcheck.stopped || sets = loopcheck.sets }, .done)
    else (loopcheck, .wait sets last)

/-- `at_cmd_send`. The new command was not answered yet. -/
def WcnLoopcheck.atCmdSend (loopcheck : WcnLoopcheck) : WcnLoopcheck :=
  { loopcheck with sent := loopcheck.sent + 1, answered := false, kept := loopcheck.opened }

/-- `complete_kernel_loopcheck`, upon the answer to the `command`-th command. -/
def WcnLoopcheck.completeKernelLoopcheck (loopcheck : WcnLoopcheck) (command : ℕ) :
    WcnLoopcheck :=
  { loopcheck with
    completion := loopcheck.completion.complete
    answered := loopcheck.answered || command = loopcheck.sent }

/-- The check that was made last was open all the time, and there was no answer to it. -/
def WcnLoopcheck.missed (loopcheck : WcnLoopcheck) : Bool :=
  loopcheck.kept && !loopcheck.answered

/-! ## The machine -/

/-- Where `loopcheck_work_queue` is. -/
inductive Worker where
  | idle
  /-- About to test the open bit. -/
  | test
  /-- About to lock `atcmd_lock` and to send the command. -/
  | send
  | waiting
  /-- About to test the open bit again. -/
  | testAgain (timeleft : Bool)
  /-- About to queue the work again. -/
  | queue
  /-- In `stop_loopcheck`, as the wait has timed out. Whether there really was no answer (`missed`)
      is a record only. -/
  | stop (missed : Bool) (call : Call)
  /-- In the `stop_loopcheck` of `mdbg_assert_interface`. -/
  | assertInterface (call : Call)
  /-- In a `marlin_set_power` of `marlin_cp2_reset`, about to lock `power_lock`. There are `more`
      of them after this one. -/
  | setPower (more : ℕ)
  /-- It holds `power_lock`, and is in the `start_loopcheck` or `stop_loopcheck` of
      `power_state_notify_or_not`. -/
  | notify (more : ℕ) (call : Call)
  | exit
  deriving DecidableEq

/-- Where the function goes on after a `marlin_set_power`. -/
def Worker.afterSetPower : ℕ → Worker
  | 0 => .exit
  | more + 1 => .setPower more

/-- The check, the function of its work item, and the threads. `power_lock` is held by a thread, or
    by the function (`some none`). How many checks were `missed`, and how many of them were
    `asserted`, i.e., have reached `mdbg_assert_interface`, are a record only. -/
structure State (T : Type*) where
  loopcheck : WcnLoopcheck
  powerLock : Option (Option T)
  worker : Worker
  pc : T → Call
  missed : ℕ
  asserted : ℕ

/-- The check was not opened yet. -/
def State.init : State T :=
  ⟨⟨false, .reinit, .init, 0, false, 0, false, false⟩, none, .idle, fun _ => .done, 0, 0⟩

/-- What happens to the check. -/
inductive Event (T : Type*) where
  | startLoopcheck (t : T)
  | stopLoopcheck (t : T)
  /-- The thread goes on in the function it has called. -/
  | thread (t : T)
  /-- The thread locks `power_lock`, at the beginning of a `marlin_set_power`. -/
  | lock (t : T)
  /-- It unlocks it. -/
  | unlock (t : T)
  /-- The firmware answers the `command`-th command. It may do so late, and more than once. -/
  | answer (command : ℕ)
  /-- The work item starts. -/
  | start
  /-- The wait for an answer times out. -/
  | timeout
  /-- The function of the work item goes on. `flagReset` tells whether the chip is in reset. -/
  | work (flagReset : Bool)
  /-- `power_state_notify_or_not` in the function of the work item. -/
  | notify (call : Call)

/-- The function of the work item goes on in a function it has called. -/
def State.call (s : State T) (call : Call) (worker : Call → Worker) : State T :=
  match s.loopcheck.next call with
  | (loopcheck, call) => { s with loopcheck, worker := worker call }

/-- `loopcheck_work_queue`. -/
def State.work (s : State T) (flagReset : Bool) : State T :=
  match s.worker with
  | .idle => s
  | .test => { s with worker := if s.loopcheck.opened then .send else .exit }
  | .send => { s with loopcheck := s.loopcheck.atCmdSend, worker := .waiting }
  | .waiting =>
    match s.loopcheck.completion.wait with
    | some completion =>
      { s with loopcheck := { s.loopcheck with completion }, worker := .testAgain true }
    | none => s
  | .testAgain timeleft =>
    { s with
      worker :=
        if ¬s.loopcheck.opened then .exit
        else if timeleft then .queue
        else .stop s.loopcheck.missed .testAndClear
      missed := s.missed + s.loopcheck.missed.toNat }
  | .queue =>
    { s with
      loopcheck := { s.loopcheck with work := s.loopcheck.work.queueWork }
      worker := .exit }
  | .stop missed .done =>
    { s with
      worker := if flagReset then .exit else .assertInterface .testAndClear
      asserted := s.asserted + missed.toNat }
  | .stop missed call => s.call call (.stop missed)
  -- `marlin_cp2_reset` powers off two subsystems.
  | .assertInterface .done => { s with worker := .setPower 1 }
  | .assertInterface call => s.call call .assertInterface
  | .setPower more =>
    if s.powerLock = none then { s with powerLock := some none, worker := .notify more .done }
    else s
  | .notify more .done => { s with powerLock := none, worker := .afterSetPower more }
  | .notify more call => s.call call (.notify more)
  | .exit =>
    { s with loopcheck := { s.loopcheck with work := s.loopcheck.work.finish }, worker := .idle }

/-- A thread goes on in the function it has called. -/
def State.thread [DecidableEq T] (s : State T) (t : T) : State T :=
  match s.loopcheck.next (s.pc t) with
  | (loopcheck, call) => { s with loopcheck, pc := Function.update s.pc t call }

/-- What a step does. Who is not where the step begins does nothing. -/
def State.next [DecidableEq T] (s : State T) : Event T → State T
  | .startLoopcheck t =>
    if s.pc t = .done then { s with pc := Function.update s.pc t .testAndSet } else s
  | .stopLoopcheck t =>
    if s.pc t = .done then { s with pc := Function.update s.pc t .testAndClear } else s
  | .thread t => s.thread t
  | .lock t =>
    if s.pc t = .done ∧ s.powerLock = none then { s with powerLock := some (some t) } else s
  | .unlock t =>
    if s.pc t = .done ∧ s.powerLock = some (some t) then { s with powerLock := none } else s
  | .answer command => { s with loopcheck := s.loopcheck.completeKernelLoopcheck command }
  | .start =>
    if s.worker = .idle ∧ s.loopcheck.work.pending then
      { s with loopcheck := { s.loopcheck with work := s.loopcheck.work.start }, worker := .test }
    else s
  | .timeout =>
    if s.worker = .waiting ∧ s.loopcheck.completion.done = 0 then
      { s with worker := .testAgain false }
    else s
  | .work flagReset => s.work flagReset
  | .notify call =>
    match s.worker with
    | .notify more .done =>
      if call = .testAndSet ∨ call = .testAndClear then { s with worker := .notify more call }
      else s
    | _ => s

/-- The threads and the work item, one step at a time. -/
def watchdog [DecidableEq T] : Machine (State T) (Event T) where
  step s e := some (s.next e)

/-! ## Soundness -/

/-- The thread is in `cancel_delayed_work_sync`. -/
def Call.IsWait : Call → Prop
  | wait _ _ => True
  | _ => False

instance : DecidablePred Call.IsWait
  | .wait _ _ => .isTrue trivial
  | .done | .testAndSet | .reinit | .queue | .testAndClear | .completeAll _ | .cancel _ =>
    .isFalse id

/-- What the function of the work item has called. -/
def Worker.call : Worker → Call
  | stop _ call | assertInterface call | notify _ call => call
  | _ => .done

/-- A check without an answer is on its way to `mdbg_assert_interface`. -/
def Worker.reports : Worker → ℕ
  | stop missed _ => missed.toNat
  | _ => 0

/-- The function of the work item is about to lock `power_lock`. -/
def Worker.IsSetPower : Worker → Prop
  | setPower _ => True
  | _ => False

instance : DecidablePred Worker.IsSetPower
  | .setPower _ => .isTrue trivial
  | .idle | .test | .send | .waiting | .testAgain _ | .queue | .stop .. | .assertInterface _
  | .notify .. | .exit => .isFalse id

/-- Where the thread is that holds `power_lock`, if there is one. -/
def State.holder (s : State T) : Call :=
  match s.powerLock with
  | some (some t) => s.pc t
  | _ => .done

/-- The function of the work item does not wait for the work item, nor for a thread that does. Every
    check that was open all the time and not answered was reported, or is on its way. Once the check
    was stopped, the work item is neither pending nor running. -/
structure Sound (s : State T) : Prop where
  notWaiting : ¬s.worker.call.IsWait
  notBlocked : s.worker.IsSetPower → ¬s.holder.IsWait
  reported : s.missed = s.asserted + s.worker.reports
  stopped : s.loopcheck.stopped → ¬s.loopcheck.work.pending ∧ ¬s.loopcheck.work.Running

/-- A thread is about to queue the work although the check was stopped meanwhile. -/
def Late (loopcheck : WcnLoopcheck) (call : Call) : Prop :=
  call = .queue ∧ loopcheck.stopped ∧ loopcheck.work.cancels = 0

instance (loopcheck : WcnLoopcheck) (call : Call) : Decidable (Late loopcheck call) :=
  inferInstanceAs (Decidable (_ ∧ _))

/-- The function of the work item waits for the answer to a check that was open all the time. -/
def State.Awaits (s : State T) : Prop := s.worker = .waiting ∧ s.loopcheck.missed

instance (s : State T) : Decidable s.Awaits := inferInstanceAs (Decidable (_ ∧ _))

/-- The thread is about to complete the completion for all. -/
def Call.IsCompleteAll : Call → Prop
  | completeAll _ => True
  | _ => False

instance : DecidablePred Call.IsCompleteAll
  | .completeAll _ => .isTrue trivial
  | .done | .testAndSet | .reinit | .queue | .testAndClear | .cancel _ | .wait _ _ => .isFalse id

/-- The thread is about to wait for the work item. -/
def Call.IsCancel : Call → Prop
  | cancel _ => True
  | _ => False

instance : DecidablePred Call.IsCancel
  | .cancel _ => .isTrue trivial
  | .done | .testAndSet | .reinit | .queue | .testAndClear | .completeAll _ | .wait _ _ =>
    .isFalse id

/-- The condition on a step.

    * The function of the work item does not find the check open as it stops it.
    * No check is queued that was stopped as it was being started.
    * The command of an open check is sent while the completion has no event, and until its answer,
      nothing else completes it: neither the answer to an earlier command nor a thread that stops an
      earlier check.
    * The function does not come to lock `power_lock` while who holds it waits for the function, nor
      does who holds it begin to wait while the function is there. -/
def Orderly (s : State T) : Event T → Prop
  | .thread t =>
    ¬Late s.loopcheck (s.pc t) ∧ ¬((s.pc t).IsCompleteAll ∧ s.Awaits) ∧
      ¬((s.pc t).IsCancel ∧ s.powerLock = some (some t) ∧ s.worker.IsSetPower)
  | .answer command => ¬(command ≠ s.loopcheck.sent ∧ s.Awaits)
  | .work _ =>
    ¬(s.worker.call = .testAndClear ∧ s.loopcheck.opened) ∧ ¬Late s.loopcheck s.worker.call ∧
      ¬(s.worker = .send ∧ s.loopcheck.opened ∧ s.loopcheck.completion.done ≠ 0) ∧
      ¬(s.worker = .assertInterface .done ∧ s.holder.IsWait)
  | _ => True

instance [DecidableEq T] (s : State T) : DecidablePred (Orderly s)
  | .thread t => inferInstanceAs (Decidable (¬Late s.loopcheck (s.pc t) ∧ _ ∧ _))
  | .answer command => inferInstanceAs (Decidable ¬(command ≠ s.loopcheck.sent ∧ s.Awaits))
  | .work _ => inferInstanceAs (Decidable (_ ∧ _ ∧ _ ∧ _))
  | .startLoopcheck _ | .stopLoopcheck _ | .lock _ | .unlock _ | .start | .timeout | .notify _ =>
    .isTrue trivial

end W132d.Loopcheck
