import W132d.Wcn.Loopcheck

/-!
# The watchdog

What the orderly steps of the loop check keep (`W132d.Wcn.Loopcheck`), and what can happen after the
other ones.

* `Works`: what the function of the work item does as it goes on;
* `WorkInv`: who waits for the work item is known, and a stopped check has none;
* `Answers`: an event of the completion is the answer to the check that is waited for;
* `Inv`, `inv_step`: both, that every check without an answer is reported, and that nobody holds
  `power_lock` whom the function of the work item would wait for forever;
* `exists_not_sound`: after a step that is not orderly, the run can go on to an unsound state;
* `missed_le_asserted`: how soon a check without an answer is reported;
* `watchdog_sound`: a run is sound if all its steps are orderly, and can be gone on with to one that
  is not as soon as a step is not.

The proof is an induction over the steps of a run (`inv_step`), of which the one of the function of
the work item has the most cases. What it can do is said once (`works`), so that each part of the
invariant is derived from the same list of cases. Those in which the function goes on in a function
that it has called are one case (`Calls`), whatever that function is.

What carries the invariant:

* the work item is not pending while somebody waits for it, because a cancellation that is in
  progress keeps it from being queued. So it does not run again until nobody waits for it any more;
* the function of the work item runs exactly while it is not idle, so that who has waited for it
  finds it idle;
* an event of the completion can only be the answer to the command that is waited for, as long as
  the check stays open. This is what the third to the fifth condition are for;
* who holds `power_lock` and waits for the work item does so only while the function is not about to
  lock `power_lock`.

For the other direction, a run that ends in an unsound state is built for each of the conditions.
Most of these runs take one or two more steps of the function. Where a left-over event is taken for
an answer, the wait ends early, and the check is counted as one without an answer that nobody
reports.
-/

namespace W132d.Loopcheck

variable {T : Type*} {loopcheck loopcheck' : WcnLoopcheck} {call : Call} {worker : Worker}
  {pc : T → Call} {s s' : State T} {e : Event T} {es : List (Event T)}

/-! ## Where the function of the work item calls -/

/-- The function of the work item is in a function it has called, `f c` standing for where it is as
    that one is at `c`. It goes on there only. -/
structure Calls (T : Type*) (f : Call → Worker) : Prop where
  call : ∀ c, (f c).call = c
  ne_idle : ∀ c, f c ≠ .idle
  ne_waiting : ∀ c, f c ≠ .waiting
  ne_testAgain : ∀ c timeleft, f c ≠ .testAgain timeleft
  not_isSetPower : ∀ c, ¬(f c).IsSetPower
  reports : ∀ c c', (f c).reports = (f c').reports
  stop : ∀ c c' missed call, f c = .stop missed call → ∃ missed' call', f c' = .stop missed' call'
  work : ∀ (s : State T) (flagReset : Bool) (c : Call), c ≠ .done → s.worker = f c →
    s.work flagReset = s.call c f

theorem calls_stop (missed : Bool) : Calls T (.stop missed) where
  call _ := rfl
  ne_idle _ := nofun
  ne_waiting _ := nofun
  ne_testAgain _ _ := nofun
  not_isSetPower _ := id
  reports _ _ := rfl
  stop _ c' _ _ _ := ⟨missed, c', rfl⟩
  work s flagReset c hc hworker := by
    cases c with
    | done => exact absurd rfl hc
    | _ => rw [State.work, hworker]

theorem calls_assertInterface : Calls T .assertInterface where
  call _ := rfl
  ne_idle _ := nofun
  ne_waiting _ := nofun
  ne_testAgain _ _ := nofun
  not_isSetPower _ := id
  reports _ _ := rfl
  stop _ _ _ _ := nofun
  work s flagReset c hc hworker := by
    cases c with
    | done => exact absurd rfl hc
    | _ => rw [State.work, hworker]

theorem calls_notify (more : ℕ) : Calls T (.notify more) where
  call _ := rfl
  ne_idle _ := nofun
  ne_waiting _ := nofun
  ne_testAgain _ _ := nofun
  not_isSetPower _ := id
  reports _ _ := rfl
  stop _ _ _ _ := nofun
  work s flagReset c hc hworker := by
    cases c with
    | done => exact absurd rfl hc
    | _ => rw [State.work, hworker]

/-- Where the function has called another one. -/
theorem exists_calls (hcall : worker.call ≠ .done) : ∃ f, Calls T f ∧ worker = f worker.call := by
  cases worker with
  | stop missed call => exact ⟨_, calls_stop missed, rfl⟩
  | assertInterface call => exact ⟨_, calls_assertInterface, rfl⟩
  | notify more call => exact ⟨_, calls_notify more, rfl⟩
  | _ => exact absurd rfl hcall

/-! ## What the function does -/

/-- What the function of the work item does as it goes on. -/
inductive Works (s : State T) : State T → Prop
  /-- It was not started, or it waits. -/
  | stay : Works s s
  | test {goes : Worker} :
    s.worker = .test → goes = .send ∨ goes = .exit → Works s { s with worker := goes }
  | send : s.worker = .send →
    Works s { s with loopcheck := s.loopcheck.atCmdSend, worker := .waiting }
  | answered {completion : Completion} :
    s.worker = .waiting → s.loopcheck.completion.wait = some completion →
      Works s { s with loopcheck := { s.loopcheck with completion }, worker := .testAgain true }
  /-- The check was closed meanwhile. -/
  | closed {timeleft : Bool} :
    s.worker = .testAgain timeleft → ¬s.loopcheck.opened →
      Works s { s with worker := .exit, missed := s.missed + s.loopcheck.missed.toNat }
  | alive : s.worker = .testAgain true →
    Works s { s with worker := .queue, missed := s.missed + s.loopcheck.missed.toNat }
  | failed : s.worker = .testAgain false →
    Works s
      { s with
        worker := .stop s.loopcheck.missed .testAndClear
        missed := s.missed + s.loopcheck.missed.toNat }
  | queue : s.worker = .queue →
    Works s
      { s with
        loopcheck := { s.loopcheck with work := s.loopcheck.work.queueWork }
        worker := .exit }
  | report {missed : Bool} {goes : Worker} :
    s.worker = .stop missed .done → goes = .exit ∨ goes = .assertInterface .testAndClear →
      Works s { s with worker := goes, asserted := s.asserted + missed.toNat }
  | reset : s.worker = .assertInterface .done → Works s { s with worker := .setPower 1 }
  | lock {more : ℕ} :
    s.worker = .setPower more →
      Works s { s with powerLock := some none, worker := .notify more .done }
  | unlock {more : ℕ} :
    s.worker = .notify more .done →
      Works s { s with powerLock := none, worker := .afterSetPower more }
  | exit : s.worker = .exit →
    Works s
      { s with
        loopcheck := { s.loopcheck with work := s.loopcheck.work.finish }
        worker := .idle }
  /-- It goes on in a function it has called. -/
  | call {f : Call → Worker} {c : Call} :
    Calls T f → s.worker = f c → Works s (s.call c f)

/-- It does nothing else. -/
theorem works (s : State T) (flagReset : Bool) : Works s (s.work flagReset) := by
  by_cases hcall : s.worker.call = .done
  · rw [State.work]
    cases hworker : s.worker with
    | idle => exact .stay
    | test =>
      refine .test hworker ?_
      split
      · exact .inl rfl
      · exact .inr rfl
    | send => exact .send hworker
    | waiting =>
      dsimp only
      split
      · rename_i completion hwait
        exact .answered hworker hwait
      · exact .stay
    | testAgain timeleft =>
      dsimp only
      by_cases hopened : s.loopcheck.opened
      · rw [if_neg (not_not.2 hopened)]
        cases timeleft with
        | true => exact .alive hworker
        | false => exact .failed hworker
      · rw [if_pos hopened]
        exact .closed hworker hopened
    | queue => exact .queue hworker
    | stop missed call =>
      rw [hworker] at hcall
      obtain rfl : call = .done := hcall
      refine .report hworker ?_
      split
      · exact .inl rfl
      · exact .inr rfl
    | assertInterface call =>
      rw [hworker] at hcall
      obtain rfl : call = .done := hcall
      exact .reset hworker
    | setPower more =>
      dsimp only
      split
      · exact .lock hworker
      · exact .stay
    | notify more call =>
      rw [hworker] at hcall
      obtain rfl : call = .done := hcall
      exact .unlock hworker
    | exit => exact .exit hworker
  · obtain ⟨f, hf, hworker⟩ := exists_calls (T := T) hcall
    rw [hf.work s flagReset _ hcall hworker]
    exact .call hf hworker

/-! ## Waiting for the work item -/

/-- The thread has cleared the open bit. -/
def Call.Stopping : Call → Prop
  | completeAll _ | cancel _ | wait _ _ => True
  | _ => False

/-- Who waits is one of those who stop the check. -/
theorem Call.IsWait.stopping (h : call.IsWait) : call.Stopping := by
  cases call with
  | wait sets last => trivial
  | _ => exact h.elim

theorem Call.isWait_iff : call.IsWait ↔ ∃ sets last, call = .wait sets last := by
  constructor
  · intro h
    cases call with
    | wait sets last => exact ⟨sets, last, rfl⟩
    | _ => exact h.elim
  · rintro ⟨sets, last, rfl⟩
    trivial

/-- What the orderly steps keep of the work item. While a thread waits for it, it is not pending,
    and it does not start. -/
structure WorkInv (s : State T) : Prop where
  single : s.loopcheck.work.Single
  running : s.loopcheck.work.Running ↔ s.worker ≠ .idle
  notStopping : ¬s.worker.call.Stopping
  cancels : ∃ waiters : Finset T,
    waiters.card = s.loopcheck.work.cancels ∧ ∀ t, t ∈ waiters ↔ (s.pc t).IsWait
  waits : ∀ t sets last, s.pc t = .wait sets last →
    ¬s.loopcheck.work.pending ∧ s.loopcheck.work.started = last
  stopped : s.loopcheck.stopped → ¬s.loopcheck.work.pending ∧ ¬s.loopcheck.work.Running

/-- A step keeps the runs of the work, and queues it neither while it is being cancelled nor once
    the check was stopped. -/
structure Keeps (loopcheck loopcheck' : WcnLoopcheck) : Prop where
  started : loopcheck'.work.started = loopcheck.work.started
  finished : loopcheck'.work.finished = loopcheck.work.finished
  cancels : loopcheck'.work.cancels = loopcheck.work.cancels
  pending : loopcheck.work.cancels ≠ 0 → loopcheck'.work.pending = loopcheck.work.pending
  stopped : loopcheck'.stopped →
    loopcheck.stopped ∧ loopcheck'.work.pending = loopcheck.work.pending

/-- A step that is not about the work keeps it. -/
theorem keeps_of_work (hwork : loopcheck'.work = loopcheck.work)
    (hstopped : loopcheck'.stopped → loopcheck.stopped) : Keeps loopcheck loopcheck' :=
  ⟨by rw [hwork], by rw [hwork], by rw [hwork], fun _ => by rw [hwork],
    fun h => ⟨hstopped h, by rw [hwork]⟩⟩

/-- Queueing the work keeps it, unless that is late. -/
theorem keeps_queueWork (hlate : loopcheck.stopped → loopcheck.work.cancels ≠ 0) :
    Keeps loopcheck { loopcheck with work := loopcheck.work.queueWork } := by
  have hpending (h : loopcheck.work.cancels ≠ 0) :
      loopcheck.work.queueWork.pending = loopcheck.work.pending := by
    rw [WorkItem.queueWork, if_neg h]
  exact ⟨WorkItem.queueWork_started, WorkItem.queueWork_finished, WorkItem.queueWork_cancels,
    hpending, fun h => ⟨h, hpending (hlate h)⟩⟩

/-- So does what a thread does in the functions before it cancels the work, unless it is late. -/
theorem keeps_next (hcancel : ¬call.IsCancel) (hwait : ¬call.IsWait)
    (hlate : ¬Late loopcheck call) : Keeps loopcheck (loopcheck.next call).1 := by
  cases call with
  | done => exact keeps_of_work rfl id
  | testAndSet =>
    rw [WcnLoopcheck.next]
    split
    · exact keeps_of_work rfl id
    · exact keeps_of_work rfl nofun
  | reinit => exact keeps_of_work rfl id
  | queue => exact keeps_queueWork fun hstopped hcancels => hlate ⟨rfl, hstopped, hcancels⟩
  | testAndClear =>
    rw [WcnLoopcheck.next]
    split
    · exact keeps_of_work rfl id
    · exact keeps_of_work rfl id
  | completeAll sets => exact keeps_of_work rfl id
  | cancel sets => exact absurd trivial hcancel
  | wait sets last => exact absurd trivial hwait

/-- Nobody waits while the work is not being cancelled. -/
theorem WorkInv.cancels_ne_zero (h : WorkInv s) {t : T} (ht : (s.pc t).IsWait) :
    s.loopcheck.work.cancels ≠ 0 := by
  obtain ⟨waiters, hcard, hmem⟩ := h.cancels
  rw [← hcard]
  exact Finset.card_ne_zero_of_mem ((hmem t).2 ht)

/-- A step that keeps the work, and moves neither into a cancellation nor out of one. -/
theorem WorkInv.keep {powerLock : Option (Option T)} {missed asserted : ℕ} (h : WorkInv s)
    (hkeeps : Keeps s.loopcheck loopcheck) (hidle : worker ≠ .idle ↔ s.worker ≠ .idle)
    (hcall : ¬worker.call.Stopping)
    (hpc : ∀ t sets last, pc t = .wait sets last ↔ s.pc t = .wait sets last) :
    WorkInv ⟨loopcheck, powerLock, worker, pc, missed, asserted⟩ where
  single := by
    rw [WorkItem.Single, hkeeps.started, hkeeps.finished]
    exact h.single
  running := by
    rw [WorkItem.Running, hkeeps.started, hkeeps.finished, hidle]
    exact h.running
  notStopping := hcall
  cancels := by
    obtain ⟨waiters, hcard, hmem⟩ := h.cancels
    refine ⟨waiters, hcard.trans hkeeps.cancels.symm, fun t => (hmem t).trans ?_⟩
    simp only [Call.isWait_iff, hpc]
  waits t sets last ht := by
    have ht := (hpc t sets last).1 ht
    rw [hkeeps.started, hkeeps.pending (h.cancels_ne_zero (by rw [ht]; trivial))]
    exact h.waits t sets last ht
  stopped hstopped := by
    obtain ⟨hstopped, hpending⟩ := hkeeps.stopped hstopped
    rw [WorkItem.Running, hkeeps.started, hkeeps.finished, hpending]
    exact h.stopped hstopped

/-- A step that only moves the function of the work item, from where it is running to where it
    is. -/
theorem WorkInv.move {powerLock : Option (Option T)} {missed asserted : ℕ} (h : WorkInv s)
    (hidle : s.worker ≠ .idle) (hworker : worker ≠ .idle) (hcall : ¬worker.call.Stopping) :
    WorkInv { s with powerLock, worker, missed, asserted } :=
  h.keep (keeps_of_work rfl id) (iff_of_true hworker hidle) hcall fun _ _ _ => Iff.rfl

/-- Who has not cleared the bit goes on before it cancels the work. -/
theorem next_notWait (hcancel : ¬call.IsCancel) (hwait : ¬call.IsWait) :
    ¬(loopcheck.next call).2.IsWait := by
  cases call with
  | testAndSet =>
    rw [WcnLoopcheck.next]
    split
    · exact id
    · exact id
  | testAndClear =>
    rw [WcnLoopcheck.next]
    split
    · exact id
    · exact id
  | cancel sets => exact absurd trivial hcancel
  | wait sets last => exact absurd trivial hwait
  | done => exact id
  | reinit => exact id
  | queue => exact id
  | completeAll sets => exact id

/-- Who does not find the check open does not clear the bit. -/
theorem next_notStopping (hcall : ¬call.Stopping)
    (hopen : ¬(call = .testAndClear ∧ loopcheck.opened)) :
    ¬(loopcheck.next call).2.Stopping := by
  cases call with
  | testAndSet =>
    rw [WcnLoopcheck.next]
    split
    · exact id
    · exact id
  | testAndClear =>
    rw [WcnLoopcheck.next, if_neg fun hopened => hopen ⟨rfl, hopened⟩]
    exact id
  | completeAll sets => exact absurd trivial hcall
  | cancel sets => exact absurd trivial hcall
  | wait sets last => exact absurd trivial hcall
  | done => exact id
  | reinit => exact id
  | queue => exact id

/-- The function of the work item goes on in a function it has called, which does not find the check
    open as it stops it. -/
theorem WorkInv.called {f : Call → Worker} (h : WorkInv s) (hf : Calls T f)
    (hworker : s.worker = f call)
    (hopen : ¬(call = .testAndClear ∧ s.loopcheck.opened)) (hlate : ¬Late s.loopcheck call) :
    WorkInv (s.call call f) := by
  have hcall : ¬call.Stopping := by
    have := h.notStopping
    rwa [hworker, hf.call] at this
  refine h.keep (keeps_next ?_ (fun hwait => hcall hwait.stopping) hlate)
    (iff_of_true (hf.ne_idle _) ?_) ?_ fun _ _ _ => Iff.rfl
  · intro hcancel
    cases call with
    | cancel sets => exact hcall trivial
    | _ => exact hcancel
  · rw [hworker]
    exact hf.ne_idle call
  · rw [hf.call]
    exact next_notStopping hcall hopen

/-- The function of the work item goes on. -/
theorem WorkInv.works (h : WorkInv s) (hworks : Works s s')
    (hopen : ¬(s.worker.call = .testAndClear ∧ s.loopcheck.opened))
    (hlate : ¬Late s.loopcheck s.worker.call) : WorkInv s' := by
  cases hworks with
  | stay => exact h
  | test hworker hgoes =>
    rcases hgoes with rfl | rfl
    · exact h.move (by simp [hworker]) nofun id
    · exact h.move (by simp [hworker]) nofun id
  | send hworker =>
    exact h.keep (keeps_of_work rfl id) (iff_of_true nofun (by simp [hworker])) id
      fun _ _ _ => Iff.rfl
  | answered hworker hwait =>
    exact h.keep (keeps_of_work rfl id) (iff_of_true nofun (by simp [hworker])) id
      fun _ _ _ => Iff.rfl
  | closed hworker hclosed => exact h.move (by simp [hworker]) nofun id
  | alive hworker => exact h.move (by simp [hworker]) nofun id
  | failed hworker => exact h.move (by simp [hworker]) nofun id
  | queue hworker =>
    have hrunning : s.loopcheck.work.Running := h.running.2 (by simp [hworker])
    -- The work item is queued while it runs, so that nobody has stopped the checks.
    refine h.keep (keeps_queueWork fun hstopped => ?_) (iff_of_true nofun (by simp [hworker])) id
      fun _ _ _ => Iff.rfl
    exact absurd hrunning (h.stopped hstopped).2
  | report hworker hgoes =>
    rcases hgoes with rfl | rfl
    · exact h.move (by simp [hworker]) nofun id
    · exact h.move (by simp [hworker]) nofun id
  | reset hworker => exact h.move (by simp [hworker]) nofun id
  | lock hworker => exact h.move (by simp [hworker]) nofun id
  | @unlock more hworker =>
    cases more with
    | zero => exact h.move (by simp [hworker]) nofun id
    | succ more => exact h.move (by simp [hworker]) nofun id
  | exit hworker =>
    have hrunning : s.loopcheck.work.Running := h.running.2 (by simp [hworker])
    exact ⟨h.single.finish hrunning, iff_of_false (WorkItem.not_running_finish h.single)
      (fun hne => hne rfl), id, h.cancels, h.waits,
      fun hstopped => absurd hrunning (h.stopped hstopped).2⟩
  | call hf hworker =>
    rw [hworker, hf.call] at hopen hlate
    exact h.called hf hworker hopen hlate

/-- The work item starts. Nobody waits for it then, and the check was not stopped. -/
theorem WorkInv.start (h : WorkInv s) (hworker : s.worker = .idle)
    (hpending : s.loopcheck.work.pending) :
    WorkInv { s with
      loopcheck := { s.loopcheck with work := s.loopcheck.work.start }, worker := .test } where
  single := h.single.start fun hrun => h.running.1 hrun hworker
  running := iff_of_true (WorkItem.running_start h.single) nofun
  notStopping := id
  cancels := h.cancels
  waits t sets last ht := absurd hpending (h.waits t sets last ht).1
  stopped hstopped := absurd hpending (h.stopped hstopped).1

/-- Nobody has called anything yet. -/
theorem workInv_init : WorkInv (.init : State T) where
  single := WorkItem.single_init
  running := iff_of_false (lt_irrefl 0) fun hne => hne rfl
  notStopping := id
  cancels := ⟨∅, rfl, fun t => iff_of_false (Finset.notMem_empty t) id⟩
  waits t sets last ht := by cases ht
  stopped hstopped := by cases hstopped

/-! ## Waiting for the answer -/

/-- An event that the function of the work item waits for, or has taken, is the answer to the check,
    if this was open all the time. -/
structure Answers (loopcheck : WcnLoopcheck) (worker : Worker) : Prop where
  kept : loopcheck.kept → loopcheck.opened
  waiting : worker = .waiting → loopcheck.missed → loopcheck.completion.done = 0
  taken : worker = .testAgain true → ¬loopcheck.missed

/-- Elsewhere, no event is waited for. -/
theorem answers_of_ne (hkept : loopcheck.kept → loopcheck.opened) (hwaiting : worker ≠ .waiting)
    (htaken : worker ≠ .testAgain true) : Answers loopcheck worker :=
  ⟨hkept, fun h => absurd h hwaiting, fun h => absurd h htaken⟩

/-- A check that was closed was not missed. -/
theorem not_missed (h : ¬loopcheck.kept) : ¬loopcheck.missed := fun hmissed =>
  h (Bool.and_eq_true_iff.1 hmissed).1

/-- An answer that is awaited is one to the last command. -/
theorem missed_completeKernelLoopcheck {command : ℕ}
    (h : (loopcheck.completeKernelLoopcheck command).missed) :
    loopcheck.missed ∧ command ≠ loopcheck.sent := by
  simp only [WcnLoopcheck.missed, WcnLoopcheck.completeKernelLoopcheck, Bool.and_eq_true,
    Bool.not_eq_true', Bool.or_eq_false_iff, decide_eq_false_iff_not] at h ⊢
  exact ⟨⟨h.1, h.2.1⟩, h.2.2⟩

/-- What a thread does does not complete the completion while an answer is awaited. -/
theorem Answers.next (h : Answers loopcheck worker)
    (hall : ¬(call.IsCompleteAll ∧ worker = .waiting ∧ loopcheck.missed)) :
    Answers (loopcheck.next call).1 worker := by
  cases call with
  | testAndSet =>
    rw [WcnLoopcheck.next]
    split
    · exact h
    · exact ⟨fun _ => rfl, h.waiting, h.taken⟩
  | reinit => exact ⟨h.kept, fun _ _ => rfl, h.taken⟩
  | testAndClear =>
    rw [WcnLoopcheck.next]
    split
    · exact ⟨nofun, fun _ hmissed => absurd hmissed (not_missed Bool.false_ne_true),
        fun _ => not_missed Bool.false_ne_true⟩
    · exact h
  | completeAll sets =>
    exact ⟨h.kept, fun hworker hmissed => absurd ⟨trivial, hworker, hmissed⟩ hall, h.taken⟩
  | wait sets last =>
    rw [WcnLoopcheck.next]
    split
    · exact ⟨h.kept, h.waiting, h.taken⟩
    · exact h
  | done => exact h
  | queue => exact ⟨h.kept, h.waiting, h.taken⟩
  | cancel sets => exact ⟨h.kept, h.waiting, h.taken⟩

/-- An answer does not do so either, unless it is the one that is awaited. -/
theorem Answers.answer {command : ℕ} (h : Answers loopcheck worker)
    (hold : ¬(command ≠ loopcheck.sent ∧ worker = .waiting ∧ loopcheck.missed)) :
    Answers (loopcheck.completeKernelLoopcheck command) worker where
  kept := h.kept
  waiting hworker hmissed := by
    obtain ⟨hmissed, hne⟩ := missed_completeKernelLoopcheck hmissed
    exact absurd ⟨hne, hworker, hmissed⟩ hold
  taken hworker hmissed := h.taken hworker (missed_completeKernelLoopcheck hmissed).1

/-- The function of the work item goes on. -/
theorem Answers.works (h : Answers s.loopcheck s.worker) (hworks : Works s s')
    (hsend : ¬(s.worker = .send ∧ s.loopcheck.opened ∧ s.loopcheck.completion.done ≠ 0)) :
    Answers s'.loopcheck s'.worker := by
  cases hworks with
  | stay => exact h
  | test hworker hgoes =>
    rcases hgoes with rfl | rfl
    · exact answers_of_ne h.kept nofun nofun
    · exact answers_of_ne h.kept nofun nofun
  | send hworker =>
    refine ⟨id, fun _ hmissed => ?_, nofun⟩
    -- The check is open as its command is sent, so that no event is left over.
    have hopened : s.loopcheck.opened := (Bool.and_eq_true_iff.1 hmissed).1
    by_contra hdone
    exact hsend ⟨hworker, hopened, hdone⟩
  | answered hworker hwait =>
    -- There is an event, so that the check is not missed.
    refine ⟨h.kept, nofun, fun _ hmissed => ?_⟩
    exact Completion.done_ne_zero_of_wait hwait (h.waiting hworker hmissed)
  | report hworker hgoes =>
    rcases hgoes with rfl | rfl
    · exact answers_of_ne h.kept nofun nofun
    · exact answers_of_ne h.kept nofun nofun
  | @unlock more hworker =>
    cases more with
    | zero => exact answers_of_ne h.kept nofun nofun
    | succ more => exact answers_of_ne h.kept nofun nofun
  | @call f c hf hworker =>
    have hnext : Answers (s.loopcheck.next c).1 s.worker :=
      h.next fun hall => hf.ne_waiting c (hworker.symm.trans hall.2.1)
    exact answers_of_ne hnext.kept (hf.ne_waiting _) (hf.ne_testAgain _ _)
  | closed | alive | failed | queue | reset | lock | exit =>
    exact answers_of_ne h.kept nofun nofun

/-! ## Reports -/

/-- A check without an answer is reported, or on its way. -/
def Reported (s : State T) : Prop := s.missed = s.asserted + s.worker.reports

/-- A step that keeps what was counted, and what is on its way. -/
theorem Reported.keep {powerLock : Option (Option T)} (h : Reported s)
    (hreports : worker.reports = s.worker.reports) :
    Reported ⟨loopcheck, powerLock, worker, pc, s.missed, s.asserted⟩ := by
  rw [Reported, hreports]
  exact h

/-- The function of the work item goes on. A check without an answer is on its way once the bit was
    tested again, as the answer was waited for in vain. -/
theorem Reported.works (h : Reported s) (hanswers : Answers s.loopcheck s.worker)
    (hworks : Works s s') : Reported s' := by
  cases hworks with
  | stay => exact h
  | test hworker hgoes =>
    rcases hgoes with rfl | rfl
    · exact h.keep (by rw [hworker]; rfl)
    · exact h.keep (by rw [hworker]; rfl)
  -- Here a check is judged. It is taken as failed if it has no answer, unless it was closed.
  | closed hworker hclosed =>
    rw [Bool.eq_false_of_not_eq_true (not_missed (hclosed ∘ hanswers.kept))]
    exact h.keep (by rw [hworker]; rfl)
  | alive hworker =>
    rw [Bool.eq_false_of_not_eq_true (hanswers.taken hworker)]
    exact h.keep (by rw [hworker]; rfl)
  | failed hworker =>
    rw [Reported, hworker] at h
    exact congrArg (· + s.loopcheck.missed.toNat) h
  | report hworker hgoes =>
    rw [Reported, hworker] at h
    rcases hgoes with rfl | rfl
    · exact h
    · exact h
  | @unlock more hworker =>
    refine h.keep ?_
    rw [hworker]
    cases more <;> rfl
  | @call f c hf hworker =>
    refine h.keep ((hf.reports _ c).trans ?_)
    rw [← hworker]
  | send hworker | answered hworker | queue hworker | reset hworker | lock hworker | exit hworker =>
    exact h.keep (by rw [hworker]; rfl)

/-- The function of the work item goes on. -/
def Event.isWork : Event T → Bool
  | work _ => true
  | _ => false

/-- How often the function of the work item has to go on until what is on its way is reported. -/
def Worker.toReport : Worker → ℕ
  | stop _ .done => 1
  | stop _ _ => 2
  | _ => 0

theorem Worker.toReport_le (worker : Worker) : worker.toReport ≤ 2 := by
  cases worker with
  | stop missed call =>
    cases call with
    | done => exact Nat.le_succ 1
    | _ => exact le_rfl
  | _ => exact Nat.zero_le 2

/-- The function of the work item stops a check that was not answered by looking at the open bit
    only. -/
def Direct (s : State T) : Prop :=
  ∀ missed call, s.worker = .stop missed call → call = .testAndClear ∨ call = .done

/-- The function does not find the check open, so that it goes on to report. -/
theorem work_of_testAndClear {flagReset missed : Bool}
    (hworker : s.worker = .stop missed .testAndClear) (hG : Orderly s (.work flagReset)) :
    s.work flagReset = { s with worker := .stop missed .done } := by
  have hclosed : ¬s.loopcheck.opened := by
    have := hG.1
    rw [hworker] at this
    exact fun hopened => this ⟨rfl, hopened⟩
  rw [State.work, hworker]
  dsimp only
  rw [State.call, WcnLoopcheck.next, if_neg hclosed]

/-- It reports then. -/
theorem work_of_done {flagReset missed : Bool} (hworker : s.worker = .stop missed .done) :
    s.work flagReset =
      { s with
        worker := if flagReset then .exit else .assertInterface .testAndClear
        asserted := s.asserted + missed.toNat } := by
  rw [State.work, hworker]

/-- Where the function is that has come to stop a check: it was there, or the wait for the answer
    has timed out. -/
theorem stop_of_works {missed : Bool} (hworks : Works s s') (h : s'.worker = .stop missed call) :
    (∃ missed' call', s.worker = .stop missed' call') ∨ call = .testAndClear := by
  cases hworks with
  | stay => exact .inl ⟨missed, call, h⟩
  | failed hworker => exact .inr (Worker.stop.inj h).2.symm
  | report hworker hgoes => exact .inl ⟨_, _, hworker⟩
  | @call f c hf hworker =>
    obtain ⟨missed', call', hstop⟩ := hf.stop _ c missed call h
    exact .inl ⟨missed', call', hworker.trans hstop⟩
  | test hworker hgoes => rcases hgoes with rfl | rfl <;> cases h
  | @unlock more hworker => cases more <;> cases h
  | _ => cases h

/-- What was reported stays reported as the function goes on. -/
theorem asserted_le_works (hworks : Works s s') : s.asserted ≤ s'.asserted := by
  cases hworks with
  | report hworker hgoes => exact Nat.le_add_right _ _
  | _ => exact le_rfl

/-! ## The lock -/

/-- Who holds `power_lock` does not wait for the function of the work item while this is about to
    lock it. -/
def NotBlocked (s : State T) : Prop := s.worker.IsSetPower → ¬s.holder.IsWait

/-- Who holds `power_lock` waits if it is in `cancel_delayed_work_sync`. -/
theorem isWait_holder {t : T} (hlock : s.powerLock = some (some t)) (hwait : (s.pc t).IsWait) :
    s.holder.IsWait := by
  rw [State.holder, hlock]
  exact hwait

/-- The function of the work item goes on. -/
theorem NotBlocked.works (h : NotBlocked s) (hworks : Works s s')
    (hassert : ¬(s.worker = .assertInterface .done ∧ s.holder.IsWait)) : NotBlocked s' := by
  cases hworks with
  | stay => exact h
  | test hworker hgoes => rcases hgoes with rfl | rfl <;> exact False.elim
  | report hworker hgoes => rcases hgoes with rfl | rfl <;> exact False.elim
  | reset hworker => exact fun _ hwait => hassert ⟨hworker, hwait⟩
  -- It has just unlocked it.
  | unlock hworker => exact fun _ => id
  | call hf hworker => exact fun hset => absurd hset (hf.not_isSetPower _)
  | _ => exact False.elim

/-! ## The steps of the threads -/

/-- What every orderly step keeps. -/
structure Inv (s : State T) : Prop where
  work : WorkInv s
  answers : Answers s.loopcheck s.worker
  reported : Reported s
  notBlocked : NotBlocked s

/-- It is sound. -/
theorem Inv.sound (h : Inv s) : Sound s where
  notWaiting hwait := h.work.notStopping hwait.stopping
  notBlocked := h.notBlocked
  reported := h.reported
  stopped := h.work.stopped

/-- Where the function has not come to stop a check, nothing is on its way. -/
theorem Inv.missed_eq (h : Inv s) (hzero : s.worker.toReport = 0) : s.missed = s.asserted := by
  have hreported := h.reported
  rw [Reported] at hreported
  cases hworker : s.worker with
  | stop missed call => rw [hworker] at hzero; cases call <;> cases hzero
  | _ => rw [hworker] at hreported; exact hreported

/-- Nobody has called anything yet. -/
theorem inv_init : Inv (.init : State T) where
  work := workInv_init
  answers := answers_of_ne nofun nofun nofun
  reported := rfl
  notBlocked := False.elim

variable [DecidableEq T] {t : T}

/-- The threads that wait, if one goes on that neither waited nor does. -/
theorem update_eq_wait_iff (hold : ¬(pc t).IsWait) (hnew : ¬call.IsWait) (u : T) (sets last : ℕ) :
    Function.update pc t call u = .wait sets last ↔ pc u = .wait sets last := by
  by_cases hu : u = t
  · rw [hu, Function.update_self]
    refine iff_of_false ?_ ?_
    · rintro rfl
      exact hnew trivial
    · intro heq
      rw [heq] at hold
      exact hold trivial
  · rw [Function.update_of_ne hu]

/-- Who holds `power_lock` after a thread has gone on. -/
theorem isWait_holder_update {powerLock : Option (Option T)} {missed asserted : ℕ}
    (h : (State.holder ⟨loopcheck, powerLock, worker, Function.update pc t call, missed,
      asserted⟩).IsWait) :
    powerLock = some (some t) ∧ call.IsWait ∨
      (State.holder ⟨loopcheck, powerLock, worker, pc, missed, asserted⟩).IsWait := by
  rw [State.holder] at h
  split at h
  · rename_i u hu
    dsimp only at hu h
    by_cases hut : u = t
    · rw [hut, Function.update_self] at h
      exact .inl ⟨hut ▸ hu, h⟩
    · rw [Function.update_of_ne hut] at h
      refine .inr ?_
      rw [State.holder, hu]
      exact h
  · exact h.elim

/-- A thread that calls one of the functions. -/
theorem inv_begin (h : Inv s) (hold : ¬(s.pc t).IsWait) (hnew : ¬call.IsWait) :
    Inv { s with pc := Function.update s.pc t call } where
  work := h.work.keep (keeps_of_work rfl id) Iff.rfl h.work.notStopping
    (update_eq_wait_iff hold hnew)
  answers := h.answers
  reported := h.reported
  notBlocked hset hwait := by
    rcases isWait_holder_update hwait with hwait | hwait
    · exact hnew hwait.2
    · exact h.notBlocked hset hwait

/-- A thread begins to cancel the work. -/
theorem WorkInv.cancel {sets : ℕ} (h : WorkInv s) (ht : s.pc t = .cancel sets) :
    WorkInv { s with
      loopcheck := { s.loopcheck with work := s.loopcheck.work.beginCancel }
      pc := Function.update s.pc t (.wait sets s.loopcheck.work.started) } where
  __ := h
  cancels := by
    obtain ⟨waiters, hcard, hmem⟩ := h.cancels
    -- The thread is one more that waits; it was not one of them.
    have hnot : t ∉ waiters := by
      rw [hmem, ht]
      exact id
    refine ⟨insert t waiters, (Finset.card_insert_of_notMem hnot).trans (congrArg (· + 1) hcard),
      fun u => ?_⟩
    dsimp only
    by_cases hu : u = t
    · rw [hu, Function.update_self]
      exact iff_of_true (Finset.mem_insert_self _ _) trivial
    · rw [Function.update_of_ne hu, Finset.mem_insert, hmem, or_iff_right hu]
  waits u sets' last' hu := by
    dsimp only at hu
    refine ⟨Bool.false_ne_true, ?_⟩
    by_cases hut : u = t
    · rw [hut, Function.update_self] at hu
      exact (Call.wait.inj hu).2
    · rw [Function.update_of_ne hut] at hu
      exact (h.waits u sets' last' hu).2
  stopped hstopped := ⟨Bool.false_ne_true, (h.stopped hstopped).2⟩

/-- A thread has waited for the work. -/
theorem WorkInv.wait {sets last : ℕ} (h : WorkInv s) (ht : s.pc t = .wait sets last)
    (hflushed : s.loopcheck.work.Flushed last) :
    WorkInv { s with
      loopcheck := { s.loopcheck with
        work := s.loopcheck.work.endCancel
        stopped := s.loopcheck.stopped || sets = s.loopcheck.sets }
      pc := Function.update s.pc t .done } where
  __ := h
  cancels := by
    obtain ⟨waiters, hcard, hmem⟩ := h.cancels
    have hin : t ∈ waiters := by
      rw [hmem, ht]
      trivial
    refine ⟨waiters.erase t, (Finset.card_erase_of_mem hin).trans (congrArg (· - 1) hcard),
      fun u => ?_⟩
    dsimp only
    by_cases hu : u = t
    · rw [hu, Function.update_self]
      exact iff_of_false (Finset.notMem_erase _ _) id
    · rw [Function.update_of_ne hu, Finset.mem_erase, hmem, and_iff_right hu]
  waits u sets' last' hu := by
    dsimp only at hu
    by_cases hut : u = t
    · rw [hut, Function.update_self] at hu
      cases hu
    · rw [Function.update_of_ne hut] at hu
      exact h.waits u sets' last' hu
  stopped _ := by
    -- Nothing was queued or has started since the wait began.
    obtain ⟨hpending, hstarted⟩ := h.waits t sets last ht
    exact ⟨hpending, hflushed.not_running hstarted.le⟩

/-- A thread goes on in the function it has called. -/
theorem WorkInv.thread (h : WorkInv s) (hlate : ¬Late s.loopcheck (s.pc t)) :
    WorkInv (s.thread t) := by
  by_cases hwait : (s.pc t).IsWait
  · obtain ⟨sets, last, ht⟩ := Call.isWait_iff.1 hwait
    rw [State.thread, ht, WcnLoopcheck.next]
    by_cases hflushed : s.loopcheck.work.Flushed last
    · rw [if_pos hflushed]
      exact h.wait ht hflushed
    · have hsame : Function.update s.pc t (.wait sets last) = s.pc := by
        rw [← ht, Function.update_eq_self]
      rw [if_neg hflushed]
      dsimp only
      rw [hsame]
      exact h
  · by_cases hcancel : (s.pc t).IsCancel
    · obtain ⟨sets, ht⟩ : ∃ sets, s.pc t = .cancel sets := by
        cases ht : s.pc t with
        | cancel sets => exact ⟨sets, rfl⟩
        | _ => rw [ht] at hcancel; exact hcancel.elim
      rw [State.thread, ht]
      exact h.cancel ht
    · exact h.keep (keeps_next hcancel hwait hlate) Iff.rfl h.notStopping
        (update_eq_wait_iff hwait (next_notWait hcancel hwait))

/-- A thread goes on in the function it has called. It waits only if it did, or was about to. -/
theorem inv_thread (h : Inv s) (hG : Orderly s (.thread t)) : Inv (s.thread t) where
  work := h.work.thread hG.1
  answers := h.answers.next hG.2.1
  reported := h.reported
  notBlocked hset hwait := by
    rcases isWait_holder_update hwait with ⟨hlock, hwait⟩ | hwait
    · by_cases hcancel : (s.pc t).IsCancel
      · exact hG.2.2 ⟨hcancel, hlock, hset⟩
      · refine h.notBlocked hset ?_
        rw [State.holder, hlock]
        by_contra hnot
        exact next_notWait hcancel hnot hwait
    · exact h.notBlocked hset hwait

/-! ## Every run -/

/-- What an orderly step keeps. -/
theorem inv_step (h : Inv s) (hG : Orderly s e) (hstep : watchdog.step s e = some s') : Inv s' := by
  obtain rfl := Option.some.inj hstep
  cases e with
  | startLoopcheck t =>
    rw [State.next]
    split
    · rename_i ht
      exact inv_begin h (ht ▸ id) id
    · exact h
  | stopLoopcheck t =>
    rw [State.next]
    split
    · rename_i ht
      exact inv_begin h (ht ▸ id) id
    · exact h
  | thread t => exact inv_thread h hG
  | lock t =>
    rw [State.next]
    split
    · rename_i hlock
      refine ⟨h.work.keep (keeps_of_work rfl id) Iff.rfl h.work.notStopping fun _ _ _ => Iff.rfl,
        h.answers, h.reported, fun _ hwait => ?_⟩
      -- Who has just locked it does not wait yet.
      rw [State.holder] at hwait
      dsimp only at hwait
      rw [hlock.1] at hwait
      exact hwait
    · exact h
  | unlock t =>
    rw [State.next]
    split
    · exact ⟨h.work.keep (keeps_of_work rfl id) Iff.rfl h.work.notStopping fun _ _ _ => Iff.rfl,
        h.answers, h.reported, fun _ => id⟩
    · exact h
  | answer command =>
    exact ⟨h.work.keep (keeps_of_work rfl id) Iff.rfl h.work.notStopping fun _ _ _ => Iff.rfl,
      h.answers.answer hG, h.reported, h.notBlocked⟩
  | start =>
    rw [State.next]
    split
    · rename_i hstart
      exact ⟨h.work.start hstart.1 hstart.2, answers_of_ne h.answers.kept nofun nofun,
        h.reported.keep (by rw [hstart.1]; rfl), False.elim⟩
    · exact h
  | timeout =>
    rw [State.next]
    split
    · rename_i htimeout
      exact ⟨h.work.move (by simp [htimeout.1]) nofun id, answers_of_ne h.answers.kept nofun nofun,
        h.reported.keep (by rw [htimeout.1]; rfl), False.elim⟩
    · exact h
  | work flagReset =>
    obtain ⟨hopen, hlate, hsend, hassert⟩ := hG
    have hworks := works s flagReset
    exact ⟨h.work.works hworks hopen hlate, h.answers.works hworks hsend,
      h.reported.works h.answers hworks, h.notBlocked.works hworks hassert⟩
  | notify call =>
    rw [State.next]
    split
    · rename_i more hworker
      split
      · rename_i hcall
        refine ⟨h.work.move (by simp [hworker]) nofun ?_, answers_of_ne h.answers.kept nofun nofun,
          h.reported.keep (by rw [hworker]; rfl), False.elim⟩
        rcases hcall with rfl | rfl
        · exact id
        · exact id
      · exact h
    · exact h

/-! ## Steps that are not orderly -/

/-- Queueing the work late makes it pending although the check was stopped. -/
theorem late_pending (hlate : Late loopcheck call) :
    (loopcheck.next call).1.stopped ∧ (loopcheck.next call).1.work.pending := by
  obtain ⟨rfl, hstopped, hcancels⟩ := hlate
  exact ⟨hstopped, WorkItem.queueWork_pending hcancels⟩

/-- If an answer is awaited and there is an event, the function of the work item takes this for the
    answer, and the check is not reported. -/
theorem not_always_of_awaits (hawaits : s.Awaits) (hdone : s.loopcheck.completion.done ≠ 0) :
    ¬watchdog.Always Sound s [.work false, .work false] := by
  intro hsound
  obtain ⟨hworker, hmissed⟩ := hawaits
  obtain ⟨completion, hwait⟩ := Completion.exists_wait hdone
  have hbefore := hsound.1.reported
  have hafter := hsound.2.2.reported
  rw [hworker] at hbefore
  have htake : s.work false =
      { s with
        loopcheck := { s.loopcheck with completion }
        worker := .testAgain true } := by
    rw [State.work, hworker]
    dsimp only
    rw [hwait]
  -- One more check was missed, and none is on its way.
  have hmissed' : ({ s.loopcheck with completion } : WcnLoopcheck).missed = true := hmissed
  simp only [State.next] at hafter
  rw [htake, State.work] at hafter
  dsimp only at hafter
  rw [hmissed'] at hafter
  split at hafter
  · exact Nat.succ_ne_self _ (hafter.trans hbefore.symm)
  · exact Nat.succ_ne_self _ (hafter.trans hbefore.symm)

/-- Once the function of the work item has called `stop_loopcheck` on an open check, it waits for
    itself. -/
theorem not_always_of_opened {flagReset : Bool} (hcall : s.worker.call = .testAndClear)
    (hopened : s.loopcheck.opened) :
    ¬watchdog.Always Sound s [.work flagReset, .work flagReset, .work flagReset] := by
  intro hsound
  have hne : s.worker.call ≠ .done := by
    rw [hcall]
    exact nofun
  obtain ⟨f, hf, hworker⟩ := exists_calls (T := T) hne
  rw [hcall] at hworker
  -- The bit is cleared, the completion completed, and then it waits.
  have hclear : s.work flagReset =
      { s with
        loopcheck := { s.loopcheck with opened := false, kept := false }
        worker := f (.completeAll s.loopcheck.sets) } := by
    rw [hf.work s flagReset .testAndClear nofun hworker, State.call, WcnLoopcheck.next,
      if_pos hopened]
  have hcomplete := hf.work (s.work flagReset) flagReset (.completeAll s.loopcheck.sets) nofun
    (by rw [hclear])
  have hcancel := hf.work ((s.work flagReset).work flagReset) flagReset
    (.cancel s.loopcheck.sets) nofun (by rw [hcomplete]; rfl)
  refine hsound.2.2.2.notWaiting ?_
  simp only [State.next]
  rw [hcancel]
  dsimp only [State.call, WcnLoopcheck.next]
  rw [hf.call]
  trivial

/-- Once a step is not orderly, the run can go on to an unsound state. -/
theorem exists_not_sound (h : ¬Orderly s e) : ∃ fs, ¬watchdog.Always Sound s (e :: fs) := by
  cases e with
  | thread t =>
    rw [Orderly] at h
    by_cases hlate : Late s.loopcheck (s.pc t)
    · refine ⟨[], fun hsound => ?_⟩
      obtain ⟨hstopped, hpending⟩ := late_pending hlate
      exact (hsound.2.stopped hstopped).1 hpending
    by_cases hall : (s.pc t).IsCompleteAll ∧ s.Awaits
    · -- The completion is completed while the answer is awaited.
      obtain ⟨sets, ht⟩ : ∃ sets, s.pc t = .completeAll sets := by
        cases ht : s.pc t with
        | completeAll sets => exact ⟨sets, rfl⟩
        | _ => rw [ht] at hall; exact hall.1.elim
      have hthread : s.next (.thread t) =
          { s with
            loopcheck := { s.loopcheck with completion := .completeAll }
            pc := Function.update s.pc t (.cancel sets) } := by
        rw [State.next, State.thread, ht]
        rfl
      refine ⟨[.work false, .work false], fun hsound => ?_⟩
      refine not_always_of_awaits (s := s.next (.thread t)) ?_ ?_ hsound.2
      · rw [hthread]
        exact hall.2
      · rw [hthread]
        exact Nat.succ_ne_zero _
    · -- The thread waits, and the function of the work item waits for the lock.
      obtain ⟨hcancel, hlock, hset⟩ :
          (s.pc t).IsCancel ∧ s.powerLock = some (some t) ∧ s.worker.IsSetPower := by
        by_contra hset
        exact h ⟨hlate, hall, hset⟩
      refine ⟨[], fun hsound => hsound.2.notBlocked hset (isWait_holder hlock ?_)⟩
      rw [State.next, State.thread]
      dsimp only
      rw [Function.update_self]
      cases ht : s.pc t with
      | cancel sets => trivial
      | _ => rw [ht] at hcancel; exact hcancel.elim
  | answer command =>
    -- The answer to another command is taken for the one that is awaited.
    obtain ⟨hne, hworker, hmissed⟩ := not_not.1 h
    refine ⟨[.work false, .work false], fun hsound => ?_⟩
    refine not_always_of_awaits (s := s.next (.answer command)) ⟨hworker, ?_⟩ ?_ hsound.2
    · rw [State.next, WcnLoopcheck.missed, WcnLoopcheck.completeKernelLoopcheck]
      dsimp only
      rw [decide_eq_false hne, Bool.or_false]
      exact hmissed
    · exact Completion.complete_done_ne_zero
  | work flagReset =>
    rw [Orderly] at h
    by_cases hopen : s.worker.call = .testAndClear ∧ s.loopcheck.opened
    · exact ⟨_, not_always_of_opened hopen.1 hopen.2⟩
    by_cases hlate : Late s.loopcheck s.worker.call
    · have hcall : s.worker.call ≠ .done := by
        rw [hlate.1]
        exact nofun
      obtain ⟨f, hf, hworker⟩ := exists_calls (T := T) hcall
      refine ⟨[], fun hsound => ?_⟩
      have hstopped := hsound.2.stopped
      simp only [State.next] at hstopped
      rw [hf.work s flagReset _ hcall hworker] at hstopped
      obtain ⟨hs, hpending⟩ := late_pending hlate
      exact (hstopped hs).1 hpending
    by_cases hsend : s.worker = .send ∧ s.loopcheck.opened ∧ s.loopcheck.completion.done ≠ 0
    · -- The event that is left over is taken for the answer.
      obtain ⟨hworker, hopened, hdone⟩ := hsend
      have hnext : s.next (.work flagReset) =
          { s with loopcheck := s.loopcheck.atCmdSend, worker := .waiting } := by
        rw [State.next, State.work, hworker]
      refine ⟨[.work false, .work false], fun hsound => ?_⟩
      refine not_always_of_awaits (s := s.next (.work flagReset)) ?_ ?_ hsound.2
      · rw [hnext]
        refine ⟨rfl, ?_⟩
        rw [WcnLoopcheck.missed, WcnLoopcheck.atCmdSend]
        dsimp only
        rw [hopened]
        rfl
      · rw [hnext]
        exact hdone
    · -- The function of the work item waits for the lock, and who holds it for the function.
      obtain ⟨hworker, hwait⟩ : s.worker = .assertInterface .done ∧ s.holder.IsWait := by
        by_contra hassert
        exact h ⟨hopen, hlate, hsend, hassert⟩
      have hnext : s.next (.work flagReset) = { s with worker := .setPower 1 } := by
        rw [State.next, State.work, hworker]
      refine ⟨[], fun hsound => ?_⟩
      have hnotBlocked := hsound.2.notBlocked
      rw [hnext] at hnotBlocked
      exact hnotBlocked trivial hwait
  | _ => exact absurd trivial h

/-! ## Every check without an answer is reported -/

/-- A step other than one of the function itself leaves it where it reports. -/
theorem next_of_stop {missed : Bool} (hworker : s.worker = .stop missed call) (he : ¬e.isWork) :
    (s.next e).worker = .stop missed call ∧ (s.next e).missed = s.missed := by
  cases e with
  | work flagReset => exact absurd rfl he
  | thread t => exact ⟨hworker, rfl⟩
  | answer command => exact ⟨hworker, rfl⟩
  | start =>
    rw [State.next, if_neg fun h => by simp [hworker] at h]
    exact ⟨hworker, rfl⟩
  | timeout =>
    rw [State.next, if_neg fun h => by simp [hworker] at h]
    exact ⟨hworker, rfl⟩
  | notify call' =>
    rw [State.next, hworker]
    exact ⟨hworker, rfl⟩
  | _ =>
    rw [State.next]
    split
    · exact ⟨hworker, rfl⟩
    · exact ⟨hworker, rfl⟩

/-- It does not come there by another step. -/
theorem stop_of_next {missed : Bool} (he : ¬e.isWork) (h : (s.next e).worker = .stop missed call) :
    s.worker = .stop missed call := by
  cases e with
  | work flagReset => exact absurd rfl he
  | thread t => exact h
  | answer command => exact h
  | start =>
    rw [State.next] at h
    split at h
    · cases h
    · exact h
  | timeout =>
    rw [State.next] at h
    split at h
    · cases h
    · exact h
  | notify call' =>
    rw [State.next] at h
    split at h
    · split at h
      · cases h
      · exact h
    · exact h
  | _ =>
    rw [State.next] at h
    split at h <;> exact h

/-- The function stops a check that was not answered by looking at the open bit only. -/
theorem direct_step (h : Direct s) (hG : Orderly s e) : Direct (s.next e) := by
  intro missed call hcall
  by_cases he : e.isWork
  · cases e with
    | work flagReset =>
      rcases stop_of_works (works s flagReset) hcall with ⟨missed', call', hworker⟩ | rfl
      · rcases h missed' call' hworker with rfl | rfl
        · rw [State.next, work_of_testAndClear hworker hG] at hcall
          exact .inr (Worker.stop.inj hcall).2.symm
        · rw [State.next, work_of_done hworker] at hcall
          dsimp only at hcall
          split at hcall <;> cases hcall
      · exact .inl rfl
    | _ => exact absurd he Bool.false_ne_true
  · exact h missed call (stop_of_next he hcall)

/-- What was reported stays reported. -/
theorem asserted_le_next : s.asserted ≤ (s.next e).asserted := by
  cases e with
  | work flagReset => exact asserted_le_works (works s flagReset)
  | thread t => exact le_rfl
  | answer command => exact le_rfl
  | notify call =>
    rw [State.next]
    split
    · split <;> exact le_rfl
    · exact le_rfl
  | _ => rw [State.next]; split <;> exact le_rfl

/-- What was reported stays reported, whatever happens. -/
theorem asserted_le_run (hrun : watchdog.run s es = some s') : s.asserted ≤ s'.asserted := by
  refine Machine.invariant_of_step (I := fun t => s.asserted ≤ t.asserted) ?_ le_rfl hrun
  intro t e t' ht hstep
  exact Option.some.inj hstep ▸ ht.trans asserted_le_next

/-- A check without an answer is reported once the function has gone on as often as it takes. -/
theorem missed_le_asserted (h : Inv s) (hdirect : Direct s) (hG : watchdog.Along Orderly s es)
    (hcount : s.worker.toReport ≤ es.countP Event.isWork) (hrun : watchdog.run s es = some s') :
    s.missed ≤ s'.asserted := by
  -- Nothing is left to report, or the function is where it reports.
  by_cases hzero : s.worker.toReport = 0
  · rw [h.missed_eq hzero]
    exact asserted_le_run hrun
  induction es generalizing s with
  | nil => exact absurd (Nat.le_zero.1 hcount) hzero
  | cons e es ih =>
    have hstep : watchdog.step s e = some (s.next e) := rfl
    rw [Machine.along_cons hstep] at hG
    rw [Machine.run_cons hstep] at hrun
    have hinv := inv_step h hG.1 hstep
    have hdirect' := direct_step hdirect hG.1
    obtain ⟨missed, call, hworker⟩ : ∃ missed call, s.worker = .stop missed call := by
      cases hworker : s.worker with
      | stop missed call => exact ⟨missed, call, rfl⟩
      | _ => rw [hworker] at hzero; exact absurd rfl hzero
    -- A step of the function brings it nearer to the report; another one leaves it there.
    by_cases he : e.isWork
    · cases e with
      | work flagReset =>
        rcases hdirect missed call hworker with rfl | rfl
        · -- It has looked at the bit, and is to report.
          have hnext : s.next (.work flagReset) = { s with worker := .stop missed .done } :=
            work_of_testAndClear hworker hG.1
          rw [hworker, List.countP_cons_of_pos rfl] at hcount
          rw [hnext] at hinv hdirect' hG hrun
          have hle := ih hinv hdirect' hG.2 (Nat.le_of_succ_le_succ hcount) hrun Nat.one_ne_zero
          exact hle
        · -- It reports.
          have hreported := h.reported
          rw [Reported, hworker] at hreported
          have hle := asserted_le_run hrun
          rw [State.next, work_of_done hworker] at hle
          exact hreported.trans_le hle
      | _ => exact absurd he Bool.false_ne_true
    · obtain ⟨hworker', hmissed⟩ := next_of_stop hworker he
      rw [List.countP_cons_of_neg he, hworker, ← hworker'] at hcount
      rw [hworker, ← hworker'] at hzero
      rw [← hmissed]
      exact ih hinv hdirect' hG.2 hcount hrun hzero

/-- **The watchdog can always report**: if all steps of a run are orderly, the function of the work
    item never waits for itself, neither at once nor through `power_lock`, every check that was open
    all the time and not answered is reported once the function has gone on twice, and a check that
    was stopped stays stopped. As soon as a step is not orderly, the run can go on to a state where
    this is lost. -/
theorem watchdog_sound :
    (∀ es, watchdog.Along Orderly (.init : State T) es → watchdog.Always Sound .init es) ∧
      (∀ es fs (s s' : State T), watchdog.run .init es = some s → watchdog.run s fs = some s' →
        watchdog.Along Orderly .init (es ++ fs) → 2 ≤ fs.countP Event.isWork →
          s.missed ≤ s'.asserted) ∧
      ∀ es e (s : State T), watchdog.run .init es = some s → ¬Orderly s e →
        ∃ fs, ¬watchdog.Always Sound .init (es ++ e :: fs) := by
  refine ⟨fun es hG => ?_, fun es fs s s' hes hfs hG hcount => ?_, fun es e s hes he => ?_⟩
  · exact (Machine.always_of_along (fun _ _ _ => inv_step) inv_init hG).imp fun _ => Inv.sound
  · obtain ⟨hG, hG'⟩ := (Machine.along_append_iff hes).1 hG
    have hinv := Machine.invariant (fun _ _ _ => inv_step) inv_init hG hes
    have hdirect : Direct s := by
      refine Machine.invariant (fun t e t' ht hG hstep => ?_) (fun missed call h => by cases h) hG
        hes
      exact Option.some.inj hstep ▸ direct_step ht hG
    refine missed_le_asserted hinv hdirect hG' (le_trans ?_ hcount) hfs
    exact s.worker.toReport_le
  · obtain ⟨fs, hfs⟩ := exists_not_sound he
    exact ⟨fs, fun h => hfs (h.of_append hes)⟩

/-- A check without an answer: a thread opens it as it powers on a subsystem, the command is sent,
    and the wait times out. -/
def failing : List (Event Bool) :=
  [.lock false, .startLoopcheck false, .thread false, .thread false, .thread false, .unlock false,
    .start, .work false, .work false, .timeout, .work false]

/-- Another thread closes it, without the lock. The function reports the check, and powers off both
    subsystems, and the thread returns. -/
def closed : List (Event Bool) :=
  [.stopLoopcheck true, .thread true, .work false, .work false, .thread true, .thread true] ++
    List.replicate 7 (.work false) ++ [.work false, .thread true]

/-- If a thread closes a check that was not answered before the function does, this reports the
    check. It need not do so if it is the first. -/
theorem watchdog_sound_failing :
    ∃ s s' : State Bool, watchdog.run .init failing = some s ∧
      watchdog.run s closed = some s' ∧ watchdog.Always Sound .init (failing ++ closed) ∧
      s.missed = 1 ∧ s.missed ≤ s'.asserted ∧
      (s'.worker = .idle ∧ s'.pc true = .done ∧ s'.loopcheck.stopped) ∧
      ∃ fs, ¬watchdog.Always Sound (.init : State Bool) (failing ++ .work false :: fs) :=
  ⟨_, _, rfl, rfl, watchdog_sound.1 _ (by decide), rfl,
    watchdog_sound.2.1 failing closed _ _ rfl rfl (by decide) (by decide), by decide,
    watchdog_sound.2.2 _ _ _ rfl (by decide)⟩

/-- If nobody else closes the check, the function does, and waits for itself. -/
theorem not_watchdog_sound :
    ¬watchdog.Always Sound (.init : State Bool)
      (failing ++ [.work false, .work false, .work false]) :=
  fun h => (h.last rfl).notWaiting trivial

/-- What the other conditions are for: a thread that has closed the check is overtaken by one that
    opens it again, and completes the completion only then. From then on no check is answered, and
    the function does not notice. -/
example : ∃ s, watchdog.run (.init : State Bool) (
    [.startLoopcheck false, .thread false, .thread false, .thread false, .stopLoopcheck true,
      .thread true, .startLoopcheck false, .thread false, .thread false, .thread true, .thread true,
      .thread true, .thread false] ++
      (List.replicate 3 (.start :: List.replicate 6 (.work false))).flatten) = some s ∧
    s.missed = 3 ∧ s.asserted = 0 ∧ s.loopcheck.opened ∧ s.loopcheck.sent = 3 :=
  Machine.exists_run (by decide)

/-- And a thread that closes it with `power_lock` held waits for the function of the work item as
    this comes to power off the subsystems. -/
example : ∃ s, watchdog.run .init (
    failing ++ [.lock true, .stopLoopcheck true, .thread true, .thread true, .thread true] ++
      List.replicate 9 (.work false)) = some s ∧
    s.asserted = 1 ∧ s.worker = .setPower 1 ∧ s.holder = .wait 1 1 :=
  Machine.exists_run (by decide)

end W132d.Loopcheck
