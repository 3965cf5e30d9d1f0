import Mathlib.Tactic

/-!
# Work items

A *work item* is a function that a kernel thread runs some time after it was queued. It is queued
at most once at a time (it is then *pending*), and it does not run twice at the same time; it is no
longer pending once its function has started, so that it may be queued again from then on.

* `WorkItem`: the item, with how often its function has started and returned;
* `queueWork`, `start`, `finish`: it is queued, started, and returns;
* `last`: the last run that was queued, for which a flush waits, `Flushed` then;
* `beginCancel`, `endCancel`: a synchronous cancellation takes it off the queue, and keeps it off
  until the last run that has started has returned;
* `Flushed.not_running`: a flush, or a cancellation, leaves no run that had started.
-/

namespace W132d

/-- A work item. `cancels` counts the cancellations that have not returned. -/
structure WorkItem where
  pending : Bool
  started : ℕ
  finished : ℕ
  cancels : ℕ
  deriving DecidableEq

namespace WorkItem

/-- An item that was never queued. -/
def init : WorkItem := ⟨false, 0, 0, 0⟩

variable (w : WorkItem) {run : ℕ}

/-- The function of the item is running. -/
def Running : Prop := w.finished < w.started

instance : Decidable w.Running := inferInstanceAs (Decidable (_ < _))

/-- The item is queued, unless it is pending already or being cancelled. -/
def queueWork : WorkItem := if w.cancels = 0 then { w with pending := true } else w

/-- The function of the item starts. -/
def start : WorkItem := { w with pending := false, started := w.started + 1 }

/-- It returns. -/
def finish : WorkItem := { w with finished := w.finished + 1 }

/-- The last run that was queued: the one to come, or else the last one that has started. -/
def last : ℕ := if w.pending then w.started + 1 else w.started

/-- The first `run` runs have returned. -/
def Flushed (run : ℕ) : Prop := run ≤ w.finished

instance : Decidable (w.Flushed run) := inferInstanceAs (Decidable (_ ≤ _))

/-- A synchronous cancellation begins. It has to wait for the last run that has started. -/
def beginCancel : WorkItem := { w with pending := false, cancels := w.cancels + 1 }

/-- It ends. -/
def endCancel : WorkItem := { w with cancels := w.cancels - 1 }

/-- The item runs at most once at a time. -/
def Single : Prop := w.finished ≤ w.started ∧ w.started ≤ w.finished + 1

variable {w}

theorem single_init : init.Single := ⟨le_rfl, Nat.zero_le 1⟩

@[simp] theorem queueWork_started : w.queueWork.started = w.started := by
  rw [queueWork]
  split <;> rfl

@[simp] theorem queueWork_finished : w.queueWork.finished = w.finished := by
  rw [queueWork]
  split <;> rfl

@[simp] theorem queueWork_cancels : w.queueWork.cancels = w.cancels := by
  rw [queueWork]
  split <;> rfl

/-- An item that is not being cancelled is pending once it was queued. -/
theorem queueWork_pending (h : w.cancels = 0) : w.queueWork.pending := by
  rw [queueWork, if_pos h]

@[simp] theorem running_queueWork : w.queueWork.Running ↔ w.Running := by
  rw [Running, Running, queueWork_started, queueWork_finished]

theorem Single.queueWork (h : w.Single) : w.queueWork.Single := by
  rwa [Single, queueWork_started, queueWork_finished]

theorem Single.start (h : w.Single) (hrun : ¬w.Running) : w.start.Single :=
  ⟨Nat.le_succ_of_le h.1, Nat.succ_le_succ (not_lt.1 hrun)⟩

theorem Single.finish (h : w.Single) (hrun : w.Running) : w.finish.Single :=
  ⟨hrun, Nat.le_succ_of_le h.2⟩

/-- An item that has started is running. -/
theorem running_start (h : w.Single) : w.start.Running := Nat.lt_succ_of_le h.1

/-- One that has returned is not. -/
theorem not_running_finish (h : w.Single) : ¬w.finish.Running := not_lt.2 h.2

/-- What has started is what a flush waits for, or before it. -/
theorem started_le_last : w.started ≤ w.last := by
  rw [last]
  split
  · exact Nat.le_succ _
  · exact le_rfl

/-- Once the runs that had started have returned, none of them is running. -/
theorem Flushed.not_running (h : w.Flushed run) (hle : w.started ≤ run) : ¬w.Running :=
  not_lt.2 (hle.trans h)

end WorkItem

end W132d
