import Mathlib.Tactic

/-!
# Completions

A *completion* counts the events that nobody has waited for yet. Who waits goes on as soon as there
is one, and takes it; if there is none, it waits, maybe for a limited time. A completion that was
completed for all lets everybody go on, until it is initialized again.

* `Completion`: the count, which stays at its maximum once it is there;
* `complete`, `completeAll`, `reinit`: what is done to it;
* `wait`: who waits goes on, if it may;
* `recordComplete`, `recordWait`: a record of the events that are counted, the oldest one first.
-/

namespace W132d

/-- A completion. -/
structure Completion where
  done : ℕ
  deriving DecidableEq

namespace Completion

/-- `UINT_MAX`, the count of a completion that was completed for all. -/
def uintMax : ℕ := 2 ^ 32 - 1

/-- A completion without events. -/
def reinit : Completion := ⟨0⟩

variable (c : Completion)

/-- An event. -/
def complete : Completion := if c.done = uintMax then c else ⟨c.done + 1⟩

/-- An event for everybody, from now on. -/
def completeAll : Completion := ⟨uintMax⟩

/-- Who waits goes on, if there is an event, which it takes. -/
def wait : Option Completion :=
  if c.done = 0 then none else if c.done = uintMax then some c else some ⟨c.done - 1⟩

variable {α : Type*} (events : List α)

/-- The record of the events, after another one. -/
def recordComplete (a : α) : List α := if c.done = uintMax then events else events ++ [a]

/-- The record of the events, after the oldest one was taken. -/
def recordWait : List α := if c.done = uintMax then events else events.tail

variable {c} {c' : Completion} {events}

/-- Who waits goes on exactly if there is an event. -/
theorem wait_eq_none_iff : c.wait = none ↔ c.done = 0 := by
  rw [wait]
  split
  · exact iff_of_true rfl ‹_›
  · split
    · exact iff_of_false nofun ‹_›
    · exact iff_of_false nofun ‹_›

/-- There was one if it has gone on, -/
theorem done_ne_zero_of_wait (h : c.wait = some c') : c.done ≠ 0 := fun hzero =>
  Option.some_ne_none c' (h.symm.trans (wait_eq_none_iff.2 hzero))

/-- and it goes on if there is one. -/
theorem exists_wait (h : c.done ≠ 0) : ∃ c', c.wait = some c' :=
  Option.ne_none_iff_exists'.1 fun hnone => h (wait_eq_none_iff.1 hnone)

/-- An event lets who waits go on. -/
theorem complete_done_ne_zero : c.complete.done ≠ 0 := by
  rw [complete]
  split
  · rename_i h
    rw [h]
    decide
  · exact Nat.succ_ne_zero _

/-- The record has the events that are counted. -/
theorem length_recordComplete {a : α} (h : events.length = c.done) :
    (c.recordComplete events a).length = c.complete.done := by
  rw [recordComplete, complete]
  split
  · exact h
  · rw [List.length_append, h, List.length_singleton]

/-- It still has after a wait. -/
theorem length_recordWait (h : events.length = c.done) (hwait : c.wait = some c') :
    (c.recordWait events).length = c'.done := by
  rw [wait] at hwait
  rw [recordWait]
  split at hwait
  · cases hwait
  · split at hwait
    · rename_i hmax
      cases hwait
      rw [if_pos hmax, h]
    · rename_i hmax
      cases hwait
      rw [if_neg hmax, List.length_tail, h]

/-- The events of the record after another one. -/
theorem mem_recordComplete {a b : α} (h : b ∈ c.recordComplete events a) : b ∈ events ∨ b = a := by
  rw [recordComplete] at h
  split at h
  · exact .inl h
  · exact (List.mem_append.1 h).imp_right List.mem_singleton.1

/-- A wait adds no event. -/
theorem mem_of_mem_recordWait {b : α} (h : b ∈ c.recordWait events) : b ∈ events := by
  rw [recordWait] at h
  split at h
  · exact h
  · exact List.mem_of_mem_tail h

end Completion

end W132d
