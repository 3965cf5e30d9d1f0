import Mathlib.Tactic

/-!
# Mutexes

A *mutex* has at most one owner. Every thread is somewhere in its code, and in parts of it has the
mutex, which it takes as it enters such a part while nobody has it, and gives back as it leaves.

* `Locks`: what a step of one thread does to the mutex;
* `Locked`: who is where the mutex is needed has it;
* `Locked.update`: every step keeps this, so that the mutex excludes (`Locked.eq`).
-/

namespace W132d.Mutex

variable {T Pc : Type*} {HasLock : Pc → Prop} {t u : T} {pc pc' : Pc} {pcs : T → Pc}
  {lock lock' : Option T}

/-- A step of `t` from `pc` to `pc'` takes the mutex only if nobody has it, and gives it back only
    if `t` has it; and `t` then has it only if it took it or had it before. -/
structure Locks (HasLock : Pc → Prop) (t : T) (pc pc' : Pc) (lock lock' : Option T) : Prop where
  kept : lock' = lock ∨ lock = none ∨ HasLock pc
  has : HasLock pc' → lock' = some t ∨ HasLock pc ∧ lock' = lock

/-- Who is where the mutex is needed has it. -/
def Locked (HasLock : Pc → Prop) (pcs : T → Pc) (lock : Option T) : Prop :=
  ∀ t, HasLock (pcs t) → lock = some t

/-- A step that leaves the mutex alone. -/
theorem locks_keep (h : HasLock pc' → HasLock pc) : Locks HasLock t pc pc' lock lock :=
  ⟨.inl rfl, fun h' => .inr ⟨h h', rfl⟩⟩

/-- A step that takes it. -/
theorem locks_take (h : lock = none) : Locks HasLock t pc pc' lock (some t) :=
  ⟨.inr (.inl h), fun _ => .inl rfl⟩

/-- A step that gives it back. -/
theorem locks_release (h : HasLock pc) (h' : ¬HasLock pc') : Locks HasLock t pc pc' lock none :=
  ⟨.inr (.inr h), fun hpc' => absurd hpc' h'⟩

/-- The mutex excludes. -/
theorem Locked.eq (h : Locked HasLock pcs lock) (ht : HasLock (pcs t)) (hu : HasLock (pcs u)) :
    t = u :=
  Option.some.inj ((h t ht).symm.trans (h u hu))

variable [DecidableEq T]

/-- A step of one thread keeps who has the mutex. -/
theorem Locked.update (h : Locked HasLock pcs lock)
    (hstep : Locks HasLock t (pcs t) pc' lock lock') :
    Locked HasLock (Function.update pcs t pc') lock' := by
  intro u hu
  by_cases hut : u = t
  · subst hut
    rw [Function.update_self] at hu
    rcases hstep.has hu with hnew | ⟨hold, hsame⟩
    · exact hnew
    · exact hsame.trans (h u hold)
  · rw [Function.update_of_ne hut] at hu
    have hlock := h u hu
    rcases hstep.kept with hsame | hnone | hpc
    · exact hsame.trans hlock
    · exact absurd (hnone.symm.trans hlock) nofun
    · exact absurd (h.eq hu hpc) hut

end W132d.Mutex
