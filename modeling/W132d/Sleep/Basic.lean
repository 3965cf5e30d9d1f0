import W132d.Machine

/-!
# Sleep of the chip

The chip may sleep when no part of the driver uses its bus. Every use has a subsystem: before it, a
thread wakes the chip up for the subsystem (`sdiohal_cp_tx_wakeup` or `sdiohal_cp_rx_wakeup`), and
after it, the thread lets it sleep again (`sdiohal_cp_tx_sleep`, `sdiohal_cp_rx_sleep`). The users
of a subsystem are counted, and the last one clears its bit in `active_module` (`slp_mgr`). When
all bits are clear, the chip is put to sleep.

* `SlpMgr`: the bits and the state of the chip, each changed under a lock of its own;
* `Func`: the functions that use the bus, as the calls they make. `sdiohal_readl` may let the chip
  sleep without having woken it up;
* `bus`: any number of threads, one operation on a counter or one section under a lock at a time;
* `Awake`: the chip is awake, and the bit is set, for every thread that uses the bus;
* `Undisturbed`: a thread does not clear the bit of a subsystem that another one has begun to use;
* `awake_of_undisturbed`: then the chip is awake for its users; `not_awake`: it may not be
  otherwise.

When the bit of a subsystem in use is cleared is in `W132d.Sleep.Count`.
-/

namespace W132d.Sleep

/-- `enum slp_subsys`. -/
inductive SlpSubsys
  | packerTx
  | packerRx
  | packerDtTx
  | packerDtRx
  | dtWritel
  | dtReadl
  | dtWrite
  | dtRead
  | wifi
  | download
  | dbgTool
  deriving DecidableEq, Repr

/-- The values of `cp2_state`. -/
inductive Cp2State
  | stayAwaking
  | staySlping
  deriving DecidableEq, Repr

/-! ## The sleep manager -/

/-- `struct slp_mgr_t`, with the subsystems whose bit is set in `active_module`. -/
structure SlpMgr where
  activeModule : Finset SlpSubsys
  cp2State : Cp2State
  deriving DecidableEq

/-- After `slp_mgr_init`. -/
def SlpMgr.init : SlpMgr where
  activeModule := ∅
  cp2State := .stayAwaking

namespace SlpMgr

variable (m : SlpMgr)

/-- `slp_mgr_drv_sleep`; `wakeHostEn` is what `marlin_get_bt_wl_wake_host_en` returns. Otherwise,
    the first subsystems, those of the packets, leave it to the interrupt of the chip to put it to
    sleep. -/
def drvSleep (wakeHostEn : Bool) (subsys : SlpSubsys) (enable : Bool) : SlpMgr :=
  let m :=
    { m with
      activeModule := if enable then m.activeModule.erase subsys else insert subsys m.activeModule }
  if m.activeModule = ∅ then
    if wakeHostEn then { m with cp2State := .staySlping }
    else if SlpSubsys.packerDtRx.ctorIdx < subsys.ctorIdx then { m with cp2State := .staySlping }
    else m
  else m

/-- `slp_mgr_wakeup`, and what it returns: whether the chip answers in time is not seen in its
    state. -/
def wakeup (ok : Bool) : SlpMgr × ℤ :=
  match m.cp2State with
  | .staySlping => ({ m with cp2State := .stayAwaking }, if ok then 0 else -1)
  | .stayAwaking => (m, 0)

/-- `req_slp_isr`, the interrupt. -/
def reqSlpIsr : SlpMgr :=
  if m.activeModule = ∅ then { m with cp2State := .staySlping } else m

end SlpMgr

/-! ## The functions that use the bus -/

/-- The direction of a use. -/
inductive Dir
  | tx
  | rx
  deriving DecidableEq, Repr

/-- The counter of a use: `tx_wake_cp_count[subsys]` or `rx_wake_cp_count[subsys]`. -/
structure Counter where
  dir : Dir
  subsys : SlpSubsys
  deriving DecidableEq, Repr

/-- The calls that wake the chip up (`sdiohal_cp_tx_wakeup`, `sdiohal_cp_rx_wakeup`) and let it
    sleep (`sdiohal_cp_tx_sleep`, `sdiohal_cp_rx_sleep`). -/
inductive Call
  | wakeup (c : Counter)
  | sleep (c : Counter)
  deriving DecidableEq, Repr

/-- Where a function that accesses a register returns. -/
inductive Exit
  /-- There is no card, or an access has failed before. -/
  | early
  /-- The address cannot be set. -/
  | setAddr
  | done
  deriving DecidableEq, Repr

/-- The calls of an access to registers. -/
def regAccess (c : Counter) : Exit → List Call
  | .early => []
  | .setAddr => [.wakeup c, .sleep c]
  | .done => [.wakeup c, .sleep c]

/-- `sdiohal_writel`. -/
def sdiohalWritel : Exit → List Call := regAccess ⟨.tx, .dtWritel⟩

/-- `sdiohal_dt_write`. -/
def sdiohalDtWrite : Exit → List Call := regAccess ⟨.tx, .dtWrite⟩

/-- `sdiohal_dt_read`. -/
def sdiohalDtRead : Exit → List Call := regAccess ⟨.rx, .dtRead⟩

/-- `sdiohal_readl`, which does not wake the chip up for some addresses (`IS_BYPASS_WAKE`, and
    those of the chip id). -/
def sdiohalReadl (bypassWake : Bool) : Exit → List Call
  | .early => []
  | .setAddr =>
    -- Before this exit, the address is not looked at.
    (if bypassWake then [] else [.wakeup ⟨.rx, .dtReadl⟩]) ++ [.sleep ⟨.rx, .dtReadl⟩]
  | .done => if bypassWake then [] else [.wakeup ⟨.rx, .dtReadl⟩, .sleep ⟨.rx, .dtReadl⟩]

/-- The functions that use the bus: the accesses to registers, and all others, which wake the chip
    up and let it sleep for some subsystem. -/
inductive Func
  | packets (c : Counter)
  | writel (exit : Exit)
  | readl (bypassWake : Bool) (exit : Exit)
  | dtWrite (exit : Exit)
  | dtRead (exit : Exit)
  deriving DecidableEq, Repr

/-- The calls of a function. -/
def Func.calls : Func → List Call
  | packets c => [.wakeup c, .sleep c]
  | writel exit => sdiohalWritel exit
  | readl bypassWake exit => sdiohalReadl bypassWake exit
  | dtWrite exit => sdiohalDtWrite exit
  | dtRead exit => sdiohalDtRead exit

/-! ## The threads -/

/-- The places in the calls of a counter. -/
inductive Place
  /-- Counted, before `slp_mgr_drv_sleep(subsys, false)`. -/
  | added
  /-- Before `slp_mgr_wakeup`. -/
  | marked
  /-- Awake, between the two calls. -/
  | awake
  /-- In `sdiohal_atomic_sub`, before `atomic_read`. -/
  | leaving
  /-- Before `atomic_sub`. -/
  | subtract
  /-- Before the `atomic_read` that follows. -/
  | left
  /-- The counter was zero, before `slp_mgr_drv_sleep(subsys, true)`. -/
  | last
  deriving DecidableEq, Repr

/-- Where a thread is. -/
inductive Pc
  | out
  | within (c : Counter) (p : Place)
  deriving DecidableEq, Repr

/-- A thread, with the calls that are left of its function. -/
structure Thread where
  pc : Pc
  calls : List Call
  deriving DecidableEq, Repr

/-- The thread has begun to use the subsystem: it has set the bit, and has not called to let the
    chip sleep yet. -/
def Pc.Uses (subsys : SlpSubsys) : Pc → Prop
  | within c .marked => c.subsys = subsys
  | within c .awake => c.subsys = subsys
  | _ => False

instance (subsys : SlpSubsys) : DecidablePred (Pc.Uses subsys)
  | .within c .marked => inferInstanceAs (Decidable (c.subsys = subsys))
  | .within c .awake => inferInstanceAs (Decidable (c.subsys = subsys))
  | .out | .within _ .added | .within _ .leaving | .within _ .subtract | .within _ .left
  | .within _ .last => inferInstanceAs (Decidable False)

/-- The counter that the thread has found to be zero, if it has not cleared the bit yet. -/
def Pc.clears : Pc → Option Counter
  | within c .last => some c
  | _ => none

/-- The counters, the sleep manager and the threads. -/
structure Bus (T : Type) where
  count : Counter → BitVec 32
  mgr : SlpMgr
  thread : T → Thread

namespace Bus

variable {T : Type}

/-- No thread has begun. -/
def init : Bus T where
  count _ := 0
  mgr := .init
  thread _ := ⟨.out, []⟩

variable [DecidableEq T] (s : Bus T) (t : T)

/-- The thread goes on to another place. -/
def goto (pc : Pc) : Bus T :=
  { s with thread := Function.update s.thread t { s.thread t with pc := pc } }

/-- The next call of the thread, up to its first operation; a counter goes up at once. -/
def call : Bus T :=
  match (s.thread t).calls with
  | [] => s
  | .wakeup c :: calls =>
    { s with
      count := Function.update s.count c (s.count c + 1)
      thread := Function.update s.thread t ⟨.within c .added, calls⟩ }
  | .sleep c :: calls => { s with thread := Function.update s.thread t ⟨.within c .leaving, calls⟩ }

/-- The next operation of a call. -/
def operate (wakeHostEn ok : Bool) (c : Counter) : Place → Bus T
  | .added =>
    { s with mgr := s.mgr.drvSleep wakeHostEn c.subsys false }.goto t (.within c .marked)
  | .marked => { s with mgr := (s.mgr.wakeup ok).1 }.goto t (.within c .awake)
  | .awake => s.call t
  | .leaving => s.goto t (.within c (if s.count c = 0 then .left else .subtract))
  | .subtract =>
    { s with count := Function.update s.count c (s.count c - 1) }.goto t (.within c .left)
  | .left => s.goto t (if s.count c = 0 then .within c .last else .out)
  | .last => { s with mgr := s.mgr.drvSleep wakeHostEn c.subsys true }.goto t .out

/-- A thread that has nothing to do starts a function. -/
def start (f : Func) : Bus T :=
  if s.thread t = ⟨.out, []⟩ then
    { s with thread := Function.update s.thread t ⟨.out, f.calls⟩ }
  else s

end Bus

/-- What happens: a thread starts a function or goes on, or the chip asks for its sleep. -/
inductive BusEvent (T : Type)
  | start (t : T) (f : Func)
  /-- `ok`: the chip answers in time, if it is woken up. -/
  | step (t : T) (ok : Bool)
  | reqSlp

/-- The bus, as a machine. -/
def bus (T : Type) [DecidableEq T] (wakeHostEn : Bool) : Machine (Bus T) (BusEvent T) where
  step s
    | .start t f => some (s.start t f)
    | .step t ok =>
      match (s.thread t).pc with
      | .out => some (s.call t)
      | .within c p => some (s.operate t wakeHostEn ok c p)
    | .reqSlp => some { s with mgr := s.mgr.reqSlpIsr }

/-! ## Users and their bits -/

/-- The chip is awake for every thread between its calls, and the bit of the subsystem is set. -/
def Awake {T : Type} (s : Bus T) : Prop :=
  ∀ t c, (s.thread t).pc = .within c .awake →
    c.subsys ∈ s.mgr.activeModule ∧ s.mgr.cp2State = .stayAwaking

/-- A thread does not clear the bit of a subsystem that another thread has begun to use. -/
def Undisturbed {T : Type} (s : Bus T) : BusEvent T → Prop
  | .step t _ => ∀ c ∈ (s.thread t).pc.clears, ∀ t', t' ≠ t → ¬(s.thread t').pc.Uses c.subsys
  | _ => True

instance {T : Type} [Fintype T] [DecidableEq T] (s : Bus T) :
    DecidablePred (Undisturbed s)
  | .step t _ => inferInstanceAs (Decidable (∀ c ∈ (s.thread t).pc.clears,
      ∀ t', t' ≠ t → ¬(s.thread t').pc.Uses c.subsys))
  | .start _ _ | .reqSlp => inferInstanceAs (Decidable True)

/-- What a thread that has begun to use a subsystem needs. -/
def Protects (m : SlpMgr) : Pc → Prop
  | .within c .marked => c.subsys ∈ m.activeModule
  | .within c .awake => c.subsys ∈ m.activeModule ∧ m.cp2State = .stayAwaking
  | _ => True

/-- All threads have what they need. -/
def Protected {T : Type} (s : Bus T) : Prop := ∀ t, Protects s.mgr (s.thread t).pc

/-- A device that is protected is awake. -/
theorem Protected.awake {T : Type} {s : Bus T} (h : Protected s) : Awake s := by
  intro t c ht
  have hp := h t
  rwa [ht] at hp

section

variable {m m' : SlpMgr} {pc : Pc} {wakeHostEn ok : Bool} {subsys : SlpSubsys}

/-- A module that may sleep is not active any more, and one that may not is. -/
theorem drvSleep_activeModule (enable : Bool) :
    (m.drvSleep wakeHostEn subsys enable).activeModule =
      if enable then m.activeModule.erase subsys else insert subsys m.activeModule := by
  rw [SlpMgr.drvSleep]
  dsimp only
  split_ifs <;> rfl

/-- The chip is not put to sleep while there is a bit. -/
theorem drvSleep_cp2State {enable : Bool}
    (h : (m.drvSleep wakeHostEn subsys enable).activeModule ≠ ∅) :
    (m.drvSleep wakeHostEn subsys enable).cp2State = m.cp2State := by
  rw [drvSleep_activeModule] at h
  rw [SlpMgr.drvSleep]
  dsimp only
  rw [if_neg h]

/-- A module that may not sleep is active. -/
theorem mem_drvSleep_false : subsys ∈ (m.drvSleep wakeHostEn subsys false).activeModule := by
  rw [drvSleep_activeModule]
  exact Finset.mem_insert_self subsys m.activeModule

/-- Waking the device up leaves the modules. -/
theorem wakeup_activeModule : (m.wakeup ok).1.activeModule = m.activeModule := by
  rw [SlpMgr.wakeup]
  split <;> rfl

theorem wakeup_cp2State : (m.wakeup ok).1.cp2State = .stayAwaking := by
  rw [SlpMgr.wakeup]
  split
  · rfl
  · assumption

/-- A thread keeps what it needs if its bit is kept, and the chip is not put to sleep. -/
theorem Protects.mono (h : Protects m pc)
    (hactive : ∀ subsys, pc.Uses subsys → subsys ∈ m.activeModule → subsys ∈ m'.activeModule)
    (hstate : m'.activeModule ≠ ∅ → m.cp2State = .stayAwaking → m'.cp2State = .stayAwaking) :
    Protects m' pc := by
  cases pc with
  | out => trivial
  | within c p =>
    cases p with
    | marked => exact hactive _ rfl h
    | awake =>
      have hmem := hactive _ rfl h.1
      exact ⟨hmem, hstate (Finset.ne_empty_of_mem hmem) h.2⟩
    | _ => trivial

/-- A module whose thread uses the bus is active. -/
theorem Protects.mem (h : Protects m pc) (huses : pc.Uses subsys) : subsys ∈ m.activeModule := by
  cases pc with
  | out => exact huses.elim
  | within c p =>
    cases p with
    | marked => exact huses ▸ h
    | awake => exact huses ▸ h.1
    | _ => exact huses.elim

theorem Protects.drvSleep_false (h : Protects m pc) :
    Protects (m.drvSleep wakeHostEn subsys false) pc := by
  refine h.mono ?_ ?_
  · intro _ _ hmem
    rw [drvSleep_activeModule]
    exact Finset.mem_insert_of_mem hmem
  · intro hne hawake
    exact (drvSleep_cp2State hne).trans hawake

theorem Protects.wakeup (h : Protects m pc) : Protects (m.wakeup ok).1 pc := by
  refine h.mono ?_ ?_
  · intro _ _ hmem
    rwa [wakeup_activeModule]
  · exact fun _ _ => wakeup_cp2State

theorem Protects.reqSlpIsr (h : Protects m pc) : Protects m.reqSlpIsr pc := by
  rw [SlpMgr.reqSlpIsr]
  split_ifs with hempty
  · refine h.mono (fun _ _ hmem => hmem) ?_
    exact fun hne _ => absurd hempty hne
  · exact h

/-- Clearing a bit takes what a thread needs exactly if the thread has begun to use the subsystem.
    -/
theorem protects_drvSleep_true_iff (h : Protects m pc) :
    Protects (m.drvSleep wakeHostEn subsys true) pc ↔ ¬pc.Uses subsys := by
  constructor
  · intro hp huses
    have hmem := hp.mem huses
    rw [drvSleep_activeModule] at hmem
    exact Finset.notMem_erase subsys m.activeModule hmem
  · intro huses
    refine h.mono ?_ ?_
    · intro subsys' huses' hmem
      rw [drvSleep_activeModule]
      refine Finset.mem_erase_of_ne_of_mem ?_ hmem
      rintro rfl
      exact huses huses'
    · intro hne hawake
      exact (drvSleep_cp2State hne).trans hawake

end

/-! ## Every run -/

section

variable {T : Type} [DecidableEq T] {s s' : Bus T} {t : T} {ev : BusEvent T}
  {wakeHostEn ok : Bool}

/-- A step of one thread. -/
theorem protected_update {m : SlpMgr} {count : Counter → BitVec 32} {th : Thread}
    (hself : Protects m th.pc) (hother : ∀ t', t' ≠ t → Protects m (s.thread t').pc) :
    Protected (T := T) ⟨count, m, Function.update s.thread t th⟩ := by
  intro t'
  change Protects m (Function.update s.thread t th t').pc
  by_cases ht : t' = t
  · rw [ht, Function.update_self]
    exact hself
  · rw [Function.update_of_ne ht]
    exact hother t' ht

/-- A thread that is called protects the device while it uses the bus. -/
theorem Protected.call (h : Protected s) : Protected (s.call t) := by
  rw [Bus.call]
  split
  · exact h
  · exact protected_update trivial fun t' _ => h t'
  · exact protected_update trivial fun t' _ => h t'

theorem Protected.goto (h : Protected s) {pc : Pc} (hpc : Protects s.mgr pc) :
    Protected (s.goto t pc) :=
  protected_update hpc fun t' _ => h t'

theorem Protected.start (h : Protected s) (f : Func) : Protected (s.start t f) := by
  rw [Bus.start]
  split_ifs
  · exact protected_update trivial fun t' _ => h t'
  · exact h

/-- The last user of a subsystem clears its bit. -/
theorem protected_last_iff (h : Protected s) {c : Counter} :
    Protected (s.operate t wakeHostEn ok c .last) ↔
      ∀ t', t' ≠ t → ¬(s.thread t').pc.Uses c.subsys := by
  constructor
  · intro hp t' ht
    have ht' := hp t'
    rw [Bus.operate, Bus.goto] at ht'
    dsimp only at ht'
    rw [Function.update_of_ne ht] at ht'
    exact (protects_drvSleep_true_iff (h t')).1 ht'
  · intro huses
    exact protected_update trivial fun t' ht =>
      (protects_drvSleep_true_iff (h t')).2 (huses t' ht)

/-- All other operations leave all threads what they need. -/
theorem Protected.operate (h : Protected s) {c : Counter} {p : Place}
    (ht : (s.thread t).pc = .within c p) (hp : p ≠ .last) :
    Protected (s.operate t wakeHostEn ok c p) := by
  cases p with
  | added => exact protected_update mem_drvSleep_false fun t' _ => (h t').drvSleep_false
  | marked =>
    have hmem : c.subsys ∈ s.mgr.activeModule := by
      have hself := h t
      rwa [ht] at hself
    refine protected_update ⟨?_, wakeup_cp2State⟩ fun t' _ => (h t').wakeup
    rwa [wakeup_activeModule]
  | awake => exact h.call
  | leaving =>
    refine h.goto ?_
    split_ifs <;> trivial
  | subtract => exact protected_update trivial fun t' _ => h t'
  | left =>
    refine h.goto ?_
    split_ifs <;> trivial
  | last => exact absurd rfl hp

/-- A step leaves the device protected exactly if it does not disturb another thread. -/
theorem step_protected_iff (h : Protected s) (hstep : (bus T wakeHostEn).step s ev = some s') :
    Protected s' ↔ Undisturbed s ev := by
  -- A step lets another thread down only if it clears a counter that this one still uses.
  cases ev with
  | start t f => exact iff_of_true (Option.some.inj hstep ▸ h.start f) trivial
  | reqSlp =>
    refine iff_of_true ?_ trivial
    rw [← Option.some.inj hstep]
    exact fun t => (h t).reqSlpIsr
  | step t ok =>
    rw [Undisturbed]
    cases hpc : (s.thread t).pc with
    | out =>
      simp only [bus, hpc] at hstep
      rw [← Option.some.inj hstep]
      exact iff_of_true h.call fun c hc => absurd hc (by simp [Pc.clears])
    | within c p =>
      simp only [bus, hpc] at hstep
      rw [← Option.some.inj hstep]
      by_cases hlast : p = .last
      · -- The last step of a use clears the counter.
        subst hlast
        rw [protected_last_iff h]
        refine ⟨?_, fun h => h c rfl⟩
        rintro h c' hc
        rw [← Option.some.inj hc]
        exact h
      · refine iff_of_true (h.operate hpc hlast) ?_
        have hclears : (Pc.within c p).clears = none := by
          cases p with
          | last => exact absurd rfl hlast
          | _ => rfl
        rw [hclears]
        exact fun c' hc => absurd hc (by simp)

end

/-- Nobody uses the bus yet. -/
theorem protected_init {T : Type} : Protected (Bus.init (T := T)) := fun _ => trivial

/-- No step crashes. -/
theorem exists_run {T : Type} [DecidableEq T] (wakeHostEn : Bool) (s : Bus T)
    (evs : List (BusEvent T)) : ∃ s', (bus T wakeHostEn).run s evs = some s' := by
  have hstep : ∀ (s : Bus T) ev, ∃ s', (bus T wakeHostEn).step s ev = some s' := by
    intro s ev
    cases ev with
    | start t f => exact ⟨_, rfl⟩
    | reqSlp => exact ⟨_, rfl⟩
    | step t ok =>
      simp only [bus]
      split <;> exact ⟨_, rfl⟩
  obtain ⟨s', hs', -⟩ := Machine.exists_run_history (I := fun _ _ => True)
    (fun _ s ev _ _ => (hstep s ev).imp fun _ h => ⟨h, trivial⟩) trivial Machine.along_true
  exact ⟨s', hs'⟩

/-- All threads have what they need in all states of a run exactly if no step of it clears the bit
    of a subsystem that another thread has begun to use. -/
theorem always_protected_iff {T : Type} [DecidableEq T] (wakeHostEn : Bool)
    (evs : List (BusEvent T)) :
    (bus T wakeHostEn).Always Protected Bus.init evs ↔
      (bus T wakeHostEn).Along Undisturbed Bus.init evs := by
  obtain ⟨s', hrun⟩ := exists_run wakeHostEn Bus.init evs
  exact Machine.always_iff_along (I := fun _ => True) (fun _ _ _ _ _ => trivial)
    (fun _ _ _ _ h hstep => step_protected_iff h hstep) trivial protected_init hrun

/-- In every run in which no step clears the bit of a subsystem that another thread has begun to
    use, the chip is awake for its users, and their bits are set. -/
theorem awake_of_undisturbed {T : Type} [DecidableEq T] (wakeHostEn : Bool)
    (evs : List (BusEvent T)) (h : (bus T wakeHostEn).Along Undisturbed Bus.init evs) :
    (bus T wakeHostEn).Always Awake Bus.init evs :=
  ((always_protected_iff wakeHostEn evs).2 h).imp fun _ hp => hp.awake

/-- A thread that takes `n` steps. -/
def steps {T : Type} (t : T) (n : ℕ) : List (BusEvent T) := List.replicate n (.step t true)

/-- A thread begins to write a register while another one does, and ends after it. -/
def overlapping : List (BusEvent (Fin 2)) :=
  [.start 0 (.writel .done), .start 1 (.writel .done)] ++ steps 0 3 ++ steps 1 3 ++ steps 0 4 ++
    steps 1 5

/-- Two threads use the bus at the same time, in modules of their own. -/
theorem awake_overlapping : (bus (Fin 2) false).Along Undisturbed Bus.init overlapping ∧
    (bus (Fin 2) false).Always Awake Bus.init overlapping :=
  have h : (bus (Fin 2) false).Along Undisturbed Bus.init overlapping := by decide
  ⟨h, awake_of_undisturbed false overlapping h⟩

/-- A thread begins to write a register when the counter of another one is found to be zero, and
    before that one clears the bit. -/
def racing : List (BusEvent (Fin 2)) :=
  [.start 0 (.writel .done), .start 1 (.writel .done)] ++ steps 0 7 ++ steps 1 3 ++ steps 0 1

/-- If they are in the same module, the one that is done first lets the device sleep. -/
theorem not_awake : ¬∀ (T : Type) [DecidableEq T] (wakeHostEn : Bool) (evs : List (BusEvent T)),
    (bus T wakeHostEn).Always Awake Bus.init evs := by
  intro hall
  obtain ⟨s, hrun, hpc, hactive, -⟩ := @Machine.exists_run _ _ (bus (Fin 2) false) Bus.init racing
    (fun s => (s.thread 1).pc = .within ⟨.tx, .dtWritel⟩ .awake ∧ s.mgr.activeModule = ∅ ∧
      s.mgr.cp2State = .staySlping) _ (by decide)
  have hmem := ((hall (Fin 2) false racing).last hrun 1 _ hpc).1
  rw [hactive] at hmem
  exact Finset.notMem_empty _ hmem

end W132d.Sleep
