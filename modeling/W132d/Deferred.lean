import W132d.Machine
import W132d.WorkItem

/-!
# Deferred works

What the driver cannot do where it is, it does later (`work.c`): it puts a work on a list, and
queues a work item, whose function executes the works of the list until there is none left. When an
interface goes away, its works are taken off the list.

* `Pc`, `Worker`: where a thread is, and where the function of the work item is;
* `SprdwlPriv`: the list and the work item, with the threads;
* `deferred`: the machine of all threads and of the work item;
* `NotLost`, `InOrder`, `Cancled`: what holds of the works;
* `Inv`, `inv_step`: what every step keeps, from which these follow;
* `works_kept`: they hold in every state of every run.

The sections that `work_lock` guards are steps, and so is the test of `work_pending`.

How the theorem is proved: the invariant is about the list, the records, and where each thread is. A
thread that queues a work puts it on the list first, and queues the item afterwards if it is not
pending. So between the two the work relies on this thread, and then on the item, whose function
takes works until it finds none. A thread that takes works off the list has made sure that those
from before its call are not on the list (`Pc.Holds`); since works are added at the end and each has
a number of its own, they do not come back (`Keeps.holds`). It then waits for the function of the
item, if this is executing one of them.
-/

namespace W132d.Deferred

variable {T V : Type*}

/-! ## The list and the threads -/

/-- `struct sprdwl_work`, with the number of the works that were queued before it, by which works
    are told apart. -/
structure SprdwlWork (V : Type*) where
  vif : V
  num : ℕ
  deriving DecidableEq

/-- Where a thread is. In `sprdwl_cancle_work`, `before` are the works that were queued before the
    call. -/
inductive Pc (V : Type*) where
  | idle
  /-- `sprdwl_queue_work`, about to test whether the work item is pending. -/
  | added
  /-- It is not, so that it is about to be queued. -/
  | notPending
  /-- `sprdwl_cancle_work`, about to take `work_lock`. -/
  | cancle (vif : V) (before : List (SprdwlWork V))
  /-- About to call `flush_work`. -/
  | removed (vif : V) (before : List (SprdwlWork V))
  /-- In `flush_work`, until the runs of the item up to `last` have returned. -/
  | flush (vif : V) (before : List (SprdwlWork V)) (last : ℕ)
  /-- It has returned from `sprdwl_cancle_work`. -/
  | cancled (vif : V) (before : List (SprdwlWork V))

/-- The thread is in `sprdwl_queue_work`. -/
def Pc.Queueing : Pc V → Prop
  | added | notPending => True
  | _ => False

/-- The thread is in none of the functions. -/
def Pc.Free : Pc V → Prop
  | idle | cancled _ _ => True
  | _ => False

instance : DecidablePred (@Pc.Free V)
  | .idle | .cancled _ _ => .isTrue trivial
  | .added | .notPending | .cancle _ _ | .removed _ _ | .flush _ _ _ => .isFalse id

/-- Where `sprdwl_do_work` is. -/
inductive Worker (V : Type*) where
  | idle
  /-- About to call `sprdwl_get_work`. -/
  | loop
  | executing (work : SprdwlWork V)
  /-- It has found the list empty. -/
  | exit

/-- `struct sprdwl_priv`, with where the threads are. The works `queued` so far, and those that are
    or were `executed`, are a record only. -/
structure SprdwlPriv (T V : Type*) where
  workList : List (SprdwlWork V)
  work : WorkItem
  worker : Worker V
  pc : T → Pc V
  queued : List (SprdwlWork V)
  executed : List (SprdwlWork V)

namespace SprdwlPriv

/-- `sprdwl_init_work`. -/
def init : SprdwlPriv T V := ⟨[], .init, .idle, fun _ => .idle, [], []⟩

variable [DecidableEq T] (priv : SprdwlPriv T V)

/-- A thread goes on. -/
def goto (t : T) (pc : Pc V) : SprdwlPriv T V := { priv with pc := Function.update priv.pc t pc }

/-- `sprdwl_queue_work`, the section of `work_lock`. -/
def listAddTail (t : T) (vif : V) : SprdwlPriv T V :=
  let work : SprdwlWork V := ⟨vif, priv.queued.length⟩
  { priv.goto t .added with
    workList := priv.workList ++ [work]
    queued := priv.queued ++ [work] }

/-- `sprdwl_queue_work`, the test of `work_pending`. -/
def workPending (t : T) : SprdwlPriv T V :=
  if priv.work.pending then priv.goto t .idle else priv.goto t .notPending

/-- `sprdwl_queue_work`, the call of `queue_work`. -/
def queueWork (t : T) : SprdwlPriv T V :=
  { priv.goto t .idle with work := priv.work.queueWork }

/-- `sprdwl_cancle_work`, the section of `work_lock`. -/
def listDel [DecidableEq V] (t : T) (vif : V) (before : List (SprdwlWork V)) : SprdwlPriv T V :=
  { priv.goto t (.removed vif before) with
    workList := priv.workList.filter fun work => work.vif ≠ vif }

/-- `sprdwl_get_work`, the section of `work_lock`, and what `sprdwl_do_work` makes of it. -/
def getWork : SprdwlPriv T V :=
  match priv.workList with
  | work :: works =>
    { priv with
      workList := works
      worker := .executing work
      executed := priv.executed ++ [work] }
  | [] => { priv with worker := .exit }

end SprdwlPriv

/-- What a thread or the work item does. -/
inductive Event (T V : Type*) where
  | listAddTail (t : T) (vif : V)
  | workPending (t : T)
  | queueWork (t : T)
  | cancleWork (t : T) (vif : V)
  | listDel (t : T)
  | flushWork (t : T)
  | flushed (t : T)
  /-- The work item starts. -/
  | start
  | getWork
  /-- The work was executed, and is freed. -/
  | kfree
  /-- `sprdwl_do_work` returns. -/
  | finish

/-- What a step does. Whoever is not where the step begins does nothing. -/
def SprdwlPriv.next [DecidableEq T] [DecidableEq V] (priv : SprdwlPriv T V) :
    Event T V → SprdwlPriv T V
  | .listAddTail t vif => if (priv.pc t).Free then priv.listAddTail t vif else priv
  | .workPending t =>
    match priv.pc t with
    | .added => priv.workPending t
    | _ => priv
  | .queueWork t =>
    match priv.pc t with
    | .notPending => priv.queueWork t
    | _ => priv
  | .cancleWork t vif => if (priv.pc t).Free then priv.goto t (.cancle vif priv.queued) else priv
  | .listDel t =>
    match priv.pc t with
    | .cancle vif before => priv.listDel t vif before
    | _ => priv
  | .flushWork t =>
    match priv.pc t with
    | .removed vif before => priv.goto t (.flush vif before priv.work.last)
    | _ => priv
  | .flushed t =>
    match priv.pc t with
    | .flush vif before last =>
      if priv.work.Flushed last then priv.goto t (.cancled vif before) else priv
    | _ => priv
  | .start =>
    match priv.worker with
    | .idle =>
      if priv.work.pending then { priv with work := priv.work.start, worker := .loop } else priv
    | _ => priv
  | .getWork =>
    match priv.worker with
    | .loop => priv.getWork
    | _ => priv
  | .kfree =>
    match priv.worker with
    | .executing _ => { priv with worker := .loop }
    | _ => priv
  | .finish =>
    match priv.worker with
    | .exit => { priv with work := priv.work.finish, worker := .idle }
    | _ => priv

/-- The threads and the work item, one step at a time. -/
def deferred [DecidableEq T] [DecidableEq V] : Machine (SprdwlPriv T V) (Event T V) where
  step priv e := some (priv.next e)

/-! ## What holds of the works -/

variable {priv priv' : SprdwlPriv T V}

/-- Works that are on the list, with no thread about to queue the item, will be executed: the item
    is pending, or its function has not yet found the list empty. -/
def NotLost (priv : SprdwlPriv T V) : Prop :=
  priv.workList ≠ [] → (∀ t, ¬(priv.pc t).Queueing) →
    priv.work.pending ∨ priv.worker = .loop ∨ ∃ work, priv.worker = .executing work

/-- Works are executed in the order in which they were queued, each at most once. -/
structure InOrder (priv : SprdwlPriv T V) : Prop where
  sublist : priv.executed.Sublist priv.queued
  nodup : priv.executed.Nodup

/-- A work is neither on the list nor being executed. -/
structure Gone (priv : SprdwlPriv T V) (work : SprdwlWork V) : Prop where
  notMem : work ∉ priv.workList
  notExecuting : priv.worker ≠ .executing work

/-- Once `sprdwl_cancle_work` has returned, the works that were queued for the interface before the
    call are gone. -/
def Cancled (priv : SprdwlPriv T V) : Prop :=
  ∀ t vif before, priv.pc t = .cancled vif before → ∀ work ∈ before, work.vif = vif →
    Gone priv work

/-! ## The invariant -/

/-- What a thread in `sprdwl_cancle_work` has made sure of. -/
def Pc.Holds (priv : SprdwlPriv T V) : Pc V → Prop
  | idle | added | notPending => True
  | cancle _ before => before ⊆ priv.queued
  | removed vif before =>
    before ⊆ priv.queued ∧ ∀ work ∈ before, work.vif = vif → work ∉ priv.workList
  | flush vif before last =>
    before ⊆ priv.queued ∧ ∀ work ∈ before, work.vif = vif →
      work ∉ priv.workList ∧ (priv.worker = .executing work → priv.work.started ≤ last)
  | cancled vif before =>
    before ⊆ priv.queued ∧ ∀ work ∈ before, work.vif = vif → Gone priv work

/-- What every step keeps. -/
structure Inv (priv : SprdwlPriv T V) : Prop where
  cancels : priv.work.cancels = 0
  single : priv.work.Single
  running : priv.worker ≠ .idle → priv.work.Running
  idle : priv.worker = .idle → ¬priv.work.Running
  notLost : NotLost priv
  order : (priv.executed ++ priv.workList).Sublist priv.queued
  num : priv.queued.map (·.num) = List.range priv.queued.length
  executing : ∀ work, priv.worker = .executing work → work ∈ priv.executed
  holds : ∀ t, (priv.pc t).Holds priv

variable {t : T} {pc : Pc V} {vif : V} {before : List (SprdwlWork V)} {e : Event T V}
  {es : List (Event T V)}

/-- A work that is queued is none of those that were queued before. -/
theorem Inv.notMem_queued (h : Inv priv) : ⟨vif, priv.queued.length⟩ ∉ priv.queued := by
  intro hmem
  have hnum := List.mem_map_of_mem (f := (·.num)) hmem
  rw [h.num] at hnum
  exact absurd (List.mem_range.1 hnum) (lt_irrefl _)

/-- Nothing was queued yet. -/
theorem inv_init : Inv (.init : SprdwlPriv T V) where
  cancels := rfl
  single := WorkItem.single_init
  running hne := absurd rfl hne
  idle _ := lt_irrefl 0
  notLost hne := absurd rfl hne
  order := List.Sublist.refl []
  num := rfl
  executing _ heq := by cases heq
  holds _ := trivial

/-- The works were queued one after another. -/
theorem Inv.inOrder (h : Inv priv) : InOrder priv := by
  have hsub : priv.executed.Sublist priv.queued := (List.sublist_append_left ..).trans h.order
  have hnodup : priv.queued.Nodup := List.Nodup.of_map _ (h.num ▸ List.nodup_range)
  exact ⟨hsub, hnodup.sublist hsub⟩

/-- A thread that has returned from `sprdwl_cancle_work` has made sure of that. -/
theorem Inv.cancled (h : Inv priv) : Cancled priv := by
  intro t vif before hpc
  have hholds := h.holds t
  rw [hpc] at hholds
  exact hholds.2

/-- Works that were queued and have left the list do not come back to it, and are not executed any
    more unless they are already. -/
structure Keeps (priv priv' : SprdwlPriv T V) : Prop where
  queued : priv.queued ⊆ priv'.queued
  notMem : ∀ work ∈ priv.queued, work ∉ priv.workList → work ∉ priv'.workList
  executing : ∀ work, work ∉ priv.workList → priv'.worker = .executing work →
    priv.worker = .executing work ∧ priv'.work.started = priv.work.started

/-- So that what a thread has made sure of stays true. -/
theorem Keeps.holds (hkeeps : Keeps priv priv') (h : pc.Holds priv) : pc.Holds priv' := by
  cases pc with
  | idle => trivial
  | added => trivial
  | notPending => trivial
  | cancle vif before => exact List.Subset.trans h hkeeps.queued
  | removed vif before =>
    refine ⟨List.Subset.trans h.1 hkeeps.queued, fun work hwork hvif => ?_⟩
    exact hkeeps.notMem work (h.1 hwork) (h.2 work hwork hvif)
  | flush vif before last =>
    refine ⟨List.Subset.trans h.1 hkeeps.queued, fun work hwork hvif => ?_⟩
    obtain ⟨hmem, hlast⟩ := h.2 work hwork hvif
    refine ⟨hkeeps.notMem work (h.1 hwork) hmem, fun hexec => ?_⟩
    obtain ⟨hexec, hstarted⟩ := hkeeps.executing work hmem hexec
    exact hstarted ▸ hlast hexec
  | cancled vif before =>
    refine ⟨List.Subset.trans h.1 hkeeps.queued, fun work hwork hvif => ?_⟩
    obtain ⟨hmem, hexec⟩ := h.2 work hwork hvif
    exact ⟨hkeeps.notMem work (h.1 hwork) hmem, fun h => hexec (hkeeps.executing work hmem h).1⟩

/-- A step of the work item that executes no work. -/
theorem keeps_work (work : WorkItem) (worker : Worker V) (hw : ∀ w, worker ≠ .executing w) :
    Keeps priv { priv with work, worker } :=
  ⟨fun _ h => h, fun _ _ h => h, fun w _ heq => absurd heq (hw w)⟩

/-! ## The steps of the work item -/

theorem inv_start (h : Inv priv) (hworker : priv.worker = .idle) :
    Inv { priv with work := priv.work.start, worker := .loop } where
  cancels := h.cancels
  single := h.single.start (h.idle hworker)
  running _ := WorkItem.running_start h.single
  idle heq := nomatch heq
  notLost _ _ := .inr (.inl rfl)
  order := h.order
  num := h.num
  executing _ heq := by cases heq
  holds t := (keeps_work _ .loop nofun).holds (h.holds t)

theorem inv_getWork (h : Inv priv) (hworker : priv.worker = .loop) : Inv priv.getWork := by
  have hrunning : priv.work.Running := h.running (by simp [hworker])
  rw [SprdwlPriv.getWork]
  split
  · rename_i work works hlist
    have hkeeps : Keeps priv { priv with
        workList := works
        worker := .executing work
        executed := priv.executed ++ [work] } := by
      refine ⟨fun _ h => h, fun work' _ hmem hmem' => hmem ?_, fun work' hmem heq => ?_⟩
      · rw [hlist]
        exact List.mem_cons_of_mem _ hmem'
      · -- A work that has left the list is not the one that leaves it.
        obtain rfl := Worker.executing.inj heq
        rw [hlist] at hmem
        exact absurd List.mem_cons_self hmem
    refine ⟨h.cancels, h.single, fun _ => hrunning, nofun, fun _ _ => .inr (.inr ⟨work, rfl⟩),
      ?_, h.num, fun work' heq => ?_, fun t => hkeeps.holds (h.holds t)⟩
    · have := h.order
      rwa [hlist, List.append_cons] at this
    · obtain rfl := Worker.executing.inj heq
      exact List.mem_append_right _ (List.mem_singleton_self _)
  · rename_i hlist
    exact ⟨h.cancels, h.single, fun _ => hrunning, nofun, fun hne => absurd hlist hne, h.order,
      h.num, (fun _ heq => by cases heq), fun t => (keeps_work _ .exit nofun).holds (h.holds t)⟩

theorem inv_kfree {work : SprdwlWork V} (h : Inv priv) (hworker : priv.worker = .executing work) :
    Inv { priv with worker := .loop } where
  __ := h
  running _ := h.running (by simp [hworker])
  idle heq := nomatch heq
  notLost _ _ := .inr (.inl rfl)
  executing _ heq := by cases heq
  holds t := (keeps_work _ .loop nofun).holds (h.holds t)

theorem inv_finish (h : Inv priv) (hworker : priv.worker = .exit) :
    Inv { priv with work := priv.work.finish, worker := .idle } where
  cancels := h.cancels
  single := h.single.finish (h.running (by simp [hworker]))
  running hne := absurd rfl hne
  idle _ := WorkItem.not_running_finish h.single
  notLost hne hfree := by
    -- The list was empty, so that its works were queued since, and the item with them.
    have := h.notLost hne hfree
    simp only [hworker, reduceCtorEq, exists_false, or_self, or_false] at this
    exact .inl this
  order := h.order
  num := h.num
  executing _ heq := by cases heq
  holds t := (keeps_work _ .idle nofun).holds (h.holds t)

/-! ## The steps of the threads -/

variable [DecidableEq T]

@[simp] theorem goto_pc_self : (priv.goto t pc).pc t = pc := by
  simp only [SprdwlPriv.goto, Function.update_self]

/-- The other threads stay where they are. -/
theorem goto_pc_of_ne {u : T} (hu : u ≠ t) : (priv.goto t pc).pc u = priv.pc u := by
  simp only [SprdwlPriv.goto, Function.update_of_ne hu]

/-- A step of a thread: the others have made sure of what they had. -/
theorem Keeps.holds_goto (hkeeps : Keeps priv priv') (hpc : priv'.pc = Function.update priv.pc t pc)
    (hnew : pc.Holds priv') (h : ∀ t, (priv.pc t).Holds priv) (u : T) :
    (priv'.pc u).Holds priv' := by
  rw [hpc]
  by_cases hu : u = t
  · rw [hu, Function.update_self]
    exact hnew
  · rw [Function.update_of_ne hu]
    exact hkeeps.holds (h u)

/-- A thread that goes on outside of `sprdwl_queue_work` loses no work. -/
theorem NotLost.goto (h : NotLost priv) (ht : ¬(priv.pc t).Queueing) :
    NotLost (priv.goto t pc) := by
  intro hne hfree
  refine h hne fun u => ?_
  by_cases hu : u = t
  · exact hu ▸ ht
  · exact goto_pc_of_ne hu ▸ hfree u

/-- Going on, a thread keeps what the others have made sure of. -/
theorem keeps_goto : Keeps priv (priv.goto t pc) :=
  ⟨fun _ h => h, fun _ _ h => h, fun _ _ h => ⟨h, rfl⟩⟩

/-- A thread goes on outside of `sprdwl_queue_work`. -/
theorem inv_goto (h : Inv priv) (ht : ¬(priv.pc t).Queueing) (hnew : pc.Holds (priv.goto t pc)) :
    Inv (priv.goto t pc) where
  __ := h
  notLost := h.notLost.goto ht
  holds := keeps_goto.holds_goto rfl hnew h.holds

theorem inv_listAddTail (h : Inv priv) : Inv (priv.listAddTail t vif) where
  __ := h
  notLost _ hfree := by
    -- This thread is about to test whether the item is pending.
    have hpc : (priv.listAddTail t vif).pc t = .added := goto_pc_self
    exact absurd (show Pc.Queueing _ by rw [hpc]; trivial) (hfree t)
  order := by
    rw [SprdwlPriv.listAddTail, ← List.append_assoc]
    exact h.order.append (List.Sublist.refl _)
  num := by
    rw [SprdwlPriv.listAddTail, List.map_append, h.num, List.length_append, List.length_singleton,
      List.range_succ]
    rfl
  holds := by
    have hkeeps : Keeps priv (priv.listAddTail t vif) := by
      refine ⟨fun _ hwork => List.mem_append_left _ hwork, fun work hwork hmem hmem' => ?_,
        fun _ _ h => ⟨h, rfl⟩⟩
      rcases List.mem_append.1 hmem' with hmem' | hmem'
      · exact hmem hmem'
      · exact h.notMem_queued (List.mem_singleton.1 hmem' ▸ hwork)
    exact hkeeps.holds_goto rfl trivial h.holds

theorem inv_workPending (h : Inv priv) : Inv (priv.workPending t) := by
  rw [SprdwlPriv.workPending]
  split
  · rename_i hpending
    exact ⟨h.cancels, h.single, h.running, h.idle, fun _ _ => .inl hpending, h.order, h.num,
      h.executing, keeps_goto.holds_goto rfl trivial h.holds⟩
  · refine ⟨h.cancels, h.single, h.running, h.idle, fun _ hfree => ?_, h.order, h.num,
      h.executing, keeps_goto.holds_goto rfl trivial h.holds⟩
    -- This thread is about to queue the item.
    have hpc : (priv.goto t .notPending).pc t = .notPending := goto_pc_self
    exact absurd (show Pc.Queueing _ by rw [hpc]; trivial) (hfree t)

theorem inv_queueWork (h : Inv priv) : Inv (priv.queueWork t) := by
  have hkeeps : Keeps priv (priv.queueWork t) :=
    ⟨fun _ h => h, fun _ _ h => h, fun _ _ h => ⟨h, WorkItem.queueWork_started⟩⟩
  refine ⟨?_, ?_, fun hne => ?_, fun heq => ?_, fun _ _ => .inl ?_, h.order, h.num, h.executing,
    hkeeps.holds_goto rfl trivial h.holds⟩
  · exact WorkItem.queueWork_cancels.trans h.cancels
  · exact h.single.queueWork
  · exact WorkItem.running_queueWork.2 (h.running hne)
  · exact fun hrun => h.idle heq (WorkItem.running_queueWork.1 hrun)
  · exact WorkItem.queueWork_pending h.cancels

theorem inv_listDel [DecidableEq V] (h : Inv priv) (hpc : priv.pc t = .cancle vif before) :
    Inv (priv.listDel t vif before) := by
  have hsub : (priv.listDel t vif before).workList ⊆ priv.workList :=
    (List.filter_sublist ..).subset
  have hkeeps : Keeps priv (priv.listDel t vif before) :=
    ⟨fun _ h => h, fun _ _ h hmem => h (hsub hmem), fun _ _ h => ⟨h, rfl⟩⟩
  have hbefore : before ⊆ priv.queued := by
    have := h.holds t
    rwa [hpc] at this
  refine ⟨h.cancels, h.single, h.running, h.idle, fun hne hfree => ?_, ?_, h.num, h.executing,
    hkeeps.holds_goto rfl ⟨hbefore, fun work _ hvif hmem => ?_⟩ h.holds⟩
  · have ht : ¬(priv.pc t).Queueing := by
      rw [hpc]
      exact id
    have hne : priv.workList ≠ [] := fun hnil => hne (List.subset_nil.1 (hnil ▸ hsub))
    exact h.notLost.goto ht hne hfree
  · exact ((List.Sublist.refl _).append (List.filter_sublist ..)).trans h.order
  · have := (List.mem_filter.1 hmem).2
    exact absurd hvif (of_decide_eq_true this)

/-- What every step keeps. -/
theorem inv_step [DecidableEq V] (h : Inv priv) (e : Event T V) : Inv (priv.next e) := by
  cases e with
  | listAddTail t vif =>
    rw [SprdwlPriv.next]
    split
    · exact inv_listAddTail h
    · exact h
  | workPending t =>
    rw [SprdwlPriv.next]
    split
    · exact inv_workPending h
    · exact h
  | queueWork t =>
    rw [SprdwlPriv.next]
    split
    · exact inv_queueWork h
    · exact h
  | cancleWork t vif =>
    rw [SprdwlPriv.next]
    split
    · rename_i hfree
      refine inv_goto h (fun hq => ?_) (List.Subset.refl _)
      cases hpc : priv.pc t <;> rw [hpc] at hfree hq <;> first | exact hfree | exact hq
    · exact h
  | listDel t =>
    rw [SprdwlPriv.next]
    split
    · rename_i hpc
      exact inv_listDel h hpc
    · exact h
  | flushWork t =>
    rw [SprdwlPriv.next]
    split
    · rename_i vif before hpc
      have hholds := h.holds t
      rw [hpc] at hholds
      refine inv_goto h (by rw [hpc]; exact id) ⟨hholds.1, fun work hwork hvif => ?_⟩
      exact ⟨hholds.2 work hwork hvif, fun _ => WorkItem.started_le_last⟩
    · exact h
  | flushed t =>
    rw [SprdwlPriv.next]
    split
    · rename_i vif before last hpc
      have hholds := h.holds t
      rw [hpc] at hholds
      split
      · rename_i hflushed
        refine inv_goto h (by rw [hpc]; exact id) ⟨hholds.1, fun work hwork hvif => ?_⟩
        obtain ⟨hmem, hlast⟩ := hholds.2 work hwork hvif
        -- The run that executed it has returned.
        refine ⟨hmem, fun hexec => hflushed.not_running (hlast hexec) (h.running ?_)⟩
        rw [show priv.worker = .executing work from hexec]
        exact nofun
      · exact h
    · exact h
  | start =>
    rw [SprdwlPriv.next]
    split
    · rename_i hworker
      split
      · exact inv_start h hworker
      · exact h
    · exact h
  | getWork =>
    rw [SprdwlPriv.next]
    split
    · rename_i hworker
      exact inv_getWork h hworker
    · exact h
  | kfree =>
    rw [SprdwlPriv.next]
    split
    · rename_i hworker
      exact inv_kfree h hworker
    · exact h
  | finish =>
    rw [SprdwlPriv.next]
    split
    · rename_i hworker
      exact inv_finish h hworker
    · exact h

/-! ## Every run -/

/-- **Deferred works are neither lost nor run after cancellation**: whatever the threads and the
    work item do, in every state works that are on the list will be executed, works are executed in
    the order in which they were queued, each at most once, and those that were cancelled are
    gone. -/
theorem works_kept [DecidableEq V] (es : List (Event T V)) :
    deferred.Always (fun priv : SprdwlPriv T V => NotLost priv ∧ InOrder priv ∧ Cancled priv)
      .init es := by
  have hinv : deferred.Always Inv (.init : SprdwlPriv T V) es := by
    refine Machine.always_of_step (fun priv e priv' h hstep => ?_) inv_init
    exact Option.some.inj hstep ▸ inv_step h e
  exact hinv.imp fun priv h => ⟨h.notLost, h.inOrder, h.cancled⟩

end W132d.Deferred
