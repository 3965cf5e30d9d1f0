import W132d.Machine
import W132d.Rundown

/-!
# The list of received messages

The bus hands lists of buffers to `intf_rx_handle`. A message is taken off the free list
(`sprdwl_alloc_msg_buf`), filled with the list and queued (`sprdwl_queue_msg_buf`). The work item
of the list, `sprdwl_rx_work_queue`, handles the first message, gives its buffers back to the bus
(`sprdwl_free_rx_data`), and puts it back on the free list (`sprdwl_dequeue_msg_buf`), until there
is none left. If there is no free message, the buffers go back to the bus at once. Every message in
use is counted in `ref`, and so is every thread that is about to take one.

`sprdwl_rx_deinit` stops the work item and destroys its queue, and then waits for the messages in
use (`sprdwl_msg_deinit`), for three seconds at most. It walks through the free list without its
lock and frees all messages, and at last `rx_if` itself. Lists can still arrive then: the channels
of the bus are taken away later.

* `RxIf`: the list, with where the threads and the work item are;
* `rxList`: all threads, the work item and `sprdwl_rx_deinit`, one section under a lock or one
  operation on `ref` at a time;
* `Fair`: no thread queues the work item to a queue that was destroyed, or uses `rx_if` once that
  was freed, and the wait does not take too long;
* `Inv`, `step_inv`: what every such step keeps, and that none crashes;
* `rxList_accounted`: what the bus hands over is given back once, in order, and nothing is left
  when there is nothing more to do;
* `msgDeinit_safe`: a message that was freed is not used any more, after the wait there is no
  message in use, and in the end all were freed.
-/

namespace W132d.RxList

open Rundown

/-- `SPRDWL_MSG_EXIT_VAL`. -/
def msgExitVal : ℤ := 0x8000

variable {T M L : Type*}

/-- Where a thread in `intf_rx_handle` is, with the list `head` that it was handed. -/
inductive Pc (M L : Type*) where
  | idle
  /-- In `sprdwl_alloc_msg_buf`, counted. -/
  | counted (head : L)
  /-- There is no message for it, before `atomic_dec`. -/
  | refused (head : L)
  /-- Before `sprdwcn_bus_push_list`. -/
  | push (head : L)
  /-- Before `sprdwl_fill_msg`. -/
  | taken (msg : M) (head : L)
  /-- Before `sprdwl_queue_msg_buf`. -/
  | filled (msg : M) (head : L)
  /-- Before `queue_work`. -/
  | queued
  deriving DecidableEq

/-- The thread is counted in `ref`. -/
def Pc.user : Pc M L → Bool
  | counted _ | refused _ | taken _ _ | filled _ _ => true
  | idle | push _ | queued => false

/-- The thread has a message, or is about to take one. -/
def Pc.takes : Pc M L → Bool
  | counted _ | taken _ _ | filled _ _ => true
  | idle | refused _ | push _ | queued => false

/-- A thread that was not counted takes no entry. -/
theorem takes_of_user {pc : Pc M L} (h : pc.user = false) : pc.takes = false := by
  cases pc <;> first | rfl | exact h

/-- The message that the thread has. -/
def Pc.msg : Pc M L → Option M
  | taken msg _ | filled msg _ => some msg
  | idle | counted _ | refused _ | push _ | queued => none

/-- The next operation of the thread uses `rx_if`. -/
def Pc.uses : Pc M L → Bool
  | counted _ | refused _ | filled _ _ | queued => true
  | idle | push _ | taken _ _ => false

/-- A thread that is not to take an entry has none. -/
theorem msg_of_takes {pc : Pc M L} (h : pc.takes = false) : pc.msg = none := by
  cases pc <;> first | rfl | exact absurd h (by simp [Pc.takes])

/-- The list that the thread has. -/
def Pc.head : Pc M L → Option L
  | counted head | refused head | push head | taken _ head | filled _ head => some head
  | idle | queued => none

/-- Where `sprdwl_rx_work_queue` is. -/
inductive Worker (M : Type*) where
  | idle
  /-- Before `sprdwl_peek_msg_buf`. -/
  | loop
  | peeked (msg : M)
  /-- The buffers were given back, before `list_del`. -/
  | handled (msg : M)
  /-- Before `sprdwl_free_msg_buf`. -/
  | dequeued (msg : M)
  deriving DecidableEq

/-- The message that was taken off the list. -/
def Worker.msg : Worker M → Option M
  | dequeued msg => some msg
  | idle | loop | peeked _ | handled _ => none

/-- Where `sprdwl_rx_deinit` is. -/
inductive Deinit (M : Type*) where
  | none
  /-- `rx_queue` was destroyed, before `atomic_add`. -/
  | destroyed
  | wait
  /-- The wait is over, because it took too long or not. -/
  | waited
  /-- In the loop over the free list, with its variables; without a message they have come to its
      end. -/
  | free (msgBuf pos : Option M)
  /-- `rx_if` was freed. -/
  | done
  deriving DecidableEq

/-- How often `SPRDWL_MSG_EXIT_VAL` was added. -/
def Deinit.marks : Deinit M → ℤ
  | none | destroyed => 0
  | wait | waited | free _ _ | done => 1

/-- The wait is over. -/
def Deinit.over : Deinit M → Bool
  | none | destroyed | wait => false
  | waited | free _ _ | done => true

/-- The list is marked as closing by then. -/
theorem marks_of_over {deinit : Deinit M} (h : deinit.over = true) : deinit.marks = 1 := by
  cases deinit <;> first | rfl | exact absurd h (by simp [Deinit.over])

/-- `struct sprdwl_rx_if`, with the list, the work item and where the threads are. The messages that
    were `freed`, and the lists that have `arrived`, that were `pushed` back, `queued` and
    `handled`, are a record only. -/
structure RxIf (T M L : Type*) where
  ref : ℤ
  freelist : List M
  busylist : List M
  tranData : M → Option L
  pending : Bool
  worker : Worker M
  deinit : Deinit M
  pc : T → Pc M L
  freed : List M
  arrived : List L
  pushed : List L
  queued : List L
  handled : List (Option L)

namespace RxIf

/-- `sprdwl_msg_init`, of the messages `msgs`. -/
def init (msgs : List M) : RxIf T M L where
  ref := 0
  freelist := msgs
  busylist := []
  tranData _ := none
  pending := false
  worker := .idle
  deinit := .none
  pc _ := .idle
  freed := []
  arrived := []
  pushed := []
  queued := []
  handled := []

variable [DecidableEq T] [DecidableEq M] (s : RxIf T M L) (t : T)

/-- The thread goes on to another place. -/
def goto (pc : Pc M L) : RxIf T M L := { s with pc := Function.update s.pc t pc }

/-- `intf_rx_handle` is called; `atomic_inc_return` of `sprdwl_alloc_msg_buf`. -/
def arrive (head : L) : RxIf T M L :=
  { s with ref := s.ref + 1, arrived := s.arrived ++ [head] }.goto t
    (if s.ref + 1 ≥ msgExitVal then .refused head else .counted head)

/-- The next operation of a thread. To queue a work item to a queue that was destroyed is a crash.
    -/
def operate : Pc M L → Option (RxIf T M L)
  | .idle => some s
  | .counted head =>
    match s.freelist with
    | msg :: freelist => some ({ s with freelist := freelist }.goto t (.taken msg head))
    | [] => some (s.goto t (.refused head))
  | .refused head => some ({ s with ref := s.ref - 1 }.goto t (.push head))
  | .push head => some ({ s with pushed := s.pushed ++ [head] }.goto t .idle)
  | .taken msg head =>
    some ({ s with tranData := Function.update s.tranData msg (some head) }.goto t
      (.filled msg head))
  | .filled msg head =>
    some ({ s with busylist := s.busylist ++ [msg], queued := s.queued ++ [head] }.goto t .queued)
  | .queued =>
    if s.deinit = .none then some ({ s with pending := true }.goto t .idle) else none

/-- The next operation of the work item. -/
def work : Worker M → RxIf T M L
  | .idle => s
  | .loop =>
    match s.busylist with
    | [] => { s with worker := .idle }
    | msg :: _ => { s with worker := .peeked msg }
  | .peeked msg => { s with handled := s.handled ++ [s.tranData msg], worker := .handled msg }
  | .handled msg => { s with busylist := s.busylist.erase msg, worker := .dequeued msg }
  | .dequeued msg =>
    { s with freelist := s.freelist ++ [msg], ref := s.ref - 1, worker := .loop }

/-- The message behind another one in the list. -/
def behind (l : List M) : Option M → Option M
  | none => none
  | some msg => (l.dropWhile (· ≠ msg)).tail.head?

/-- The next step of `sprdwl_rx_deinit`; `late`: it has waited for more than three seconds. It
    crashes if a message that the loop has come to was taken off the free list meanwhile. -/
def deinitStep (late : Bool) : Deinit M → Option (RxIf T M L)
  | .none =>
    -- `flush_workqueue` and `destroy_workqueue` wait for the work item.
    some (if s.pending = false ∧ s.worker = .idle then { s with deinit := .destroyed } else s)
  | .destroyed => some { s with ref := s.ref + msgExitVal, deinit := .wait }
  | .wait =>
    some (if s.ref > msgExitVal then
      if late then { s with deinit := .waited } else s
    else { s with deinit := .waited })
  | .waited =>
    some { s with deinit := .free s.freelist.head? (behind s.freelist s.freelist.head?) }
  | .free none _ => some { s with deinit := .done }
  | .free (some msgBuf) pos =>
    if msgBuf ∈ s.freelist ∧ ∀ msg ∈ pos, msg ∈ s.freelist then
      some { s with
        freelist := s.freelist.erase msgBuf
        freed := s.freed ++ [msgBuf]
        deinit := .free pos (behind s.freelist pos) }
    else none
  | .done => some s

end RxIf

/-- What happens. -/
inductive Event (T L : Type*) where
  /-- The bus hands a list to a thread. -/
  | arrive (t : T) (head : L)
  | step (t : T)
  /-- The work item starts. -/
  | run
  | work
  | deinit (late : Bool)

/-- The list, as a machine. To use `rx_if` when it was freed is a crash. -/
def rxList (T M L : Type*) [DecidableEq T] [DecidableEq M] : Machine (RxIf T M L) (Event T L) where
  step s
    | .arrive t head =>
      match s.pc t with
      | .idle => if s.deinit = .done then none else some (s.arrive t head)
      | _ => some s
    | .step t =>
      if (s.pc t).uses = true ∧ s.deinit = .done then none else s.operate t (s.pc t)
    | .run =>
      match s.worker with
      | .idle => some (if s.pending then { s with pending := false, worker := .loop } else s)
      | _ => some s
    | .work => some (s.work s.worker)
    | .deinit late => s.deinitStep late s.deinit

/-- A thread calls `queue_work` before the queue is destroyed, and is through with `rx_if` before
    that is freed; no list arrives then, and the wait for the messages does not give up. -/
def Fair [DecidableEq M] (s : RxIf T M L) : Event T L → Prop
  | .arrive _ _ => s.deinit ≠ .done
  | .step t =>
    (s.pc t = .queued → s.deinit = .none) ∧ ((s.pc t).uses = true → s.deinit ≠ .done)
  | .deinit late => late = false
  | .run | .work => True

instance [DecidableEq M] [DecidableEq L] (s : RxIf T M L) : DecidablePred (Fair s)
  | .arrive _ _ => inferInstanceAs (Decidable (_ ≠ _))
  | .step _ => inferInstanceAs (Decidable ((_ = _ → _) ∧ (_ = _ → _)))
  | .deinit late => inferInstanceAs (Decidable (late = false))
  | .run | .work => inferInstanceAs (Decidable True)

/-! ## The invariant -/

/-- One if the thread has the message, else zero. -/
def Pc.hasMsg [DecidableEq M] (msg : M) (pc : Pc M L) : ℤ := if pc.msg = some msg then 1 else 0

/-- One if the thread has the list, else zero. -/
def Pc.hasHead [DecidableEq L] (head : L) (pc : Pc M L) : ℤ := if pc.head = some head then 1 else 0

/-- One if the work item has taken the message off the list, else zero. -/
def Worker.hasMsg [DecidableEq M] (msg : M) (worker : Worker M) : ℤ :=
  if worker.msg = some msg then 1 else 0

/-- A thread has an entry or not. -/
theorem hasMsg_nonneg [DecidableEq M] {msg : M} {pc : Pc M L} : 0 ≤ pc.hasMsg msg := by
  rw [Pc.hasMsg]
  split_ifs <;> decide

theorem worker_hasMsg_nonneg [DecidableEq M] {msg : M} {worker : Worker M} :
    0 ≤ worker.hasMsg msg := by
  rw [Worker.hasMsg]
  split_ifs <;> decide

namespace RxIf

/-- The number of messages that were queued and are not free yet. -/
def inUse (s : RxIf T M L) : ℤ := s.busylist.length + s.worker.msg.isSome.toInt

/-- The messages that are queued and whose buffers were not given back yet. -/
def unhandled (s : RxIf T M L) : List M :=
  match s.worker with
  | .handled _ => s.busylist.tail
  | _ => s.busylist

end RxIf

/-- The first message of the list, if the work item looks at it. -/
def Worker.Peeks (busylist : List M) : Worker M → Prop
  | peeked msg | handled msg => busylist.head? = some msg
  | idle | loop | dequeued _ => True

/-- A message is queued behind the others. -/
theorem Worker.Peeks.append {busylist : List M} {worker : Worker M} (h : worker.Peeks busylist)
    {msg : M} : worker.Peeks (busylist ++ [msg]) := by
  cases worker with
  | peeked _ | handled _ => exact (List.head?_append_of_ne_nil _ (by rintro rfl; cases h)).trans h
  | _ => trivial

/-- What was not handled yet is busy. -/
theorem RxIf.unhandled_subset (s : RxIf T M L) : s.unhandled ⊆ s.busylist := by
  rw [unhandled]
  split
  · exact List.tail_subset _
  · exact List.Subset.refl _

/-- An entry that is queued was not handled yet. -/
theorem unhandled_append {s : RxIf T M L} (h : s.worker.Peeks s.busylist) (msg : M) :
    { s with busylist := s.busylist ++ [msg] }.unhandled = s.unhandled ++ [msg] := by
  rw [RxIf.unhandled, RxIf.unhandled]
  cases hw : s.worker with
  | handled msg' =>
    rw [hw] at h
    exact List.tail_append_of_ne_nil (by rintro hnil; rw [hnil] at h; cases h)
  | _ => rfl

/-- The variables of the loop are the first two messages of the free list. -/
def Deinit.Walks [DecidableEq M] (freelist : List M) : Deinit M → Prop
  | free msgBuf pos => msgBuf = freelist.head? ∧ pos = RxIf.behind freelist msgBuf
  | done => freelist = []
  | none | destroyed | wait | waited => True

/-- Before the end, nobody walks over the free list. -/
theorem walks_of_not_over [DecidableEq M] {deinit : Deinit M} (h : deinit.over = false)
    (freelist : List M) : deinit.Walks freelist := by
  cases deinit <;> trivial

/-- What every step keeps, if the messages are `msgs`. -/
structure Inv [Fintype T] [DecidableEq M] [DecidableEq L] (msgs : List M) (s : RxIf T M L) :
    Prop where
  /-- `ref` counts the threads and the messages in use. -/
  counts : Counts msgExitVal Pc.user s.deinit.marks (s.ref - s.inUse) s.pc
  /-- Every message is in one place. -/
  places : ∀ msg, (s.freelist.count msg + s.busylist.count msg + s.freed.count msg : ℤ) +
    s.worker.hasMsg msg + tally (Pc.hasMsg msg) s.pc = msgs.count msg
  peeks : s.worker.Peeks s.busylist
  /-- A message is filled with the list of its thread. -/
  data : ∀ t msg head, s.pc t = .filled msg head → s.tranData msg = some head
  /-- The lists are handled in the order in which they were queued. -/
  order : s.handled ++ s.unhandled.map s.tranData = s.queued.map some
  /-- Every list that has arrived was queued or pushed back, or a thread has it. -/
  lists : ∀ head, (s.arrived.count head : ℤ) =
    s.queued.count head + s.pushed.count head + tally (Pc.hasHead head) s.pc
  /-- After the wait, no message is in use. -/
  drained : s.deinit.over = true →
    s.busylist = [] ∧ s.worker.msg = none ∧ ∀ t, (s.pc t).takes = false
  walks : s.deinit.Walks s.freelist
  /-- The work item will handle what is queued. -/
  notLost : s.busylist ≠ [] → (∀ t, s.pc t ≠ .queued) → s.pending = true ∨ s.worker ≠ .idle

section

variable [DecidableEq T] {s : RxIf T M L} {t : T} {pc : Pc M L}

/-- A thread that has no filled message. -/
theorem data_update {tranData : M → Option L}
    (h : ∀ t msg head, s.pc t = .filled msg head → tranData msg = some head)
    (hpc : ∀ msg head, pc ≠ .filled msg head) :
    ∀ t' msg head, Function.update s.pc t pc t' = .filled msg head → tranData msg = some head := by
  intro t' msg head ht'
  by_cases hne : t' = t
  · rw [hne, Function.update_self] at ht'
    exact absurd ht' (hpc msg head)
  · rw [Function.update_of_ne hne] at ht'
    exact h t' msg head ht'

/-- A thread that takes no message. -/
theorem takes_update (h : ∀ t, (s.pc t).takes = false) (hpc : pc.takes = false) :
    ∀ t', (Function.update s.pc t pc t').takes = false := by
  intro t'
  by_cases hne : t' = t
  · rw [hne, Function.update_self]
    exact hpc
  · rw [Function.update_of_ne hne]
    exact h t'

/-- A thread that is not about to queue the work item. -/
theorem queued_update (hpc : s.pc t ≠ .queued)
    (h : ∀ t', Function.update s.pc t pc t' ≠ .queued) : ∀ t', s.pc t' ≠ .queued := by
  intro t'
  by_cases hne : t' = t
  · rwa [hne]
  · have ht' := h t'
    rwa [Function.update_of_ne hne] at ht'

end

section

variable [Fintype T] [DecidableEq M] [DecidableEq L] {s : RxIf T M L} {msgs : List M} {t : T}
  {msg : M}

/-- A message that a thread has is nowhere else. -/
theorem Inv.not_elsewhere (h : Inv msgs s) (hnodup : msgs.Nodup) (ht : (s.pc t).msg = some msg) :
    msg ∉ s.freelist ∧ msg ∉ s.busylist ∧ msg ∉ s.freed ∧ s.worker.msg ≠ some msg ∧
      ∀ t', t' ≠ t → (s.pc t').msg ≠ some msg := by
  have hplaces := h.places msg
  have hone := List.nodup_iff_count_le_one.1 hnodup msg
  have hself : (s.pc t).hasMsg msg = 1 := if_pos ht
  have hle := le_tally (f := Pc.hasMsg msg) (t := s.pc) (fun _ => hasMsg_nonneg) t
  have hworker : 0 ≤ s.worker.hasMsg msg := worker_hasMsg_nonneg
  refine ⟨?_, ?_, ?_, ?_, ?_⟩
  · exact List.count_eq_zero.1 (by omega)
  · exact List.count_eq_zero.1 (by omega)
  · exact List.count_eq_zero.1 (by omega)
  · intro heq
    rw [Worker.hasMsg, if_pos heq] at hplaces
    omega
  · intro t' hne ht'
    have hother : (s.pc t').hasMsg msg = 1 := if_pos ht'
    have hadd := add_le_tally (f := Pc.hasMsg msg) (t := s.pc) (fun _ => hasMsg_nonneg) hne
    omega

/-- A message that was freed is nowhere else. -/
theorem Inv.freed (h : Inv msgs s) (hnodup : msgs.Nodup) (hmem : msg ∈ s.freed) :
    msg ∉ s.freelist ∧ msg ∉ s.busylist ∧ s.worker.msg ≠ some msg ∧
      ∀ t, (s.pc t).msg ≠ some msg := by
  have hplaces := h.places msg
  have hone := List.nodup_iff_count_le_one.1 hnodup msg
  have hpos := List.count_pos_iff.2 hmem
  have htally : 0 ≤ tally (Pc.hasMsg msg) s.pc := tally_nonneg fun _ => hasMsg_nonneg
  have hworker : 0 ≤ s.worker.hasMsg msg := worker_hasMsg_nonneg
  refine ⟨List.count_eq_zero.1 (by omega), List.count_eq_zero.1 (by omega), ?_, ?_⟩
  · intro heq
    rw [Worker.hasMsg, if_pos heq] at hplaces
    omega
  · intro t ht
    exact (h.not_elsewhere hnodup ht).2.2.1 hmem

/-- While no message was taken back, a thread that takes one is not past the wait. -/
theorem Inv.not_over (h : Inv msgs s) (ht : (s.pc t).takes = true) : s.deinit.over = false :=
  Bool.eq_false_iff.2 fun hd => absurd ((h.drained hd).2.2 t) (by rw [ht]; decide)

/-- Nor while the work item has taken one off the list. -/
theorem Inv.not_over_of_msg (h : Inv msgs s) (hw : s.worker.msg = some msg) :
    s.deinit.over = false :=
  Bool.eq_false_iff.2 fun hd => absurd (hw.symm.trans (h.drained hd).2.1) (by simp)

/-- A free message is once on the list. -/
theorem Inv.nodup_freelist (h : Inv msgs s) (hnodup : msgs.Nodup) : s.freelist.Nodup := by
  refine List.nodup_iff_count_le_one.2 fun msg => ?_
  have hplaces := h.places msg
  have hone := List.nodup_iff_count_le_one.1 hnodup msg
  have htally : 0 ≤ tally (Pc.hasMsg msg) s.pc := tally_nonneg fun _ => hasMsg_nonneg
  have hworker : 0 ≤ s.worker.hasMsg msg := worker_hasMsg_nonneg
  omega

/-- All entries are free. -/
theorem inv_init (msgs : List M) : Inv msgs (RxIf.init msgs : RxIf T M L) where
  counts := counts_of_forall 0 fun _ => rfl
  places msg := by
    have hzero : tally (Pc.hasMsg msg) (RxIf.init (T := T) (L := L) msgs).pc = 0 :=
      tally_eq_zero fun _ => rfl
    rw [hzero]
    simp [RxIf.init, Worker.hasMsg, Worker.msg]
  peeks := trivial
  data _ _ _ heq := nomatch heq
  order := rfl
  lists head := by
    have hzero : tally (Pc.hasHead head) (RxIf.init (T := T) (L := L) msgs).pc = 0 :=
      tally_eq_zero fun _ => rfl
    rw [hzero]
    rfl
  drained heq := nomatch heq
  walks := trivial
  notLost hne := absurd rfl hne

end

/-! ## The steps of a thread -/

section

variable [Fintype T] [DecidableEq T] [DecidableEq M] [DecidableEq L] {s : RxIf T M L}
  {msgs : List M} {t : T} {msg : M} {head : L} {pc : Pc M L}

/-- A thread takes a message, or gives one back, or a list. -/
theorem Inv.move (h : Inv msgs s) {ref : ℤ} {freelist : List M} {arrived pushed : List L}
    (href : ref = s.ref - (s.pc t).user.toInt + pc.user.toInt)
    (hplaces : ∀ msg, (freelist.count msg : ℤ) + pc.hasMsg msg =
      s.freelist.count msg + (s.pc t).hasMsg msg)
    (hlists : ∀ head, (arrived.count head : ℤ) + s.pushed.count head + (s.pc t).hasHead head =
      s.arrived.count head + pushed.count head + pc.hasHead head)
    (hfilled : ∀ msg head, pc ≠ .filled msg head)
    (htakes : s.deinit.over = true → pc.takes = false) (hwalks : s.deinit.Walks freelist)
    (hqueued : s.pc t ≠ .queued) :
    Inv msgs ({ s with ref, freelist, arrived, pushed }.goto t pc) where
  counts := by
    refine h.counts.update ?_
    change ref - s.inUse = _
    omega
  -- What leaves the free list is in the hands of the thread, and the other way around.
  places msg := by
    have hold := h.places msg
    have hmsg := hplaces msg
    simp only [RxIf.goto, tally_update]
    omega
  peeks := h.peeks
  data := data_update h.data hfilled
  order := h.order
  lists head := by
    have hold := h.lists head
    have hhead := hlists head
    simp only [RxIf.goto, tally_update]
    omega
  drained hd := by
    obtain ⟨hbusy, hworker, htakes'⟩ := h.drained hd
    exact ⟨hbusy, hworker, takes_update htakes' (htakes hd)⟩
  walks := hwalks
  notLost hne hqueue := h.notLost hne (queued_update hqueued hqueue)

/-- A list arrives. -/
theorem Inv.arrive (h : Inv msgs s) (ht : s.pc t = .idle) : Inv msgs (s.arrive t head) := by
  rw [RxIf.arrive]
  refine h.move ?_ ?_ ?_ ?_ ?_ h.walks ?_
  · rw [ht]
    split_ifs <;> simp [Pc.user]
  · intro msg
    rw [ht]
    split_ifs <;> simp [Pc.hasMsg, Pc.msg]
  · intro head'
    rw [ht, List.count_append]
    split_ifs <;> simp [Pc.hasHead, Pc.head, List.count_singleton] <;> ring
  · intro msg head'
    split_ifs <;> simp
  · intro hd
    -- After the wait, `SPRDWL_MSG_EXIT_VAL` is in `ref`.
    have hle := h.counts.le_count
    rw [marks_of_over hd] at hle
    have hnonneg : 0 ≤ s.inUse := add_nonneg (Int.natCast_nonneg _) (toInt_nonneg _)
    rw [if_pos (by omega)]
    rfl
  · rw [ht]
    simp

/-- The next operation of `sprdwl_alloc_msg_buf`. -/
theorem Inv.counted (h : Inv msgs s) (ht : s.pc t = .counted head) {s' : RxIf T M L}
    (hs' : s.operate t (.counted head) = some s') : Inv msgs s' := by
  have hd := h.not_over (t := t) (by rw [ht]; rfl)
  rw [RxIf.operate] at hs'
  split at hs'
  · rename_i msg freelist hfree
    rw [← Option.some.inj hs']
    refine h.move ?_ ?_ ?_ (by simp) (fun hd' => absurd hd' (by rw [hd]; decide))
      (walks_of_not_over hd _) (by simp [ht])
    · simp [ht, Pc.user]
    · intro msg'
      simp [ht, hfree, Pc.hasMsg, Pc.msg, List.count_cons]
    · simp [ht, Pc.hasHead, Pc.head]
  · rw [← Option.some.inj hs']
    refine h.move ?_ ?_ ?_ (by simp) (fun _ => rfl) h.walks (by simp [ht])
    · simp [ht, Pc.user]
    · simp [ht, Pc.hasMsg, Pc.msg]
    · simp [ht, Pc.hasHead, Pc.head]

/-- A list is pushed back, after the thread was counted out. -/
theorem Inv.pushed (h : Inv msgs s) (ht : s.pc t = .push head) :
    Inv msgs ({ s with pushed := s.pushed ++ [head] }.goto t .idle) := by
  refine h.move ?_ ?_ ?_ (by simp) (fun _ => rfl) h.walks (by simp [ht])
  · simp [ht, Pc.user]
  · simp [ht, Pc.hasMsg, Pc.msg]
  · intro head'
    simp [ht, Pc.hasHead, Pc.head, List.count_singleton]
    ring

/-- A list that was refused is given back. -/
theorem Inv.refused (h : Inv msgs s) (ht : s.pc t = .refused head) :
    Inv msgs ({ s with ref := s.ref - 1 }.goto t (.push head)) := by
  refine h.move ?_ ?_ ?_ (by simp) (fun _ => rfl) h.walks (by simp [ht])
  · simp [ht, Pc.user]
  · simp [ht, Pc.hasMsg, Pc.msg]
  · simp [ht, Pc.hasHead, Pc.head]

/-- A message is filled: it is in no other hands, and in no list. -/
theorem Inv.taken (h : Inv msgs s) (hnodup : msgs.Nodup) (ht : s.pc t = .taken msg head) :
    Inv msgs { s with
      tranData := Function.update s.tranData msg (some head)
      pc := Function.update s.pc t (.filled msg head) } where
  counts := h.counts.update (by change s.ref - s.inUse = _; simp [ht, Pc.user])
  places msg' := by
    rw [tally_update_same (by rw [ht]; rfl)]
    exact h.places msg'
  peeks := h.peeks
  -- No other thread, and no list, has the message, so that its data is read by nobody else.
  data := by
    have hother := (h.not_elsewhere hnodup (t := t) (by rw [ht]; rfl)).2.2.2.2
    intro t' msg' head' ht'
    dsimp only at ht' ⊢
    by_cases hne : t' = t
    · rw [hne, Function.update_self] at ht'
      obtain ⟨rfl, rfl⟩ := Pc.filled.inj ht'
      exact Function.update_self ..
    · rw [Function.update_of_ne hne] at ht'
      have hmsg : msg' ≠ msg := by
        rintro rfl
        exact hother t' hne (by rw [ht']; rfl)
      rw [Function.update_of_ne hmsg]
      exact h.data t' msg' head' ht'
  order := by
    have hbusy := (h.not_elsewhere hnodup (t := t) (by rw [ht]; rfl)).2.1
    have hmem : ∀ msg' ∈ s.unhandled, msg' ≠ msg := by
      rintro msg' hmem rfl
      exact hbusy (s.unhandled_subset hmem)
    have hmap : s.unhandled.map (Function.update s.tranData msg (some head)) =
        s.unhandled.map s.tranData :=
      List.map_congr_left fun msg' hmsg' => Function.update_of_ne (hmem msg' hmsg') ..
    have horder := h.order
    rwa [← hmap] at horder
  lists head' := by
    rw [tally_update_same (by rw [ht]; rfl)]
    exact h.lists head'
  -- The thread is counted, so that the other one has not come to the end.
  drained hd := by
    rw [h.not_over (t := t) (by rw [ht]; rfl)] at hd
    cases hd
  walks := h.walks
  notLost hne hqueue := h.notLost hne (queued_update (by simp [ht]) hqueue)

/-- A message is queued. -/
theorem Inv.filled (h : Inv msgs s) (ht : s.pc t = .filled msg head) :
    Inv msgs { s with
      busylist := s.busylist ++ [msg]
      queued := s.queued ++ [head]
      pc := Function.update s.pc t .queued } where
  -- The message leaves the hands of the thread for the busy list: every count moves from one to the
  -- other.
  counts := by
    refine h.counts.update ?_
    simp only [RxIf.inUse, ht, List.length_append, List.length_singleton, Pc.user,
      Bool.toInt_true, Bool.toInt_false]
    push_cast
    ring
  places msg' := by
    have hold := h.places msg'
    simp only [tally_update, ht, List.count_append, List.count_singleton]
    simp only [Pc.hasMsg, Pc.msg, Option.some_inj, beq_iff_eq, reduceCtorEq, if_false]
    push_cast
    omega
  peeks := h.peeks.append
  data := data_update h.data (by simp)
  -- It is the last one that was not handled, and its data are those of the list that was queued
  -- last.
  order := by
    have hmap := h.order
    have hun := unhandled_append (s := s) h.peeks msg
    simp only [RxIf.unhandled] at hun hmap
    simp only [RxIf.unhandled, hun, List.map_append, List.map_cons, List.map_nil,
      h.data t msg head ht, ← List.append_assoc, hmap]
  lists head' := by
    have hold := h.lists head'
    simp only [tally_update, ht, List.count_append, List.count_singleton]
    simp only [Pc.hasHead, Pc.head, Option.some_inj, beq_iff_eq, reduceCtorEq, if_false]
    push_cast
    omega
  drained hd := by
    rw [h.not_over (t := t) (by rw [ht]; rfl)] at hd
    cases hd
  walks := h.walks
  notLost _ hqueue := absurd (Function.update_self ..) (hqueue t)

/-- The work item is queued. -/
theorem Inv.queueWork (h : Inv msgs s) (ht : s.pc t = .queued) :
    Inv msgs { s with pending := true, pc := Function.update s.pc t .idle } where
  counts := h.counts.update (by change s.ref - s.inUse = _; simp [ht, Pc.user])
  places msg' := by
    rw [tally_update_same (by rw [ht]; rfl)]
    exact h.places msg'
  peeks := h.peeks
  data := data_update h.data (by simp)
  order := h.order
  lists head' := by
    rw [tally_update_same (by rw [ht]; rfl)]
    exact h.lists head'
  drained hd := by
    obtain ⟨hbusy, hworker, htakes⟩ := h.drained hd
    exact ⟨hbusy, hworker, takes_update htakes rfl⟩
  walks := h.walks
  notLost _ _ := .inl rfl

/-- The next operation of a thread. -/
theorem Inv.operate (h : Inv msgs s) (hnodup : msgs.Nodup) {s' : RxIf T M L}
    (hs' : s.operate t (s.pc t) = some s') : Inv msgs s' := by
  cases ht : s.pc t with
  | counted head =>
    rw [ht] at hs'
    exact h.counted ht hs'
  | idle =>
    rw [ht] at hs'
    exact Option.some.inj hs' ▸ h
  | refused head =>
    rw [ht] at hs'
    exact Option.some.inj hs' ▸ h.refused ht
  | push head =>
    rw [ht] at hs'
    exact Option.some.inj hs' ▸ h.pushed ht
  | taken msg head =>
    rw [ht] at hs'
    exact Option.some.inj hs' ▸ h.taken hnodup ht
  | filled msg head =>
    rw [ht] at hs'
    exact Option.some.inj hs' ▸ h.filled ht
  | queued =>
    rw [ht, RxIf.operate] at hs'
    split_ifs at hs' with hd
    exact Option.some.inj hs' ▸ h.queueWork ht

end

/-! ## The steps of the work item and of `sprdwl_rx_deinit` -/

section

variable [Fintype T] [DecidableEq M] [DecidableEq L] {s : RxIf T M L} {msgs : List M} {msg : M}

/-- The work item starts. -/
theorem Inv.run (h : Inv msgs s) (hw : s.worker = .idle) :
    Inv msgs { s with pending := false, worker := .loop } where
  counts := by
    have hold := h.counts
    rwa [RxIf.inUse, hw] at hold
  places msg := by
    have hold := h.places msg
    rwa [hw] at hold
  peeks := trivial
  data := h.data
  order := by
    have hold := h.order
    rwa [RxIf.unhandled, hw] at hold
  lists := h.lists
  drained hd := ⟨(h.drained hd).1, rfl, (h.drained hd).2.2⟩
  walks := h.walks
  notLost _ _ := .inr (by simp)

/-- The work item has found the list empty. -/
theorem Inv.workIdle (h : Inv msgs s) (hw : s.worker = .loop) (hbusy : s.busylist = []) :
    Inv msgs { s with worker := .idle } where
  counts := by
    have hold := h.counts
    rwa [RxIf.inUse, hw] at hold
  places msg := by
    have hold := h.places msg
    rwa [hw] at hold
  peeks := trivial
  data := h.data
  order := by
    have hold := h.order
    rwa [RxIf.unhandled, hw] at hold
  lists := h.lists
  drained hd := ⟨hbusy, rfl, (h.drained hd).2.2⟩
  walks := h.walks
  notLost hne := absurd hbusy hne

/-- It looks at the first message. -/
theorem Inv.workPeek (h : Inv msgs s) (hw : s.worker = .loop) {busylist : List M}
    (hbusy : s.busylist = msg :: busylist) : Inv msgs { s with worker := .peeked msg } where
  counts := by
    have hold := h.counts
    rwa [RxIf.inUse, hw] at hold
  places msg := by
    have hold := h.places msg
    rwa [hw] at hold
  peeks := by
    change s.busylist.head? = some msg
    rw [hbusy]
    rfl
  data := h.data
  order := by
    have hold := h.order
    rwa [RxIf.unhandled, hw] at hold
  lists := h.lists
  drained hd := ⟨(h.drained hd).1, rfl, (h.drained hd).2.2⟩
  walks := h.walks
  notLost _ _ := .inr (by simp)

/-- It gives the buffers of the message back. -/
theorem Inv.workHandle (h : Inv msgs s) (hw : s.worker = .peeked msg) :
    Inv msgs { s with handled := s.handled ++ [s.tranData msg], worker := .handled msg } where
  counts := by
    have hold := h.counts
    rwa [RxIf.inUse, hw] at hold
  places msg := by
    have hold := h.places msg
    rwa [hw] at hold
  peeks := by
    have hold := h.peeks
    rwa [hw] at hold
  data := h.data
  order := by
    have hold := h.order
    have hpeeks := h.peeks
    rw [hw] at hpeeks
    obtain ⟨busylist, hbusy⟩ := List.head?_eq_some_iff.1 hpeeks
    rw [RxIf.unhandled, hw] at hold
    simp only [hbusy, List.map_cons] at hold
    simp only [RxIf.unhandled, hbusy, List.tail_cons, List.append_assoc, List.singleton_append]
    exact hold
  lists := h.lists
  drained hd := ⟨(h.drained hd).1, rfl, (h.drained hd).2.2⟩
  walks := h.walks
  notLost _ _ := .inr (by simp)

/-- It takes the message off the list. -/
theorem Inv.workDel (h : Inv msgs s) (hw : s.worker = .handled msg) :
    Inv msgs { s with busylist := s.busylist.erase msg, worker := .dequeued msg } := by
  have hpeeks := h.peeks
  rw [hw] at hpeeks
  obtain ⟨busylist, hbusy⟩ := List.head?_eq_some_iff.1 hpeeks
  have herase : s.busylist.erase msg = busylist := by rw [hbusy, List.erase_cons_head]
  rw [herase]
  refine ⟨?_, ?_, trivial, h.data, ?_, h.lists, ?_, h.walks, fun _ _ => .inr (by simp)⟩
  · have hold := h.counts
    have hinUse : s.inUse = busylist.length + 1 := by
      rw [RxIf.inUse, hw, hbusy]
      rfl
    rwa [hinUse] at hold
  · intro msg'
    have hold := h.places msg'
    simp only [hw, hbusy, Worker.hasMsg, Worker.msg, List.count_cons] at hold ⊢
    simp only [Option.some_inj, beq_iff_eq, reduceCtorEq, if_false] at hold ⊢
    push_cast at hold
    linarith
  · have hold := h.order
    rwa [RxIf.unhandled, hw, hbusy] at hold
  · intro hd
    have hnil := (h.drained hd).1
    rw [hbusy] at hnil
    exact absurd hnil (by simp)

/-- The message is free. -/
theorem Inv.workFree (h : Inv msgs s) (hw : s.worker = .dequeued msg) :
    Inv msgs { s with freelist := s.freelist ++ [msg], ref := s.ref - 1, worker := .loop } where
  counts := by
    have hold := h.counts
    have hinUse : s.inUse = s.busylist.length + 1 := by
      rw [RxIf.inUse, hw]
      rfl
    have heq : s.ref - s.inUse = s.ref - 1 - (s.busylist.length + 0 : ℤ) := by omega
    rwa [heq] at hold
  places msg' := by
    have hold := h.places msg'
    simp only [hw, Worker.hasMsg, Worker.msg, List.count_append, List.count_singleton] at hold ⊢
    simp only [Option.some_inj, beq_iff_eq, reduceCtorEq, if_false] at hold ⊢
    push_cast
    linarith
  peeks := trivial
  data := h.data
  order := by
    have hold := h.order
    rwa [RxIf.unhandled, hw] at hold
  lists := h.lists
  drained hd := ⟨(h.drained hd).1, rfl, (h.drained hd).2.2⟩
  walks := walks_of_not_over (h.not_over_of_msg (by rw [hw]; rfl)) _
  notLost _ _ := .inr (by simp)

/-- The next operation of the work item. -/
theorem Inv.work (h : Inv msgs s) : Inv msgs (s.work s.worker) := by
  cases hw : s.worker with
  | idle => exact h
  | loop =>
    rw [RxIf.work]
    split
    · exact h.workIdle hw (by assumption)
    · exact h.workPeek hw (by assumption)
  | peeked msg => exact h.workHandle hw
  | handled msg => exact h.workDel hw
  | dequeued msg => exact h.workFree hw

/-- Nobody is counted when the wait ends, so that there is no message in use. -/
theorem Inv.waited (h : Inv msgs s) (hd : s.deinit = .wait) (hle : ¬s.ref > msgExitVal) :
    Inv msgs { s with deinit := .waited } := by
  have hcounts := h.counts
  rw [hd] at hcounts
  have hnonneg : 0 ≤ s.worker.msg.isSome.toInt := toInt_nonneg _
  have hcount := hcounts.le_count
  simp only [Deinit.marks, RxIf.inUse, mul_one] at hcount
  have hnone := hcounts.none_of_le (by simp only [Deinit.marks, RxIf.inUse, mul_one]; omega)
  have hbusy : s.busylist.length = 0 := by omega
  have hworker : s.worker.msg.isSome = false := by
    cases hsome : s.worker.msg.isSome with
    | false => rfl
    | true =>
      rw [hsome, Bool.toInt_true] at hcount
      omega
  refine { h with counts := hcounts, drained := fun _ => ⟨?_, ?_, ?_⟩, walks := trivial }
  · exact List.length_eq_zero_iff.1 hbusy
  · exact Option.not_isSome_iff_eq_none.1 (by rw [hworker]; decide)
  · exact fun t => takes_of_user (hnone t)

/-- A turn of the loop over the free list, which nobody else changes. -/
theorem Inv.freeMsg (h : Inv msgs s) (hnodup : msgs.Nodup) {pos : Option M}
    (hd : s.deinit = .free (some msg) pos) :
    ∃ s', s.deinitStep false (.free (some msg) pos) = some s' ∧ Inv msgs s' := by
  have hwalks := h.walks
  rw [hd] at hwalks
  obtain ⟨hhead, hpos⟩ := hwalks
  obtain ⟨freelist, hfree⟩ := List.head?_eq_some_iff.1 hhead.symm
  obtain ⟨hmsg, -⟩ := List.nodup_cons.1 (hfree ▸ h.nodup_freelist hnodup)
  have hpos : pos = freelist.head? := by
    rw [hpos, hfree, RxIf.behind, List.dropWhile_cons_of_neg (by simp), List.tail_cons]
  have hmem : ∀ msg' ∈ pos, msg' ∈ freelist := fun msg' hmsg' =>
    List.mem_of_mem_head? (hpos ▸ hmsg')
  have hbehind : RxIf.behind (msg :: freelist) pos = RxIf.behind freelist pos := by
    cases pos with
    | none => rfl
    | some msg' =>
      have hne : msg ≠ msg' := fun heq => hmsg (heq ▸ hmem msg' rfl)
      rw [RxIf.behind, RxIf.behind, List.dropWhile_cons_of_pos (by simpa using hne)]
  rw [RxIf.deinitStep, hfree, if_pos ⟨List.mem_cons_self, fun msg' hmsg' =>
    List.mem_cons_of_mem _ (hmem msg' hmsg')⟩, List.erase_cons_head, hbehind]
  have hover : s.deinit.over = true := by rw [hd]; rfl
  have hcounts := h.counts
  rw [hd] at hcounts
  refine ⟨_, rfl, { h with
    counts := hcounts, places := fun msg' => ?_, drained := fun _ => h.drained hover,
    walks := ⟨hpos, rfl⟩ }⟩
  have hold := h.places msg'
  simp only [hfree, List.count_cons, List.count_append, List.count_nil] at hold ⊢
  push_cast at hold ⊢
  linarith

/-- The next step of `sprdwl_rx_deinit`. -/
theorem Inv.deinitStep (h : Inv msgs s) (hnodup : msgs.Nodup) :
    ∃ s', s.deinitStep false s.deinit = some s' ∧ Inv msgs s' := by
  cases hd : s.deinit with
  | none =>
    refine ⟨_, rfl, ?_⟩
    split_ifs with hidle
    · refine { h with counts := ?_, drained := nofun, walks := trivial }
      have hold := h.counts
      rwa [hd] at hold
    · exact h
  | destroyed =>
    refine ⟨_, rfl, { h with counts := ?_, drained := nofun, walks := trivial }⟩
    have hold := h.counts.mark 1
    rw [hd, mul_one] at hold
    have heq : s.ref - s.inUse + msgExitVal = s.ref + msgExitVal - s.inUse := by ring
    rwa [heq] at hold
  | wait =>
    refine ⟨_, rfl, ?_⟩
    split_ifs with hgt hlate
    · exact absurd hlate (by decide)
    · exact h
    · exact h.waited hd hgt
  | waited =>
    have hover : s.deinit.over = true := by rw [hd]; rfl
    have hcounts := h.counts
    rw [hd] at hcounts
    exact ⟨_, rfl, { h with
      counts := hcounts, drained := fun _ => h.drained hover, walks := ⟨rfl, rfl⟩ }⟩
  | free msgBuf pos =>
    cases msgBuf with
    | none =>
      -- The end of the list: all messages were freed.
      have hover : s.deinit.over = true := by rw [hd]; rfl
      have hcounts := h.counts
      have hwalks := h.walks
      rw [hd] at hcounts hwalks
      exact ⟨_, rfl, { h with
        counts := hcounts, drained := fun _ => h.drained hover
        walks := List.head?_eq_none_iff.1 hwalks.1.symm }⟩
    | some msg => exact h.freeMsg hnodup hd
  | done => exact ⟨s, rfl, h⟩

variable [DecidableEq T]

/-- Every step that meets the condition keeps the invariant, and none crashes. -/
theorem step_inv (hnodup : msgs.Nodup) (h : Inv msgs s) {e : Event T L} (hfair : Fair s e) :
    ∃ s', (rxList T M L).step s e = some s' ∧ Inv msgs s' := by
  -- Fairness says what the kernel promises: no list comes after the end, a thread works only on a
  -- queue that is there, and nobody gives up waiting.
  cases e with
  | arrive t head =>
    have hfair : s.deinit ≠ .done := hfair
    cases ht : s.pc t with
    | idle =>
      simp only [rxList, ht, if_neg hfair]
      exact ⟨_, rfl, h.arrive ht⟩
    | _ =>
      simp only [rxList, ht]
      exact ⟨_, rfl, h⟩
  | step t =>
    obtain ⟨hqueued, huses⟩ := hfair
    simp only [rxList]
    -- Then the step does not crash, and what it does is one of the operations above.
    rw [if_neg fun hcrash => huses hcrash.1 hcrash.2]
    obtain ⟨s', hs'⟩ : ∃ s', s.operate t (s.pc t) = some s' := by
      cases ht : s.pc t with
      | queued => exact ⟨_, if_pos (hqueued ht)⟩
      | counted head =>
        rw [RxIf.operate]
        split <;> exact ⟨_, rfl⟩
      | _ => exact ⟨_, rfl⟩
    exact ⟨s', hs', h.operate hnodup hs'⟩
  | run =>
    cases hw : s.worker with
    | idle =>
      simp only [rxList, hw]
      refine ⟨_, rfl, ?_⟩
      split_ifs
      · exact h.run hw
      · exact h
    | _ =>
      simp only [rxList, hw]
      exact ⟨_, rfl, h⟩
  | work => exact ⟨_, rfl, h.work⟩
  | deinit late =>
    obtain rfl : late = false := hfair
    exact h.deinitStep hnodup

/-- A run whose steps meet the condition does not crash, and keeps the invariant. -/
theorem run_inv (hnodup : msgs.Nodup) {es : List (Event T L)}
    (hfair : (rxList T M L).Along Fair (.init msgs) es) :
    ∃ s, (rxList T M L).run (.init msgs) es = some s ∧ Inv msgs s :=
  Machine.exists_run_history (I := fun _ s => Inv msgs s)
    (fun _ _ _ h hfair => step_inv hnodup h hfair) (inv_init msgs) hfair

end

/-! ## Every run -/

/-- Nothing is to be done: no thread is in `intf_rx_handle`, and the work item neither runs nor is
    pending. -/
def Quiet (s : RxIf T M L) : Prop :=
  (∀ t, s.pc t = .idle) ∧ s.pending = false ∧ s.worker = .idle

/-- What became of the lists that have arrived. -/
structure Accounted [Fintype T] [DecidableEq L] (s : RxIf T M L) : Prop where
  /-- They are handled in the order in which they were queued. -/
  order : s.handled <+: s.queued.map some
  /-- Each was queued or pushed back as often as it arrived, unless a thread has it. -/
  lists : ∀ head, (s.arrived.count head : ℤ) =
    s.queued.count head + s.pushed.count head + tally (Pc.hasHead head) s.pc
  /-- When nothing is to be done, each was handled or pushed back. -/
  quiet : Quiet s → s.handled = s.queued.map some ∧
    ∀ head, s.arrived.count head = s.handled.count (some head) + s.pushed.count head

/-- Whatever the order of the steps, nothing crashes, the buffers of every list that arrives are
    given back to the bus once, those of queued lists in order, and none is left when there is
    nothing more to do. -/
theorem rxList_accounted {T M L : Type*} [Fintype T] [DecidableEq T] [DecidableEq M]
    [DecidableEq L] (msgs : List M) (hnodup : msgs.Nodup) (es : List (Event T L))
    (hfair : (rxList T M L).Along Fair (.init msgs) es) :
    ∃ s, (rxList T M L).run (.init msgs) es = some s ∧ Accounted s := by
  obtain ⟨s, hs, h⟩ := run_inv hnodup hfair
  refine ⟨s, hs, ⟨_, h.order⟩, h.lists, ?_⟩
  rintro ⟨hidle, hpending, hworker⟩
  have hbusy : s.busylist = [] := by
    by_contra hne
    have hwork := h.notLost hne fun t => by rw [hidle t]; simp
    rw [hpending, hworker] at hwork
    exact absurd hwork (by simp)
  have horder := h.order
  rw [RxIf.unhandled, hworker, hbusy] at horder
  have hhandled : s.handled = s.queued.map some := by
    rwa [List.map_nil, List.append_nil] at horder
  refine ⟨hhandled, fun head => ?_⟩
  have hlists := h.lists head
  rw [tally_eq_zero fun t => by rw [hidle t]; rfl] at hlists
  rw [hhandled, List.count_map_of_injective _ _ (Option.some_injective L)]
  omega

/-- The messages that were freed, and those in use. -/
structure Safe (msgs : List M) (s : RxIf T M L) : Prop where
  /-- A message that was freed is in no list and in nobody's hands. -/
  freed : ∀ msg ∈ s.freed, msg ∉ s.freelist ∧ msg ∉ s.busylist ∧ s.worker.msg ≠ some msg ∧
    ∀ t, (s.pc t).msg ≠ some msg
  /-- After the wait, all messages are free or freed, and no thread is about to take one. -/
  drained : s.deinit.over = true →
    (s.freelist ++ s.freed).Perm msgs ∧ s.busylist = [] ∧ ∀ t, (s.pc t).takes = false
  /-- When `rx_if` is freed, all messages were. -/
  done : s.deinit = .done → s.freed.Perm msgs

/-- `sprdwl_msg_deinit` frees no message that is used after that, leaves none in use, and frees all
    of them. -/
theorem msgDeinit_safe {T M L : Type*} [Fintype T] [DecidableEq T] [DecidableEq M] [DecidableEq L]
    (msgs : List M) (hnodup : msgs.Nodup) (es : List (Event T L))
    (hfair : (rxList T M L).Along Fair (.init msgs) es) :
    ∃ s, (rxList T M L).run (.init msgs) es = some s ∧ Safe msgs s := by
  obtain ⟨s, hs, h⟩ := run_inv hnodup hfair
  have hdrained : s.deinit.over = true →
      (s.freelist ++ s.freed).Perm msgs ∧ s.busylist = [] ∧ ∀ t, (s.pc t).takes = false := by
    intro hd
    obtain ⟨hbusy, hworker, htakes⟩ := h.drained hd
    refine ⟨List.perm_iff_count.2 fun msg => ?_, hbusy, htakes⟩
    have hplaces := h.places msg
    have hhand : tally (Pc.hasMsg msg) s.pc = 0 := tally_eq_zero fun t => by
      rw [Pc.hasMsg, msg_of_takes (htakes t)]
      rfl
    rw [hhand, hbusy, Worker.hasMsg, hworker] at hplaces
    simp only [List.count_nil, reduceCtorEq, if_false] at hplaces
    rw [List.count_append]
    omega
  refine ⟨s, hs, fun msg hmem => h.freed hnodup hmem, hdrained, fun hd => ?_⟩
  have hwalks := h.walks
  rw [hd] at hwalks
  have hnil : s.freelist = [] := hwalks
  have hperm := (hdrained (by rw [hd]; rfl)).1
  rwa [hnil, List.nil_append] at hperm

/-- Two lists arrive while there is one message, one more during the wait, and everything is
    freed. -/
def closing : List (Event (Fin 2) ℕ) :=
  [.arrive 0 7, .arrive 1 8, .step 1, .step 0, .step 0, .step 0, .step 1, .step 1, .step 1, .step 1,
    .run, .work, .work, .work, .work, .work, .deinit false, .deinit false, .arrive 0 9,
    .deinit false, .step 0, .deinit false, .deinit false, .step 0, .deinit false, .deinit false]

/-- A thread is counted as the other one closes the list. -/
theorem rxList_accounted_closing : ([0] : List ℕ).Nodup ∧
    ∃ s, (rxList (Fin 2) ℕ ℕ).run (.init [0]) closing = some s ∧ Accounted s :=
  ⟨by decide, rxList_accounted [0] (by decide) closing (by decide)⟩

/-- The queue is destroyed between `sprdwl_queue_msg_buf` and `queue_work`, or a list arrives when
    `rx_if` was freed. -/
example : ((rxList (Fin 1) ℕ ℕ).run (.init [0])
      [.arrive 0 7, .step 0, .step 0, .step 0, .deinit false, .step 0]).isNone = true ∧
    ((rxList (Fin 1) ℕ ℕ).run (.init [0])
      (List.replicate 6 (.deinit false) ++ [.arrive 0 7])).isNone = true := by decide

/-- The thread gives its entry back before the list is freed, as the wait is long enough. -/
theorem msgDeinit_safe_closing :
    (∃ s, (rxList (Fin 2) ℕ ℕ).run (.init [0]) closing = some s ∧ s.deinit = .done ∧
      s.freed = [0] ∧ s.pushed = [7, 9] ∧ s.handled = [some 8]) ∧
    ∃ s, (rxList (Fin 2) ℕ ℕ).run (.init [0]) closing = some s ∧ Safe [0] s :=
  ⟨Machine.exists_run (by decide), msgDeinit_safe [0] (by decide) closing (by decide)⟩

end W132d.RxList
