import W132d.Machine
import W132d.Mutex
import W132d.Completion

/-!
# Commands to the firmware

The driver sends one command at a time to the firmware, and waits for its response (`cmdevt.c`).
All commands share one slot, which has the command that is waited for, told by its number and by the
time it was sent at, and its response once that is there.

* `SprdwlCmd`: the slot;
* `Cmd`, `Rsp`: commands and responses;
* `Pc`: where a thread is that sends a command, processes a response or takes the slot down;
* `State`, `Event`, `State.next`: the state of all threads, and what a step does;
* `commands`: the machine;
* `Inv`, `inv_step`: who has the command lock is alone.

Sections that the spin lock guards are one step. Every command asks for a response (`hdr.rsp`), as
all callers have it.
-/

namespace W132d.Cmd

variable {T : Type*}

/-! ## The slot -/

/-- `SPRDWL_CMD_EXIT_VAL`. -/
def sprdwlCmdExitVal : ℕ := 0x8000

/-- `WIFI_CMD_CLOSE`. -/
def wifiCmdClose : UInt8 := 4

/-- `WIFI_CMD_HANG_RECEIVED`. -/
def wifiCmdHangReceived : UInt8 := 78

/-- `WIFI_CMD_MAX`. -/
def wifiCmdMax : UInt8 := 85

/-- `STAP_MODE_P2P_DEVICE`. -/
def stapModeP2pDevice : UInt8 := 2

/-- A response, i.e., what `sprdwl_rx_rsp_process` reads of its `struct sprdwl_cmd_hdr`. -/
structure Rsp where
  ctxId : UInt8
  cmdId : UInt8
  plen : UInt16
  mstime : UInt32
  deriving DecidableEq

/-- The checks of `sprdwl_rx_rsp_process`. -/
def Rsp.valid (rsp : Rsp) : Bool :=
  ¬(rsp.ctxId > stapModeP2pDevice ∨ rsp.cmdId > wifiCmdMax ∨ rsp.plen > 2048)

/-- `struct sprdwl_cmd`, with who has `cmd_lock`. -/
structure SprdwlCmd (T : Type*) where
  cmdId : UInt8
  initOk : Bool
  mstime : UInt32
  data : Option Rsp
  refcnt : ℕ
  cmdLock : Option T
  completed : Completion

namespace SprdwlCmd

/-- `sprdwl_cmd_init`. -/
def init : SprdwlCmd T := ⟨0, true, 0, none, 0, none, .reinit⟩

variable (cmd : SprdwlCmd T)

/-- `sprdwl_cmd_set` of a header, at the time `mstime`. -/
def set (cmdId : UInt8) (mstime : UInt32) : SprdwlCmd T := { cmd with data := none, mstime, cmdId }

/-- `sprdwl_cmd_clean`. -/
def clean : SprdwlCmd T := { cmd with data := none, mstime := 0, cmdId := 0 }

/-- Whether the section of `sprdwl_rx_rsp_process` takes the response. -/
def takes (rsp : Rsp) : Bool := cmd.data = none ∧ rsp.mstime = cmd.mstime ∧ rsp.cmdId = cmd.cmdId

/-- The section of `sprdwl_rx_rsp_process`. -/
def rxRsp (rsp : Rsp) : SprdwlCmd T :=
  if cmd.takes rsp then { cmd with data := some rsp, completed := cmd.completed.complete } else cmd

end SprdwlCmd

/-! ## The threads -/

/-- A call of `sprdwl_cmd_send_recv`, if it is to `wait`, or of `sprdwl_cmd_send_recv_no_wait`.
    How many responses had been processed as it began is a record only. -/
structure Call where
  cmdId : UInt8
  wait : Bool
  start : ℕ
  deriving DecidableEq

/-- A call that has set the slot at the time `mstime`. How many responses had been processed by then
    is a record only. -/
structure Own extends Call where
  mstime : UInt32
  since : ℕ
  deriving DecidableEq

/-- Where a thread is. -/
inductive Pc where
  | idle
  /-- `sprdwl_cmd_lock`, about to count itself. -/
  | lock (call : Call)
  /-- It is not let in, and about to take that back. -/
  | undo
  /-- About to take `cmd_lock`. -/
  | mutex (call : Call)
  /-- About to call `reinit_completion`. -/
  | reinit (call : Call)
  /-- About to call `sprdwl_cmd_set`. -/
  | set (call : Call)
  /-- About to call `sprdwl_send_cmd`. -/
  | send (own : Own)
  /-- `sprdwl_timeout_recv_rsp`, waiting. -/
  | waiting (own : Own)
  /-- About to look for an exit or a hang recovery. -/
  | checkExit (own : Own)
  /-- About to look for the response. -/
  | checkData (own : Own)
  /-- `sprdwl_timeout_recv_rsp` has returned `ret`. Whether the wait has timed out, and how many
      responses had been processed by then, are a record only. -/
  | received (own : Own) (ret : ℤ) (timedOut : Bool) (upTo : ℕ)
  /-- `sprdwl_cmd_unlock`, about to unlock `cmd_lock`. -/
  | unlock (own : Own) (ret : ℤ)
  /-- About to take the count back. -/
  | release (own : Own) (ret : ℤ)
  /-- The call has returned `ret`, having had the lock. -/
  | returned (own : Own) (ret : ℤ)
  /-- The call has returned `ret` without. -/
  | refused (ret : ℤ)
  /-- `sprdwl_rx_rsp_process`, about to count itself. -/
  | rxLock (rsp : Rsp)
  /-- About to allocate memory. -/
  | rxAlloc (rsp : Rsp)
  /-- About to enter the section of the spin lock. -/
  | rxSection (rsp : Rsp)
  /-- About to take the count back. -/
  | rxRelease
  /-- `sprdwl_cmd_deinit`, about to complete the completion. -/
  | deinit
  /-- Waiting for all others to leave. -/
  | deinitWait
  /-- About to call `sprdwl_cmd_clean`. -/
  | deinitClean
  /-- About to clear `init_ok`. -/
  | deinitOk
  deriving DecidableEq

/-- The thread is in none of the functions. -/
def Pc.Free : Pc → Prop
  | idle | returned _ _ | refused _ => True
  | _ => False

instance : DecidablePred Pc.Free
  | .idle | .returned _ _ | .refused _ => .isTrue trivial
  | .lock _ | .undo | .mutex _ | .reinit _ | .set _ | .send _ | .waiting _ | .checkExit _
  | .checkData _ | .received _ _ _ _ | .unlock _ _ | .release _ _ | .rxLock _ | .rxAlloc _
  | .rxSection _ | .rxRelease | .deinit | .deinitWait | .deinitClean | .deinitOk => .isFalse id

/-- A response that was compared with what the slot expects, and whether it was taken. -/
structure Answer where
  rsp : Rsp
  accepted : Bool
  deriving DecidableEq

/-- The slot, and what the other parts of the driver ask for. The `answers`, and whether the slot
    was `cleaned`, are a record only. -/
structure Shared (T : Type*) where
  cmd : SprdwlCmd T
  exit : Bool
  cpAsserted : Bool
  cmdNotAllowed : Bool
  hangAcked : Bool
  answers : List Answer
  cleaned : Bool

/-- A slot that was initialized. -/
def Shared.init : Shared T := ⟨.init, false, false, false, false, [], false⟩

/-- What a thread does. -/
inductive Act where
  /-- A call, and whether `sprdwl_api_available_check` lets it pass. -/
  | call (cmdId : UInt8) (wait available : Bool)
  /-- The thread goes on. -/
  | go
  /-- `sprdwl_cmd_set`, at the time `mstime`. -/
  | set (mstime : UInt32)
  /-- `sprdwl_send_cmd`, which may fail. -/
  | send (sent : Bool)
  /-- The wait for a response times out. -/
  | timeout
  /-- A response arrives. -/
  | respond (rsp : Rsp)
  /-- `kmalloc`, which may fail. -/
  | alloc (ok : Bool)
  /-- `sprdwl_cmd_deinit`. -/
  | deinit
  /-- It has waited for a second. -/
  | deinitTimeout
  deriving DecidableEq

namespace Shared

variable (s : Shared T)

/-- `atomic_inc_return` of `refcnt`: the thread goes on to `pc` if it is let in, and to `pc'` if it
    is not. -/
def count (pc pc' : Pc) : Shared T × Pc :=
  let cmd := { s.cmd with refcnt := s.cmd.refcnt + 1 }
  ({ s with cmd }, if cmd.refcnt ≥ sprdwlCmdExitVal then pc' else pc)

/-- `atomic_dec` of `refcnt`. -/
def uncount : Shared T := { s with cmd := { s.cmd with refcnt := s.cmd.refcnt - 1 } }

/-- `complete` of the completion. -/
def complete : Shared T := { s with cmd := { s.cmd with completed := s.cmd.completed.complete } }

/-- `sprdwl_timeout_recv_rsp` of a wait that did not time out, up to where it looks for the
    response. -/
def checkExit (own : Own) : Pc :=
  if s.exit ∨ s.cmd.refcnt ≥ sprdwlCmdExitVal then .received own (-1) false s.answers.length
  else if s.hangAcked ∧ s.cmd.cmdId ≠ wifiCmdHangReceived then
    .received own (-1) false s.answers.length
  else .checkData own

/-- `sprdwl_cmd_send_recv` from where the response was waited for. -/
def received (own : Own) (ret : ℤ) : Shared T × Pc :=
  if s.cmdNotAllowed then (s, .unlock own 0)
  else if ret = -1 ∧ own.cmdId = wifiCmdClose ∧ ¬s.cpAsserted then
    -- `sprdwl_atcmd_assert`.
    ({ s with cpAsserted := true, exit := true }, .unlock own ret)
  else (s, .unlock own ret)

/-- `sprdwl_cmd_unlock`, which does nothing once `init_ok` was cleared. -/
def unlock (own : Own) (ret : ℤ) : Shared T × Pc :=
  if s.cmd.initOk then ({ s with cmd := { s.cmd with cmdLock := none } }, .release own ret)
  else (s, .returned own ret)

/-- The section of `sprdwl_rx_rsp_process`. -/
def rxSection (rsp : Rsp) : Shared T :=
  { s with cmd := s.cmd.rxRsp rsp, answers := s.answers ++ [⟨rsp, s.cmd.takes rsp⟩] }

/-- The thread `t` goes on. It stays where it is if it has to wait, or if its step is another
    one. -/
def go [DecidableEq T] (t : T) : Pc → Shared T × Pc
  | .lock call => if s.cmd.initOk then s.count (.mutex call) .undo else (s, .refused 0)
  | .undo => (s.uncount, .refused 0)
  | .mutex call =>
    if s.cmd.cmdLock = none then
      ({ s with cmd := { s.cmd with cmdLock := some t } },
        if call.wait then .reinit call else .set call)
    else (s, .mutex call)
  | .reinit call => ({ s with cmd := { s.cmd with completed := .reinit } }, .set call)
  | .waiting own =>
    match s.cmd.completed.wait with
    | some completed => ({ s with cmd := { s.cmd with completed } }, .checkExit own)
    | none => (s, .waiting own)
  | .checkExit own => (s, s.checkExit own)
  | .checkData own =>
    (s, .received own (if s.cmd.data.isSome then 0 else -1) false s.answers.length)
  | .received own ret _ _ => s.received own ret
  | .unlock own ret => s.unlock own ret
  | .release own ret => (s.uncount, .returned own ret)
  | .rxLock rsp => s.count (.rxAlloc rsp) .rxRelease
  | .rxSection rsp => (s.rxSection rsp, .rxRelease)
  | .rxRelease => (s.uncount, .idle)
  | .deinit => (s.complete, .deinitWait)
  | .deinitWait => (s, if s.cmd.refcnt > sprdwlCmdExitVal then .deinitWait else .deinitClean)
  | .deinitClean => ({ s with cmd := s.cmd.clean, cleaned := true }, .deinitOk)
  | .deinitOk => ({ s with cmd := { s.cmd with initOk := false } }, .idle)
  | pc => (s, pc)

/-- What the thread `t` does at `pc`, if it is where this begins, and where it goes on. -/
def act [DecidableEq T] (t : T) (pc : Pc) : Act → Shared T × Pc
  | .call cmdId wait available =>
    if ¬pc.Free then (s, pc)
    else if wait ∧ ¬available then (s, .refused (-1))
    else (s, .lock ⟨cmdId, wait, s.answers.length⟩)
  | .go => s.go t pc
  | .set mstime =>
    match pc with
    | .set call =>
      ({ s with cmd := s.cmd.set call.cmdId mstime }, .send ⟨call, mstime, s.answers.length⟩)
    | pc => (s, pc)
  | .send sent =>
    match pc with
    | .send own =>
      (s, if ¬sent then .unlock own (-1) else if own.wait then .waiting own else .unlock own 0)
    | pc => (s, pc)
  | .timeout =>
    match pc with
    | .waiting own =>
      (s, if s.cmd.completed.done = 0 then .received own (-1) true s.answers.length
        else .waiting own)
    | pc => (s, pc)
  | .respond rsp => (s, if pc.Free ∧ s.cmd.initOk ∧ rsp.valid then .rxLock rsp else pc)
  | .alloc ok =>
    match pc with
    | .rxAlloc rsp => (s, if ok then .rxSection rsp else .rxRelease)
    | pc => (s, pc)
  | .deinit =>
    if pc.Free then
      ({ s with cmd := { s.cmd with refcnt := s.cmd.refcnt + sprdwlCmdExitVal } }, .deinit)
    else (s, pc)
  | .deinitTimeout => (s, if pc = .deinitWait then .deinitClean else pc)

end Shared

/-! ## The machine -/

/-- What is shared, and where the threads are. -/
structure State (T : Type*) extends Shared T where
  pc : T → Pc

/-- No thread has called anything yet. -/
def State.init : State T := ⟨.init, fun _ => .idle⟩

/-- What happens. -/
inductive Event (T : Type*) where
  | act (t : T) (a : Act)
  /-- `intf->exit` is set. -/
  | exit
  /-- `sprdwl_wifi_reset`. -/
  | reset
  /-- The hang recovery is acknowledged, or it ends. -/
  | hang (acked : Bool)
  /-- `sprdwl_cmd_wake_upall`. -/
  | wakeUpall
  deriving DecidableEq

/-- What a step does. -/
def State.next [DecidableEq T] (s : State T) : Event T → State T
  | .act t a =>
    match s.toShared.act t (s.pc t) a with
    | (shared, pc) => ⟨shared, Function.update s.pc t pc⟩
  | .exit => { s with exit := true }
  | .reset => { s with cmdNotAllowed := true, cpAsserted := true, exit := true }
  | .hang acked => { s with hangAcked := acked }
  | .wakeUpall => ⟨s.complete, s.pc⟩

/-- All threads, one step at a time. -/
def commands [DecidableEq T] : Machine (State T) (Event T) where
  step s e := some (s.next e)

/-! ## The command lock -/

/-- The thread has the command lock. -/
def Pc.HasLock : Pc → Prop
  | reinit _ | set _ | send _ | waiting _ | checkExit _ | checkData _ | received _ _ _ _
  | unlock _ _ => True
  | _ => False

/-- What a thread does to the command lock, and whether it has it then. -/
structure Locks (t : T) (pc pc' : Pc) (lock lock' : Option T) : Prop where
  kept : lock' = lock ∨ lock = none ∨ pc.HasLock
  has : pc'.HasLock → lock' = some t ∨ pc.HasLock ∧ lock' = lock

variable {lock : Option T} {t : T} {pc pc' : Pc} {s : Shared T} {a : Act}

/-- A thread that leaves the lock alone. -/
theorem locks_keep (h : pc'.HasLock → pc.HasLock) : Locks t pc pc' lock lock :=
  ⟨.inl rfl, fun h' => .inr ⟨h h', rfl⟩⟩

variable [DecidableEq T]

/-- A thread that goes on takes the lock if nobody has it, and gives it back. -/
theorem go_locks : Locks t pc (s.go t pc).2 s.cmd.cmdLock (s.go t pc).1.cmd.cmdLock := by
  -- The lock is taken in `mutex` and given back in `unlock`; nothing else touches it.
  cases pc with
  | lock call =>
    rw [Shared.go]
    split
    · rw [Shared.count]
      dsimp only
      split <;> exact locks_keep id
    · exact locks_keep id
  | mutex call =>
    rw [Shared.go]
    split
    · rename_i hlock
      exact ⟨.inr (.inl hlock), fun _ => .inl rfl⟩
    · exact locks_keep id
  | waiting own =>
    rw [Shared.go]
    split
    · exact locks_keep id
    · exact locks_keep id
  | received own ret timedOut upTo =>
    rw [Shared.go, Shared.received]
    split
    · exact locks_keep id
    · split <;> exact locks_keep id
  | unlock own ret =>
    rw [Shared.go, Shared.unlock]
    split
    · exact ⟨.inr (.inr trivial), fun h => absurd h id⟩
    · exact locks_keep fun h => absurd h id
  | rxLock rsp =>
    rw [Shared.go, Shared.count]
    dsimp only
    split <;> exact locks_keep id
  | rxSection rsp =>
    rw [Shared.go, Shared.rxSection, SprdwlCmd.rxRsp]
    dsimp only
    split <;> exact locks_keep id
  | deinitWait =>
    rw [Shared.go]
    dsimp only
    split <;> exact locks_keep id
  | checkExit own => exact locks_keep fun _ => trivial
  | _ => exact locks_keep id

/-- So does a thread whatever it does. -/
theorem act_locks :
    Locks t pc (s.act t pc a).2 s.cmd.cmdLock (s.act t pc a).1.cmd.cmdLock := by
  -- The lock is taken and given back in `go` only. The other actions begin or end a section without
  -- it, or stay in one.
  cases a with
  | go => exact go_locks
  | call cmdId wait available =>
    rw [Shared.act]
    split
    · exact locks_keep id
    · split <;> exact locks_keep fun h => absurd h id
  | set mstime =>
    cases pc with
    | set call => exact locks_keep fun _ => trivial
    | _ => exact locks_keep id
  | send sent =>
    cases pc with
    | send own => exact locks_keep fun _ => trivial
    | _ => exact locks_keep id
  | timeout =>
    cases pc with
    | waiting own => exact locks_keep fun _ => trivial
    | _ => exact locks_keep id
  | respond rsp =>
    rw [Shared.act]
    dsimp only
    split
    · exact locks_keep fun h => absurd h id
    · exact locks_keep id
  | alloc ok =>
    cases pc with
    | rxAlloc rsp =>
      rw [Shared.act]
      dsimp only
      split <;> exact locks_keep id
    | _ => exact locks_keep id
  | deinit =>
    rw [Shared.act]
    split
    · exact locks_keep fun h => absurd h id
    · exact locks_keep id
  | deinitTimeout =>
    rw [Shared.act]
    dsimp only
    split
    · exact locks_keep fun h => absurd h id
    · exact locks_keep id

/-- Who is where the lock is needed has it. -/
def Locked (s : State T) : Prop := ∀ t, (s.pc t).HasLock → s.cmd.cmdLock = some t

/-- A step of one thread keeps where the others are. -/
theorem next_act_pc_of_ne {s : State T} {u : T} (hu : u ≠ t) :
    (s.next (.act t a)).pc u = s.pc u :=
  Function.update_of_ne hu _ s.pc

@[simp] theorem next_act_pc {s : State T} :
    (s.next (.act t a)).pc t = (s.toShared.act t (s.pc t) a).2 := Function.update_self t _ s.pc

/-- The command lock excludes. -/
theorem locked_next {s : State T} {e : Event T} (h : Locked s) : Locked (s.next e) := by
  cases e with
  | act t a =>
    obtain ⟨hkept, hhas⟩ := @act_locks T t (s.pc t) s.toShared a _
    exact Mutex.Locked.update h ⟨hkept, hhas⟩
  | exit => exact h
  | reset => exact h
  | hang acked => exact h
  | wakeUpall => exact h

omit [DecidableEq T] in
/-- Nobody has called anything yet. -/
theorem locked_init : Locked (.init : State T) := fun _ h => absurd h id

/-! ## The slot -/

/-- What is expected and what was answered stays the same. -/
structure Keeps (s s' : Shared T) : Prop where
  cmdId : s'.cmd.cmdId = s.cmd.cmdId
  mstime : s'.cmd.mstime = s.cmd.mstime
  data : s'.cmd.data = s.cmd.data
  answers : s'.answers = s.answers
  cleaned : s'.cleaned = s.cleaned
  cmdNotAllowed : s'.cmdNotAllowed = s.cmdNotAllowed

/-- The thread is about to write the slot. -/
def Writes : Pc → Act → Prop
  | .set _, .set _ => True
  | .rxSection _, .go => True
  | .deinitClean, .go => True
  | _, _ => False

omit [DecidableEq T] in
theorem Keeps.refl : Keeps s s := ⟨rfl, rfl, rfl, rfl, rfl, rfl⟩

/-- Only who writes the slot changes what is expected, or answers. -/
theorem act_keeps (h : ¬Writes pc a) : Keeps s (s.act t pc a).1 := by
  -- The sections that write the shared command are those of `Writes`; the others read it.
  cases a with
  | go =>
    rw [Shared.act]
    cases pc with
    | lock call => rw [Shared.go]; split <;> exact ⟨rfl, rfl, rfl, rfl, rfl, rfl⟩
    | mutex call => rw [Shared.go]; split <;> exact ⟨rfl, rfl, rfl, rfl, rfl, rfl⟩
    | waiting own => rw [Shared.go]; split <;> exact ⟨rfl, rfl, rfl, rfl, rfl, rfl⟩
    | received own ret timedOut upTo =>
      rw [Shared.go, Shared.received]
      split
      · exact Keeps.refl
      · split <;> exact ⟨rfl, rfl, rfl, rfl, rfl, rfl⟩
    | unlock own ret =>
      rw [Shared.go, Shared.unlock]
      split <;> exact ⟨rfl, rfl, rfl, rfl, rfl, rfl⟩
    | rxSection rsp => exact absurd trivial h
    | deinitClean => exact absurd trivial h
    | _ => exact ⟨rfl, rfl, rfl, rfl, rfl, rfl⟩
  | call cmdId wait available =>
    rw [Shared.act]
    split
    · exact Keeps.refl
    · split <;> exact Keeps.refl
  | set mstime =>
    cases pc with
    | set call => exact absurd trivial h
    | _ => exact Keeps.refl
  | deinit => rw [Shared.act]; split <;> exact ⟨rfl, rfl, rfl, rfl, rfl, rfl⟩
  | send sent => cases pc <;> exact Keeps.refl
  | timeout => cases pc <;> exact Keeps.refl
  | alloc ok => cases pc <;> exact Keeps.refl
  | respond rsp => exact Keeps.refl
  | deinitTimeout => exact Keeps.refl

end W132d.Cmd
