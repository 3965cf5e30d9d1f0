import W132d.Machine
import W132d.Mutex
import W132d.Completion

/-!
# AT commands

The firmware is asked by text commands, and answers by texts. The answers do not tell which command
they belong to (`loopcheck.c`, `wcn_procfs.c`, `wcn_misc.c`). The functions of the kernel send one
command at a time, and wait for the next answer. User space sends commands as well, at any time.

* `Call`: the functions of the kernel;
* `Mdbg`: what all share, in particular one completion and one buffer for all answers;
* `Pc`: where a thread is;
* `State`, `Event`, `State.next`: the state of all threads, and what a step does;
* `atCmds`: the machine;
* `Locked`, `Recorded`: who has the lock is alone, and the records tell of what they record.

A command is told by how many were sent before it. Neither the firmware nor its answers know of this
number, which is a record only.
-/

namespace W132d.AtCmd

variable {T : Type*}

/-! ## Owners -/

/-- `ATCMD_FIFO_MAX`. -/
def atcmdFifoMax : ℕ := 16

/-- `enum atcmd_owner`. -/
inductive AtcmdOwner where
  | wcnd
  | kernel
  | log
  deriving DecidableEq

/-- `struct atcmd_fifo`. -/
structure AtcmdFifo where
  owner : ℕ → AtcmdOwner
  head : UInt32
  tail : UInt32

namespace AtcmdFifo

/-- `mdbg_atcmd_owner_init`. -/
def init : AtcmdFifo := ⟨fun _ => .wcnd, 0, 0⟩

variable (fifo : AtcmdFifo)

/-- `mdbg_atcmd_clean`. It clears `ATCMD_FIFO_MAX` bytes, of which an owner takes four. -/
def clean : AtcmdFifo :=
  ⟨fun i => if i < atcmdFifoMax / 4 then .wcnd else fifo.owner i, 0, 0⟩

/-- `mdbg_atcmd_owner_add`. -/
def add (owner : AtcmdOwner) : AtcmdFifo :=
  { fifo with
    owner := Function.update fifo.owner (fifo.tail.toNat % atcmdFifoMax) owner
    tail := fifo.tail + 1 }

/-- `mdbg_atcmd_owner_peek`: the owner, -/
def peek : AtcmdOwner := fifo.owner (fifo.head.toNat % atcmdFifoMax)

/-- which it takes. -/
def pop : AtcmdFifo := { fifo with head := fifo.head + 1 }

end AtcmdFifo

/-! ## Commands -/

/-- The functions that send a command with `atcmd_lock` taken. -/
inductive Call where
  | loopcheckWorkQueue
  | switchCp2Log (flag : Bool)
  | getBoardAntNum
  | getCp2Version
  deriving DecidableEq

/-- The command that is sent. -/
def Call.text : Call → String
  | loopcheckWorkQueue => "at+loopcheck\r\n"
  | switchCp2Log flag => if flag then "at+armlog=1\r\n" else "at+armlog=0\r\n"
  | getBoardAntNum => "at+getantnum\r\n"
  | getCp2Version => "at+spatgetcp2info\r\n"

/-- `EIO`. -/
def eio : ℤ := 5

/-- `ENOMEM`. -/
def enomem : ℤ := 12

/-- What `at_cmd_send` comes upon. -/
inductive Bus where
  /-- The module is not open. -/
  | notOpen
  /-- `kzalloc` fails. -/
  | noMemory
  /-- There is no free buffer on the bus. -/
  | noBuffer
  | pushed
  deriving DecidableEq

/-- What `at_cmd_send` returns. The missing buffer is not reported. -/
def Bus.ret : Bus → ℤ
  | notOpen => -eio
  | noMemory => -enomem
  | noBuffer | pushed => 0

/-- This as an `unsigned char`. -/
def Bus.retChar (bus : Bus) : ℕ := (bus.ret % 256).toNat

/-- `MARLIN_TWO_ANT`. -/
def marlinTwoAnt : ℕ := 2

/-- `MARLIN_THREE_ANT`. -/
def marlinThreeAnt : ℕ := 3

/-! ## Answers -/

/-- `MDBG_AT_CMD_SIZE`. -/
def mdbgAtCmdSize : ℕ := 128

/-- An answer. To which `command` it is one, if to any, and how many commands had been sent as it
    `arrived`, are a record only. -/
structure Answer where
  command : Option ℕ
  arrived : ℕ
  data : List UInt8
  deriving DecidableEq

/-- Where `mdbg_at_cmd_read` is. It takes no lock. -/
inductive Rx where
  | idle
  /-- About to clear the buffer for the answer. -/
  | store (answer : Answer)
  /-- About to copy the answer to it. -/
  | copy (answer : Answer)
  /-- About to complete `atcmd_completion`. -/
  | complete (answer : Answer)
  deriving DecidableEq

/-- The answer it has not yet completed for. -/
def Rx.answer : Rx → Option Answer
  | idle => none
  | store answer | copy answer | complete answer => some answer

/-- The answer is in the buffer; one without bytes is once that is cleared. -/
def Rx.Stored : Rx → Prop
  | complete _ => True
  | copy answer => answer.data = []
  | idle | store _ => False

instance : DecidablePred Rx.Stored
  | .complete _ => .isTrue trivial
  | .copy _ => inferInstanceAs (Decidable (_ = []))
  | .idle | .store _ => .isFalse id

/-! ## What is shared -/

/-- What all threads share. The bytes of `at_cmd.buf` behind the end of `buf` are 0. The commands
    that were `sent`, when the answers arrived that were completed for, and that no wait has taken
    (`pending`), and to which command the buffer has the answer (`source`), are a record only. -/
structure Mdbg (T : Type*) where
  atcmdLock : Option T
  atcmdCompletion : Completion
  owners : AtcmdFifo
  buf : List UInt8
  rx : Rx
  sent : List String
  pending : List ℕ
  source : Option ℕ

/-- `loopcheck_init`, before any command. -/
def Mdbg.init : Mdbg T := ⟨none, .reinit, .init, [], .idle, [], [], none⟩

/-- Where a thread is. The command it has sent, if it was sent, is a record only. -/
inductive Pc where
  | idle
  /-- About to lock `atcmd_lock`. -/
  | lock (call : Call)
  /-- About to call `at_cmd_send`. -/
  | send (call : Call)
  /-- Waiting for `atcmd_completion`. -/
  | waiting (call : Call) (own : Option ℕ)
  /-- The wait was ended, by the answer that had arrived then. -/
  | ended (call : Call) (own : Option ℕ) (arrived : ℕ)
  /-- About to unlock `atcmd_lock`, and to return `ret` from `get_board_ant_num`. -/
  | unlock (ret : Option ℕ)
  /-- `get_board_ant_num`, about to read the buffer. -/
  | read (own : Option ℕ)
  /-- About to read it again, where it was the answer to `source`. -/
  | readAgain (own source : Option ℕ)
  /-- `get_board_ant_num` has returned `ret`, having read the answers to `sources`. -/
  | returned (own : Option ℕ) (sources : List (Option ℕ)) (ret : ℕ)
  /-- `mdbg_send_atcmd`, about to send. -/
  | mdbgSend (text : String)
  deriving DecidableEq

/-- The thread is in none of the functions. -/
def Pc.Free : Pc → Prop
  | idle | returned _ _ _ => True
  | _ => False

instance : DecidablePred Pc.Free
  | .idle | .returned _ _ _ => .isTrue trivial
  | .lock _ | .send _ | .waiting _ _ | .ended _ _ _ | .unlock _ | .read _ | .readAgain _ _
  | .mdbgSend _ => .isFalse id

/-- What a thread does. -/
inductive Act where
  | call (call : Call)
  | mdbgSendAtcmd (owner : AtcmdOwner) (text : String)
  /-- The thread goes on. -/
  | go
  /-- `at_cmd_send`. -/
  | send (bus : Bus)
  /-- The wait times out. -/
  | timeout
  deriving DecidableEq

namespace Mdbg

variable (m : Mdbg T)

/-- `at_cmd_send`. -/
def atCmdSend (text : String) (bus : Bus) : Mdbg T :=
  if bus = .pushed then { m with sent := m.sent ++ [text] } else m

/-- A function of the kernel, from where it calls `at_cmd_send`. -/
def send (call : Call) (bus : Bus) : Mdbg T × Pc :=
  (m.atCmdSend call.text bus,
    -- The work of the loop check then waits for a completion of its own, which is a delay only.
    if call = .loopcheckWorkQueue then .unlock none
    else if bus.ret ≠ 0 then .unlock (if call = .getBoardAntNum then some bus.retChar else none)
    else .waiting call (if bus = .pushed then some m.sent.length else none))

/-- A wait goes on. -/
def wait (call : Call) (own : Option ℕ) : Mdbg T × Pc :=
  match m.atcmdCompletion.wait with
  | some atcmdCompletion =>
    ({ m with
        atcmdCompletion
        pending := m.atcmdCompletion.recordWait m.pending },
      .ended call own (m.pending.headD 0))
  | none => (m, .waiting call own)

/-- The thread `t` goes on. It stays where it is if it has to wait, or if its step is another
    one. -/
def go (t : T) : Pc → Mdbg T × Pc
  | .lock call =>
    if m.atcmdLock.isNone then ({ m with atcmdLock := some t }, .send call) else (m, .lock call)
  | .waiting call own => m.wait call own
  | .ended call own _ =>
    ({ m with atcmdLock := none }, if call = .getBoardAntNum then .read own else .idle)
  | .unlock ret =>
    ({ m with atcmdLock := none },
      match ret with
      | some ret => .returned none [] ret
      | none => .idle)
  | .read own =>
    (m, if m.buf.headD 0 = 0x32 then .returned own [m.source] marlinTwoAnt
      else .readAgain own m.source)
  | .readAgain own source =>
    -- Three are the default as well.
    (m, .returned own [source, m.source] marlinThreeAnt)
  | .mdbgSend text => ({ m with sent := m.sent ++ [text] }, .idle)
  | pc => (m, pc)

/-- What the thread `t` does at `pc`, if it is where this begins, and where it goes on. -/
def act (t : T) (pc : Pc) : Act → Mdbg T × Pc
  | .call call => (m, if pc.Free then .lock call else pc)
  | .mdbgSendAtcmd owner text =>
    if pc.Free then ({ m with owners := m.owners.add owner }, .mdbgSend text) else (m, pc)
  | .go => m.go t pc
  | .send bus =>
    match pc with
    | .send call => m.send call bus
    | pc => (m, pc)
  | .timeout =>
    match pc with
    | .waiting call own =>
      (m, if m.atcmdCompletion.done = 0 then
          .unlock (if call = .getBoardAntNum then some marlinThreeAnt else none)
        else .waiting call own)
    | pc => (m, pc)

/-- `mdbg_at_cmd_read` is called, and does not drop the answer at once. -/
def Takes (command : Option ℕ) (data : List UInt8) : Prop :=
  m.rx = .idle ∧ data.length ≤ mdbgAtCmdSize ∧ ∀ i ∈ command, i < m.sent.length

instance (command : Option ℕ) (data : List UInt8) : Decidable (m.Takes command data) :=
  inferInstanceAs (Decidable (_ ∧ _ ∧ _))

/-- An answer arrives, which is passed on unless it belongs to the kernel or to the log. -/
def answer (command : Option ℕ) (data : List UInt8) : Mdbg T :=
  if m.Takes command data then
    { m with
      owners := m.owners.pop
      rx :=
        match m.owners.peek with
        | .kernel | .log => .idle
        | .wcnd => .store ⟨command, m.sent.length, data⟩ }
  else m

/-- `mdbg_at_cmd_read` goes on. -/
def rxNext : Mdbg T :=
  match m.rx with
  | .idle => m
  | .store a =>
    -- `memset`
    { m with buf := [], source := if a.data = [] then a.command else none, rx := .copy a }
  | .copy a =>
    -- `memcpy`
    { m with
      buf := a.data ++ m.buf.drop a.data.length
      source := if a.data = [] then m.source else a.command
      rx := .complete a }
  | .complete a =>
    { m with
      atcmdCompletion := m.atcmdCompletion.complete
      pending := m.atcmdCompletion.recordComplete m.pending a.arrived
      rx := .idle }

/-- User space has read the buffer, which is then cleared. -/
def procRead : Mdbg T := { m with buf := [], source := none }

/-- User space asks for the version of the chip, which is `2342B`. -/
def getchipversion : Mdbg T :=
  { m with buf := [0x32, 0x33, 0x34, 0x32, 0x42] ++ m.buf.drop 5, source := none }

end Mdbg

/-! ## The machine -/

/-- What is shared, and where the threads are. -/
structure State (T : Type*) extends Mdbg T where
  pc : T → Pc

/-- No thread has called anything yet. -/
def State.init : State T := ⟨.init, fun _ => .idle⟩

/-- What happens. -/
inductive Event (T : Type*) where
  | act (t : T) (a : Act)
  | answer (command : Option ℕ) (data : List UInt8)
  /-- `mdbg_at_cmd_read` goes on. -/
  | rx
  | procRead
  | getchipversion
  /-- `mdbg_atcmd_clean`. -/
  | clean
  deriving DecidableEq

/-- What a step does. -/
def State.next [DecidableEq T] (s : State T) : Event T → State T
  | .act t a =>
    match s.toMdbg.act t (s.pc t) a with
    | (m, pc) => ⟨m, Function.update s.pc t pc⟩
  | .answer command data => ⟨s.toMdbg.answer command data, s.pc⟩
  | .rx => ⟨s.toMdbg.rxNext, s.pc⟩
  | .procRead => ⟨s.toMdbg.procRead, s.pc⟩
  | .getchipversion => ⟨s.toMdbg.getchipversion, s.pc⟩
  | .clean => { s with owners := s.owners.clean }

/-- All threads, one step at a time. -/
def atCmds [DecidableEq T] : Machine (State T) (Event T) where
  step s e := some (s.next e)

variable {m m' : Mdbg T} {t u : T} {pc pc' : Pc} {a : Act}

/-! ## The lock -/

/-- The thread has `atcmd_lock`. -/
def Pc.HasLock : Pc → Prop
  | send _ | waiting _ _ | ended _ _ _ | unlock _ => True
  | _ => False

/-- A thread that goes on takes the lock if nobody has it, and gives it back. -/
theorem go_locks :
    Mutex.Locks Pc.HasLock t pc (m.go t pc).2 m.atcmdLock (m.go t pc).1.atcmdLock := by
  cases pc with
  | lock call =>
    rw [Mdbg.go]
    split
    · rename_i hlock
      exact Mutex.locks_take (Option.isNone_iff_eq_none.1 hlock)
    · exact Mutex.locks_keep id
  | waiting call own =>
    rw [Mdbg.go, Mdbg.wait]
    split <;> exact Mutex.locks_keep fun _ => trivial
  | ended call own arrived =>
    refine Mutex.locks_release trivial ?_
    rw [Mdbg.go]
    dsimp only
    split <;> exact id
  | unlock ret => cases ret <;> exact Mutex.locks_release trivial id
  | read own =>
    rw [Mdbg.go]
    dsimp only
    split <;> exact Mutex.locks_keep id
  | _ => exact Mutex.locks_keep id

/-- So does a thread whatever it does. -/
theorem act_locks :
    Mutex.Locks Pc.HasLock t pc (m.act t pc a).2 m.atcmdLock (m.act t pc a).1.atcmdLock := by
  cases a with
  | go => exact go_locks
  | call call =>
    rw [Mdbg.act]
    dsimp only
    split
    · exact Mutex.locks_keep fun h => absurd h id
    · exact Mutex.locks_keep id
  | mdbgSendAtcmd owner text =>
    rw [Mdbg.act]
    split
    · exact Mutex.locks_keep fun h => absurd h id
    · exact Mutex.locks_keep id
  | send bus =>
    cases pc with
    | send call =>
      have hlock : (m.atCmdSend call.text bus).atcmdLock = m.atcmdLock := by
        rw [Mdbg.atCmdSend]
        split <;> rfl
      rw [Mdbg.act, Mdbg.send, hlock]
      exact Mutex.locks_keep fun _ => trivial
    | _ => exact Mutex.locks_keep id
  | timeout =>
    cases pc with
    | waiting call own => exact Mutex.locks_keep fun _ => trivial
    | _ => exact Mutex.locks_keep id

/-- Who is where the lock is needed has it. -/
def Locked (s : State T) : Prop := Mutex.Locked Pc.HasLock s.pc s.atcmdLock

/-- Nobody has called anything yet. -/
theorem locked_init : Locked (.init : State T) := fun _ h => absurd h id

/-! ## The records -/

/-- The records tell of the answers that the completion counts. No answer is from the future. -/
structure Recorded (m : Mdbg T) : Prop where
  length : m.pending.length = m.atcmdCompletion.done
  pending : ∀ arrived ∈ m.pending, arrived ≤ m.sent.length
  rx : ∀ answer ∈ m.rx.answer, answer.arrived ≤ m.sent.length

/-- No answer has arrived yet. -/
theorem recorded_init : Recorded (.init : Mdbg T) := ⟨rfl, nofun, nofun⟩

/-- A step that leaves the answers alone. -/
structure Keeps (m m' : Mdbg T) : Prop where
  rx : m'.rx = m.rx
  source : m'.source = m.source
  sent : m.sent.length ≤ m'.sent.length

theorem Keeps.refl : Keeps m m := ⟨rfl, rfl, le_rfl⟩

/-- Sending a command does. -/
theorem atCmdSend_keeps {text : String} {bus : Bus} : Keeps m (m.atCmdSend text bus) := by
  rw [Mdbg.atCmdSend]
  split
  · refine ⟨rfl, rfl, ?_⟩
    rw [List.length_append]
    exact Nat.le_add_right _ _
  · exact Keeps.refl

/-- So does whatever a thread does. -/
theorem act_keeps : Keeps m (m.act t pc a).1 := by
  cases a with
  | go =>
    rw [Mdbg.act]
    cases pc with
    | lock call => rw [Mdbg.go]; split <;> exact ⟨rfl, rfl, le_rfl⟩
    | waiting call own => rw [Mdbg.go, Mdbg.wait]; split <;> exact ⟨rfl, rfl, le_rfl⟩
    | mdbgSend text =>
      refine ⟨rfl, rfl, ?_⟩
      rw [Mdbg.go, List.length_append]
      exact Nat.le_add_right _ _
    | _ => exact ⟨rfl, rfl, le_rfl⟩
  | call call => exact Keeps.refl
  | mdbgSendAtcmd owner text => rw [Mdbg.act]; split <;> exact ⟨rfl, rfl, le_rfl⟩
  | send bus =>
    cases pc with
    | send call => exact atCmdSend_keeps
    | _ => exact Keeps.refl
  | timeout => cases pc <;> exact Keeps.refl

/-- Only a wait takes an answer. -/
theorem act_pending (h : ∀ call own, pc ≠ .waiting call own) :
    (m.act t pc a).1.pending = m.pending ∧
      (m.act t pc a).1.atcmdCompletion = m.atcmdCompletion := by
  cases a with
  | go =>
    rw [Mdbg.act]
    cases pc with
    | lock call => rw [Mdbg.go]; split <;> exact ⟨rfl, rfl⟩
    | waiting call own => exact absurd rfl (h call own)
    | _ => exact ⟨rfl, rfl⟩
  | call call => exact ⟨rfl, rfl⟩
  | mdbgSendAtcmd owner text => rw [Mdbg.act]; split <;> exact ⟨rfl, rfl⟩
  | send bus =>
    cases pc with
    | send call =>
      rw [Mdbg.act, Mdbg.send, Mdbg.atCmdSend]
      dsimp only
      split <;> exact ⟨rfl, rfl⟩
    | _ => exact ⟨rfl, rfl⟩
  | timeout => cases pc <;> exact ⟨rfl, rfl⟩

/-- A step that keeps the answers keeps the records, if it does so with the completion. -/
theorem Recorded.keep (h : Recorded m) (hkeeps : Keeps m m')
    (hlength : m'.pending.length = m'.atcmdCompletion.done)
    (hpending : ∀ arrived ∈ m'.pending, arrived ∈ m.pending) : Recorded m' :=
  ⟨hlength, fun arrived ha => (h.pending arrived (hpending arrived ha)).trans hkeeps.sent,
    fun answer ha => (h.rx answer (hkeeps.rx ▸ ha)).trans hkeeps.sent⟩

/-- A thread keeps the records. -/
theorem recorded_act (h : Recorded m) : Recorded (m.act t pc a).1 := by
  by_cases hwaiting : ∃ call own, pc = .waiting call own
  · obtain ⟨call, own, rfl⟩ := hwaiting
    cases a with
    | go =>
      rw [Mdbg.act, Mdbg.go, Mdbg.wait]
      split
      · rename_i c hc
        exact h.keep ⟨rfl, rfl, le_rfl⟩ (Completion.length_recordWait h.length hc)
          fun _ => Completion.mem_of_mem_recordWait
      · exact h
    | mdbgSendAtcmd owner text => exact h
    | _ => exact h
  · obtain ⟨hpending, hcompletion⟩ := @act_pending T m t pc a fun call own heq =>
      hwaiting ⟨call, own, heq⟩
    refine h.keep act_keeps ?_ fun arrived ha => hpending ▸ ha
    rw [hpending, hcompletion, h.length]

/-- An answer that arrives keeps them. -/
theorem recorded_answer {command : Option ℕ} {data : List UInt8} (h : Recorded m) :
    Recorded (m.answer command data) := by
  rw [Mdbg.answer]
  split
  · refine ⟨h.length, h.pending, ?_⟩
    intro answer ha
    dsimp only at ha
    split at ha
    · cases ha
    · cases ha
    · cases ha
      exact le_rfl
  · exact h

/-- So does an answer that is stored or completed for. -/
theorem recorded_rxNext (h : Recorded m) : Recorded m.rxNext := by
  rw [Mdbg.rxNext]
  split
  · exact h
  · rename_i answer hrx
    have hanswer := h.rx
    rw [hrx] at hanswer
    exact ⟨h.length, h.pending, hanswer⟩
  · rename_i answer hrx
    have hanswer := h.rx
    rw [hrx] at hanswer
    exact ⟨h.length, h.pending, hanswer⟩
  · rename_i answer hrx
    refine ⟨Completion.length_recordComplete h.length, ?_, nofun⟩
    intro arrived ha
    rcases Completion.mem_recordComplete ha with ha | rfl
    · exact h.pending arrived ha
    · exact h.rx answer (hrx ▸ rfl)

variable [DecidableEq T] {s : State T} {e : Event T}

/-- A step of one thread keeps where the others are. -/
theorem next_act_pc_of_ne (hu : u ≠ t) : (s.next (.act t a)).pc u = s.pc u :=
  Function.update_of_ne hu _ s.pc

@[simp] theorem next_act_pc :
    (s.next (.act t a)).pc t = (s.toMdbg.act t (s.pc t) a).2 := Function.update_self t _ s.pc

/-- The lock excludes, and the records are kept, over every step. -/
theorem locked_next (h : Locked s) : Locked (s.next e) := by
  cases e with
  | act t a => exact Mutex.Locked.update h act_locks
  | answer command data =>
    have hlock : (s.toMdbg.answer command data).atcmdLock = s.atcmdLock := by
      rw [Mdbg.answer]
      split <;> rfl
    exact fun t ht => hlock.trans (h t ht)
  | rx =>
    have hlock : s.toMdbg.rxNext.atcmdLock = s.atcmdLock := by
      rw [Mdbg.rxNext]
      split <;> rfl
    exact fun t ht => hlock.trans (h t ht)
  | procRead => exact h
  | getchipversion => exact h
  | clean => exact h

theorem recorded_next (h : Recorded s.toMdbg) : Recorded (s.next e).toMdbg := by
  cases e with
  | act t a => exact recorded_act h
  | answer command data => exact recorded_answer h
  | rx => exact recorded_rxNext h
  | procRead => exact ⟨h.length, h.pending, h.rx⟩
  | getchipversion => exact ⟨h.length, h.pending, h.rx⟩
  | clean => exact ⟨h.length, h.pending, h.rx⟩

end W132d.AtCmd
