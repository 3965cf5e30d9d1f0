import W132d.Wcn.AtCmd

/-!
# Answers to AT commands

A wait is to be ended by an answer that arrived after its own command was sent, and the number of
antennas to be taken from the answer to the command that asks for it. Both are lost for good if an
answer comes late: the completion is never initialized again, so that every later wait is ended by
the answer to the command before.

* `Sound`: what the waits and the number of antennas are taken from;
* `Orderly`: the condition on a step;
* `Pc.Holds`: what holds where a thread is, as long as the steps are orderly;
* `canFail_of_not_orderly`: what a run can go on to once a step is not;
* `answers_own`: a run is sound if all its steps are orderly, and can be gone on with to one that is
  not as soon as a step is not.

The machine is that of `W132d.Wcn.AtCmd`: threads that take `atcmd_lock`, send a command, wait, and
give the lock back, and `mdbg_at_cmd_read`, which takes no lock and is one of its own. User space
reads the buffer, which clears it, and sends commands as well.

What is to hold where a thread is (`Pc.Holds`) is about the one thread that has the lock:

* as it waits, all answers that are counted, or being processed, have arrived after its command was
  sent (`Awaits`), and if it is `get_board_ant_num`, they are answers to it;
* as it goes on from the wait, and up to its last read of the buffer, the buffer has the answer to
  its own command (`Reads`), or will have once `mdbg_at_cmd_read` has gone on.

A step of one thread leaves this alone for the others, as only one has the lock, but for the reads
of `get_board_ant_num`, which come after it has given the lock back. So the third condition is about
these. The buffer is cleared before an answer is copied to it, so that even a second copy of the
same answer could be seen half-way, if it has bytes at all.
-/

namespace W132d.AtCmd

variable {T : Type*} {m m' : Mdbg T} {t u : T} {pc pc' : Pc} {a : Act} {call : Call}
  {own source command : Option ℕ} {data : List UInt8}

/-! ## Soundness -/

/-- The answer to the command `source` is the one to the command `own`. -/
def IsOwn (own source : Option ℕ) : Prop := own.isSome ∧ source = own

instance : Decidable (IsOwn own source) := inferInstanceAs (Decidable (_ ∧ _))

/-- Every wait that is ended is ended by an answer that arrived after its own command was sent. What
    `get_board_ant_num` has read is the answer to its own command. -/
structure Sound (s : State T) : Prop where
  ended : ∀ t call own arrived, s.pc t = .ended call own arrived → ∃ i ∈ own, i < arrived
  returned : ∀ t own sources ret, s.pc t = .returned own sources ret →
    ∀ source ∈ sources, IsOwn own source

/-- The answer to `command` in the buffer does not mislead who is at `pc`. -/
def Pc.Expects (command : Option ℕ) : Pc → Prop
  | waiting call own => own.isSome ∧ (call = .getBoardAntNum → command = own)
  | ended call own _ => call = .getBoardAntNum → IsOwn own command
  | read own | readAgain own _ => IsOwn own command
  | _ => True

instance (command : Option ℕ) : DecidablePred (Pc.Expects command)
  | .waiting _ _ => inferInstanceAs (Decidable (_ ∧ _))
  | .ended _ _ _ => inferInstanceAs (Decidable (_ → _))
  | .read _ | .readAgain _ _ => inferInstanceAs (Decidable (IsOwn _ _))
  | .idle | .lock _ | .send _ | .unlock _ | .returned _ _ _ | .mdbgSend _ => .isTrue trivial

/-- The buffer has the answer that `get_board_ant_num` is about to read. -/
def Pc.Answered (m : Mdbg T) : Pc → Prop
  | waiting call _ => call = .getBoardAntNum ∧ (m.atcmdCompletion.done ≠ 0 ∨ m.rx.Stored)
  | ended call _ _ => call = .getBoardAntNum
  | read _ | readAgain _ _ => True
  | _ => False

instance (m : Mdbg T) : DecidablePred (Pc.Answered m)
  | .waiting _ _ => inferInstanceAs (Decidable (_ ∧ _))
  | .ended _ _ _ => inferInstanceAs (Decidable (_ = _))
  | .read _ | .readAgain _ _ => .isTrue trivial
  | .idle | .lock _ | .send _ | .unlock _ | .returned _ _ _ | .mdbgSend _ => .isFalse id

/-- This depends on no more than the completion and the answer that is being processed. -/
theorem Pc.Answered.keep (h : pc.Answered m) (hrx : m'.rx = m.rx)
    (hcompletion : m'.atcmdCompletion = m.atcmdCompletion) : pc.Answered m' := by
  cases pc with
  | waiting call own =>
    rw [Pc.Answered, hrx, hcompletion]
    exact h
  | _ => exact h

/-- A command whose answer is waited for is sent only while no answer is being processed or left
    over. While somebody waits, an answer is passed on only if the command was really sent, and, for
    `get_board_ant_num`, only the answer to it. From where the buffer has that to where it was read
    the last time nobody else writes it, and no other answer is passed on, not even the same one
    again: the buffer is cleared first. An answer without bytes leaves nothing to clear. -/
def Orderly (s : State T) : Event T → Prop
  | .act t (.send bus) =>
    match s.pc t with
    | .send call =>
      call ≠ .loopcheckWorkQueue → bus.ret = 0 → s.atcmdCompletion.done = 0 ∧ s.rx = .idle
    | _ => True
  | .answer command data =>
    s.Takes command data → s.owners.peek = .wcnd →
      ∀ t, (s.pc t).Expects command ∧ ((s.pc t).Answered s.toMdbg → data = [])
  | .procRead | .getchipversion => ∀ t, ¬(s.pc t).Answered s.toMdbg
  | _ => True

instance [Fintype T] (s : State T) : DecidablePred (Orderly s)
  | .act t (.send bus) => by
    rw [Orderly]
    split <;> infer_instance
  | .answer _ _ => inferInstanceAs (Decidable (_ → _ → _))
  | .procRead | .getchipversion => inferInstanceAs (Decidable (∀ _, _))
  | .act _ (.call _) | .act _ (.mdbgSendAtcmd _ _) | .act _ .go | .act _ .timeout | .rx | .clean =>
    .isTrue trivial

/-! ## What holds where a thread is -/

/-- `get_board_ant_num` finds the answer to its own command in the buffer. -/
structure Reads (m : Mdbg T) (own : Option ℕ) : Prop where
  source : IsOwn own m.source
  command : ∀ answer ∈ m.rx.answer, answer.command = own ∧ answer.data = []

/-- All answers that can end the wait have arrived after the command was sent. -/
structure Awaits (m : Mdbg T) (call : Call) (own : Option ℕ) : Prop where
  sent : ∀ i ∈ own, i < m.sent.length
  pending : ∀ arrived ∈ m.pending, ∃ i ∈ own, i < arrived
  rx : ∀ answer ∈ m.rx.answer, ∃ i ∈ own, i < answer.arrived
  command : call = .getBoardAntNum → ∀ answer ∈ m.rx.answer, answer.command = own
  /-- No other answer with bytes comes behind one that was completed for. -/
  late : call = .getBoardAntNum → m.pending ≠ [] → ∀ answer ∈ m.rx.answer, answer.data = []
  source : call = .getBoardAntNum → m.pending ≠ [] ∨ m.rx.Stored → IsOwn own m.source

/-- What holds where a thread is, in an orderly run. -/
def Pc.Holds (m : Mdbg T) : Pc → Prop
  | waiting call own => Awaits m call own
  | ended call own arrived => (∃ i ∈ own, i < arrived) ∧ (call = .getBoardAntNum → Reads m own)
  | read own => Reads m own
  | readAgain own source => Reads m own ∧ IsOwn own source
  | returned own sources _ => ∀ source ∈ sources, IsOwn own source
  | _ => True

/-- A step that leaves the answers alone. -/
theorem Reads.keep (h : Reads m own) (hkeeps : Keeps m m') : Reads m' own :=
  ⟨by rw [hkeeps.source]; exact h.source, by rw [hkeeps.rx]; exact h.command⟩

theorem Awaits.keep (h : Awaits m call own) (hkeeps : Keeps m m')
    (hpending : m'.pending = m.pending) : Awaits m' call own := by
  refine ⟨fun i hi => (h.sent i hi).trans_le hkeeps.sent, ?_, ?_, ?_, ?_, ?_⟩
  · rw [hpending]
    exact h.pending
  · rw [hkeeps.rx]
    exact h.rx
  · rw [hkeeps.rx]
    exact h.command
  · rw [hpending, hkeeps.rx]
    exact h.late
  · rw [hpending, hkeeps.rx, hkeeps.source]
    exact h.source

/-- A step that keeps what a wait and what a read rely on. -/
theorem Pc.Holds.imp (h : pc.Holds m)
    (hwaits : ∀ call own, pc = .waiting call own → Awaits m call own → Awaits m' call own)
    (hreads : ∀ own, Reads m own → Reads m' own) : pc.Holds m' := by
  cases pc with
  | waiting call own => exact hwaits call own rfl h
  | ended call own arrived => exact ⟨h.1, fun hcall => hreads own (h.2 hcall)⟩
  | read own => exact hreads own h
  | readAgain own source => exact ⟨hreads own h.1, h.2⟩
  | returned own sources ret => exact h
  | _ => trivial

/-- The threads that do not take the step. Only one thread waits. -/
theorem holds_other (hlock : pc.HasLock → ¬pc'.HasLock) (h : pc.Holds m) :
    pc.Holds (m.act t pc' a).1 := by
  refine h.imp (fun call own hpc hwaits => hwaits.keep act_keeps (act_pending ?_).1)
    fun own hreads => hreads.keep act_keeps
  rintro call' own' rfl
  exact hlock (hpc ▸ trivial) trivial

/-- There is an answer exactly if the completion counts one. -/
theorem Recorded.pending_eq_nil_iff (h : Recorded m) :
    m.pending = [] ↔ m.atcmdCompletion.done = 0 := by
  rw [← h.length, List.length_eq_zero_iff]

/-- A wait is ended by an answer. -/
theorem Recorded.headD_mem (h : Recorded m) (hdone : m.atcmdCompletion.done ≠ 0) :
    m.pending.headD 0 ∈ m.pending := by
  cases hpending : m.pending with
  | nil => exact absurd (h.pending_eq_nil_iff.1 hpending) hdone
  | cons arrived pending => exact List.mem_cons_self

/-- A thread that goes on. -/
theorem holds_go (hrecorded : Recorded m) (h : pc.Holds m) : (m.go t pc).2.Holds (m.go t pc).1 := by
  cases pc with
  | lock call =>
    rw [Mdbg.go]
    split <;> trivial
  | waiting call own =>
    have hwaits : Awaits m call own := h
    rw [Mdbg.go, Mdbg.wait]
    split
    · rename_i c hc
      have hdone := Completion.done_ne_zero_of_wait hc
      have hpending : m.pending ≠ [] := fun hnil => hdone (hrecorded.pending_eq_nil_iff.1 hnil)
      -- The completion was done for an answer, which is the first of those that are pending.
      refine ⟨hwaits.pending _ (hrecorded.headD_mem hdone), fun hcall => ⟨?_, ?_⟩⟩
      · exact hwaits.source hcall (.inl hpending)
      · exact fun answer ha =>
          ⟨hwaits.command hcall answer ha, hwaits.late hcall hpending answer ha⟩
    · exact h
  | ended call own arrived =>
    rw [Mdbg.go]
    dsimp only
    split
    · rename_i hcall
      exact (h.2 hcall).keep ⟨rfl, rfl, le_rfl⟩
    · trivial
  | unlock ret =>
    cases ret with
    | some ret => exact fun source hsource => absurd hsource List.not_mem_nil
    | none => trivial
  | read own =>
    have hreads : Reads m own := h
    rw [Mdbg.go]
    dsimp only
    split
    · intro source hsource
      rw [List.mem_singleton.1 hsource]
      exact hreads.source
    · exact ⟨hreads, hreads.source⟩
  | readAgain own source =>
    obtain ⟨hreads, hown⟩ := h
    rintro source' (_ | ⟨_, hsource⟩)
    · exact hown
    · rw [List.mem_singleton.1 hsource]
      exact hreads.source
  | returned own sources ret => exact h
  | _ => trivial

/-- A thread that sends a command while there is no answer left over. -/
theorem holds_send {bus : Bus}
    (hsend : call ≠ .loopcheckWorkQueue → bus.ret = 0 → m.pending = [] ∧ m.rx = .idle) :
    (m.send call bus).2.Holds (m.send call bus).1 := by
  rw [Mdbg.send]
  dsimp only
  split
  · trivial
  · -- The command of a thread: it was sent with no answer under way, so that only its own can come.
    rename_i hcall
    split
    · split <;> trivial
    · rename_i hret
      obtain ⟨hpending, hrx⟩ := hsend hcall (not_not.1 hret)
      have hpending' : (m.atCmdSend call.text bus).pending = [] := by
        rw [← hpending, Mdbg.atCmdSend]
        split <;> rfl
      have hrx' : (m.atCmdSend call.text bus).rx = .idle := by rw [atCmdSend_keeps.rx, hrx]
      refine ⟨?_, ?_, ?_, ?_, ?_, ?_⟩
      · rw [Mdbg.atCmdSend]
        split
        · rintro i ⟨⟩
          rw [List.length_append]
          exact Nat.lt_succ_self _
        · rintro i ⟨⟩
      · rw [hpending']
        exact fun arrived ha => absurd ha List.not_mem_nil
      · rw [hrx']
        rintro answer ⟨⟩
      · rw [hrx']
        rintro - answer ⟨⟩
      · rw [hrx']
        rintro - - answer ⟨⟩
      · -- Nothing is pending, and nothing is being stored.
        rw [hpending', hrx']
        rintro - (hnil | hstored)
        · exact absurd rfl hnil
        · exact absurd hstored id

/-- The thread that takes the step. -/
theorem holds_act (hrecorded : Recorded m)
    (hsend : ∀ call bus, pc = .send call → a = .send bus → call ≠ .loopcheckWorkQueue →
      bus.ret = 0 → m.atcmdCompletion.done = 0 ∧ m.rx = .idle)
    (h : pc.Holds m) : (m.act t pc a).2.Holds (m.act t pc a).1 := by
  -- Only sending a command makes a promise; all other actions keep what was promised, or end the
  -- call.
  cases a with
  | go => exact holds_go hrecorded h
  | call call =>
    rw [Mdbg.act]
    dsimp only
    split
    · trivial
    · exact h
  | mdbgSendAtcmd owner text =>
    rw [Mdbg.act]
    split
    · trivial
    · exact h
  | send bus =>
    cases pc with
    | send call =>
      refine holds_send fun hcall hret => ?_
      obtain ⟨hdone, hrx⟩ := hsend call bus rfl rfl hcall hret
      -- Everything that was ever sent is recorded, so that no completion means that nothing is
      -- pending.
      exact ⟨hrecorded.pending_eq_nil_iff.2 hdone, hrx⟩
    | _ => exact h
  | timeout =>
    cases pc with
    | waiting call own =>
      rw [Mdbg.act]
      dsimp only
      split
      · trivial
      · exact h
    | _ => exact h

/-- An answer arrives, and is about to be stored. -/
theorem holds_store (hrecorded : Recorded m) (hexpects : pc.Expects command)
    (hanswered : pc.Answered m → data = []) (h : pc.Holds m)
    (hrx : m'.rx = .store ⟨command, m.sent.length, data⟩) (hsource : m'.source = m.source)
    (hsent : m'.sent = m.sent) (hpending : m'.pending = m.pending) : pc.Holds m' := by
  -- Who is to read the buffer next is about to get an answer to its own command, without bytes.
  have hreads (own : Option ℕ) (hown : IsOwn own command) (hdata : data = [])
      (h : Reads m own) : Reads m' own := by
    refine ⟨hsource ▸ h.source, ?_⟩
    rw [hrx]
    rintro answer ⟨⟩
    exact ⟨hown.2, hdata⟩
  cases pc with
  | waiting call own =>
    have hwaits : Awaits m call own := h
    obtain ⟨hsome, hcommand⟩ := hexpects
    refine ⟨?_, ?_, ?_, ?_, ?_, ?_⟩
    · rw [hsent]
      exact hwaits.sent
    · rw [hpending]
      exact hwaits.pending
    · rw [hrx]
      rintro answer ⟨⟩
      obtain ⟨i, rfl⟩ := Option.isSome_iff_exists.1 hsome
      exact ⟨i, rfl, hwaits.sent i rfl⟩
    · rw [hrx]
      rintro hcall answer ⟨⟩
      exact hcommand hcall
    · rw [hpending, hrx]
      rintro hcall hnil answer ⟨⟩
      exact hanswered ⟨hcall, .inl fun hdone => hnil (hrecorded.pending_eq_nil_iff.2 hdone)⟩
    · rw [hpending, hrx, hsource]
      rintro hcall (hnil | hstored)
      · exact hwaits.source hcall (.inl hnil)
      · exact absurd hstored id
  | ended call own arrived =>
    exact ⟨h.1, fun hcall => hreads own (hexpects hcall) (hanswered hcall) (h.2 hcall)⟩
  | read own => exact hreads own hexpects (hanswered trivial) h
  | readAgain own source => exact ⟨hreads own hexpects (hanswered trivial) h.1, h.2⟩
  | returned own sources ret => exact h
  | _ => trivial

/-- An answer arrives that misleads nobody. -/
theorem holds_answer (hrecorded : Recorded m)
    (hexpects : m.Takes command data → m.owners.peek = .wcnd →
      pc.Expects command ∧ (pc.Answered m → data = []))
    (h : pc.Holds m) : pc.Holds (m.answer command data) := by
  rw [Mdbg.answer]
  split
  · rename_i htakes
    cases hpeek : m.owners.peek with
    | wcnd =>
      obtain ⟨hexpects, hanswered⟩ := hexpects htakes hpeek
      exact holds_store hrecorded hexpects hanswered h rfl rfl rfl rfl
    | _ =>
      have hkeeps : Keeps m { m with owners := m.owners.pop, rx := .idle } :=
        ⟨htakes.1.symm, rfl, le_rfl⟩
      exact h.imp (fun call own _ hwaits => hwaits.keep hkeeps rfl)
        fun own hreads => hreads.keep hkeeps
  · exact h

/-- The buffer is cleared for an answer, the answer is copied to it, or completed for. -/
theorem holds_rxNext (h : pc.Holds m) : pc.Holds m.rxNext := by
  cases hrx : m.rx with
  | idle =>
    rw [Mdbg.rxNext, hrx]
    exact h
  | store answer =>
    have hmem : answer ∈ m.rx.answer := by
      rw [hrx]
      rfl
    have hrxNext : m.rxNext =
        { m with
          buf := []
          source := if answer.data = [] then answer.command else none
          rx := .copy answer } := by
      rw [Mdbg.rxNext, hrx]
    rw [hrxNext]
    -- Who relies on the buffer expects an answer without bytes only, which it has now.
    refine h.imp (fun call own _ hwaits => ?_) fun own hreads => ?_
    · have hrx' := hwaits.rx answer hmem
      refine ⟨hwaits.sent, hwaits.pending, ?_, ?_, ?_, fun hcall hsource => ?_⟩
      · rintro answer' ⟨⟩
        exact hrx'
      · rintro hcall answer' ⟨⟩
        exact hwaits.command hcall answer hmem
      · rintro hcall hnil answer' ⟨⟩
        exact hwaits.late hcall hnil answer hmem
      · have hdata : answer.data = [] :=
          hsource.elim (fun hnil => hwaits.late hcall hnil answer hmem) id
        obtain ⟨i, rfl, -⟩ := hrx'
        exact ⟨rfl, (if_pos hdata).trans (hwaits.command hcall answer hmem)⟩
    · obtain ⟨hcommand, hdata⟩ := hreads.command answer hmem
      refine ⟨⟨hreads.source.1, (if_pos hdata).trans hcommand⟩, ?_⟩
      rintro answer' ⟨⟩
      exact ⟨hcommand, hdata⟩
  | copy answer =>
    have hmem : answer ∈ m.rx.answer := by
      rw [hrx]
      rfl
    have hrxNext : m.rxNext =
        { m with
          buf := answer.data ++ m.buf.drop answer.data.length
          source := if answer.data = [] then m.source else answer.command
          rx := .complete answer } := by
      rw [Mdbg.rxNext, hrx]
    rw [hrxNext]
    refine h.imp (fun call own _ hwaits => ?_) fun own hreads => ?_
    · have hrx' := hwaits.rx answer hmem
      refine ⟨hwaits.sent, hwaits.pending, ?_, ?_, ?_, fun hcall _ => ?_⟩
      · rintro answer' ⟨⟩
        exact hrx'
      · rintro hcall answer' ⟨⟩
        exact hwaits.command hcall answer hmem
      · rintro hcall hnil answer' ⟨⟩
        exact hwaits.late hcall hnil answer hmem
      · dsimp only
        split_ifs with hdata
        · exact hwaits.source hcall (.inr (by rw [hrx]; exact hdata))
        · obtain ⟨i, rfl, -⟩ := hrx'
          exact ⟨rfl, hwaits.command hcall answer hmem⟩
    · obtain ⟨hcommand, hdata⟩ := hreads.command answer hmem
      refine ⟨by dsimp only; rw [if_pos hdata]; exact hreads.source, ?_⟩
      rintro answer' ⟨⟩
      exact ⟨hcommand, hdata⟩
  | complete answer =>
    have hmem : answer ∈ m.rx.answer := by
      rw [hrx]
      rfl
    have hrxNext : m.rxNext =
        { m with
          atcmdCompletion := m.atcmdCompletion.complete
          pending := m.atcmdCompletion.recordComplete m.pending answer.arrived
          rx := .idle } := by
      rw [Mdbg.rxNext, hrx]
    rw [hrxNext]
    refine h.imp (fun call own _ hwaits => ?_) fun own hreads => ⟨hreads.source, ?_⟩
    · refine ⟨hwaits.sent, ?_, ?_, ?_, ?_, fun hcall _ => ?_⟩
      · intro arrived ha
        rcases Completion.mem_recordComplete ha with ha | rfl
        · exact hwaits.pending arrived ha
        · exact hwaits.rx answer hmem
      · rintro answer' ⟨⟩
      · rintro - answer' ⟨⟩
      · rintro - - answer' ⟨⟩
      · refine hwaits.source hcall (.inr ?_)
        rw [hrx]
        trivial
    · rintro answer' ⟨⟩

/-- The buffer is written by somebody else, before it has the answer. -/
theorem holds_write (hrecorded : Recorded m) (hanswered : ¬pc.Answered m) (h : pc.Holds m)
    (hrx : m'.rx = m.rx) (hsent : m'.sent = m.sent) (hpending : m'.pending = m.pending) :
    pc.Holds m' := by
  cases pc with
  | waiting call own =>
    have hwaits : Awaits m call own := h
    refine ⟨hsent ▸ hwaits.sent, hpending ▸ hwaits.pending, hrx ▸ hwaits.rx,
      hrx ▸ hwaits.command, hpending ▸ hrx ▸ hwaits.late, fun hcall hsource => ?_⟩
    rw [hpending, hrx] at hsource
    refine absurd ⟨hcall, hsource.imp_left fun hnil hdone => hnil ?_⟩ hanswered
    exact hrecorded.pending_eq_nil_iff.2 hdone
  | ended call own arrived => exact ⟨h.1, fun hcall => absurd hcall hanswered⟩
  | read own => exact absurd trivial hanswered
  | readAgain own source => exact absurd trivial hanswered
  | returned own sources ret => exact h
  | _ => trivial

variable [DecidableEq T] {s : State T} {e : Event T}

/-! ## Orderly runs -/

/-- What holds of the lock, of the records and of every thread. -/
structure Settled (s : State T) : Prop where
  locked : Locked s
  recorded : Recorded s.toMdbg
  holds : ∀ t, (s.pc t).Holds s.toMdbg

/-- What an orderly step keeps. -/
theorem settled_next (h : Settled s) (horderly : Orderly s e) : Settled (s.next e) := by
  refine ⟨locked_next h.locked, recorded_next h.recorded, fun u => ?_⟩
  cases e with
  | act t a =>
    by_cases hu : u = t
    · subst hu
      rw [next_act_pc]
      refine holds_act h.recorded (fun call bus hpc ha => ?_) (h.holds u)
      subst ha
      rw [Orderly, hpc] at horderly
      exact horderly
    · rw [next_act_pc_of_ne hu]
      exact holds_other (fun hlock ht => hu (h.locked.eq hlock ht)) (h.holds u)
  | answer command data =>
    exact holds_answer h.recorded (fun htakes hpeek => horderly htakes hpeek u) (h.holds u)
  | rx => exact holds_rxNext (h.holds u)
  | procRead => exact holds_write h.recorded (horderly u) (h.holds u) rfl rfl rfl
  | getchipversion => exact holds_write h.recorded (horderly u) (h.holds u) rfl rfl rfl
  | clean =>
    exact (h.holds u).imp (fun call own _ hwaits => hwaits.keep ⟨rfl, rfl, le_rfl⟩ rfl)
      fun own hreads => hreads.keep ⟨rfl, rfl, le_rfl⟩

omit [DecidableEq T] in
/-- What holds of a wait that was ended, and of what `get_board_ant_num` has read. -/
theorem Settled.sound (h : Settled s) : Sound s := by
  refine ⟨fun t call own arrived hpc => ?_, fun t own sources ret hpc => ?_⟩
  · have hholds := h.holds t
    rw [hpc] at hholds
    exact hholds.1
  · have hholds := h.holds t
    rwa [hpc] at hholds

/-! ## Steps that are not orderly -/

/-- The run can go on to a state that is not sound. -/
def CanFail (s : State T) : Prop := ∃ fs, ¬atCmds.Always Sound s fs

/-- It does so with a step. -/
theorem canFail_step (e : Event T) (h : CanFail (s.next e)) : CanFail s := by
  obtain ⟨fs, hfs⟩ := h
  have hstep : atCmds.step s e = some (s.next e) := rfl
  exact ⟨e :: fs, fun halways => hfs ((Machine.always_cons hstep).1 halways).2⟩

/-- A wait was ended by an answer that arrived too early. -/
theorem canFail_ended {arrived : ℕ} (hpc : s.pc t = .ended call own arrived)
    (h : ¬∃ i ∈ own, i < arrived) : CanFail s :=
  ⟨[], fun halways => h ((Machine.Always.head halways).ended t call own arrived hpc)⟩

/-- The number of antennas was taken from something else. -/
theorem canFail_returned {sources : List (Option ℕ)} {ret : ℕ}
    (hpc : s.pc t = .returned own sources ret) (hsource : source ∈ sources)
    (h : ¬IsOwn own source) : CanFail s :=
  ⟨[], fun halways => h ((Machine.Always.head halways).returned t own sources ret hpc _ hsource)⟩

/-- The buffer has something else, and is about to be read again. -/
theorem canFail_readAgain (hpc : s.pc t = .readAgain own source) (h : ¬IsOwn own s.source) :
    CanFail s := by
  refine canFail_step (.act t .go) (@canFail_returned T t own s.source _ _ [source, s.source]
    marlinThreeAnt ?_ ?_ h)
  · rw [next_act_pc, hpc]
    rfl
  · exact List.mem_cons_of_mem _ List.mem_cons_self

/-- A thread that goes on where this leaves the shared state alone. -/
theorem next_go (hpc : s.pc t = pc) (hgo : s.toMdbg.go t pc = (m, pc')) :
    (s.next (.act t .go)).toMdbg = m ∧ (s.next (.act t .go)).pc t = pc' := by
  have hact : s.toMdbg.act t pc .go = (m, pc') := hgo
  refine ⟨?_, ?_⟩
  · rw [State.next, hpc, hact]
  · rw [next_act_pc, hpc, hact]

/-- It is about to be read. -/
theorem canFail_read (hpc : s.pc t = .read own) (h : ¬IsOwn own s.source) : CanFail s := by
  refine canFail_step (.act t .go) ?_
  by_cases hbuf : s.buf.headD 0 = 0x32
  · obtain ⟨-, hpc'⟩ := next_go hpc (by rw [Mdbg.go, if_pos hbuf])
    exact canFail_returned hpc' List.mem_cons_self h
  · obtain ⟨hm, hpc'⟩ := next_go hpc (by rw [Mdbg.go, if_neg hbuf])
    exact canFail_readAgain hpc' (by rwa [hm])

/-- `get_board_ant_num` is about to give the lock back before it reads it. -/
theorem canFail_read_ended {arrived : ℕ} (hpc : s.pc t = .ended .getBoardAntNum own arrived)
    (h : ¬IsOwn own s.source) : CanFail s := by
  refine canFail_step (.act t .go) ?_
  obtain ⟨hm, hpc'⟩ := next_go hpc rfl
  refine canFail_read hpc' ?_
  rwa [hm]

/-- A wait goes on. -/
theorem next_waiting (hpc : s.pc t = .waiting call own) (hdone : s.atcmdCompletion.done ≠ 0) :
    (s.next (.act t .go)).source = s.source ∧
      (s.next (.act t .go)).pc t = .ended call own (s.pending.headD 0) := by
  obtain ⟨c, hc⟩ := Completion.exists_wait hdone
  obtain ⟨hm, hpc'⟩ := next_go hpc (by rw [Mdbg.go, Mdbg.wait, hc])
  refine ⟨?_, hpc'⟩
  rw [hm]

/-- Somebody is misled by what the buffer has. -/
theorem canFail_of_not_expects (h : ¬(s.pc t).Expects s.source)
    (hdone : ∀ call own, s.pc t = .waiting call own → s.atcmdCompletion.done ≠ 0) :
    CanFail s := by
  cases hpc : s.pc t with
  | waiting call own =>
    obtain ⟨hsource, hended⟩ := next_waiting hpc (hdone call own hpc)
    rw [hpc] at h
    refine canFail_step (.act t .go) ?_
    -- It takes the buffer for its answer, or it has sent nothing that could be answered.
    by_cases hsome : own.isSome
    · obtain ⟨rfl, hcommand⟩ := Classical.not_imp.1 fun hcommand => h ⟨hsome, hcommand⟩
      exact canFail_read_ended hended fun hown => hcommand (hsource ▸ hown.2)
    · refine canFail_ended hended ?_
      rintro ⟨i, rfl, -⟩
      exact hsome rfl
  | ended call own arrived =>
    rw [hpc] at h
    obtain ⟨rfl, hsource⟩ := Classical.not_imp.1 h
    exact canFail_read_ended hpc hsource
  | read own =>
    rw [hpc] at h
    exact canFail_read hpc h
  | readAgain own source =>
    rw [hpc] at h
    exact canFail_readAgain hpc h
  | _ =>
    rw [hpc] at h
    exact absurd trivial h

/-- An answer is completed for. -/
theorem next_rx_complete {answer : Answer} (hrx : s.rx = .complete answer) :
    (s.next .rx).source = s.source ∧ (s.next .rx).atcmdCompletion.done ≠ 0 := by
  rw [State.next, Mdbg.rxNext, hrx]
  exact ⟨rfl, Completion.complete_done_ne_zero⟩

/-- The buffer is cleared, -/
theorem next_rx_store {answer : Answer} (hrx : s.rx = .store answer) :
    s.next .rx = { s with
      buf := []
      source := if answer.data = [] then answer.command else none
      rx := .copy answer } := by
  rw [State.next, Mdbg.rxNext, hrx]

/-- and the answer is copied to it. -/
theorem next_rx_copy {answer : Answer} (hrx : s.rx = .copy answer) :
    s.next .rx = { s with
      buf := answer.data ++ s.buf.drop answer.data.length
      source := if answer.data = [] then s.source else answer.command
      rx := .complete answer } := by
  rw [State.next, Mdbg.rxNext, hrx]

/-- An answer that misleads somebody is about to be stored. -/
theorem canFail_store {answer : Answer} (hrx : s.rx = .store answer)
    (h : ¬(s.pc t).Expects answer.command) : CanFail s := by
  refine canFail_step .rx (canFail_step .rx (canFail_step .rx ?_))
  have hcopy : (s.next .rx).rx = .copy answer := by rw [next_rx_store hrx]
  have hcomplete : ((s.next .rx).next .rx).rx = .complete answer := by rw [next_rx_copy hcopy]
  obtain ⟨hsource, hdone⟩ := next_rx_complete hcomplete
  refine @canFail_of_not_expects T t _ _ ?_ fun _ _ _ => hdone
  have hcommand : ((s.next .rx).next .rx).source = answer.command := by
    rw [next_rx_copy hcopy, next_rx_store hrx]
    dsimp only
    split_ifs <;> rfl
  rw [hsource, hcommand]
  exact h

/-- The buffer was written by somebody else. -/
theorem canFail_write (hsource : s.source = none) (h : (s.pc t).Answered s.toMdbg) :
    CanFail s := by
  -- Nobody who has an answer to read expects what no command was sent for.
  have hnot : ¬(s.pc t).Expects none := by
    cases hpc : s.pc t with
    | waiting call own =>
      rw [hpc] at h
      rintro ⟨hsome, hown⟩
      rw [← hown h.1] at hsome
      cases hsome
    | ended call own arrived =>
      rw [hpc] at h
      intro hexpects
      obtain ⟨hsome, hown⟩ := hexpects h
      rw [← hown] at hsome
      cases hsome
    | read own =>
      rintro ⟨hsome, rfl⟩
      cases hsome
    | readAgain own source =>
      rintro ⟨hsome, rfl⟩
      cases hsome
    | _ =>
      rw [hpc] at h
      exact absurd h id
  by_cases hdone : ∀ call own, s.pc t = .waiting call own → s.atcmdCompletion.done ≠ 0
  · exact canFail_of_not_expects (hsource ▸ hnot) hdone
  · obtain ⟨call, own, hpc, hzero⟩ :
        ∃ call own, s.pc t = .waiting call own ∧ s.atcmdCompletion.done = 0 := by
      simpa only [not_forall, not_not, exists_prop] using hdone
    rw [hpc] at h
    -- The thread still waits, so the answer is on its way and is completed for soon.
    cases hrx : s.rx with
    | complete answer =>
      obtain ⟨hsource', hdone'⟩ := next_rx_complete hrx
      refine canFail_step .rx (@canFail_of_not_expects T t _ _ ?_ fun _ _ _ => hdone')
      rwa [hsource', hsource]
    | copy answer =>
      rw [Pc.Answered, hrx] at h
      have hdata : answer.data = [] := h.2.resolve_left (not_not.2 hzero)
      have hcomplete : (s.next .rx).rx = .complete answer := by rw [next_rx_copy hrx]
      obtain ⟨hsource', hdone'⟩ := next_rx_complete hcomplete
      refine canFail_step .rx (canFail_step .rx
        (@canFail_of_not_expects T t _ _ ?_ fun _ _ _ => hdone'))
      rw [hsource', next_rx_copy hrx]
      dsimp only
      rwa [if_pos hdata, hsource]
    | idle | store _ =>
      rw [Pc.Answered, hrx] at h
      exact absurd h.2 (not_or.2 ⟨not_not.2 hzero, id⟩)

/-- The buffer is about to be cleared for another answer before it was read. -/
theorem canFail_clear {answer : Answer} (hrx : s.rx = .store answer) (hdata : answer.data ≠ [])
    (h : (s.pc t).Answered s.toMdbg) : CanFail s := by
  refine canFail_step .rx (@canFail_write T t _ _ ?_ ?_)
  · rw [next_rx_store hrx]
    exact if_neg hdata
  · rw [next_rx_store hrx]
    cases hpc : s.pc t with
    | waiting call own =>
      rw [hpc, Pc.Answered, hrx] at h
      exact ⟨h.1, .inl (h.2.resolve_right id)⟩
    | _ =>
      rw [hpc] at h
      exact h

/-- A wait is about to be ended by an answer that arrived too early. -/
theorem canFail_stale (hpc : s.pc t = .waiting call own) (hrecorded : Recorded s.toMdbg)
    (hdone : s.atcmdCompletion.done ≠ 0) (h : ∀ arrived ∈ s.pending, ¬∃ i ∈ own, i < arrived) :
    CanFail s :=
  canFail_step (.act t .go)
    (canFail_ended (next_waiting hpc hdone).2 (h _ (hrecorded.headD_mem hdone)))

/-- So it is while such an answer is about to be completed for, -/
theorem canFail_stale_complete {answer : Answer} (hpc : s.pc t = .waiting call own)
    (hrecorded : Recorded s.toMdbg) (hpending : ∀ arrived ∈ s.pending, ¬∃ i ∈ own, i < arrived)
    (hrx : s.rx = .complete answer) (h : ¬∃ i ∈ own, i < answer.arrived) : CanFail s := by
  have hnext : (s.next .rx).pending =
      s.atcmdCompletion.recordComplete s.pending answer.arrived := by
    rw [State.next, Mdbg.rxNext, hrx]
  refine canFail_step .rx (@canFail_stale T t call own _ _ hpc (recorded_next hrecorded)
    (next_rx_complete hrx).2 ?_)
  rw [hnext]
  intro arrived ha
  rcases Completion.mem_recordComplete ha with ha | rfl
  · exact hpending arrived ha
  · exact h

/-- to be copied, -/
theorem canFail_stale_copy {answer : Answer} (hpc : s.pc t = .waiting call own)
    (hrecorded : Recorded s.toMdbg) (hpending : ∀ arrived ∈ s.pending, ¬∃ i ∈ own, i < arrived)
    (hrx : s.rx = .copy answer) (h : ¬∃ i ∈ own, i < answer.arrived) : CanFail s := by
  refine canFail_step .rx (@canFail_stale_complete T t call own _ _ answer ?_
    (recorded_next hrecorded) ?_ ?_ h)
  · rwa [next_rx_copy hrx]
  · rwa [next_rx_copy hrx]
  · rw [next_rx_copy hrx]

/-- or to be stored. -/
theorem canFail_stale_rx (hpc : s.pc t = .waiting call own) (hrecorded : Recorded s.toMdbg)
    (hpending : ∀ arrived ∈ s.pending, ¬∃ i ∈ own, i < arrived)
    (hrx : ∀ answer ∈ s.rx.answer, ¬∃ i ∈ own, i < answer.arrived)
    (h : s.atcmdCompletion.done ≠ 0 ∨ s.rx ≠ .idle) : CanFail s := by
  cases hrx' : s.rx with
  | idle => exact canFail_stale hpc hrecorded (h.resolve_right (not_not.2 hrx')) hpending
  | store answer =>
    have hcopy : (s.next .rx).rx = .copy answer := by rw [next_rx_store hrx']
    have hpc' : (s.next .rx).pc t = .waiting call own := by rwa [next_rx_store hrx']
    refine canFail_step .rx (canFail_stale_copy hpc' (recorded_next hrecorded) ?_ hcopy
      (hrx answer (by rw [hrx']; rfl)))
    rwa [next_rx_store hrx']
  | copy answer =>
    exact canFail_stale_copy hpc hrecorded hpending hrx' (hrx answer (by rw [hrx']; rfl))
  | complete answer =>
    exact canFail_stale_complete hpc hrecorded hpending hrx' (hrx answer (by rw [hrx']; rfl))

/-- A command is sent while an answer is being processed or left over. -/
theorem canFail_send {bus : Bus} (hpc : s.pc t = .send call) (hrecorded : Recorded s.toMdbg)
    (hcall : call ≠ .loopcheckWorkQueue) (hret : bus.ret = 0)
    (h : s.atcmdCompletion.done ≠ 0 ∨ s.rx ≠ .idle) : CanFail (s.next (.act t (.send bus))) := by
  have hm : (s.next (.act t (.send bus))).toMdbg = s.toMdbg.atCmdSend call.text bus := by
    rw [State.next, hpc, Mdbg.act, Mdbg.send]
  have hwaiting : (s.next (.act t (.send bus))).pc t =
      .waiting call (if bus = .pushed then some s.sent.length else none) := by
    rw [next_act_pc, hpc, Mdbg.act, Mdbg.send, if_neg hcall, if_neg (not_not.2 hret)]
  obtain ⟨hpending, hcompletion⟩ : (s.toMdbg.atCmdSend call.text bus).pending = s.pending ∧
      (s.toMdbg.atCmdSend call.text bus).atcmdCompletion = s.atcmdCompletion := by
    rw [Mdbg.atCmdSend]
    split <;> exact ⟨rfl, rfl⟩
  -- All answers that have arrived did so before.
  have hearly (arrived : ℕ) (ha : arrived ≤ s.sent.length) :
      ¬∃ i ∈ (if bus = .pushed then some s.sent.length else none : Option ℕ), i < arrived := by
    rintro ⟨i, hi, hlt⟩
    split at hi
    · cases hi
      exact absurd hlt (not_lt.2 ha)
    · cases hi
  refine canFail_stale_rx hwaiting (recorded_next hrecorded) ?_ ?_ ?_
  · rw [hm, hpending]
    exact fun arrived ha => hearly arrived (hrecorded.pending arrived ha)
  · rw [hm, atCmdSend_keeps.rx]
    exact fun answer ha => hearly answer.arrived (hrecorded.rx answer ha)
  · rwa [hm, hcompletion, atCmdSend_keeps.rx]

/-- Once a step is not orderly, the run can go on to a state that is not sound. -/
theorem canFail_of_not_orderly (hrecorded : Recorded s.toMdbg) (h : ¬Orderly s e) :
    CanFail (s.next e) := by
  -- Each event that is not orderly has its own way to mislead a thread.
  cases e with
  | act t a =>
    cases a with
    | send bus =>
      rw [Orderly] at h
      split at h
      · rename_i call hpc
        push Not at h
        obtain ⟨hcall, hret, hleft⟩ := h
        -- The command was sent while an older answer was left, or a completion was.
        refine canFail_send hpc hrecorded hcall hret ?_
        by_cases hdone : s.atcmdCompletion.done = 0
        · exact .inr (hleft hdone)
        · exact .inl hdone
      · exact absurd trivial h
    | _ => exact absurd trivial h
  | answer command data =>
    rw [Orderly] at h
    push Not at h
    obtain ⟨htakes, hpeek, t, hmisled⟩ := h
    have hnext : s.toMdbg.answer command data =
        { s.toMdbg with
          owners := s.owners.pop
          rx := .store ⟨command, s.sent.length, data⟩ } := by
      rw [Mdbg.answer, if_pos htakes, hpeek]
    have hrx : (s.next (.answer command data)).rx = .store ⟨command, s.sent.length, data⟩ := by
      rw [State.next, hnext]
    -- The answer is a second one to the command of the thread, or it is stored as if it were.
    by_cases hexpects : (s.pc t).Expects command
    · obtain ⟨hanswered, hdata⟩ := hmisled hexpects
      refine @canFail_clear T t _ _ _ hrx hdata ?_
      rw [State.next, hnext]
      cases hpc : s.pc t with
      | waiting call own =>
        rw [hpc, Pc.Answered, htakes.1] at hanswered
        exact ⟨hanswered.1, .inl (hanswered.2.resolve_right id)⟩
      | _ =>
        rw [hpc] at hanswered
        exact hanswered
    · exact @canFail_store T t _ _ _ hrx hexpects
  -- Reading `/proc` while an answer is being read clears the buffer.
  | procRead =>
    rw [Orderly] at h
    push Not at h
    obtain ⟨t, hanswered⟩ := h
    exact @canFail_write T t _ _ rfl (hanswered.keep rfl rfl)
  | getchipversion =>
    rw [Orderly] at h
    push Not at h
    obtain ⟨t, hanswered⟩ := h
    exact @canFail_write T t _ _ rfl (hanswered.keep rfl rfl)
  | rx => exact absurd trivial h
  | clean => exact absurd trivial h

/-! ## Every run -/

/-- **AT answers belong to the command that waited for them**: in a run all of whose steps are
    orderly, every wait that is ended is ended by an answer that arrived after its own command was
    sent, and the number of antennas is taken from the answer to its own command only. As soon as a
    step is not orderly, the run can go on to where one of the two is lost. -/
theorem answers_own :
    (∀ es, atCmds.Along Orderly (.init : State T) es → atCmds.Always Sound .init es) ∧
    ∀ es e (s : State T), atCmds.run .init es = some s → ¬Orderly s e →
      ∃ fs, ¬atCmds.Always Sound .init (es ++ e :: fs) := by
  have hinit : Settled (.init : State T) := ⟨locked_init, recorded_init, fun _ => trivial⟩
  refine ⟨fun es horderly => ?_, fun es e s hes h => ?_⟩
  · have hsettled : atCmds.Always Settled .init es := by
      refine Machine.always_of_along (fun s e s' h hG hstep => ?_) hinit horderly
      exact Option.some.inj hstep ▸ settled_next h hG
    exact hsettled.imp fun s => Settled.sound
  · have hrecorded : Recorded s.toMdbg := by
      refine (Machine.always_of_step (I := fun s : State T => Recorded s.toMdbg)
        (fun s e s' h hstep => ?_) hinit.recorded).last hes
      exact Option.some.inj hstep ▸ recorded_next h
    obtain ⟨fs, hfs⟩ := canFail_of_not_orderly hrecorded h
    have hstep : atCmds.step s e = some (s.next e) := rfl
    exact ⟨fs, fun halways => hfs ((Machine.always_cons hstep).1 (halways.of_append hes)).2⟩

/-- An answer that comes after its command was given up. The number of antennas is asked for
    next. -/
def lateRun : List (Event (Fin 2)) :=
  [.act 0 (.call .getCp2Version), .act 0 .go, .act 0 (.send .pushed), .act 0 .timeout, .act 0 .go,
    .answer (some 0) [0x32], .rx, .rx, .rx, .act 1 (.call .getBoardAntNum), .act 1 .go]

/-- Up to there all is well, but not any more once the command is sent. -/
theorem answers_own_late :
    atCmds.Always Sound .init lateRun ∧
      ∃ fs, ¬atCmds.Always Sound .init (lateRun ++ .act 1 (.send .pushed) :: fs) :=
  ⟨answers_own.1 _ (by decide), answers_own.2 lateRun (.act 1 (.send .pushed)) _ rfl (by decide)⟩

/-- The wait for the number of antennas is ended by the late answer, from which they are taken to be
    two, although the command that asks for it was not answered at all. -/
theorem not_answers_own :
    ¬atCmds.Always Sound .init
      (lateRun ++ [.act 1 (.send .pushed), .act 1 .go, .act 1 .go, .act 1 .go]) := by
  intro h
  have hsource := (h.last rfl).returned 1 (some 1) [some 0] marlinTwoAnt rfl (some 0)
    List.mem_cons_self
  exact absurd hsource (by decide)

end W132d.AtCmd
