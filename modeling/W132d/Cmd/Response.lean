import W132d.Cmd.Basic

/-!
# Success of a command

A command that returns 0 has had its own response, unless the chip was reset, or the slot was taken
down although commands were still waiting.

* `Answered`: a response was taken that has the number and the time of a command;
* `Granted`: what a command that returns 0 may rely on;
* `Pc.Fits`: what holds of the slot and of the answers, depending on where a thread is;
* `fits_act`, `fits_other`: a step keeps this, for the thread that takes it and for the others;
* `granted_of_returned`: whatever the threads do, a command returns 0 only if that is granted;
* `not_answered`: after a reset, and after the slot was taken down, it may not have been answered.

The machine is that of `W132d.Cmd.Basic`. What holds where a thread is (`Pc.Fits`) is about the
slot: as long as a thread has the lock of the commands and has set the slot, the slot expects its
response, and if there is a response in it, then it was taken since the call began. Only the thread
with the lock sets the slot, and a response that is processed is compared with it in one section
(`fits_set`, `Expects.rxSection`), so that a step of another thread does not change this, but for
the one that takes the slot down (`fits_clean`), and for a reset, after which nothing is promised
(`fits_reset`).

The theorem is about every thread in every state that is reached, as an invariant (`inv_next`).
-/

namespace W132d.Cmd

variable {T : Type*} {s s' : Shared T} {own : Own} {pc : Pc} {t : T} {rsp : Rsp}

/-! ## Answers -/

/-- Between the start of the call and now, a response was taken that has the number and the time
    that the call has put into the slot. -/
def Answered (s : Shared T) (own : Own) : Prop :=
  ∃ a ∈ s.answers.drop own.start,
    a.accepted ∧ a.rsp.cmdId = own.cmdId ∧ a.rsp.mstime = own.mstime

instance (s : Shared T) (own : Own) : Decidable (Answered s own) :=
  inferInstanceAs (Decidable (∃ a ∈ s.answers.drop own.start, _))

/-- The call was answered, unless the chip was reset or the slot was taken down. -/
def Granted (s : Shared T) (own : Own) : Prop := s.cmdNotAllowed ∨ s.cleaned ∨ Answered s own

/-- The slot expects the response of the call, and the call was answered if there is one. -/
def Expects (s : Shared T) (own : Own) : Prop :=
  s.cleaned ∨ s.cmd.cmdId = own.cmdId ∧ s.cmd.mstime = own.mstime ∧
    (s.cmd.data.isSome → Answered s own)

/-- What holds where a thread is. -/
def Pc.Fits (s : Shared T) : Pc → Prop
  | lock call | mutex call | reinit call | set call => call.start ≤ s.answers.length
  | send own | waiting own | checkExit own | checkData own =>
    own.start ≤ s.answers.length ∧ Expects s own
  | received own ret _ _ => ret = 0 → s.cleaned ∨ Answered s own
  | unlock own ret | release own ret | returned own ret => own.wait → ret = 0 → Granted s own
  | _ => True

/-! ## The other threads -/

/-- An answer more. -/
theorem Answered.rxSection (h : Answered s own) : Answered (s.rxSection rsp) own := by
  obtain ⟨a, ha, htaken⟩ := h
  refine ⟨a, ?_, htaken⟩
  rw [Shared.rxSection, List.drop_append]
  exact List.mem_append_left _ ha

/-- The response that the slot takes is one that the call expects. -/
theorem Expects.rxSection (hstart : own.start ≤ s.answers.length) (h : Expects s own) :
    Expects (s.rxSection rsp) own := by
  refine h.imp id fun ⟨hcmdId, hmstime, hdata⟩ => ?_
  by_cases htakes : s.cmd.takes rsp
  · have htaken := of_decide_eq_true htakes
    have hrx : (s.rxSection rsp).cmd =
        { s.cmd with data := some rsp, completed := s.cmd.completed.complete } := if_pos htakes
    rw [hrx]
    refine ⟨hcmdId, hmstime, fun _ => ⟨⟨rsp, true⟩, ?_, rfl, ?_, ?_⟩⟩
    · rw [Shared.rxSection, htakes, List.drop_append_of_le_length hstart]
      exact List.mem_append_right _ (List.mem_singleton_self _)
    · exact htaken.2.2.trans hcmdId
    · exact htaken.2.1.trans hmstime
  · have hrx : (s.rxSection rsp).cmd = s.cmd := if_neg htakes
    rw [hrx]
    exact ⟨hcmdId, hmstime, fun h => (hdata h).rxSection⟩

/-- A thread that processes a response. -/
theorem fits_rxSection (h : pc.Fits s) : pc.Fits (s.rxSection rsp) := by
  have hlength : s.answers.length ≤ (s.rxSection rsp).answers.length := by
    rw [Shared.rxSection, List.length_append]
    exact Nat.le_add_right _ _
  cases pc with
  | lock call => exact le_trans h hlength
  | mutex call => exact le_trans h hlength
  | reinit call => exact le_trans h hlength
  | set call => exact le_trans h hlength
  | send own => exact ⟨h.1.trans hlength, h.2.rxSection h.1⟩
  | waiting own => exact ⟨h.1.trans hlength, h.2.rxSection h.1⟩
  | checkExit own => exact ⟨h.1.trans hlength, h.2.rxSection h.1⟩
  | checkData own => exact ⟨h.1.trans hlength, h.2.rxSection h.1⟩
  | received own ret timedOut upTo => exact fun hret => (h hret).imp id Answered.rxSection
  | unlock own ret => exact fun hw hret => (h hw hret).imp id (Or.imp id Answered.rxSection)
  | release own ret => exact fun hw hret => (h hw hret).imp id (Or.imp id Answered.rxSection)
  | returned own ret => exact fun hw hret => (h hw hret).imp id (Or.imp id Answered.rxSection)
  | _ => trivial

/-- What was answered, with the same answers. -/
theorem Keeps.answered (hkeeps : Keeps s s') (h : Answered s own) : Answered s' own := by
  rwa [Answered, hkeeps.answers]

theorem Keeps.granted (hkeeps : Keeps s s') (h : Granted s own) : Granted s' own := by
  rw [Granted, hkeeps.cmdNotAllowed, hkeeps.cleaned]
  exact h.imp id (Or.imp id hkeeps.answered)

theorem Keeps.expects (hkeeps : Keeps s s') (h : Expects s own) : Expects s' own := by
  rw [Expects, hkeeps.cleaned, hkeeps.cmdId, hkeeps.mstime, hkeeps.data]
  exact h.imp id fun ⟨hcmdId, hmstime, hdata⟩ =>
    ⟨hcmdId, hmstime, fun hsome => hkeeps.answered (hdata hsome)⟩

/-- A thread that does not write the slot. -/
theorem fits_keeps (hkeeps : Keeps s s') (h : pc.Fits s) : pc.Fits s' := by
  have hlength : s'.answers.length = s.answers.length := by rw [hkeeps.answers]
  cases pc with
  | lock call => exact le_of_le_of_eq h hlength.symm
  | mutex call => exact le_of_le_of_eq h hlength.symm
  | reinit call => exact le_of_le_of_eq h hlength.symm
  | set call => exact le_of_le_of_eq h hlength.symm
  | send own => exact ⟨hlength ▸ h.1, hkeeps.expects h.2⟩
  | waiting own => exact ⟨hlength ▸ h.1, hkeeps.expects h.2⟩
  | checkExit own => exact ⟨hlength ▸ h.1, hkeeps.expects h.2⟩
  | checkData own => exact ⟨hlength ▸ h.1, hkeeps.expects h.2⟩
  | received own ret timedOut upTo =>
    rw [Pc.Fits, hkeeps.cleaned]
    exact fun hret => (h hret).imp id hkeeps.answered
  | unlock own ret => exact fun hw hret => hkeeps.granted (h hw hret)
  | release own ret => exact fun hw hret => hkeeps.granted (h hw hret)
  | returned own ret => exact fun hw hret => hkeeps.granted (h hw hret)
  | _ => trivial

/-- A thread that sets the slot has the lock, so that the others do not expect a response. -/
theorem fits_set {cmdId : UInt8} {mstime : UInt32} (hlock : ¬pc.HasLock) (h : pc.Fits s) :
    pc.Fits { s with cmd := s.cmd.set cmdId mstime } := by
  cases pc with
  | send own => exact absurd trivial hlock
  | waiting own => exact absurd trivial hlock
  | checkExit own => exact absurd trivial hlock
  | checkData own => exact absurd trivial hlock
  | _ => exact h

/-- A thread that takes the slot down. -/
theorem fits_clean (h : pc.Fits s) : pc.Fits { s with cmd := s.cmd.clean, cleaned := true } := by
  cases pc with
  | send own => exact ⟨h.1, .inl rfl⟩
  | waiting own => exact ⟨h.1, .inl rfl⟩
  | checkExit own => exact ⟨h.1, .inl rfl⟩
  | checkData own => exact ⟨h.1, .inl rfl⟩
  | received own ret timedOut upTo => exact fun _ => .inl rfl
  | unlock own ret => exact fun _ _ => .inr (.inl rfl)
  | release own ret => exact fun _ _ => .inr (.inl rfl)
  | returned own ret => exact fun _ _ => .inr (.inl rfl)
  | lock call => exact h
  | mutex call => exact h
  | reinit call => exact h
  | set call => exact h
  | _ => trivial

variable [DecidableEq T] {a : Act} {pc' : Pc}

/-- What holds for the threads that do not take the step. -/
theorem fits_other (hlock : pc'.HasLock → ¬pc.HasLock) (h : pc.Fits s) :
    pc.Fits (s.act t pc' a).1 := by
  by_cases hwrites : Writes pc' a
  · cases a with
    | set mstime =>
      cases pc' with
      | set call => exact fits_set (hlock trivial) h
      | _ => exact absurd hwrites id
    | go =>
      cases pc' with
      | rxSection rsp => exact fits_rxSection h
      | deinitClean => exact fits_clean h
      | _ => exact absurd hwrites id
    | _ => exact absurd hwrites (by cases pc' <;> exact id)
  · exact fits_keeps (act_keeps hwrites) h

/-! ## The thread that takes the step -/

/-- A thread that goes on. -/
theorem fits_go (h : pc.Fits s) : (s.go t pc).2.Fits (s.go t pc).1 := by
  cases pc with
  | lock call =>
    rw [Shared.go]
    split
    · rw [Shared.count]
      dsimp only
      split
      · trivial
      · exact h
    · trivial
  | mutex call =>
    rw [Shared.go]
    split
    · dsimp only
      split <;> exact h
    · exact h
  | waiting own =>
    rw [Shared.go]
    split
    · exact h
    · exact h
  | checkExit own =>
    rw [Shared.go, Shared.checkExit]
    dsimp only
    split
    · exact fun hret => absurd hret (by decide)
    · split
      · exact fun hret => absurd hret (by decide)
      · exact h
  | checkData own =>
    intro hret
    refine h.2.imp id ?_
    rintro ⟨-, -, hdata⟩
    refine hdata ?_
    -- Without a response the call fails here.
    by_contra hnone
    rw [if_neg hnone] at hret
    exact absurd hret (by decide)
  | received own ret timedOut upTo =>
    rw [Shared.go, Shared.received]
    split
    · rename_i hreset
      exact fun _ _ => .inl hreset
    · split
      · exact fun _ hret => .inr (h hret)
      · exact fun _ hret => .inr (h hret)
  | unlock own ret =>
    rw [Shared.go, Shared.unlock]
    split
    · exact h
    · exact h
  | rxLock rsp =>
    rw [Shared.go, Shared.count]
    dsimp only
    split <;> trivial
  | deinitWait =>
    rw [Shared.go]
    dsimp only
    split <;> trivial
  | release own ret => exact h
  | reinit call => exact h
  | _ => trivial

/-- What holds for the thread that takes the step. -/
theorem fits_act (h : pc.Fits s) : (s.act t pc a).2.Fits (s.act t pc a).1 := by
  -- Only `go` may copy a response. Every other action leaves the call where it was, or takes it to
  -- a place where nothing is promised yet.
  cases a with
  | go => exact fits_go h
  | call cmdId wait available =>
    rw [Shared.act]
    split
    · exact h
    · split
      · trivial
      · exact le_rfl
  | set mstime =>
    cases pc with
    | set call => exact ⟨h, .inr ⟨rfl, rfl, fun hsome => absurd hsome Bool.false_ne_true⟩⟩
    | _ => exact h
  | send sent =>
    cases pc with
    | send own =>
      rw [Shared.act]
      dsimp only
      split
      · exact fun _ hret => absurd hret (by decide)
      · split
        · exact h
        · -- The call goes on to wait, and it was a call that waits.
          rename_i hwait
          exact fun hw => absurd hw hwait
    | _ => exact h
  | timeout =>
    cases pc with
    | waiting own =>
      rw [Shared.act]
      dsimp only
      split
      · exact fun hret => absurd hret (by decide)
      · exact h
    | _ => exact h
  | respond rsp =>
    rw [Shared.act]
    dsimp only
    split
    · trivial
    · exact h
  | alloc ok =>
    cases pc with
    | rxAlloc rsp =>
      rw [Shared.act]
      dsimp only
      split <;> trivial
    | _ => exact h
  | deinit =>
    rw [Shared.act]
    split
    · trivial
    · exact h
  | deinitTimeout =>
    rw [Shared.act]
    dsimp only
    split
    · trivial
    · exact h

/-! ## Every run -/

/-- What holds of the lock, and of every thread. -/
structure Inv (s : State T) : Prop where
  locked : Locked s
  fits : ∀ t, (s.pc t).Fits s.toShared

omit [DecidableEq T] in
/-- A reset grants everything. -/
theorem fits_reset (h : pc.Fits s) :
    pc.Fits { s with cmdNotAllowed := true, cpAsserted := true, exit := true } := by
  cases pc with
  | unlock own ret => exact fun _ _ => .inl rfl
  | release own ret => exact fun _ _ => .inl rfl
  | returned own ret => exact fun _ _ => .inl rfl
  | _ => exact h

/-- What every step keeps. -/
theorem inv_next {s : State T} {e : Event T} (h : Inv s) : Inv (s.next e) := by
  refine ⟨locked_next h.locked, fun u => ?_⟩
  cases e with
  | act t a =>
    by_cases hu : u = t
    · rw [hu, next_act_pc]
      exact fits_act (h.fits t)
    · rw [next_act_pc_of_ne hu]
      refine fits_other (fun ht hlock => hu ?_) (h.fits u)
      exact Option.some.inj ((h.locked u hlock).symm.trans (h.locked t ht))
  | exit => exact fits_keeps ⟨rfl, rfl, rfl, rfl, rfl, rfl⟩ (h.fits u)
  | reset => exact fits_reset (h.fits u)
  | hang acked => exact fits_keeps ⟨rfl, rfl, rfl, rfl, rfl, rfl⟩ (h.fits u)
  | wakeUpall => exact fits_keeps ⟨rfl, rfl, rfl, rfl, rfl, rfl⟩ (h.fits u)

/-- **Command success means its own response**: whatever the threads do, a call of
    `sprdwl_cmd_send_recv` that has had the command lock returns 0 only if its response was taken
    between its start and its end, or the chip was reset, or the slot was taken down. -/
theorem granted_of_returned (es : List (Event T)) :
    commands.Always
      (fun s : State T => ∀ t own, s.pc t = .returned own 0 → own.wait → Granted s.toShared own)
      .init es := by
  have hinv : commands.Always Inv (.init : State T) es := by
    refine Machine.always_of_step (fun s e s' h hstep => ?_) ⟨locked_init, fun _ => trivial⟩
    exact Option.some.inj hstep ▸ inv_next h
  refine hinv.imp fun s h t own hpc hwait => ?_
  have hfits := h.fits t
  rw [hpc] at hfits
  exact hfits hwait rfl

/-- A call that has set the slot and sent its command: it waits for the response. -/
def sendRecv (t : Fin 3) (cmdId : UInt8) (mstime : UInt32) : List (Event (Fin 3)) :=
  [.act t (.call cmdId true true), .act t .go, .act t .go, .act t .go, .act t (.set mstime),
    .act t (.send true)]

/-- It times out while the chip is being reset. -/
def resetRun : List (Event (Fin 3)) :=
  sendRecv 0 5 7 ++ [.reset, .act 0 .timeout, .act 0 .go, .act 0 .go, .act 0 .go]

/-- A late response wakes it up, and the slot is taken down while it looks for its own, and while
    another response is being processed. -/
def deinitRun : List (Event (Fin 3)) :=
  [.act 0 (.call 5 false true), .act 0 .go, .act 0 .go, .act 0 (.set 1), .act 0 (.send true),
    .act 0 .go, .act 0 .go,
    .act 1 (.call 6 true true), .act 1 .go, .act 1 .go, .act 1 .go,
    .act 0 (.respond ⟨0, 5, 16, 1⟩), .act 0 .go, .act 0 (.alloc true), .act 0 .go, .act 0 .go,
    .act 1 (.set 2), .act 1 (.send true), .act 1 .go, .act 1 .go,
    .act 0 (.respond ⟨0, 0, 16, 0⟩), .act 0 .go, .act 0 (.alloc true),
    .act 2 .deinit, .act 2 .go, .act 2 .deinitTimeout, .act 2 .go,
    .act 0 .go, .act 1 .go, .act 1 .go, .act 1 .go, .act 1 .go]

/-- In both of these runs the call returns 0 and was not answered. -/
theorem not_answered :
    (¬commands.Always (fun s : State (Fin 3) =>
      ∀ t own, s.pc t = .returned own 0 → own.wait → Answered s.toShared own) .init resetRun) ∧
    ¬commands.Always (fun s : State (Fin 3) =>
      ∀ t own, s.pc t = .returned own 0 → own.wait → Answered s.toShared own) .init deinitRun := by
  constructor
  · intro h
    exact absurd (h.last rfl 0 ⟨⟨5, true, 0⟩, 7, 0⟩ rfl rfl) (by decide)
  · intro h
    exact absurd (h.last rfl 1 ⟨⟨6, true, 0⟩, 2, 1⟩ rfl rfl) (by decide)

end W132d.Cmd
