import W132d.Cmd.Basic

/-!
# Failure of a command

A command that fails has waited in vain for all of the time it had. This is lost if the response of
an earlier command is taken after the completion was initialized again, and before the slot is set:
it wakes the command up, which then does not find its own response.

* `Fails`: what a command that fails may rely on;
* `Calm`: nobody asks for an exit, a reset or a hang recovery;
* `Timely`: the condition on a step;
* `Pc.Waits`: what holds where a thread is, as long as the steps are calm and timely;
* `canFail_of_not_timely`: once a step is not timely, a command can fail for no reason;
* `failed_of_timely`: a run has no such failure if all its steps are timely, and can be gone on with
  to one that has as soon as a step is not.

The machine is that of `W132d.Cmd.Basic`: any number of threads that send commands, one at a time
under the lock of the commands, and the handler of responses, which fills the one slot for a
response if the number and the time stamp of the command are those that the slot expects. The
completion is initialized before the slot is set, so that between the two an answer to the command
before is still expected, and completes the wait of the command after it.

How the theorem is proved: `Pc.Waits` is kept by every step that is calm and timely
(`waiting_next`). A response is processed in one section of the spin lock, which either leaves the
slot alone or fills it and completes the completion; a thread changes the slot only if it has the
lock of the commands, so that the others need not be looked at (`waits_other`). For the other
direction, the run is continued to the failure one step of the thread at a time, from the last place
backwards (`canFail_received`, `canFail_checkData`, `canFail_waiting`, `canFail_send`,
`canFail_set`).
-/

namespace W132d.Cmd

variable {T : Type*} {s s' : Shared T} {own : Own} {pc pc' : Pc} {t u : T} {rsp : Rsp} {a : Act}

/-! ## Failures -/

/-- The response is one to the command of the call. -/
def Own.Matches (own : Own) (rsp : Rsp) : Prop := rsp.cmdId = own.cmdId ∧ rsp.mstime = own.mstime

instance : Decidable (own.Matches rsp) := inferInstanceAs (Decidable (_ ∧ _))

/-- None of the answers is one to the call. -/
def Unanswered (own : Own) (answers : List Answer) : Prop := ∀ a ∈ answers, ¬own.Matches a.rsp

instance (answers : List Answer) : Decidable (Unanswered own answers) :=
  inferInstanceAs (Decidable (∀ a ∈ answers, _))

/-- If `sprdwl_timeout_recv_rsp` returns -1, the wait has timed out, and no response to the command
    was processed between the setting of the slot and then. -/
def Fails (s : State T) : Prop :=
  ∀ t own timedOut upTo, s.pc t = .received own (-1) timedOut upTo →
    timedOut ∧ Unanswered own ((s.answers.take upTo).drop own.since)

/-- Nobody asks for an exit, a reset or a hang recovery. -/
def Shared.Quiet (s : Shared T) : Prop := ¬s.exit ∧ ¬s.cmdNotAllowed ∧ ¬s.hangAcked

instance : Decidable s.Quiet := inferInstanceAs (Decidable (_ ∧ _))

/-- Nor does this step. -/
def Calm (s : State T) : Event T → Prop
  | .act _ a => s.Quiet ∧ a ≠ .deinit
  | _ => False

instance (s : State T) : DecidablePred (Calm s)
  | .act _ _ => inferInstanceAs (Decidable (_ ∧ _))
  | .exit | .reset | .hang _ | .wakeUpall => .isFalse id

/-- Who has the lock has initialized the completion again, and not yet set the slot. -/
def Exposed (s : State T) : Bool :=
  match s.cmd.cmdLock with
  | some u =>
    match s.pc u with
    | .set call => call.wait
    | _ => false
  | none => false

/-- No response is taken between `reinit_completion` and `sprdwl_cmd_set`, and a thread that is
    woken up does not find the slot in use by so many that it takes this for an exit. -/
def Timely (s : State T) : Event T → Prop
  | .act t .go =>
    match s.pc t with
    | .rxSection rsp => Exposed s → ¬s.cmd.takes rsp
    | .checkExit _ => s.cmd.refcnt < sprdwlCmdExitVal
    | _ => True
  | _ => True

instance (s : State T) : DecidablePred (Timely s)
  | .act t .go => by
    rw [Timely]
    split <;> infer_instance
  | .act _ (.call ..) | .act _ (.set _) | .act _ (.send _) | .act _ .timeout | .act _ (.respond _)
  | .act _ (.alloc _) | .act _ .deinit | .act _ .deinitTimeout
  | .exit | .reset | .hang _ | .wakeUpall => .isTrue trivial

/-! ## What holds where a thread is -/

/-- The slot expects the response of the call. There is one exactly if the completion is complete,
    and if there is none, none was processed. -/
structure Awaits (s : Shared T) (own : Own) : Prop where
  cmdId : s.cmd.cmdId = own.cmdId
  mstime : s.cmd.mstime = own.mstime
  since : own.since ≤ s.answers.length
  data : s.cmd.data.isSome ↔ s.cmd.completed.done ≠ 0
  unanswered : ¬s.cmd.data.isSome → Unanswered own (s.answers.drop own.since)

/-- What holds where a thread is, in a calm and timely run. -/
def Pc.Waits (s : Shared T) : Pc → Prop
  | set call => call.wait → s.cmd.completed.done = 0
  | send own => own.wait → Awaits s own
  | waiting own => Awaits s own
  | checkExit _ | checkData _ => s.cmd.data.isSome
  | received own ret timedOut upTo =>
    ret = -1 → timedOut ∧ upTo ≤ s.answers.length ∧
      Unanswered own ((s.answers.take upTo).drop own.since)
  | deinit | deinitWait | deinitClean | deinitOk => False
  | _ => True

/-- A response is processed while the call waits. -/
theorem Awaits.rxSection (h : Awaits s own) : Awaits (s.rxSection rsp) own := by
  have hsince : own.since ≤ (s.rxSection rsp).answers.length := by
    rw [Shared.rxSection, List.length_append]
    exact h.since.trans (Nat.le_add_right _ _)
  -- The slot takes the response, or it answers another command.
  by_cases htakes : s.cmd.takes rsp
  · have hrx : (s.rxSection rsp).cmd =
        { s.cmd with data := some rsp, completed := s.cmd.completed.complete } := if_pos htakes
    refine ⟨?_, ?_, hsince, ?_, ?_⟩ <;> rw [hrx]
    · exact h.cmdId
    · exact h.mstime
    · exact iff_of_true rfl Completion.complete_done_ne_zero
    · exact fun hnone => absurd rfl hnone
  · have hrx : (s.rxSection rsp).cmd = s.cmd := if_neg htakes
    refine ⟨?_, ?_, hsince, ?_, ?_⟩ <;> rw [hrx]
    · exact h.cmdId
    · exact h.mstime
    · exact h.data
    · intro hnone a ha
      rw [Shared.rxSection, List.drop_append_of_le_length h.since] at ha
      rcases List.mem_append.1 ha with ha | ha
      · exact h.unanswered hnone a ha
      · -- The slot is empty, so that it would have taken a response to the command.
        obtain rfl := List.mem_singleton.1 ha
        rintro ⟨hcmdId, hmstime⟩
        refine htakes (decide_eq_true ⟨?_, hmstime.trans h.mstime.symm, hcmdId.trans h.cmdId.symm⟩)
        exact Option.not_isSome_iff_eq_none.1 hnone

/-- A response that is processed leaves a response that is there. -/
theorem isSome_rxSection (h : s.cmd.data.isSome) : (s.rxSection rsp).cmd.data.isSome := by
  rw [Shared.rxSection, SprdwlCmd.rxRsp]
  dsimp only
  split
  · rfl
  · exact h

/-- The other threads, as a response is processed. -/
theorem waits_rxSection (hset : ∀ call, pc = .set call → call.wait → ¬s.cmd.takes rsp)
    (h : pc.Waits s) : pc.Waits (s.rxSection rsp) := by
  cases pc with
  | set call =>
    intro hwait
    have hrx : (s.rxSection rsp).cmd = s.cmd := if_neg (hset call rfl hwait)
    rw [hrx]
    exact h hwait
  | send own => exact fun hwait => (h hwait).rxSection
  | waiting own => exact Awaits.rxSection h
  | checkExit own => exact isSome_rxSection h
  | checkData own => exact isSome_rxSection h
  | received own ret timedOut upTo =>
    intro hret
    obtain ⟨htimedOut, hle, hunanswered⟩ := h hret
    refine ⟨htimedOut, ?_, ?_⟩
    · rw [Shared.rxSection, List.length_append]
      exact hle.trans (Nat.le_add_right _ _)
    · rwa [Shared.rxSection, List.take_append_of_le_length hle]
  | deinit => exact h
  | deinitWait => exact h
  | deinitClean => exact h
  | deinitOk => exact h
  | _ => trivial

/-- A step that leaves the slot, the answers and the completion alone. -/
theorem waits_keeps (hkeeps : Keeps s s') (hcompleted : s'.cmd.completed = s.cmd.completed)
    (h : pc.Waits s) : pc.Waits s' := by
  have hawaits (own : Own) (h : Awaits s own) : Awaits s' own := by
    refine ⟨hkeeps.cmdId.trans h.cmdId, hkeeps.mstime.trans h.mstime, ?_, ?_, ?_⟩
    · rw [hkeeps.answers]
      exact h.since
    · rw [hkeeps.data, hcompleted]
      exact h.data
    · rw [hkeeps.data, hkeeps.answers]
      exact h.unanswered
  cases pc with
  | set call => exact fun hwait => hcompleted ▸ h hwait
  | send own => exact fun hwait => hawaits own (h hwait)
  | waiting own => exact hawaits own h
  | checkExit own => rwa [Pc.Waits, hkeeps.data]
  | checkData own => rwa [Pc.Waits, hkeeps.data]
  | received own ret timedOut upTo =>
    rw [Pc.Waits, hkeeps.answers]
    exact h
  | deinit => exact h
  | deinitWait => exact h
  | deinitClean => exact h
  | deinitOk => exact h
  | _ => trivial

/-- What holds where no thread has the lock does not depend on the slot. -/
theorem waits_of_not_hasLock (hlock : ¬pc.HasLock) (h : pc.Waits s) : pc.Waits s' := by
  cases pc with
  | set call => exact absurd trivial hlock
  | send own => exact absurd trivial hlock
  | waiting own => exact absurd trivial hlock
  | checkExit own => exact absurd trivial hlock
  | checkData own => exact absurd trivial hlock
  | received own ret timedOut upTo => exact absurd trivial hlock
  | deinit => exact h
  | deinitWait => exact h
  | deinitClean => exact h
  | deinitOk => exact h
  | _ => trivial

/-- Who is exposed is about to set the slot. -/
theorem exists_of_exposed {st : State T} (h : Exposed st) :
    ∃ u call, st.pc u = .set call ∧ call.wait := by
  rw [Exposed] at h
  split at h
  · rename_i u _
    split at h
    · rename_i call hcall
      exact ⟨u, call, hcall, h⟩
    · exact absurd h Bool.false_ne_true
  · exact absurd h Bool.false_ne_true

variable [DecidableEq T]

/-- Who has not got the lock leaves the completion alone. -/
theorem act_completed (hlock : ¬pc.HasLock) (hwaits : pc.Waits s) (hwrites : ¬Writes pc a) :
    (s.act t pc a).1.cmd.completed = s.cmd.completed := by
  cases a with
  | go =>
    rw [Shared.act]
    cases pc with
    | lock call => rw [Shared.go]; split <;> rfl
    | mutex call => rw [Shared.go]; split <;> rfl
    | reinit call => exact absurd trivial hlock
    | waiting own => exact absurd trivial hlock
    | received own ret timedOut upTo => exact absurd trivial hlock
    | unlock own ret => exact absurd trivial hlock
    | rxSection rsp => exact absurd trivial hwrites
    | deinit => exact absurd hwaits id
    | deinitClean => exact absurd hwaits id
    | _ => rfl
  | call cmdId wait available =>
    rw [Shared.act]
    split
    · rfl
    · split <;> rfl
  | set mstime => cases pc <;> rfl
  | send sent => cases pc <;> rfl
  | timeout => cases pc <;> rfl
  | respond rsp => rfl
  | alloc ok => cases pc <;> rfl
  | deinit => rw [Shared.act]; split <;> rfl
  | deinitTimeout => rfl

/-- The threads that do not take the step. -/
theorem waits_other (hlock : pc.HasLock → ¬pc'.HasLock)
    (hset : ∀ call rsp, pc = .set call → call.wait → pc' = .rxSection rsp → a = .go →
      ¬s.cmd.takes rsp)
    (hwaits : pc'.Waits s) (h : pc.Waits s) : pc.Waits (s.act t pc' a).1 := by
  by_cases hpc : pc.HasLock
  · have hpc' := hlock hpc
    by_cases hwrites : Writes pc' a
    · cases a with
      | go =>
        cases pc' with
        | rxSection rsp => exact waits_rxSection (fun call hc hw => hset call rsp hc hw rfl rfl) h
        | deinitClean => exact absurd hwaits id
        | _ => exact absurd hwrites id
      | set mstime =>
        cases pc' with
        | set call => exact absurd trivial hpc'
        | _ => exact absurd hwrites id
      | _ => exact absurd hwrites (by cases pc' <;> exact id)
    · exact waits_keeps (act_keeps hwrites) (act_completed hpc' hwaits hwrites) h
  · exact waits_of_not_hasLock hpc h

/-- A thread that goes on. -/
theorem waits_go (hquiet : s.Quiet)
    (htimely : ∀ own, pc = .checkExit own → s.cmd.refcnt < sprdwlCmdExitVal)
    (h : pc.Waits s) : (s.go t pc).2.Waits (s.go t pc).1 := by
  cases pc with
  | lock call =>
    rw [Shared.go]
    split
    · rw [Shared.count]
      dsimp only
      split <;> trivial
    · trivial
  | mutex call =>
    rw [Shared.go]
    split
    · dsimp only
      split
      · trivial
      · rename_i hwait
        exact fun hw => absurd hw hwait
    · trivial
  | reinit call => exact fun _ => rfl
  | waiting own =>
    rw [Shared.go]
    split
    · rename_i completed hcompleted
      -- The wait ends for a response, which is in the slot.
      exact h.data.2 (Completion.done_ne_zero_of_wait hcompleted)
    · exact h
  | checkExit own =>
    rw [Shared.go, Shared.checkExit, if_neg fun hexit => ?_, if_neg fun hhang => ?_]
    · exact h
    · exact hquiet.2.2 hhang.1
    · rcases hexit with hexit | hrefcnt
      · exact hquiet.1 hexit
      · exact absurd (htimely own rfl) (not_lt.2 hrefcnt)
  | checkData own =>
    have hsome : s.cmd.data.isSome := h
    intro hret
    -- There is a response, so that nothing fails here.
    rw [if_pos hsome] at hret
    exact absurd hret (by decide)
  | received own ret timedOut upTo =>
    rw [Shared.go, Shared.received]
    split
    · trivial
    · split <;> trivial
  | unlock own ret =>
    rw [Shared.go, Shared.unlock]
    split <;> trivial
  | rxLock rsp =>
    rw [Shared.go, Shared.count]
    dsimp only
    split <;> trivial
  | deinit => exact absurd h id
  | deinitWait => exact absurd h id
  | deinitClean => exact absurd h id
  | deinitOk => exact absurd h id
  | _ => trivial

/-- The thread that takes the step. -/
theorem waits_act (hquiet : s.Quiet) (ha : a ≠ .deinit)
    (htimely : ∀ own, pc = .checkExit own → a = .go → s.cmd.refcnt < sprdwlCmdExitVal)
    (h : pc.Waits s) : (s.act t pc a).2.Waits (s.act t pc a).1 := by
  cases a with
  | go => exact waits_go hquiet (fun own hown => htimely own hown rfl) h
  | call cmdId wait available =>
    rw [Shared.act]
    split
    · exact h
    · split <;> trivial
  | set mstime =>
    cases pc with
    | set call =>
      -- The slot is new: nothing has been answered since.
      intro hwait
      refine ⟨rfl, rfl, le_rfl, iff_of_false Bool.false_ne_true (not_not.2 (h hwait)), ?_⟩
      intro _ b hb
      have hnil : s.answers.drop s.answers.length = [] := List.drop_length
      exact absurd (hnil ▸ hb) List.not_mem_nil
    | _ => exact h
  | send sent =>
    cases pc with
    | send own =>
      rw [Shared.act]
      dsimp only
      split
      · trivial
      · split
        · rename_i hwait
          exact h hwait
        · trivial
    | _ => exact h
  | timeout =>
    cases pc with
    | waiting own =>
      rw [Shared.act]
      dsimp only
      split
      · -- The time is up and no response has come.
        rename_i hdone
        intro _
        rw [List.take_length]
        exact ⟨rfl, le_rfl, h.unanswered fun hsome => h.data.1 hsome hdone⟩
      · exact h
    | _ => exact h
  | respond rsp =>
    rw [Shared.act]
    dsimp only
    split
    · trivial
    · exact h
  | alloc ok =>
    cases pc with
    | rxAlloc rsp =>
      rw [Shared.act]
      dsimp only
      split <;> trivial
    | _ => exact h
  | deinit => exact absurd rfl ha
  | deinitTimeout =>
    rw [Shared.act]
    dsimp only
    split
    · rename_i hpc
      rw [hpc] at h
      exact absurd h id
    · exact h

/-! ## Calm and timely runs -/

/-- What holds of the lock, and of every thread. -/
structure Waiting (s : State T) : Prop where
  locked : Locked s
  waits : ∀ t, (s.pc t).Waits s.toShared

/-- What a calm and timely step keeps. -/
theorem waiting_next {s : State T} {e : Event T} (h : Waiting s) (hcalm : Calm s e)
    (htimely : Timely s e) : Waiting (s.next e) := by
  refine ⟨locked_next h.locked, fun u => ?_⟩
  cases e with
  | act t a =>
    by_cases hu : u = t
    · rw [hu, next_act_pc]
      refine waits_act hcalm.1 hcalm.2 (fun own hown ha => ?_) (h.waits t)
      subst ha
      rw [Timely, hown] at htimely
      exact htimely
    · rw [next_act_pc_of_ne hu]
      refine waits_other (fun hlock ht => hu ?_) (fun call rsp hcall hwait hrsp ha => ?_)
        (h.waits t) (h.waits u)
      · exact Option.some.inj ((h.locked u hlock).symm.trans (h.locked t ht))
      · subst ha
        rw [Timely, hrsp] at htimely
        refine htimely ?_
        rw [Exposed, h.locked u (hcall ▸ trivial)]
        dsimp only
        rwa [hcall]
  | _ => exact absurd hcalm id

omit [DecidableEq T] in
/-- What holds of a thread that has received -1. -/
theorem Waiting.fails {s : State T} (h : Waiting s) : Fails s := by
  intro t own timedOut upTo hpc
  have hwaits := h.waits t
  rw [hpc] at hwaits
  obtain ⟨htimedOut, -, hunanswered⟩ := hwaits rfl
  exact ⟨htimedOut, hunanswered⟩

/-! ## Steps that are not timely -/

/-- The run can go on calmly to a command that fails for no reason. -/
def CanFail (s : State T) : Prop :=
  ∃ fs, commands.Along Calm s fs ∧ ¬commands.Always Fails s fs

variable {s : State T}

/-- It does so with a step of a thread. -/
theorem canFail_act (u : T) (a : Act) (hquiet : s.Quiet) (ha : a ≠ .deinit)
    (h : CanFail (s.next (.act u a))) : CanFail s := by
  obtain ⟨fs, hfs, hfails⟩ := h
  have hstep : commands.step s (.act u a) = some (s.next (.act u a)) := rfl
  refine ⟨.act u a :: fs, (Machine.along_cons hstep).2 ⟨⟨hquiet, ha⟩, hfs⟩, fun halways => ?_⟩
  exact hfails ((Machine.always_cons hstep).1 halways).2

/-- A command has failed, and the wait did not time out. -/
theorem canFail_received {upTo : ℕ} (hpc : s.pc u = .received own (-1) false upTo) : CanFail s :=
  ⟨[], trivial, fun h => Bool.false_ne_true (h u own false upTo hpc).1⟩

/-- A thread that looks for its response does not find one. -/
theorem canFail_checkData (hquiet : s.Quiet) (hpc : s.pc u = .checkData own)
    (hdata : s.cmd.data = none) : CanFail s := by
  refine canFail_act u .go hquiet (by simp) (@canFail_received _ own u _ _ s.answers.length ?_)
  rw [next_act_pc, hpc, Shared.act, Shared.go, hdata]
  rfl

/-- It does not look if it takes the many that use the slot for an exit, and fails as well. -/
theorem canFail_checkExit (hquiet : s.Quiet) (hpc : s.pc u = .checkExit own)
    (hdata : s.cmd.data = none) : CanFail s := by
  refine canFail_act u .go hquiet (by simp) ?_
  have hshared : (s.next (.act u .go)).toShared = s.toShared := by
    rw [State.next, hpc]
    rfl
  by_cases hrefcnt : s.cmd.refcnt ≥ sprdwlCmdExitVal
  · refine @canFail_received _ own u _ _ s.answers.length ?_
    rw [next_act_pc, hpc, Shared.act, Shared.go, Shared.checkExit, if_pos (.inr hrefcnt)]
  · refine @canFail_checkData _ own u _ _ ?_ ?_ ?_
    · rwa [hshared]
    · rw [next_act_pc, hpc, Shared.act, Shared.go, Shared.checkExit,
        if_neg (not_or.2 ⟨hquiet.1, hrefcnt⟩), if_neg fun h => hquiet.2.2 h.1]
    · rwa [hshared]

/-- A thread that waits is woken up although there is no response. -/
theorem canFail_waiting (hquiet : s.Quiet) (hpc : s.pc u = .waiting own)
    (hdata : s.cmd.data = none) (hdone : s.cmd.completed.done ≠ 0) : CanFail s := by
  obtain ⟨completed, hcompleted⟩ := Completion.exists_wait hdone
  have hact : s.act u (.waiting own) .go =
      ({ s.toShared with cmd := { s.cmd with completed } }, .checkExit own) := by
    rw [Shared.act, Shared.go, hcompleted]
  refine canFail_act u .go hquiet (by simp) (@canFail_checkExit _ own u _ _ ?_ ?_ ?_)
  · rw [State.next, hpc, hact]
    exact hquiet
  · rw [next_act_pc, hpc, hact]
  · rw [State.next, hpc, hact]
    exact hdata

/-- A thread sends its command, and waits. -/
theorem canFail_send (hquiet : s.Quiet) (hpc : s.pc u = .send own) (hwait : own.wait)
    (hdata : s.cmd.data = none) (hdone : s.cmd.completed.done ≠ 0) : CanFail s := by
  have hact : s.act u (.send own) (.send true) = (s.toShared, .waiting own) := by
    rw [Shared.act, if_neg (not_not.2 rfl), if_pos hwait]
  refine canFail_act u (.send true) hquiet (by simp) (@canFail_waiting _ own u _ _ ?_ ?_ ?_ ?_)
  · rwa [State.next, hpc, hact]
  · rw [next_act_pc, hpc, hact]
  · rwa [State.next, hpc, hact]
  · rwa [State.next, hpc, hact]

/-- A thread sets the slot, where it finds no response any more. -/
theorem canFail_set {call : Call} (hquiet : s.Quiet) (hpc : s.pc u = .set call) (hwait : call.wait)
    (hdone : s.cmd.completed.done ≠ 0) : CanFail s := by
  have hact : s.act u (.set call) (.set 0) =
      ({ s.toShared with cmd := s.cmd.set call.cmdId 0 }, .send ⟨call, 0, s.answers.length⟩) := rfl
  refine canFail_act u (.set 0) hquiet nofun
    (@canFail_send _ ⟨call, 0, s.answers.length⟩ u _ _ ?_ ?_ hwait ?_ ?_)
  · rwa [State.next, hpc, hact]
  · rw [next_act_pc, hpc, hact]
  · rw [State.next, hpc, hact]
    rfl
  · rwa [State.next, hpc, hact]

/-- Once a calm step is not timely, a command can fail for no reason. -/
theorem canFail_of_not_timely {e : Event T} (hcalm : Calm s e) (h : ¬Timely s e) :
    CanFail (s.next e) := by
  cases e with
  | act t a =>
    cases a with
    | go =>
      cases hpc : s.pc t with
      | rxSection rsp =>
        rw [Timely, hpc, Classical.not_imp, not_not] at h
        obtain ⟨hexposed, htakes⟩ := h
        -- Another call is about to set its command, and finds the completion done.
        obtain ⟨u, call, hu, hwait⟩ := exists_of_exposed hexposed
        have hut : u ≠ t := by
          rintro rfl
          exact absurd (hpc.symm.trans hu) nofun
        have hact : s.act t (.rxSection rsp) .go = (s.rxSection rsp, .rxRelease) := rfl
        refine @canFail_set _ u _ _ call ?_ ?_ hwait ?_
        · rw [State.next, hpc, hact]
          exact hcalm.1
        · rw [next_act_pc_of_ne hut, hu]
        · rw [State.next, hpc, hact, Shared.rxSection, SprdwlCmd.rxRsp]
          dsimp only
          rw [if_pos htakes]
          exact Completion.complete_done_ne_zero
      | checkExit own =>
        rw [Timely, hpc, not_lt] at h
        refine @canFail_received _ own t _ _ s.answers.length ?_
        rw [next_act_pc, hpc, Shared.act, Shared.go, Shared.checkExit, if_pos (.inr h)]
      | _ =>
        rw [Timely, hpc] at h
        exact absurd trivial h
    | _ => exact absurd trivial h
  | _ => exact absurd hcalm id

/-! ## Every run -/

/-- **A stale response never fails a later command**: in a calm run all of whose steps are timely, a
    command fails only after all of the time it had, in which no response to it was processed. As
    soon as a step of a calm run is not timely, the run can go on calmly to a command that fails
    for no reason. -/
theorem failed_of_timely :
    (∀ es, commands.Along Calm (.init : State T) es → commands.Along Timely .init es →
      commands.Always Fails .init es) ∧
    ∀ es e (s : State T), commands.run .init es = some s →
      commands.Along Calm .init (es ++ [e]) → ¬Timely s e →
        ∃ fs, commands.Along Calm .init (es ++ e :: fs) ∧
          ¬commands.Always Fails .init (es ++ e :: fs) := by
  refine ⟨fun es hcalm htimely => ?_, fun es e s hes hcalm h => ?_⟩
  · have hinit : Waiting (.init : State T) := ⟨locked_init, fun _ => trivial⟩
    have hwaiting : commands.Always Waiting .init es := by
      refine Machine.always_of_along (fun s e s' h hG hstep => ?_) hinit
        (hcalm.and htimely)
      exact Option.some.inj hstep ▸ waiting_next h hG.1 hG.2
    exact hwaiting.imp fun s => Waiting.fails
  · obtain ⟨hes', he⟩ := Machine.along_concat hes hcalm
    obtain ⟨fs, hfs, hfails⟩ := canFail_of_not_timely he h
    have hstep : commands.step s e = some (s.next e) := rfl
    refine ⟨fs, ?_, fun halways => hfails ?_⟩
    · exact (Machine.along_append_iff hes).2 ⟨hes', (Machine.along_cons hstep).2 ⟨he, hfs⟩⟩
    · exact ((Machine.always_cons hstep).1 (halways.of_append hes)).2

/-- A command that was sent without waiting for its response. Another one has initialized the
    completion, but not yet set the slot, and the response to the first one is about to be taken. -/
def staleRun : List (Event (Fin 2)) :=
  [.act 0 (.call 5 false true), .act 0 .go, .act 0 .go, .act 0 (.set 1), .act 0 (.send true),
    .act 0 .go, .act 0 .go,
    .act 1 (.call 6 true true), .act 1 .go, .act 1 .go, .act 1 .go,
    .act 0 (.respond ⟨0, 5, 16, 1⟩), .act 0 .go, .act 0 (.alloc true)]

/-- Up to there all is well, but not any more once it is. -/
theorem failed_of_timely_stale :
    commands.Always Fails .init staleRun ∧
      ∃ fs, commands.Along Calm .init (staleRun ++ .act 0 .go :: fs) ∧
        ¬commands.Always Fails .init (staleRun ++ .act 0 .go :: fs) :=
  ⟨failed_of_timely.1 _ (by decide) (by decide),
    failed_of_timely.2 staleRun (.act 0 .go) _ rfl (by decide) (by decide)⟩

/-- The command fails, although its wait did not time out. -/
theorem not_failed_of_timely :
    commands.Along Calm .init
        (staleRun ++ [.act 0 .go, .act 1 (.set 2), .act 1 (.send true), .act 1 .go, .act 1 .go,
          .act 1 .go]) ∧
      ¬commands.Always Fails .init
        (staleRun ++ [.act 0 .go, .act 1 (.set 2), .act 1 (.send true), .act 1 .go, .act 1 .go,
          .act 1 .go]) := by
  refine ⟨by decide, fun h => ?_⟩
  exact Bool.false_ne_true (h.last rfl 1 ⟨⟨6, true, 0⟩, 2, 1⟩ false 1 rfl).1

end W132d.Cmd
