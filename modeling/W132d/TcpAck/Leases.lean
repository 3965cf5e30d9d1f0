import W132d.Lease
import W132d.TcpAck.Concurrent

/-!
# Slots as leases

A slot of the filter is chosen under `ack_m->lock`, but marked as busy after the lock was given
back. To the senders the slots are leases: a sender counts a slot, is given it, and writes it.

* `Pc.locks`: the sender is between taking and giving back `ack_m->lock`. No two senders are
  (`Net.Guarded`, `Net.step_guarded`);
* `Net.lease`: the slots as leases, and `Net.op`: what an event does to them;
* `Net.step_follows`: an event is an operation on the leases, or does nothing to them.

The leases are the general notion of `W132d.Lease`, which knows nothing of the filter: a client
counts a slot, is given it, and marks it as busy. Here the clients are the senders, who mark a slot
as busy as they write their flow to it.

What is proved is a simulation: for each event, the leases after it are those that its operation
yields (`step_follows`). A sender is in one of two phases, away from the allocation, where it does
not change the leases (`away_follows`), or in it, where each of its steps has a lemma of its own.
The lock is about the second phase only. It is held from before the slot is looked for to where it
is given, but not up to the write.
-/

namespace W132d.TcpAck

/-- The sender is between taking and giving back `ack_m->lock`. -/
def Pc.locks : Pc → Bool
  | .update .. | .allocBegin .. | .allocLook .. | .allocRetry .. => true
  | _ => false

/-- The sender looks for the slot of its flow, or handles its acknowledgement there. -/
def Pc.away : Pc → Bool
  | .idle | .lookup .. | .found .. | .scale .. | .win .. | .handle .. => true
  | _ => false

/-- What the sender holds: it has counted a slot, or was given one that it has not written yet. -/
def Pc.hold : Pc → Hold (Fin tcpAckNum)
  | .allocRetry _ i _ _ true => .counted i
  | .publish _ i => .granted i
  | _ => .nothing

variable {n : ℕ}

namespace Net

/-- The slots as leases. -/
def lease (s : Net n) : Lease (Fin tcpAckNum) (Fin n) TcpAckMsg where
  busy i := (s.ackM.ackInfo i).busy
  hint := s.ackM.freeIndex
  count := s.ackM.maxNum
  hold k := (s.pc k).hold
  given := s.given

/-- What an event does to them. -/
def op (s : Net n) : NetEvent n → Option (Lease.Op (Fin tcpAckNum) (Fin n) TcpAckMsg)
  | .sender k jiffies =>
    match s.pc k with
    | .update _ (i :: _) =>
      let info := s.ackM.ackInfo i
      if info.busy && timeAfter jiffies (info.lastTime + info.timeout) then some (.age i) else none
    | .allocLock check =>
      if s.locked = true ∨ s.ackM.maxNum = tcpAckNum then none
      else s.ackM.freeIndex.map fun _ => .take k check.msg
    | .allocLook _ i _ _ => if (s.ackM.ackInfo i).busy then none else some (.count k i)
    | .allocRetry check i _ start true =>
      -- The attempt is made again, but `max_num` is not decremented.
      if s.seq i ≠ start then some (.lose k) else some (.grant k check.msg)
    | .publish _ _ => some (.publish k)
    | _ => none
  -- No other section writes `busy`, `free_index` or `max_num`.
  | _ => none

/-- No two senders are between taking and giving back `ack_m->lock`. -/
structure Guarded (s : Net n) : Prop where
  locked : ∀ k, (s.pc k).locks = true → s.locked = true
  unique : ∀ k k', (s.pc k).locks = true → (s.pc k').locks = true → k = k'

/-- An event is an operation on the leases, or does nothing to them. -/
def Follows (s : Net n) (e : NetEvent n) (s' : Net n) : Prop :=
  match s.op e with
  | some o => s.lease.step o = some s'.lease
  | none => s'.lease = s.lease

variable {s s' : Net n} {k : Fin n} {e : NetEvent n} {jiffies : UInt64} {pc : Pc}

/-! ## Leases -/

/-- A sender is about to write a slot exactly if it was given it. -/
theorem publishes_eq (s : Net n) (k : Fin n) (i : Fin tcpAckNum) :
    s.publishes k i = decide (s.lease.hold k = .granted i) := by
  have hhold : s.lease.hold k = (s.pc k).hold := rfl
  rw [publishes, hhold]
  cases hpc : s.pc k with
  | allocRetry check j left start free => cases free <;> simp [Pc.hold]
  | _ => simp [Pc.hold]

/-- A sender that goes on holds something else. -/
theorem lease_goto (s : Net n) (k : Fin n) (pc : Pc) :
    (s.goto k pc).lease =
      { s.lease with hold := Function.update s.lease.hold k pc.hold } := by
  ext1
  · rfl
  · rfl
  · rfl
  · funext a
    exact Function.apply_update (fun _ => Pc.hold) s.pc k pc a
  · rfl

/-- A sender that goes on and holds what it held. -/
theorem lease_goto_self (h : pc.hold = (s.pc k).hold) : (s.goto k pc).lease = s.lease := by
  have hself : Function.update s.lease.hold k pc.hold = s.lease.hold := by
    rw [h]
    exact Function.update_eq_self k s.lease.hold
  rw [lease_goto, hself]

/-- A section that does not write whether the slot is busy. -/
theorem lease_write {i : Fin tcpAckNum} {f : AckInfo → AckInfo}
    (h : (f (s.ackM.ackInfo i)).busy = (s.ackM.ackInfo i).busy) :
    (s.write i f).lease = s.lease := by
  ext1
  · funext j
    rcases eq_or_ne j i with rfl | hj
    · simp [lease, write, AckManage.setInfo, h]
    · simp [lease, write, AckManage.setInfo, hj]
  all_goals rfl

/-- Handling an acknowledgement does not change whether its slot is busy. -/
theorem tcpAckHandle_busy {maxDropCnt : Int32} {msgbuf : MsgBuf} {info : AckInfo}
    {ackMsg : TcpAckMsg} {type : AckType} :
    (tcpAckHandle jiffies maxDropCnt msgbuf info ackMsg type).1.busy = info.busy := by
  rcases hr : tcpAckHandle jiffies maxDropCnt msgbuf info ackMsg type with ⟨info', ret, dropMsg⟩
  rcases tcpAckHandle_cases hr with ⟨-, hbusy, -⟩ | ⟨-, hinfo, -⟩
  · exact hbusy
  · rw [hinfo]

/-- A sender that is given a slot. -/
theorem lease_give (s : Net n) (k : Fin n) (check : AckCheck) (i : Fin tcpAckNum) :
    (s.give k check i).lease = s.lease.give k check.msg i := by
  rw [give, lease_goto, Lease.give]
  rfl

/-- A turn of the loop of `sprdwl_tcp_ack_update` whose slot ages. -/
theorem lease_age {i : Fin tcpAckNum} (h : ((s.ackM.ackInfo i).busy &&
    timeAfter jiffies ((s.ackM.ackInfo i).lastTime + (s.ackM.ackInfo i).timeout)) = true) :
    s.lease.step (.age i) = some (s.age jiffies i).lease := by
  have hbusy : s.lease.busy i = true := (Bool.and_eq_true_iff.1 h).1
  rw [Lease.step, if_pos hbusy]
  congr 1
  -- Of the five parts, ageing changes which slots are busy, the hint and the count.
  ext1
  · funext j
    rcases eq_or_ne j i with rfl | hj
    · simp [lease, age, ageSlot, AckManage.setInfo, h]
    · simp [lease, age, ageSlot, AckManage.setInfo, h, hj]
  · simp [lease, age, ageSlot, AckManage.setInfo, h]
  · simp [lease, age, ageSlot, AckManage.setInfo, h]
  · rfl
  · simp only [age, h, if_true, publishes_eq]
    rfl

/-- One whose slot does not age. -/
theorem lease_age_self {i : Fin tcpAckNum} (h : ((s.ackM.ackInfo i).busy &&
    timeAfter jiffies ((s.ackM.ackInfo i).lastTime + (s.ackM.ackInfo i).timeout)) = false) :
    (s.age jiffies i).lease = s.lease := by
  ext1
  · funext j
    simp [lease, age, ageSlot, h]
  · simp [lease, age, ageSlot, h]
  · simp [lease, age, ageSlot, h]
  · rfl
  · simp [lease, age, h]

/-! ## Senders that are not about to allocate a slot -/

/-- A sender that looks for the slot of its packet does not have the lock. -/
theorem checkAck_pc {msgbuf : MsgBuf} (hs : s.checkAck k msgbuf = some s') :
    ∃ pc, s' = s.goto k pc ∧ pc.locks = false ∧ pc.hold = .nothing := by
  rw [checkAck] at hs
  obtain ⟨check, -, hcheck⟩ := Option.map_eq_some_iff.1 hs
  cases check with
  | none => exact ⟨_, hcheck.symm, rfl, rfl⟩
  | some check => exact ⟨_, hcheck.symm, rfl, rfl⟩

/-- A sender that looks for the slot of its flow, or handles its acknowledgement there, does nothing
    to the lock and the leases. -/
theorem senderStep_away (haway : (s.pc k).away = true) (hs : s.senderStep k jiffies = some s') :
    ∃ (t : Net n) (pc : Pc), s' = t.goto k pc ∧ t.pc = s.pc ∧ t.locked = s.locked ∧
      t.lease = s.lease ∧ pc.locks = false ∧ pc.hold = .nothing := by
  -- The sender reads the slots, or writes fields of them that are no part of the leases.
  rw [senderStep] at hs
  cases hpc : s.pc k with
  | idle =>
    simp only [hpc] at hs
    cases hs
  | lookup msgbuf check left =>
    cases left with
    | nil =>
      simp only [hpc] at hs
      cases hs
      exact ⟨_, _, rfl, rfl, rfl, rfl, rfl, rfl⟩
    | cons i left =>
      simp only [hpc] at hs
      split_ifs at hs
      all_goals
        cases hs
        exact ⟨_, _, rfl, rfl, rfl, rfl, rfl, rfl⟩
  | found msgbuf check i =>
    simp only [hpc] at hs
    split_ifs at hs
    all_goals
      cases hs
      exact ⟨_, _, rfl, rfl, rfl, rfl, rfl, rfl⟩
  | scale msgbuf check i =>
    simp only [hpc] at hs
    cases hs
    exact ⟨_, _, rfl, rfl, rfl, lease_write rfl, rfl, rfl⟩
  | win msgbuf check i =>
    simp only [hpc] at hs
    cases hs
    exact ⟨_, _, rfl, rfl, rfl, rfl, rfl, rfl⟩
  | handle msgbuf check i =>
    simp only [hpc] at hs
    cases hs
    -- The acknowledgement is handled without touching `busy`.
    exact ⟨_, _, rfl, rfl, rfl, lease_write tcpAckHandle_busy, rfl, rfl⟩
  | _ => simp [hpc, Pc.away] at haway

/-! ## The lock -/

/-- Who is between taking and giving back the lock after a sender has gone on. -/
theorem locks_update {a : Fin n} (h : (Function.update s.pc k pc a).locks = true) :
    a = k ∧ pc.locks = true ∨ a ≠ k ∧ (s.pc a).locks = true := by
  rcases eq_or_ne a k with rfl | ha
  · rw [Function.update_self] at h
    exact .inl ⟨rfl, h⟩
  · rw [Function.update_of_ne ha] at h
    exact .inr ⟨ha, h⟩

/-- A sender goes on without taking the lock. -/
theorem Guarded.goto (h : s.Guarded) (hs' : s'.pc = Function.update s.pc k pc)
    (hlocked : s'.locked = s.locked) (hpc : pc.locks = true → (s.pc k).locks = true) :
    s'.Guarded := by
  have hlocks : ∀ a, (s'.pc a).locks = true → (s.pc a).locks = true := by
    intro a ha
    rcases locks_update (hs' ▸ ha) with ⟨rfl, ha⟩ | ⟨-, ha⟩
    · exact hpc ha
    · exact ha
  exact ⟨fun a ha => hlocked ▸ h.locked a (hlocks a ha), fun a b ha hb =>
    h.unique a b (hlocks a ha) (hlocks b hb)⟩

/-- A sender takes the lock. -/
theorem Guarded.take (h : s.Guarded) (hs' : s'.pc = Function.update s.pc k pc)
    (hfree : s.locked = false) (hlocked : s'.locked = true) : s'.Guarded := by
  have hlocks : ∀ a, (s'.pc a).locks = true → a = k := by
    intro a ha
    rcases locks_update (hs' ▸ ha) with ⟨rfl, -⟩ | ⟨-, ha⟩
    · rfl
    · exact absurd (h.locked a ha) (Bool.eq_false_iff.1 hfree)
  exact ⟨fun _ _ => hlocked, fun a b ha hb => (hlocks a ha).trans (hlocks b hb).symm⟩

/-- The sender that has the lock gives it back. -/
theorem Guarded.release (h : s.Guarded) (hs' : s'.pc = Function.update s.pc k pc)
    (hk : (s.pc k).locks = true) (hpc : pc.locks = false) : s'.Guarded := by
  have hlocks : ∀ a, (s'.pc a).locks ≠ true := by
    intro a ha
    rcases locks_update (hs' ▸ ha) with ⟨-, ha⟩ | ⟨hne, ha⟩
    · exact Bool.eq_false_iff.1 hpc ha
    · exact hne (h.unique a k ha hk)
  exact ⟨fun a ha => absurd ha (hlocks a), fun a _ ha => absurd ha (hlocks a)⟩

/-- A step of a sender leaves the lock with one sender at most. -/
theorem senderStep_guarded (h : s.Guarded) (hs : s.senderStep k jiffies = some s') :
    s'.Guarded := by
  cases hpc : s.pc k with
  | updateLock msgbuf =>
    simp only [senderStep, hpc] at hs
    split_ifs at hs with hlocked
    cases hs
    -- The lock was free, so that this sender is the only one.
    exact h.take rfl (Bool.eq_false_iff.2 hlocked) rfl
  | update msgbuf left =>
    have hk : (s.pc k).locks = true := by rw [hpc]; rfl
    cases left with
    | nil =>
      simp only [senderStep, hpc] at hs
      -- The loop is over, and the lock is given back.
      obtain ⟨pc, rfl, hfree, -⟩ := checkAck_pc hs
      exact h.release rfl hk hfree
    | cons i left =>
      simp only [senderStep, hpc] at hs
      cases hs
      exact h.goto rfl rfl fun _ => hk
  | allocLock check =>
    simp only [senderStep, hpc] at hs
    split_ifs at hs with hlocked hfull
    · cases hs
      exact h.goto rfl rfl nofun
    · split at hs
      · -- The free index: the lock is taken and given back in one step.
        cases hs
        exact h.goto rfl rfl nofun
      · cases hs
        exact h.take rfl (Bool.eq_false_iff.2 hlocked) rfl
  | allocBegin check left =>
    have hk : (s.pc k).locks = true := by rw [hpc]; rfl
    cases left with
    | nil =>
      simp only [senderStep, hpc] at hs
      cases hs
      exact h.release rfl hk rfl
    | cons i left =>
      simp only [senderStep, hpc] at hs
      cases hs
      exact h.goto rfl rfl fun _ => hk
  | allocLook check i left start =>
    have hk : (s.pc k).locks = true := by rw [hpc]; rfl
    simp only [senderStep, hpc] at hs
    split_ifs at hs
    -- The loop goes on with the lock.
    all_goals
      cases hs
      exact h.goto rfl rfl fun _ => hk
  | allocRetry check i left start free =>
    have hk : (s.pc k).locks = true := by rw [hpc]; rfl
    simp only [senderStep, hpc] at hs
    split_ifs at hs
    · cases hs
      exact h.goto rfl rfl fun _ => hk
    · -- A slot was found, and the loop ends.
      cases hs
      exact h.release rfl hk rfl
    · cases hs
      exact h.goto rfl rfl fun _ => hk
  | publish check i =>
    simp only [senderStep, hpc] at hs
    cases hs
    exact h.goto rfl rfl nofun
  | _ =>
    -- All other steps are away from the lock.
    obtain ⟨t, pc, rfl, hpcs, hlocked, -, hfree, -⟩ := senderStep_away (by rw [hpc]; rfl) hs
    have hgoto : (t.goto k pc).pc = Function.update s.pc k pc := by rw [← hpcs]; rfl
    exact h.goto hgoto hlocked fun hlocks => absurd hlocks (Bool.eq_false_iff.1 hfree)

/-- No event lets a second sender into what the lock guards. -/
theorem step_guarded (h : s.Guarded) (hs : s.step e = some s') : s'.Guarded := by
  -- The lock is taken and given back by the steps of a sender, and a call begins outside of it.
  cases e with
  | call k jiffies msgbuf =>
    rw [step] at hs
    split at hs
    · rw [call] at hs
      split_ifs at hs
      · cases hs
        exact h
      · cases hs
        exact h
      · cases hs
        exact h.goto rfl rfl nofun
      · obtain ⟨pc, rfl, hfree, -⟩ := checkAck_pc hs
        exact h.goto rfl rfl fun hlocks => absurd hlocks (Bool.eq_false_iff.1 hfree)
    · cases hs
  | sender k jiffies => exact senderStep_guarded h hs
  | receive i seq =>
    cases hs
    exact ⟨h.locked, h.unique⟩
  | timeout i =>
    cases hs
    exact ⟨h.locked, h.unique⟩
  | move i msg =>
    cases hs
    exact ⟨h.locked, h.unique⟩
  | drop i =>
    cases hs
    exact ⟨h.locked, h.unique⟩
  | enable on =>
    cases hs
    exact ⟨h.locked, h.unique⟩
  | adjust cnt =>
    cases hs
    exact ⟨h.locked, h.unique⟩
  | adjustWin value =>
    cases hs
    exact ⟨h.locked, h.unique⟩

/-! ## Steps -/

/-- In the loop over the slots that age, a slot is given back, or nothing is done to the leases. -/
theorem update_follows {msgbuf : MsgBuf} {left : List (Fin tcpAckNum)}
    (hpc : s.pc k = .update msgbuf left) (hs : s.senderStep k jiffies = some s') :
    s.Follows (.sender k jiffies) s' := by
  cases left with
  | nil =>
    -- The loop is over: the sender goes to look for its slot.
    simp only [senderStep, hpc] at hs
    obtain ⟨pc, rfl, -, hnothing⟩ := checkAck_pc hs
    simp only [Follows, op, hpc]
    exact lease_goto_self (by rw [hpc, hnothing]; rfl)
  | cons i left =>
    simp only [senderStep, hpc] at hs
    cases hs
    simp only [Follows, op, hpc]
    have hgoto : ((s.age jiffies i).goto k (.update msgbuf left)).lease =
        (s.age jiffies i).lease := lease_goto_self (by rw [age, hpc]; rfl)
    rw [hgoto]
    -- A slot ages if it is busy and its time is over; otherwise nothing is written.
    split_ifs with hage
    · exact lease_age hage
    · exact lease_age_self (Bool.eq_false_iff.2 hage)

/-- With the lock, the slot of the hint is taken, if there is one. -/
theorem allocLock_follows {check : AckCheck} (hpc : s.pc k = .allocLock check)
    (hs : s.senderStep k jiffies = some s') : s.Follows (.sender k jiffies) s' := by
  have hnothing : s.lease.hold k = .nothing := congrArg Pc.hold hpc
  simp only [senderStep, hpc] at hs
  simp only [Follows, op, hpc]
  split_ifs at hs with hlocked hfull
  · -- All slots are in use, and none is looked for.
    cases hs
    rw [if_pos (.inr hfull)]
    exact lease_goto_self (by rw [hpc]; rfl)
  · rw [if_neg (not_or.2 ⟨hlocked, hfull⟩)]
    cases hfree : s.ackM.freeIndex with
    | some i =>
      -- The slot of the hint is given, and the hint is gone.
      rw [hfree] at hs
      cases hs
      have hhint : s.lease.hint = some i := hfree
      simp only [Option.map_some, Lease.step, hnothing, hhint]
      rw [lease_give]
      rfl
    | none =>
      rw [hfree] at hs
      cases hs
      exact lease_goto_self (by rw [hpc]; rfl)

/-- To begin with the next slot does nothing to the leases. -/
theorem allocBegin_follows {check : AckCheck} {left : List (Fin tcpAckNum)}
    (hpc : s.pc k = .allocBegin check left) (hs : s.senderStep k jiffies = some s') :
    s.Follows (.sender k jiffies) s' := by
  cases left with
  | nil =>
    simp only [senderStep, hpc] at hs
    cases hs
    simp only [Follows, op, hpc]
    exact lease_goto_self (by rw [hpc]; rfl)
  | cons i left =>
    simp only [senderStep, hpc] at hs
    cases hs
    simp only [Follows, op, hpc]
    exact lease_goto_self (by rw [hpc]; rfl)

/-- A slot that is found free is counted. -/
theorem allocLook_follows {check : AckCheck} {i : Fin tcpAckNum} {left : List (Fin tcpAckNum)}
    {start : ℕ} (hpc : s.pc k = .allocLook check i left start)
    (hs : s.senderStep k jiffies = some s') : s.Follows (.sender k jiffies) s' := by
  have hnothing : s.lease.hold k = .nothing := congrArg Pc.hold hpc
  simp only [senderStep, hpc] at hs
  simp only [Follows, op, hpc]
  split_ifs at hs with hbusy
  · -- A slot that is busy is not counted.
    cases hs
    rw [if_pos hbusy]
    exact lease_goto_self (by rw [hpc]; rfl)
  · cases hs
    -- A free slot is counted before its sequence count is checked.
    have hbusy' : s.lease.busy i = false := Bool.eq_false_iff.2 hbusy
    rw [if_neg hbusy]
    simp only [Lease.step, hnothing, hbusy']
    rw [lease_goto]
    rfl

/-- The slot is given to the sender, or lost if its sequence lock was written meanwhile. -/
theorem allocRetry_follows {check : AckCheck} {i : Fin tcpAckNum} {left : List (Fin tcpAckNum)}
    {start : ℕ} {free : Bool} (hpc : s.pc k = .allocRetry check i left start free)
    (hs : s.senderStep k jiffies = some s') : s.Follows (.sender k jiffies) s' := by
  cases free with
  -- The slot was found busy, and the next one is looked at.
  | false =>
    simp only [senderStep, hpc, Bool.false_eq_true, if_false] at hs
    simp only [Follows, op, hpc]
    split_ifs at hs
    all_goals
      cases hs
      exact lease_goto_self (by rw [hpc]; rfl)
  | true =>
    have hcounted : s.lease.hold k = .counted i := congrArg Pc.hold hpc
    simp only [senderStep, hpc] at hs
    simp only [Follows, op, hpc]
    split_ifs at hs with hseq
    · -- The slot is lost to the count: the attempt is made again without taking it back.
      cases hs
      rw [if_pos hseq]
      simp only [Lease.step, hcounted]
      rw [lease_goto]
      rfl
    · cases hs
      rw [if_neg hseq]
      -- The sequence count has not changed, so the slot is taken.
      simp only [Lease.step, hcounted]
      rw [lease_give]
      rfl

/-- A sender that was given a slot writes it. -/
theorem publish_follows {check : AckCheck} {i : Fin tcpAckNum} (hpc : s.pc k = .publish check i)
    (hs : s.senderStep k jiffies = some s') : s.Follows (.sender k jiffies) s' := by
  have hgranted : s.lease.hold k = .granted i := congrArg Pc.hold hpc
  simp only [senderStep, hpc] at hs
  cases hs
  simp only [Follows, op, hpc, Lease.step, hgranted]
  rw [lease_goto]
  congr 1
  ext1
  · funext j
    rcases eq_or_ne j i with rfl | hj
    · simp [lease, write, AckManage.setInfo]
    · simp [lease, write, AckManage.setInfo, hj]
  all_goals rfl

/-- A sender that is not in `sprdwl_tcp_ack_alloc_index` does nothing to the leases. -/
theorem away_follows (haway : (s.pc k).away = true) (hs : s.senderStep k jiffies = some s') :
    s.Follows (.sender k jiffies) s' := by
  have hop : s.op (.sender k jiffies) = none := by
    cases hpc : s.pc k <;> simp_all [op, Pc.away]
  obtain ⟨t, pc, rfl, hpcs, -, hlease, -, hnothing⟩ := senderStep_away haway hs
  have hold : pc.hold = (t.pc k).hold := by
    rw [hpcs, hnothing]
    cases hpc : s.pc k <;> simp_all [Pc.hold, Pc.away]
  rw [Follows, hop]
  exact (lease_goto_self hold).trans hlease

/-- What a sender does is an operation on the leases, or does nothing to them. -/
theorem senderStep_follows (hs : s.senderStep k jiffies = some s') :
    s.Follows (.sender k jiffies) s' := by
  cases hpc : s.pc k with
  -- The lock is no part of the leases.
  | updateLock msgbuf =>
    simp only [senderStep, hpc] at hs
    split_ifs at hs
    cases hs
    simp only [Follows, op, hpc]
    exact lease_goto_self (by rw [hpc]; rfl)
  | update msgbuf left => exact update_follows hpc hs
  | allocLock check => exact allocLock_follows hpc hs
  | allocBegin check left => exact allocBegin_follows hpc hs
  | allocLook check i left start => exact allocLook_follows hpc hs
  | allocRetry check i left start free => exact allocRetry_follows hpc hs
  | publish check i => exact publish_follows hpc hs
  | _ => exact away_follows (by rw [hpc]; rfl) hs

/-- An event is an operation on the leases, or does nothing to them. -/
theorem step_follows (hs : s.step e = some s') : s.Follows e s' := by
  -- Only a step of a sender may be an operation. The other events write no `busy`, no hint and no
  -- count, so that the leases are the same.
  cases e with
  | call k jiffies msgbuf =>
    have hpc : s.pc k = .idle := by
      rw [step] at hs
      split at hs
      · assumption
      · cases hs
    simp only [step, hpc, call] at hs
    simp only [Follows, op]
    split_ifs at hs
    · cases hs
      rfl
    · cases hs
      rfl
    · cases hs
      exact lease_goto_self (by rw [hpc]; rfl)
    · -- The call goes to `lookup`, where it holds nothing, as before.
      obtain ⟨pc, rfl, -, hnothing⟩ := checkAck_pc hs
      exact lease_goto_self (by rw [hpc, hnothing]; rfl)
  | sender k jiffies => exact senderStep_follows hs
  | receive i seq =>
    cases hs
    exact lease_write rfl
  | timeout i =>
    cases hs
    refine lease_write ?_
    rw [tcpAckTimeout]
    split
    · split <;> rfl
    · rfl
  | move i msg =>
    cases hs
    obtain ⟨inSendMsg, hi⟩ := @moveSlot_info msg (s.ackM.ackInfo i)
    exact lease_write (by rw [hi])
  | drop i =>
    cases hs
    exact lease_write rfl
  | enable on =>
    cases hs
    rfl
  | adjust cnt =>
    cases hs
    rfl
  | adjustWin value =>
    cases hs
    rfl

end Net

end W132d.TcpAck
