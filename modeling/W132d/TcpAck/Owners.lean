import W132d.TcpAck.Leases

/-!
# One owner for a slot

While a sender that was given a slot has not written it yet, nothing tells another sender that the
slot is taken, and the loop that looks for a slot that is not busy finds it again. The loop also
counts the slot in every attempt to read it that finds it not busy, and not only in the last one.

* `Exclusive`: the condition of a step: a slot that is found not busy was given to nobody who is
  still to write it, and is not read again;
* `slot_owner`: along it, no slot is given to senders of two flows, and `max_num` tells how many
  slots are busy as long as no sender is between allocation and publication;
* `maxNum_eq_iff`: `max_num` does so exactly if no sender wrote a busy slot or read again one that
  it had counted.

How the theorem is proved: an event of the filter is an operation on the leases
(`W132d.TcpAck.Leases`), and the conditions of the operations are translated to those of the events
(`sole_of_exclusive`, `keeps_iff`). The invariant of `W132d.Lease` then says that no slot is given
to two senders, and its deficit that `max_num` is right exactly along `Counts`. What the leases do
not know is that a sender that looks for a slot has the lock, so that no other one has counted one
meanwhile (`Guarded.not_counted`).
-/

namespace W132d.TcpAck

variable {n : ℕ}

namespace Net

/-- A slot that a sender at `pc` finds not busy was given to nobody who is still to write it, and
    the sender does not read it again. -/
def ExclusiveAt (s : Net n) : Pc → Prop
  | .allocLook _ i _ _ => (s.ackM.ackInfo i).busy = true ∨ ∀ k, s.publishes k i = false
  | .allocRetry _ i _ start true => s.seq i = start
  | _ => True

instance (s : Net n) : ∀ pc, Decidable (s.ExclusiveAt pc)
  | .allocLook .. => inferInstanceAs (Decidable (_ ∨ _))
  | .allocRetry _ _ _ _ true => inferInstanceAs (Decidable (_ = _))
  | .allocRetry _ _ _ _ false | .idle | .updateLock .. | .update .. | .lookup .. | .found ..
  | .scale .. | .win .. | .handle .. | .allocLock .. | .allocBegin .. | .publish .. =>
    .isTrue trivial

/-- A sender at `pc` does not write a slot that is busy, nor read again one that it counted. -/
def CountsAt (s : Net n) : Pc → Prop
  | .allocRetry _ i _ start true => s.seq i = start
  | .publish _ i => (s.ackM.ackInfo i).busy = false
  | _ => True

/-- No sender is between allocation and publication. -/
def Settled (s : Net n) : Prop := ∀ k, (s.pc k).hold = .nothing

instance (s : Net n) : Decidable s.Settled := inferInstanceAs (Decidable (∀ _, _))

/-- The number of busy slots. -/
def busyNum (s : Net n) : ℕ := (Finset.univ.filter fun i => (s.ackM.ackInfo i).busy = true).card

/-- The acknowledgements of those who were given a slot are of one flow. -/
def OneFlow (s : Net n) : Prop := ∀ i, ∀ x ∈ s.given i, ∀ y ∈ s.given i, x.2.SameFlow y.2

instance (s : Net n) : Decidable s.OneFlow := inferInstanceAs (Decidable (∀ _, _))

end Net

/-- The condition of a step: a slot that is found not busy was given to nobody who is still to
    write it, and is not read again. -/
def Exclusive (s : Net n) : NetEvent n → Prop
  | .sender k _ => s.ExclusiveAt (s.pc k)
  | _ => True

instance (s : Net n) : ∀ e, Decidable (Exclusive s e)
  | .sender k _ => inferInstanceAs (Decidable (s.ExclusiveAt (s.pc k)))
  | .call .. | .receive .. | .timeout .. | .move .. | .drop .. | .enable .. | .adjust ..
  | .adjustWin .. => .isTrue trivial

/-- No busy slot is written by one who was given it, and none that was counted is read again. -/
def Counts (s : Net n) : NetEvent n → Prop
  | .sender k _ => s.CountsAt (s.pc k)
  | _ => True

namespace Net

variable {s s' : Net n} {k : Fin n} {e : NetEvent n}

/-- Who does an operation, and when. -/
theorem op_cases {o : Lease.Op (Fin tcpAckNum) (Fin n) TcpAckMsg} (ho : s.op e = some o) :
    ∃ k jiffies, e = .sender k jiffies ∧
      ((∃ msgbuf i left, s.pc k = .update msgbuf (i :: left) ∧ o = .age i) ∨
        (∃ check, s.pc k = .allocLock check ∧ o = .take k check.msg) ∨
        (∃ check i left start, s.pc k = .allocLook check i left start ∧
          (s.ackM.ackInfo i).busy = false ∧ o = .count k i) ∨
        (∃ check i left start, s.pc k = .allocRetry check i left start true ∧
          (s.seq i ≠ start ∧ o = .lose k ∨ s.seq i = start ∧ o = .grant k check.msg)) ∨
        (∃ check i, s.pc k = .publish check i ∧ o = .publish k)) := by
  -- Only steps of a sender are operations, and of these only the ones in the sections of
  -- `sprdwl_tcp_ack_update` and `sprdwl_tcp_ack_alloc_index`.
  cases e with
  | sender k jiffies =>
    refine ⟨k, jiffies, rfl, ?_⟩
    cases hpc : s.pc k with
    | update msgbuf left =>
      cases left with
      | nil => simp [op, hpc] at ho
      | cons i left =>
        simp only [op, hpc] at ho
        split_ifs at ho
        cases ho
        exact .inl ⟨_, _, _, rfl, rfl⟩
    | allocLock check =>
      simp only [op, hpc] at ho
      split_ifs at ho
      obtain ⟨i, -, rfl⟩ := Option.map_eq_some_iff.1 ho
      exact .inr (.inl ⟨_, rfl, rfl⟩)
    | allocLook check i left start =>
      simp only [op, hpc] at ho
      split_ifs at ho with hbusy
      cases ho
      exact .inr (.inr (.inl ⟨_, _, _, _, rfl, Bool.eq_false_iff.2 hbusy, rfl⟩))
    | allocRetry check i left start free =>
      cases free with
      | false => simp [op, hpc] at ho
      | true =>
        simp only [op, hpc] at ho
        split_ifs at ho with hseq
        · -- The sequence lock was written between reading and counting, so that the slot is lost.
          cases ho
          exact .inr (.inr (.inr (.inl ⟨_, _, _, _, rfl, .inl ⟨hseq, rfl⟩⟩)))
        · cases ho
          exact .inr (.inr (.inr (.inl ⟨_, _, _, _, rfl, .inr ⟨not_not.1 hseq, rfl⟩⟩)))
    | publish check i =>
      simp only [op, hpc] at ho
      cases ho
      exact .inr (.inr (.inr (.inr ⟨_, _, rfl, rfl⟩)))
    | _ => simp [op, hpc] at ho
  | _ => simp [op] at ho

/-- While a sender has the lock, no other one has counted a slot. -/
theorem Guarded.not_counted {i : Fin tcpAckNum} (h : s.Guarded) (hk : (s.pc k).locks = true)
    (hnothing : (s.pc k).hold = .nothing) (k' : Fin n) : (s.pc k').hold ≠ .counted i := by
  intro hcounted
  have hlocks : (s.pc k').locks = true := by
    cases hpc : s.pc k' with
    | allocRetry check' i' left' start' free' => rfl
    | _ => simp [hpc, Pc.hold] at hcounted
  obtain rfl := h.unique k' k hlocks hk
  rw [hnothing] at hcounted
  cases hcounted

/-- An exclusive event is an operation that keeps one owner for each slot. -/
theorem sole_of_exclusive {o : Lease.Op (Fin tcpAckNum) (Fin n) TcpAckMsg} (h : s.Guarded)
    (hex : Exclusive s e) (ho : s.op e = some o) : s.lease.Sole o := by
  obtain ⟨k, jiffies, rfl, hcase⟩ := op_cases ho
  rw [Exclusive] at hex
  rcases hcase with ⟨_, i, _, _, rfl⟩ | ⟨_, _, rfl⟩ | ⟨_, i, _, _, hpc, hbusy, rfl⟩ |
    ⟨_, i, _, _, hpc, hretry⟩ | ⟨_, _, _, rfl⟩
  · trivial
  · trivial
  · -- The lock keeps those away who have counted a slot, but not those who were given one.
    rw [hpc] at hex
    have hgiven := hex.resolve_left (Bool.eq_false_iff.1 hbusy)
    intro k' hslot
    cases hhold : s.lease.hold k' with
    | nothing =>
      rw [hhold] at hslot
      cases hslot
    | counted j => exact h.not_counted (by rw [hpc]; rfl) (by rw [hpc]; rfl) k' hhold
    | granted j =>
      rw [hhold] at hslot
      cases hslot
      have hpub := hgiven k'
      rw [publishes_eq, hhold] at hpub
      exact absurd rfl (of_decide_eq_false hpub)
  · rw [hpc] at hex
    rcases hretry with ⟨hseq, rfl⟩ | ⟨_, rfl⟩
    · exact absurd hex hseq
    · trivial
  · trivial

/-- Which operations keep the counter right, in the words of the senders. -/
theorem keeps_iff {o : Lease.Op (Fin tcpAckNum) (Fin n) TcpAckMsg} (ho : s.op e = some o) :
    s.lease.Keeps o ↔ Counts s e := by
  obtain ⟨k, jiffies, rfl, hcase⟩ := op_cases ho
  rw [Counts]
  rcases hcase with ⟨_, i, _, hpc, rfl⟩ | ⟨_, hpc, rfl⟩ | ⟨_, i, _, _, hpc, _, rfl⟩ |
    ⟨_, i, _, _, hpc, hretry⟩ | ⟨_, i, hpc, rfl⟩
  · rw [hpc]
    exact Iff.rfl
  · rw [hpc]
    exact Iff.rfl
  · rw [hpc]
    exact Iff.rfl
  · rw [hpc]
    rcases hretry with ⟨hseq, rfl⟩ | ⟨hseq, rfl⟩
    · exact iff_of_false id hseq
    · exact iff_of_true trivial hseq
  · have hhold : s.lease.hold k = .granted i := congrArg Pc.hold hpc
    rw [hpc]
    refine ⟨fun h => h i hhold, fun h j hj => ?_⟩
    rw [hhold] at hj
    cases hj
    exact h

theorem counts_of_op (ho : s.op e = none) : Counts s e := by
  cases e with
  | sender k jiffies =>
    rw [Counts]
    cases hpc : s.pc k with
    | allocRetry check i left start free =>
      cases free with
      | false => trivial
      | true =>
        simp only [op, hpc] at ho
        split_ifs at ho
    | publish check i => simp [op, hpc] at ho
    | _ => trivial
  | _ => trivial

/-- No event raises the deficit of `max_num`, and those meeting `Counts` keep it. -/
theorem step_deficit (hs : s.step e = some s') :
    s'.lease.deficit ≤ s.lease.deficit ∧ (s'.lease.deficit = s.lease.deficit ↔ Counts s e) := by
  have hlease := step_follows hs
  rw [Follows] at hlease
  cases ho : s.op e with
  | none =>
    rw [ho] at hlease
    rw [show s'.lease = s.lease from hlease]
    exact ⟨le_rfl, iff_of_true rfl (counts_of_op ho)⟩
  | some o =>
    rw [ho] at hlease
    rw [← keeps_iff ho]
    exact Lease.step_deficit hlease

/-- What an exclusive step keeps. -/
theorem step_inv (h : s.Guarded ∧ s.lease.Inv) (hex : Exclusive s e) (hs : s.step e = some s') :
    s'.Guarded ∧ s'.lease.Inv := by
  refine ⟨step_guarded h.1 hs, ?_⟩
  have hlease := step_follows hs
  rw [Follows] at hlease
  cases ho : s.op e with
  | none =>
    rw [ho] at hlease
    exact (show s'.lease = s.lease from hlease) ▸ h.2
  | some o =>
    rw [ho] at hlease
    exact Lease.step_inv h.2 (sole_of_exclusive h.1 hex ho) hlease

theorem init_guarded (jiffies timeout : UInt64) : (init n jiffies timeout).Guarded :=
  ⟨nofun, nofun⟩

end Net

variable {n : ℕ} {jiffies timeout : UInt64} {es : List (NetEvent n)} {s : Net n}

/-- In runs whose steps are exclusive, the senders that were given a slot, and were not aged out
    since, are of one flow; and while no sender is between allocation and publication, `max_num`
    is the number of busy slots. -/
theorem slot_owner (hex : (senders n).Along Exclusive (Net.init n jiffies timeout) es)
    (hrun : (senders n).run (Net.init n jiffies timeout) es = some s) :
    s.OneFlow ∧ (s.Settled → s.ackM.maxNum = s.busyNum) := by
  have hinit : (Net.init n jiffies timeout).lease.Inv := Lease.init_inv _
  have hinv := Machine.invariant (I := fun s : Net n => s.Guarded ∧ s.lease.Inv)
    (fun _ _ _ h hG hs => Net.step_inv h hG hs) ⟨Net.init_guarded _ _, hinit⟩ hex hrun
  refine ⟨fun i x hx y hy => ?_, fun hsettled => ?_⟩
  · rw [hinv.2.given_subsingleton hx hy]
    exact .refl _
  · exact (hinv.2.count_eq hsettled).trans Lease.busyNum_eq

/-- Whatever the steps of a run: while no sender is between allocation and publication, `max_num` is
    at least the number of busy slots. It is that number exactly if no sender wrote a busy slot, or
    read again one that it had counted. -/
theorem maxNum_eq_iff (hrun : (senders n).run (Net.init n jiffies timeout) es = some s)
    (hsettled : s.Settled) :
    s.busyNum ≤ s.ackM.maxNum ∧
      (s.ackM.maxNum = s.busyNum ↔ (senders n).Along Counts (Net.init n jiffies timeout) es) := by
  obtain ⟨hle, hiff⟩ := Machine.measure_eq_along_iff (μ := fun s : Net n => s.lease.deficit)
    (I := fun _ => True) (fun _ _ _ _ _ => trivial) (fun _ _ _ _ hs => Net.step_deficit hs)
    trivial hrun
  -- It is zero at first, and the difference of both numbers at rest.
  have hinit : (Net.init n jiffies timeout).lease.deficit = 0 := Lease.init_deficit _
  have hbusy : s.lease.busyNum = s.busyNum := Lease.busyNum_eq
  have hdeficit : s.lease.deficit = s.busyNum - s.ackM.maxNum := hbusy ▸ Lease.deficit_eq hsettled
  rw [hinit, hdeficit] at hle hiff
  rw [← hiff, sub_eq_zero, eq_comm]
  exact ⟨sub_nonpos.1 hle, Iff.rfl⟩

/-! ## Two senders -/

/-- The first of the two, and the second. -/
def first : Fin 2 := 0

/-- See `first`. -/
def second : Fin 2 := 1

/-- A sender has a packet, and does `steps` steps. -/
def sends {n : ℕ} (k : Fin n) (msgbuf : MsgBuf) (steps : ℕ) : List (NetEvent n) :=
  .call k 0 msgbuf :: List.replicate steps (.sender k 0)

/-- The second sender looks for a slot once the first one has written its own. It takes 33 steps to
    find that no slot has the flow, one to be given a slot by the free index or one and three for
    each slot that it reads, and one to write it. -/
def inTurn : List (NetEvent 2) :=
  sends first (firstAck 1 1) 35 ++ sends second (firstAck 2 2) 41

/-- The second sender looks for a slot before that. -/
def overlapping : List (NetEvent 2) :=
  sends first (firstAck 1 1) 34 ++ sends second (firstAck 2 2) 38 ++ [.sender first 0]

/-- A message leaves the host while the second sender reads the slot that it is given. -/
def readAgain : List (NetEvent 2) :=
  sends first (firstAck 1 1) 35 ++ sends second (firstAck 2 2) 39 ++
    [.move ⟨1, Nat.one_lt_ofNat⟩ (firstAck 1 1)] ++ List.replicate 5 (.sender second 0)

/-- Both have their own slot. -/
theorem slot_owner_inTurn : ∃ s, (senders 2).run (Net.init 2 0 1000) inTurn = some s ∧
    s.Settled ∧ s.OneFlow ∧ s.ackM.maxNum = s.busyNum ∧ s.busyNum = 2 := by
  have hex : (senders 2).Along Exclusive (Net.init 2 0 1000) inTurn := by decide +kernel
  obtain ⟨s, hs, hsettled, hnum⟩ : ∃ s, (senders 2).run (Net.init 2 0 1000) inTurn = some s ∧
      s.Settled ∧ s.busyNum = 2 := Machine.exists_run (by decide +kernel)
  have hown := slot_owner hex hs
  exact ⟨s, hs, hsettled, hown.1, hown.2 hsettled, hnum⟩

/-- Both are given one slot, or a slot is counted twice. -/
theorem slot_shared :
    (∃ s, (senders 2).run (Net.init 2 0 1000) overlapping = some s ∧
      ¬s.OneFlow ∧ s.Settled ∧ s.ackM.maxNum = 2 ∧ s.busyNum = 1) ∧
    ∃ s, (senders 2).run (Net.init 2 0 1000) readAgain = some s ∧
      s.OneFlow ∧ s.Settled ∧ s.ackM.maxNum = 3 ∧ s.busyNum = 2 :=
  ⟨Machine.exists_run (by decide +kernel), Machine.exists_run (by decide +kernel)⟩

end W132d.TcpAck
