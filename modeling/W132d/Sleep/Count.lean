import W132d.Sleep.Basic
import W132d.Tally

/-!
# Counting the users of a subsystem

A counter is the number of threads from the time they are counted until they have left. When it is
found to be zero, no thread uses the subsystem. The bit is cleared after that, however, so that
another thread may begin to use the subsystem in between.

* `calls_eq`: a function that uses the bus wakes the chip up first, except for `sdiohal_readl`;
* `Quiet`: such a call of `sdiohal_readl` does not fail to set its address, a subsystem is used in
  one direction, and no thread begins to use it between the last look at its counter and the
  section that clears its bit;
* `Counted`: then, the counters count the users, and a thread that clears a bit is alone;
* `undisturbed_of_quiet`: so that it does not disturb another one.

The machine is that of `W132d.Sleep.Basic`: each function of the bus is a list of calls, which count
a user of a subsystem, set its bit, do the work, and take it off again. The counters are changed by
atomic operations, and the bits under a lock, so that a thread may begin to use a subsystem after
another one has found the counter to be zero, and before that one has cleared the bit.

How the theorem is proved: the number of users of a counter is a sum over the threads, of which a
step changes one term, as it changes the counter (`Counted.update`). So the counters are right in
every state, as far as 32 bits go. A thread that finds its counter at zero is therefore alone
(`Counted.not_uses`), and it stays so until it has cleared the bit if the run is quiet. The lemmas
about steps are grouped by what a step does to the counter: nothing, one up, one down.
-/

namespace W132d.Sleep

/-- A function makes no calls, or it wakes the chip up and lets it sleep again, unless it is a
    `sdiohal_readl` that does not wake the chip up and cannot set its address. -/
theorem calls_eq {f : Func} (hf : f ≠ .readl true .setAddr) :
    f.calls = [] ∨ ∃ c, f.calls = [.wakeup c, .sleep c] := by
  have hreg : ∀ c exit,
      regAccess c exit = [] ∨ ∃ c', regAccess c exit = [.wakeup c', .sleep c'] := by
    intro c exit
    cases exit with
    | early => exact .inl rfl
    | setAddr => exact .inr ⟨c, rfl⟩
    | done => exact .inr ⟨c, rfl⟩
  cases f with
  | packets c => exact .inr ⟨c, rfl⟩
  | writel exit => exact hreg _ exit
  | dtWrite exit => exact hreg _ exit
  | dtRead exit => exact hreg _ exit
  | readl bypassWake exit =>
    cases bypassWake with
    | false =>
      cases exit with
      | early => exact .inl rfl
      | setAddr => exact .inr ⟨_, rfl⟩
      | done => exact .inr ⟨_, rfl⟩
    | true =>
      cases exit with
      | early => exact .inl rfl
      | setAddr => exact absurd rfl hf
      | done => exact .inl rfl

/-! ## Places -/

/-- From the time that a thread is counted until it has left. -/
def Place.counted : Place → Bool
  | added | marked | awake | leaving | subtract => true
  | left | last => false

/-- The calls that are left of a function. -/
def Place.calls (c : Counter) : Place → List Call
  | added | marked | awake => [.sleep c]
  | leaving | subtract | left | last => []

/-- The number of users of a counter that a thread is. -/
def Pc.users (c : Counter) : Pc → ℤ
  | out => 0
  | within c' p => if c' = c ∧ p.counted then 1 else 0

/-- A thread that is about to clear a bit, and another one that does not use the subsystem. -/
def Pc.Apart (pc pc' : Pc) : Prop := ∀ c ∈ pc.clears, ¬pc'.Uses c.subsys

/-- What is left of the function of a thread lets the chip sleep as often as the thread has woken
    it up, for a subsystem that it uses in its own direction. -/
def Thread.Paired (dir : SlpSubsys → Dir) (th : Thread) : Prop :=
  match th.pc with
  | .out => th.calls = [] ∨ ∃ c, th.calls = [.wakeup c, .sleep c] ∧ c.dir = dir c.subsys
  | .within c p => th.calls = p.calls c ∧ c.dir = dir c.subsys

section

variable {c c' : Counter} {pc : Pc} {p : Place}

/-- A thread uses a counter or not. -/
theorem users_nonneg : 0 ≤ pc.users c := by
  cases pc with
  | out => exact le_rfl
  | within c' p =>
    rw [Pc.users]
    split_ifs <;> decide

theorem users_le_one : pc.users c ≤ 1 := by
  cases pc with
  | out => exact zero_le_one
  | within c' p =>
    rw [Pc.users]
    split_ifs <;> decide

/-- A thread uses the counter where it was counted. -/
theorem users_of_counted (hp : p.counted = true) : (Pc.within c p).users c = 1 :=
  if_pos ⟨rfl, hp⟩

theorem users_eq_of_counted_eq {p' : Place} (hp : p.counted = p'.counted) :
    (Pc.within c' p).users c = (Pc.within c' p').users c := by
  rw [Pc.users, Pc.users, hp]

theorem apart_self : pc.Apart pc := by
  cases pc with
  | out => exact fun _ hc => absurd hc (by simp [Pc.clears])
  | within c p =>
    cases p with
    | last => exact fun _ _ h => h
    | _ => exact fun _ hc => absurd hc (by simp [Pc.clears])

theorem apart_of_clears_eq_none {pc' : Pc} (h : pc.clears = none) : pc.Apart pc' := by
  intro c hc
  rw [h] at hc
  exact absurd hc (by simp)

theorem apart_of_not_uses {pc' : Pc} (h : ∀ subsys, ¬pc'.Uses subsys) : pc.Apart pc' :=
  fun c _ => h c.subsys

/-- Where it was not counted, it does not. -/
theorem users_of_not_counted (hp : p.counted = false) : (Pc.within c' p).users c = 0 :=
  if_neg fun h => absurd (hp.symm.trans h.2) (by decide)

end

/-! ## Counters -/

variable {T : Type}

/-- No thread lets the chip sleep without having woken it up, every subsystem is used in its own
    direction, and no thread begins to use one when another thread is about to clear its bit. -/
def Quiet (dir : SlpSubsys → Dir) (s : Bus T) : BusEvent T → Prop
  | .start _ f =>
    f ≠ .readl true .setAddr ∧ ∀ c, Call.wakeup c ∈ f.calls → c.dir = dir c.subsys
  | .step t _ =>
    match (s.thread t).pc with
    | .within c .added => ∀ t', ∀ c' ∈ (s.thread t').pc.clears, c'.subsys ≠ c.subsys
    | _ => True
  | .reqSlp => True

/-- The number of users of a counter. -/
def Bus.users [Fintype T] (s : Bus T) (c : Counter) : ℤ :=
  tally (fun th : Thread => th.pc.users c) s.thread

/-- The counters count their users, and a thread that is about to clear a bit is alone. -/
structure Counted [Fintype T] (dir : SlpSubsys → Dir) (s : Bus T) : Prop where
  paired : ∀ t, (s.thread t).Paired dir
  count : ∀ c, s.count c = BitVec.ofInt 32 (s.users c)
  alone : ∀ t t', (s.thread t).pc.Apart (s.thread t').pc

section

variable [Fintype T] {dir : SlpSubsys → Dir} {s s' : Bus T} {t : T} {c : Counter}

/-- A thread is one of the users of a counter. -/
theorem users_le_users (s : Bus T) (t : T) (c : Counter) : (s.thread t).pc.users c ≤ s.users c :=
  le_tally (f := fun th : Thread => th.pc.users c) (fun _ => users_nonneg) t

/-- A counter with a user is not zero. -/
theorem Counted.count_ne_zero (hI : Counted dir s) (hcard : Fintype.card T < 2 ^ 32) {p : Place}
    (hpc : (s.thread t).pc = .within c p) (hp : p.counted = true) : s.count c ≠ 0 := by
  have hpos : 1 ≤ s.users c := by
    have hle := users_le_users s t c
    rwa [hpc, users_of_counted hp] at hle
  have hlt : s.users c < 2 ^ 32 := by
    have hle : s.users c ≤ Fintype.card T := tally_le_card fun _ => users_le_one
    omega
  intro hzero
  have hnat := congrArg BitVec.toNat ((hI.count c).symm.trans hzero)
  rw [BitVec.toNat_ofInt] at hnat
  change (s.users c % (2 ^ 32 : ℕ)).toNat = 0 at hnat
  omega

/-- When a counter is zero, no thread uses its subsystem. -/
theorem Counted.not_uses (hI : Counted dir s) (hcard : Fintype.card T < 2 ^ 32)
    (hdir : c.dir = dir c.subsys) (hzero : s.count c = 0) (t : T) :
    ¬(s.thread t).pc.Uses c.subsys := by
  intro huses
  cases hpc : (s.thread t).pc with
  | out => exact (hpc ▸ huses : Pc.Uses c.subsys .out)
  | within c' p =>
    have hpaired := hI.paired t
    rw [Thread.Paired, hpc] at hpaired
    rw [hpc] at huses
    -- Users of a subsystem have its direction, hence one counter.
    have hcounter : c'.subsys = c.subsys → c' = c := by
      intro hsubsys
      rw [Counter.mk.injEq, hpaired.2, hdir, hsubsys]
      exact ⟨rfl, rfl⟩
    cases p with
    | marked => exact hI.count_ne_zero hcard (hcounter huses ▸ hpc) rfl hzero
    | awake => exact hI.count_ne_zero hcard (hcounter huses ▸ hpc) rfl hzero
    | _ => exact huses

/-- Nobody uses the bus yet. -/
theorem counted_init : Counted dir (Bus.init (T := T)) where
  paired _ := .inl rfl
  count c := by
    have husers : Bus.users (Bus.init (T := T)) c = 0 := tally_eq_zero fun _ => rfl
    rw [husers]
    rfl
  alone _ _ := apart_of_clears_eq_none rfl

variable [DecidableEq T]

/-- Where a thread goes on to, a counter has the users it had, less and more itself. -/
theorem users_update {count : Counter → BitVec 32} {m : SlpMgr} {th : Thread} :
    Bus.users (T := T) ⟨count, m, Function.update s.thread t th⟩ c =
      s.users c - (s.thread t).pc.users c + th.pc.users c := tally_update

/-- A step of a thread, by which its counter changes with it. -/
theorem Counted.update (hI : Counted dir s) {count : Counter → BitVec 32} {m : SlpMgr} {th : Thread}
    (hpaired : th.Paired dir)
    (hcount : ∀ c, count c = s.count c - BitVec.ofInt 32 ((s.thread t).pc.users c) +
      BitVec.ofInt 32 (th.pc.users c))
    (hclears : ∀ t', th.pc.Apart (s.thread t').pc) (huses : ∀ t', (s.thread t').pc.Apart th.pc) :
    Counted dir ⟨count, m, Function.update s.thread t th⟩ where
  paired t' := by
    change (Function.update s.thread t th t').Paired dir
    by_cases ht : t' = t
    · rw [ht, Function.update_self]
      exact hpaired
    · rw [Function.update_of_ne ht]
      exact hI.paired t'
  -- The users of the counter change by those of this thread, as the count does.
  count c := by
    rw [users_update, BitVec.ofInt_add, sub_eq_add_neg, BitVec.ofInt_add, BitVec.ofInt_neg,
      ← hI.count, ← BitVec.sub_eq_add_neg]
    exact hcount c
  -- Two threads are apart: either both are old ones, or one is the thread that was updated.
  alone t₁ t₂ := by
    change (Function.update s.thread t th t₁).pc.Apart (Function.update s.thread t th t₂).pc
    by_cases h₁ : t₁ = t
    · rw [h₁, Function.update_self]
      by_cases h₂ : t₂ = t
      · rw [h₂, Function.update_self]
        exact apart_self
      · rw [Function.update_of_ne h₂]
        exact hclears t₂
    · rw [Function.update_of_ne h₁]
      by_cases h₂ : t₂ = t
      · rw [h₂, Function.update_self]
        exact huses t₁
      · rw [Function.update_of_ne h₂]
        exact hI.alone t₁ t₂

/-- A step by which the thread neither is to clear a bit nor uses a subsystem. -/
theorem Counted.update_neutral (hI : Counted dir s) {count : Counter → BitVec 32} {m : SlpMgr}
    {th : Thread} (hpaired : th.Paired dir)
    (hcount : ∀ c, count c = s.count c - BitVec.ofInt 32 ((s.thread t).pc.users c) +
      BitVec.ofInt 32 (th.pc.users c))
    (hclears : th.pc.clears = none) (huses : ∀ subsys, ¬th.pc.Uses subsys) :
    Counted dir ⟨count, m, Function.update s.thread t th⟩ :=
  hI.update hpaired hcount (fun _ => apart_of_clears_eq_none hclears)
    fun _ => apart_of_not_uses huses

omit [Fintype T] [DecidableEq T] in
/-- A thread that goes on without being counted or leaving keeps the counters. -/
theorem count_eq_of_users_eq {th : Thread} (husers : ∀ c, th.pc.users c = (s.thread t).pc.users c)
    (c : Counter) : s.count c = s.count c - BitVec.ofInt 32 ((s.thread t).pc.users c) +
      BitVec.ofInt 32 (th.pc.users c) := by
  rw [husers, BitVec.sub_add_cancel]

/-- A thread begins without being counted. -/
theorem Counted.start (hI : Counted dir s) {f : Func} (hquiet : Quiet dir s (.start t f)) :
    Counted dir (s.start t f) := by
  rw [Bus.start]
  split_ifs with hout
  · refine hI.update_neutral ?_ (count_eq_of_users_eq fun c => by rw [hout]) rfl fun _ h => h
    rcases calls_eq hquiet.1 with hcalls | ⟨c, hcalls⟩
    · exact .inl hcalls
    · refine .inr ⟨c, hcalls, hquiet.2 c ?_⟩
      rw [hcalls]
      exact List.mem_cons_self
  · exact hI

/-- A thread that is out of a function begins one: it is counted. -/
theorem Counted.call_out (hI : Counted dir s) (hpc : (s.thread t).pc = .out) :
    Counted dir (s.call t) := by
  have hpaired := hI.paired t
  rw [Thread.Paired, hpc] at hpaired
  rw [Bus.call]
  rcases hpaired with hcalls | ⟨c, hcalls, hdir⟩
  · rw [hcalls]
    exact hI
  · rw [hcalls]
    refine hI.update_neutral ⟨rfl, hdir⟩ ?_ rfl fun _ h => h
    intro c'
    rw [hpc]
    by_cases hc : c' = c
    · subst hc
      rw [Function.update_self, users_of_counted rfl]
      simp [Pc.users]
    · rw [Function.update_of_ne hc]
      simp [Pc.users, Ne.symm hc]

/-- A thread goes on within the calls of a counter. -/
theorem Counted.goto (hI : Counted dir s) {m : SlpMgr} {p p' : Place}
    (hpc : (s.thread t).pc = .within c p) (hcalls : p'.calls c = p.calls c)
    (hcounted : p'.counted = p.counted) (hclears : ∀ t', (Pc.within c p').Apart (s.thread t').pc)
    (huses : ∀ t', (s.thread t').pc.Apart (.within c p')) :
    Counted dir ({ s with mgr := m }.goto t (.within c p')) := by
  have hpaired := hI.paired t
  rw [Thread.Paired, hpc] at hpaired
  refine hI.update ⟨hpaired.1.trans hcalls.symm, hpaired.2⟩ ?_ hclears huses
  refine count_eq_of_users_eq fun c' => ?_
  rw [hpc]
  exact users_eq_of_counted_eq hcounted

/-- A thread that has left goes out of the function. -/
theorem Counted.goto_out (hI : Counted dir s) {m : SlpMgr} {p : Place}
    (hpc : (s.thread t).pc = .within c p) (hcalls : p.calls c = []) (hcounted : p.counted = false) :
    Counted dir ({ s with mgr := m }.goto t .out) := by
  have hpaired := hI.paired t
  rw [Thread.Paired, hpc] at hpaired
  refine hI.update_neutral (.inl (hpaired.1.trans hcalls)) ?_ rfl fun _ h => h
  refine count_eq_of_users_eq fun c' => ?_
  rw [hpc, users_of_not_counted hcounted, Pc.users]

/-- A thread that was awake calls to let the chip sleep. -/
theorem Counted.call_awake (hI : Counted dir s) (hpc : (s.thread t).pc = .within c .awake) :
    Counted dir (s.call t) := by
  have hpaired := hI.paired t
  rw [Thread.Paired, hpc] at hpaired
  rw [Bus.call, hpaired.1, Place.calls]
  refine hI.update_neutral ⟨rfl, hpaired.2⟩ ?_ rfl fun _ h => h
  refine count_eq_of_users_eq fun c' => ?_
  rw [hpc]
  exact users_eq_of_counted_eq rfl

/-- A thread takes itself off the counter. -/
theorem Counted.subtract (hI : Counted dir s) {wakeHostEn ok : Bool}
    (hpc : (s.thread t).pc = .within c .subtract) :
    Counted dir (s.operate t wakeHostEn ok c .subtract) := by
  have hpaired := hI.paired t
  rw [Thread.Paired, hpc] at hpaired
  refine hI.update_neutral hpaired ?_ rfl fun _ h => h
  intro c'
  rw [hpc]
  dsimp only
  by_cases hc : c' = c
  · subst hc
    rw [Function.update_self, users_of_counted rfl, users_of_not_counted rfl]
    simp
  · rw [Function.update_of_ne hc]
    simp [Pc.users, Ne.symm hc]

theorem Counted.operate (hI : Counted dir s) (hcard : Fintype.card T < 2 ^ 32)
    {wakeHostEn ok : Bool} {p : Place} (hpc : (s.thread t).pc = .within c p)
    (hquiet : Quiet dir s (.step t ok)) :
    Counted dir (s.operate t wakeHostEn ok c p) := by
  rw [Quiet, hpc] at hquiet
  cases p with
  | added =>
    refine hI.goto hpc rfl rfl (fun _ => apart_of_clears_eq_none rfl) ?_
    exact fun t' c' hc' huses => hquiet t' c' hc' huses.symm
  | marked =>
    refine hI.goto hpc rfl rfl (fun _ => apart_of_clears_eq_none rfl) ?_
    -- It has begun to use the subsystem before.
    intro t' c' hc' huses
    have halone := hI.alone t' t c' hc'
    rw [hpc] at halone
    exact halone huses
  | awake => exact hI.call_awake hpc
  | leaving =>
    rw [Bus.operate, if_neg (hI.count_ne_zero hcard hpc rfl)]
    exact hI.goto hpc rfl rfl (fun _ => apart_of_clears_eq_none rfl)
      fun _ => apart_of_not_uses fun _ h => h
  | subtract => exact hI.subtract hpc
  | left =>
    rw [Bus.operate]
    split_ifs with hzero
    · have hdir : c.dir = dir c.subsys := by
        have hpaired := hI.paired t
        rw [Thread.Paired, hpc] at hpaired
        exact hpaired.2
      refine hI.goto hpc rfl rfl ?_ fun _ => apart_of_not_uses fun _ h => h
      intro t' c' hc'
      rw [← Option.some.inj hc']
      exact hI.not_uses hcard hdir hzero t'
    · exact hI.goto_out hpc rfl rfl
  | last => exact hI.goto_out hpc rfl rfl

theorem Counted.step (hI : Counted dir s) (hcard : Fintype.card T < 2 ^ 32) {wakeHostEn : Bool}
    {ev : BusEvent T} (hquiet : Quiet dir s ev) (hstep : (bus T wakeHostEn).step s ev = some s') :
    Counted dir s' := by
  cases ev with
  | start t f => exact Option.some.inj hstep ▸ hI.start hquiet
  | reqSlp => exact Option.some.inj hstep ▸ ⟨hI.paired, hI.count, hI.alone⟩
  | step t ok =>
    cases hpc : (s.thread t).pc with
    | out =>
      simp only [bus, hpc] at hstep
      exact Option.some.inj hstep ▸ hI.call_out hpc
    | within c p =>
      simp only [bus, hpc] at hstep
      exact Option.some.inj hstep ▸ hI.operate hcard hpc hquiet

end

/-- In every quiet run of fewer than `2 ^ 32` threads, no step clears the bit of a subsystem that
    another thread has begun to use. -/
theorem undisturbed_of_quiet [Fintype T] [DecidableEq T] (hcard : Fintype.card T < 2 ^ 32)
    {dir : SlpSubsys → Dir} {wakeHostEn : Bool} {evs : List (BusEvent T)}
    (h : (bus T wakeHostEn).Along (Quiet dir) Bus.init evs) :
    (bus T wakeHostEn).Along Undisturbed Bus.init evs := by
  refine h.imp (I := Counted dir) (fun _ _ _ hI hquiet hstep => hI.step hcard hquiet hstep) ?_
    counted_init
  intro s ev hI _
  cases ev with
  | step t ok => exact fun c hc t' _ => hI.alone t t' c hc
  | start t f => trivial
  | reqSlp => trivial

end W132d.Sleep
