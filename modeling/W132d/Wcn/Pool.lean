import W132d.Chain
import W132d.Machine

/-!
# Buffer pools of the bus

A channel of the bus has a pool of mbufs (`wcn_bus.c`). Those that are free are a chain, of which
the pool has the head and the length. `buf_list_alloc` cuts mbufs off at the head, and
`buf_list_free` puts a chain back there. `buf_list_alloc` first looks, without the lock, whether
there are any.

* `bufPoolInit`: a pool whose mbufs are all free;
* `allocSection`, `bufListFree`: the sections of the lock;
* `pool`: the machine. Any number of threads allocate and free, and they link the mbufs that they
  have as they like;
* `Fair`: threads free chains of mbufs that they have;
* `Conserved`: what holds of the pool and of the mbufs that were handed out;
* `pool_conserved`: it holds after every run, and an allocation gets as many mbufs as there are;
* `alloc_nonempty_iff`: an allocation that succeeds is not empty exactly if there were free mbufs as
  it got the lock.

An mbuf is told by its number in the memory of the pool. The numbers of mbufs are far from leaving
their 32 bits.

How the theorem is proved: the chain of the free mbufs is a list (`W132d.Chain`), and with the
chains that were handed out it is all mbufs, without repetition. An allocation cuts off a first part
of the list, and a free puts the chain of a thread in front of it (`allocSection_eq`,
`bufListFree_eq`). A thread that links its own mbufs anew changes no link of the free ones, as no
mbuf is in both (`setNext_conserved`).

The look at the number of free mbufs before the lock is a step of its own (`alloc_step`), so that
another thread may take the last ones in between. The allocation then gets none, and succeeds.
-/

namespace W132d.Pool

variable {T : Type*}

/-! ## The pool -/

/-- `struct buffer_pool_t`. -/
structure BufferPool where
  size : ℤ
  free : ℤ
  head : Option ℕ

/-- The loop of `buf_pool_init` from the mbuf `i` on, which links it and `n` more. -/
def linkFrom (i : ℕ) : ℕ → (ℕ → Option ℕ) → ℕ → Option ℕ
  | 0, next => Function.update next i none
  | n + 1, next => linkFrom (i + 1) n (Function.update next i (some (i + 1)))

/-- `buf_pool_init`, once there is memory, which is zeroed. -/
def bufPoolInit (size : ℕ) : BufferPool × (ℕ → Option ℕ) :=
  (⟨size, size, some 0⟩, linkFrom 0 (size - 1) fun _ => none)

/-- Whether `buf_pool_check` does not read behind `NULL`. It only warns. -/
def bufPoolCheck (pool : BufferPool) (next : ℕ → Option ℕ) : Bool :=
  (nodes next pool.free.toNat pool.head).isSome

/-- Whether `buf_list_check` does not read behind `NULL`. It only warns. -/
def bufListCheck (next : ℕ → Option ℕ) (head tail : Option ℕ) (num : ℤ) : Bool :=
  num = 0 ∨ (nodes next num.toNat head).isSome ∧ tail.isSome

/-- The loop of `buf_list_alloc`, with so many turns to go: `cur` and `temp_tail`, or `none` if it
    reads behind `NULL`. The last turn finds the tail. -/
def takeLoop (next : ℕ → Option ℕ) : ℕ → Option ℕ → Option ℕ → Option (Option ℕ × Option ℕ)
  | 0, cur, tail => some (cur, tail)
  | _ + 1, none, _ => none
  | n + 1, some a, tail => takeLoop next n (next a) (if n = 0 then some a else tail)

/-- What `buf_list_alloc` returns. -/
structure Alloc where
  ret : ℤ
  head : Option ℕ
  tail : Option ℕ
  num : ℤ
  deriving DecidableEq

/-- The section of `buf_list_alloc`. -/
def allocSection (pool : BufferPool) (next : ℕ → Option ℕ) (num : ℤ) :
    Option (Alloc × BufferPool × (ℕ → Option ℕ)) :=
  if bufPoolCheck pool next then
    let num := if num > pool.free then pool.free else num
    (takeLoop next num.toNat pool.head none).bind fun (cur, tail) =>
      let next := tail.elim next fun t => Function.update next t none
      if bufListCheck next pool.head tail num then
        some (⟨0, pool.head, tail, num⟩, { pool with free := pool.free - num, head := cur }, next)
      else none
  else none

/-- `buf_list_free`, which does nothing if there is no chain. -/
def bufListFree (pool : BufferPool) (next : ℕ → Option ℕ) (head tail : Option ℕ) (num : ℤ) :
    Option (BufferPool × (ℕ → Option ℕ)) :=
  match head, tail with
  | some h, some t =>
    if num = 0 then some (pool, next)
    else if bufListCheck next (some h) (some t) num then
      let next := Function.update next t pool.head
      let pool := { pool with head := some h, free := pool.free + num }
      if bufPoolCheck pool next then some (pool, next) else none
    else none
  | _, _ => some (pool, next)

/-! ## The machine -/

/-- Where a thread is: it waits for the lock to allocate `num` mbufs, or has returned from that. -/
inductive Pc where
  | idle
  | waiting (num : ℤ)
  | returned (alloc : Alloc)
  deriving DecidableEq

/-- The pool, and where the threads are. The chains that were handed out, less what was freed of
    them, are a record only. -/
structure State (T : Type*) where
  pool : BufferPool
  next : ℕ → Option ℕ
  pc : T → Pc
  outstanding : List (List ℕ)

/-- A pool was just initialized. -/
def State.start (size : ℕ) : State T :=
  ⟨(bufPoolInit size).1, (bufPoolInit size).2, fun _ => .idle, []⟩

/-- What happens. -/
inductive Event (T : Type*) where
  /-- `buf_list_alloc`, up to the lock. -/
  | alloc (t : T) (num : ℤ)
  /-- Its section. -/
  | take (t : T)
  /-- `buf_list_free` of a chain, with its two ends and its length. -/
  | free (chain : List ℕ)
  /-- Who has an mbuf sets the next one. -/
  | setNext (mbuf : ℕ) (next : Option ℕ)

/-- The mbufs of a chain are not outstanding any more. -/
def putBack (chain : List ℕ) (outstanding : List (List ℕ)) : List (List ℕ) :=
  outstanding.map fun out => out.filter (· ∉ chain)

/-- What a step does. A thread that is elsewhere does nothing. -/
def State.step [DecidableEq T] (s : State T) : Event T → Option (State T)
  | .alloc t num =>
    match s.pc t with
    | .waiting _ => some s
    | _ =>
      if num ≤ 0 ∨ s.pool.free ≤ 0 then
        some { s with pc := Function.update s.pc t (.returned ⟨-1, none, none, 0⟩) }
      else some { s with pc := Function.update s.pc t (.waiting num) }
  | .take t =>
    match s.pc t with
    | .waiting num =>
      (allocSection s.pool s.next num).map fun (alloc, pool, next) =>
        { s with
          pool
          next
          pc := Function.update s.pc t (.returned alloc)
          outstanding := (nodes next alloc.num.toNat alloc.head).getD [] :: s.outstanding }
    | _ => some s
  | .free chain =>
    (bufListFree s.pool s.next chain.head? chain.getLast? chain.length).map fun (pool, next) =>
      { s with pool, next, outstanding := putBack chain s.outstanding }
  | .setNext mbuf next => some { s with next := Function.update s.next mbuf next }

/-- Threads that allocate and free, one step at a time. -/
def pool [DecidableEq T] : Machine (State T) (Event T) where
  step := State.step

/-- Who frees a chain has it, up to `NULL`, and who sets the next mbuf of one has it. -/
def Fair (s : State T) : Event T → Prop
  | .free chain => (∀ a ∈ chain, a ∈ s.outstanding.flatten) ∧ Spells s.next chain.head? chain
  | .setNext mbuf _ => mbuf ∈ s.outstanding.flatten
  | _ => True

instance (s : State T) : DecidablePred (Fair s)
  | .free chain => inferInstanceAs (Decidable ((∀ a ∈ chain, a ∈ _) ∧ _))
  | .setNext mbuf _ => inferInstanceAs (Decidable (mbuf ∈ _))
  | .alloc _ _ => inferInstanceAs (Decidable True)
  | .take _ => inferInstanceAs (Decidable True)

/-- The free mbufs are the chain `l`, as many as the pool says. With those that were handed out,
    they are all, and no mbuf is there twice. -/
structure Conserved (size : ℕ) (s : State T) (l : List ℕ) : Prop where
  spells : Spells s.next s.pool.head l
  free : s.pool.free = l.length
  count : l.length + s.outstanding.flatten.length = size
  nodup : (l ++ s.outstanding.flatten).Nodup

/-- An allocation of `num` mbufs gets a chain of them, or of all that are free, which were not
    outstanding. -/
structure Grants (s s' : State T) (num : ℤ) (alloc : Alloc) (l : List ℕ) : Prop where
  ret : alloc.ret = 0
  spells : Spells s'.next alloc.head l
  tail : alloc.tail = l.getLast?
  length : (l.length : ℤ) = min num s.pool.free
  num : alloc.num = l.length
  outstanding : s'.outstanding = l :: s.outstanding

variable {next : ℕ → Option ℕ} {p q : Option ℕ} {l chain : List ℕ} {n i size : ℕ} {num : ℤ}
  {bp : BufferPool}

/-! ## Initialization -/

theorem linkFrom_of_lt {j : ℕ} (h : j < i) : linkFrom i n next j = next j := by
  induction n generalizing i next with
  | zero => exact Function.update_of_ne h.ne ..
  | succ n ih => rw [linkFrom, ih (h.trans (Nat.lt_succ_self i)), Function.update_of_ne h.ne]

/-- The mbufs are linked one after the other. -/
theorem spells_linkFrom : Spells (linkFrom i n next) (some i) (List.range' i (n + 1)) := by
  induction n generalizing i next with
  | zero => exact ⟨rfl, Function.update_self ..⟩
  | succ n ih =>
    refine ⟨rfl, ?_⟩
    have hnext : linkFrom i (n + 1) next i = some (i + 1) := by
      rw [linkFrom, linkFrom_of_lt (Nat.lt_succ_self i), Function.update_self]
    rw [hnext]
    exact ih

/-- All mbufs of a pool are free at first. -/
theorem conserved_start (h : 0 < size) :
    Conserved size (State.start size : State T) (List.range size) := by
  have hspells : Spells (linkFrom 0 (size - 1) fun _ => none) (some 0) (List.range size) := by
    rw [List.range_eq_range', ← Nat.sub_add_cancel h]
    exact spells_linkFrom
  refine ⟨hspells, ?_, ?_, ?_⟩
  · rw [List.length_range]
    rfl
  · rw [List.length_range]
    rfl
  · rw [State.start, List.flatten_nil, List.append_nil]
    exact List.nodup_range

/-! ## Sections -/

/-- The loop finds the mbuf behind the ones it takes, and the last of these. -/
theorem takeLoop_eq (h : Spells next p l) (hn : n ≤ l.length) (tail : Option ℕ) :
    takeLoop next n p tail =
      some ((l.drop n).head?, if n = 0 then tail else (l.take n).getLast?) := by
  induction n generalizing p l tail with
  | zero => rw [h.eq_head?]; rfl
  | succ n ih =>
    cases l with
    | nil => exact absurd hn (Nat.not_succ_le_zero n)
    | cons a l =>
      obtain ⟨rfl, h⟩ := h
      have hn := Nat.le_of_succ_le_succ hn
      rw [takeLoop, ih h hn, List.drop_succ_cons, List.take_succ_cons, if_neg (Nat.succ_ne_zero n)]
      cases n with
      | zero => rfl
      | succ n =>
        cases l with
        | nil => exact absurd hn (Nat.not_succ_le_zero n)
        | cons b l => rfl

theorem not_mem_of_nodup {front : List ℕ} {t : ℕ} (h : (front ++ [t] ++ l).Nodup) : t ∉ l :=
  fun hmem => List.disjoint_of_nodup_append h
    (List.mem_append_right _ (List.mem_singleton_self t)) hmem

/-- The section of an allocation cuts off mbufs at the head, as many as it can. -/
theorem allocSection_eq (hspells : Spells next bp.head l) (hfree : bp.free = l.length)
    (hnodup : l.Nodup) (hnum : 0 < num) (hn : (n : ℤ) = min num bp.free) :
    ∃ next', allocSection bp next num = some (⟨0, bp.head, (l.take n).getLast?, n⟩,
        { bp with free := bp.free - n, head := (l.drop n).head? }, next') ∧
      Spells next' bp.head (l.take n) ∧ Spells next' (l.drop n).head? (l.drop n) := by
  have hle : n ≤ l.length := by omega
  have hcheck : bufPoolCheck bp next = true := by
    rw [bufPoolCheck, hfree, Int.toNat_natCast, hspells.nodes_length]
    rfl
  have hclip : (if num > bp.free then bp.free else num) = n := by
    rw [hn]
    split_ifs <;> omega
  rw [allocSection, if_pos hcheck]
  dsimp only
  rw [hclip, Int.toNat_natCast, takeLoop_eq hspells hle, Option.bind_some]
  dsimp only
  rcases Nat.eq_zero_or_pos n with hzero | hpos
  · -- The pool is empty.
    have hl : l = [] := List.length_eq_zero_iff.1 (by omega)
    subst hl
    subst hzero
    exact ⟨next, rfl, hspells, rfl⟩
  · have htake : l.take n ≠ [] := List.length_pos_iff.1 (by rw [List.length_take]; omega)
    obtain ⟨front, t, hfront⟩ := (List.eq_nil_or_concat' (l.take n)).resolve_left htake
    have hl : l = front ++ [t] ++ l.drop n := by rw [← hfront, List.take_append_drop]
    rw [hl] at hspells hnodup
    have hlast : (l.take n).getLast? = some t := by rw [hfront, List.getLast?_concat]
    have hlen : (l.take n).length = n := List.length_take_of_le hle
    have ht : t ∉ l.drop n := not_mem_of_nodup hnodup
    -- The last mbuf is taken off the list, so that it ends the chain.
    have hcut : Spells (Function.update next t none) bp.head (l.take n) := by
      rw [← List.append_cons] at hspells
      rw [hfront]
      exact hspells.cut (hnodup.sublist (List.sublist_append_left _ _))
    refine ⟨Function.update next t none, ?_, hcut, hspells.suffix.congr fun a ha =>
      Function.update_of_ne (ne_of_mem_of_not_mem ha ht) ..⟩
    have hcheck' : bufListCheck (Function.update next t none) bp.head (some t) n = true := by
      have hnodes := hcut.nodes_length
      rw [hlen] at hnodes
      rw [bufListCheck, Int.toNat_natCast, hnodes]
      exact decide_eq_true (.inr ⟨rfl, rfl⟩)
    rw [if_neg hpos.ne', hlast, Option.elim_some, if_pos hcheck']

/-- A chain that is freed is put before the free mbufs. -/
theorem bufListFree_eq (hspells : Spells next bp.head l) (hfree : bp.free = l.length)
    (hchain : Spells next chain.head? chain) (hnodup : (chain ++ l).Nodup) :
    ∃ next', bufListFree bp next chain.head? chain.getLast? chain.length = some
        ({ bp with head := (chain ++ l).head?, free := bp.free + chain.length }, next') ∧
      Spells next' (chain ++ l).head? (chain ++ l) := by
  rcases List.eq_nil_or_concat' chain with rfl | ⟨front, t, rfl⟩
  · rw [List.nil_append, ← hspells.eq_head?, List.length_nil, Nat.cast_zero, add_zero]
    exact ⟨next, rfl, hspells⟩
  · have ht : t ∉ l := not_mem_of_nodup hnodup
    -- The last mbuf of the chain is put in front of the free ones.
    have hjoined := hchain.append hspells (hnodup.sublist (List.sublist_append_left _ _)) ht
    obtain ⟨h, hh⟩ : ∃ h, (front ++ [t]).head? = some h := by
      cases front <;> exact ⟨_, rfl⟩
    have hhead : (front ++ [t] ++ l).head? = some h := by
      rw [List.head?_append, hh]
      rfl
    have hzero : ((front ++ [t]).length : ℤ) ≠ 0 := by
      rw [List.length_append, List.length_singleton]
      omega
    have hcheck : bufListCheck next (some h) (some t) (front ++ [t]).length = true := by
      rw [bufListCheck, Int.toNat_natCast, ← hh, hchain.nodes_length]
      exact decide_eq_true (.inr ⟨rfl, rfl⟩)
    have hcheck' : bufPoolCheck
        { bp with head := some h, free := bp.free + (front ++ [t]).length }
        (Function.update next t bp.head) = true := by
      have hlen : (bp.free + (front ++ [t]).length).toNat = (front ++ [t] ++ l).length := by
        rw [hfree, @List.length_append _ (front ++ [t]) l]
        omega
      rw [bufPoolCheck]
      dsimp only
      rw [hlen, ← hh, hjoined.nodes_length]
      rfl
    refine ⟨Function.update next t bp.head, ?_, ?_⟩
    · rw [hh, List.getLast?_concat, bufListFree, if_neg hzero, if_pos hcheck]
      dsimp only
      rw [if_pos hcheck', hhead]
    · rw [hhead, ← hh]
      exact hjoined

/-! ## Steps -/

variable {s s' : State T}

/-- What holds of a pool whose threads are fair: it is conserved, and who waits for the lock asks
    for mbufs. -/
structure Inv (size : ℕ) (s : State T) : Prop where
  conserved : ∃ l, Conserved size s l
  asks : ∀ t num, s.pc t = .waiting num → 0 < num

theorem inv_start (h : 0 < size) : Inv size (State.start size : State T) :=
  ⟨⟨_, conserved_start h⟩, fun _ _ hpc => absurd hpc (by simp [State.start])⟩

variable [DecidableEq T]

/-- An allocation gets mbufs, as many as there are. -/
theorem take_step (h : Conserved size s l) {t : T} (hpc : s.pc t = .waiting num) (hnum : 0 < num) :
    ∃ s' alloc n, pool.step s (.take t) = some s' ∧
      s'.pc = Function.update s.pc t (.returned alloc) ∧
      Grants s s' num alloc (l.take n) ∧ Conserved size s' (l.drop n) := by
  set n := (min num s.pool.free).toNat with hn'
  have hn : (n : ℤ) = min num s.pool.free := by
    have hfree := h.free
    omega
  have hle : n ≤ l.length := by
    have hfree := h.free
    omega
  obtain ⟨next', hsection, htaken, hrest⟩ :=
    allocSection_eq h.spells h.free (h.nodup.sublist (List.sublist_append_left _ _)) hnum hn
  have hlen : (l.take n).length = n := List.length_take_of_le hle
  have hnodes := htaken.nodes_length
  rw [hlen] at hnodes
  refine ⟨⟨{ s.pool with free := s.pool.free - n, head := (l.drop n).head? }, next',
    Function.update s.pc t (.returned ⟨0, s.pool.head, (l.take n).getLast?, n⟩),
    l.take n :: s.outstanding⟩, ⟨0, s.pool.head, (l.take n).getLast?, n⟩, n, ?_, rfl, ?_, ?_⟩
  · change State.step s (.take t) = _
    rw [State.step, hpc]
    dsimp only
    rw [hsection]
    simp only [Option.map_some, Int.toNat_natCast, hnodes, Option.getD_some]
  · exact ⟨rfl, htaken, rfl, by rw [hlen, hn], by rw [hlen], rfl⟩
  · have hfree := h.free
    have hcount := h.count
    have hdrop := @List.length_drop _ n l
    -- The mbufs are the same: some of them are outstanding now.
    have hperm : (l.drop n ++ (l.take n ++ s.outstanding.flatten)).Perm
        (l ++ s.outstanding.flatten) := by
      rw [← List.append_assoc]
      refine .append_right _ ?_
      exact (List.perm_append_comm).trans (by rw [List.take_append_drop])
    refine ⟨hrest, ?_, ?_, hperm.nodup_iff.2 h.nodup⟩
    · dsimp only
      omega
    · rw [List.flatten_cons, List.length_append]
      omega

/-- The mbufs of a chain that is freed are free. -/
theorem free_step (h : Conserved size s l) (hfair : Fair s (.free chain)) :
    ∃ s', pool.step s (.free chain) = some s' ∧ s'.pc = s.pc ∧ Conserved size s' (chain ++ l) := by
  obtain ⟨houtstanding, hchain⟩ := hfair
  have hdisjoint := List.disjoint_of_nodup_append h.nodup
  have hout : s.outstanding.flatten.Nodup := h.nodup.sublist (List.sublist_append_right _ _)
  have hrest : (putBack chain s.outstanding).flatten =
      s.outstanding.flatten.filter (· ∉ chain) := List.filter_flatten.symm
  -- The outstanding mbufs are those of the chain and those that stay so.
  have hperm : s.outstanding.flatten.Perm (chain ++ (putBack chain s.outstanding).flatten) := by
    rw [hrest]
    refine (List.perm_ext_iff_of_nodup hout (.append hchain.nodup (hout.filter _) ?_)).2 fun a => ?_
    · exact fun a ha ha' => absurd ha (of_decide_eq_true (List.mem_filter.1 ha').2)
    · rw [List.mem_append, List.mem_filter, decide_eq_true_iff]
      have ha := houtstanding a
      tauto
  have hnodup : (chain ++ l).Nodup := .append hchain.nodup
    (h.nodup.sublist (List.sublist_append_left _ _))
    fun a ha ha' => hdisjoint ha' (houtstanding a ha)
  have hperm' : (chain ++ l ++ (putBack chain s.outstanding).flatten).Perm
      (l ++ s.outstanding.flatten) := by
    refine (List.perm_append_comm.append_right _).trans ?_
    rw [List.append_assoc]
    exact hperm.symm.append_left l
  obtain ⟨next', hfreed, hspells⟩ := bufListFree_eq h.spells h.free hchain hnodup
  refine ⟨⟨{ s.pool with head := (chain ++ l).head?, free := s.pool.free + chain.length }, next',
    s.pc, putBack chain s.outstanding⟩, ?_, rfl, hspells, ?_, ?_, ?_⟩
  · change State.step s (.free chain) = _
    rw [State.step, hfreed]
    rfl
  · rw [h.free, List.length_append]
    push_cast
    ring
  · rw [← List.length_append, hperm'.length_eq, List.length_append]
    exact h.count
  · exact hperm'.nodup_iff.2 h.nodup

omit [DecidableEq T] in
/-- Who sets the next mbuf of one that is handed out leaves the pool alone. -/
theorem setNext_conserved {mbuf : ℕ} (h : Conserved size s l)
    (hmbuf : mbuf ∈ s.outstanding.flatten) (q : Option ℕ) :
    Conserved size { s with next := Function.update s.next mbuf q } l := by
  have hdisjoint := List.disjoint_of_nodup_append h.nodup
  refine ⟨h.spells.congr fun a ha => Function.update_of_ne ?_ .., h.free, h.count, h.nodup⟩
  rintro rfl
  exact hdisjoint ha hmbuf

theorem asks_update (h : ∀ t num, s.pc t = .waiting num → 0 < num) (t : T) {pc : Pc}
    (hpc : ∀ num, pc = .waiting num → 0 < num) :
    ∀ u num, Function.update s.pc t pc u = .waiting num → 0 < num := by
  intro u num hu
  by_cases htu : u = t
  · rw [htu, Function.update_self] at hu
    exact hpc num hu
  · rw [Function.update_of_ne htu] at hu
    exact h u num hu

/-- A thread looks for free mbufs, unless it waits for the lock. -/
theorem alloc_step (s : State T) (t : T) (num : ℤ) :
    pool.step s (.alloc t num) = some s ∨
      (num ≤ 0 ∨ s.pool.free ≤ 0) ∧ pool.step s (.alloc t num) =
        some { s with pc := Function.update s.pc t (.returned ⟨-1, none, none, 0⟩) } ∨
      0 < num ∧ pool.step s (.alloc t num) =
        some { s with pc := Function.update s.pc t (.waiting num) } := by
  change State.step s (.alloc t num) = _ ∨ _ ∧ State.step s (.alloc t num) = _ ∨
    _ ∧ State.step s (.alloc t num) = _
  rw [State.step]
  split
  · exact .inl rfl
  · by_cases hnone : num ≤ 0 ∨ s.pool.free ≤ 0
    · exact .inr (.inl ⟨hnone, if_pos hnone⟩)
    · exact .inr (.inr ⟨by omega, if_neg hnone⟩)

/-- A thread that does not wait for the lock does not take mbufs. -/
theorem take_of_ne {t : T} (hpc : ∀ num, s.pc t ≠ .waiting num) :
    pool.step s (.take t) = some s := by
  change State.step s (.take t) = _
  rw [State.step]
  split
  · rename_i num heq
    exact absurd heq (hpc num)
  · rfl

/-- A fair step keeps the pool conserved. -/
theorem inv_step {e : Event T} (h : Inv size s) (hfair : Fair s e) :
    ∃ s', pool.step s e = some s' ∧ Inv size s' := by
  obtain ⟨⟨l, hl⟩, hasks⟩ := h
  cases e with
  | alloc t num =>
    rcases alloc_step s t num with heq | ⟨-, heq⟩ | ⟨hnum, heq⟩
    · exact ⟨s, heq, ⟨l, hl⟩, hasks⟩
    · refine ⟨_, heq, ⟨l, hl.spells, hl.free, hl.count, hl.nodup⟩, asks_update hasks t ?_⟩
      rintro _ ⟨⟩
    · refine ⟨_, heq, ⟨l, hl.spells, hl.free, hl.count, hl.nodup⟩, asks_update hasks t ?_⟩
      rintro _ ⟨⟩
      exact hnum
  | take t =>
    by_cases hpc : ∃ num, s.pc t = .waiting num
    · obtain ⟨num, hpc⟩ := hpc
      obtain ⟨s', alloc, n, hstep, hpc', -, hl'⟩ := take_step hl hpc (hasks t num hpc)
      refine ⟨s', hstep, ⟨_, hl'⟩, ?_⟩
      rw [hpc']
      refine asks_update hasks t ?_
      rintro _ ⟨⟩
    · rw [not_exists] at hpc
      exact ⟨s, take_of_ne hpc, ⟨l, hl⟩, hasks⟩
  | free chain =>
    obtain ⟨s', hstep, hpc, hl'⟩ := free_step hl hfair
    exact ⟨s', hstep, ⟨_, hl'⟩, hpc ▸ hasks⟩
  | setNext mbuf q => exact ⟨_, rfl, ⟨l, setNext_conserved hl hfair q⟩, hasks⟩

/-- After every run of fair threads the pool is conserved, and a thread that gets the lock to
    allocate mbufs gets a chain of as many as it asks for, or of all that are free. -/
theorem pool_conserved (h : 0 < size) {es : List (Event T)}
    (hfair : pool.Along Fair (State.start size) es) :
    ∃ s, pool.run (State.start size) es = some s ∧ (∃ l, Conserved size s l) ∧
      ∀ t num, s.pc t = .waiting num → ∃ s' alloc l, pool.step s (.take t) = some s' ∧
        s'.pc t = .returned alloc ∧ Grants s s' num alloc l := by
  obtain ⟨s, hrun, ⟨⟨l, hl⟩, hasks⟩⟩ := Machine.exists_run_history (I := fun _ s => Inv size s)
    (fun _ _ _ hI hfair => inv_step hI hfair) (inv_start h) hfair
  refine ⟨s, hrun, ⟨l, hl⟩, fun t num hpc => ?_⟩
  obtain ⟨s', alloc, n, hstep, hpc', hgrants, -⟩ := take_step hl hpc (hasks t num hpc)
  exact ⟨s', alloc, _, hstep, by rw [hpc', Function.update_self], hgrants⟩

/-- Two threads get mbufs, which are linked anew and freed in other chains. -/
def regrouped : List (Event (Fin 2)) :=
  [.alloc 0 2, .take 0, .alloc 1 2, .take 1, .setNext 0 none, .setNext 1 (some 2), .free [0],
    .free [1, 2], .alloc 0 2]

theorem pool_conserved_regrouped :
    ∃ s : State (Fin 2), pool.run (State.start 3) regrouped = some s ∧ (∃ l, Conserved 3 s l) ∧
      ∀ t num, s.pc t = .waiting num → ∃ s' alloc l, pool.step s (.take t) = some s' ∧
        s'.pc t = .returned alloc ∧ Grants s s' num alloc l :=
  pool_conserved (by decide) (by decide)

/-! ## Allocations that succeed -/

/-- An allocation that has succeeded has mbufs. -/
def Pc.NonEmpty : Pc → Prop
  | .returned alloc => alloc.ret = 0 → 1 ≤ alloc.num ∧ alloc.head.isSome ∧ alloc.tail.isSome
  | _ => True

instance : DecidablePred Pc.NonEmpty
  | .returned alloc => inferInstanceAs (Decidable (alloc.ret = 0 → _ ≤ alloc.num ∧ _ ∧ _))
  | .idle | .waiting _ => .isTrue trivial

/-- All allocations that have succeeded have mbufs. -/
def NonEmpty (s : State T) : Prop := ∀ t, (s.pc t).NonEmpty

/-- Who gets the lock to allocate mbufs finds some. -/
def Plenty (s : State T) : Event T → Prop
  | .take t => (∃ num, s.pc t = .waiting num) → 0 < s.pool.free
  | _ => True

theorem nonEmpty_update {pc : Pc} {t : T} (h : NonEmpty s)
    (hpc : s'.pc = Function.update s.pc t pc) : NonEmpty s' ↔ pc.NonEmpty := by
  rw [NonEmpty, hpc]
  constructor
  · intro hs'
    have ht := hs' t
    rwa [Function.update_self] at ht
  · intro ht u
    by_cases htu : u = t
    · rwa [htu, Function.update_self]
    · rw [Function.update_of_ne htu]
      exact h u

omit [DecidableEq T] in
/-- An allocation is not empty exactly if the pool was not. -/
theorem Grants.nonEmpty_iff {alloc : Alloc} (h : Grants s s' num alloc l) (hnum : 0 < num) :
    (Pc.returned alloc).NonEmpty ↔ 0 < s.pool.free := by
  have hlength := h.length
  rw [Pc.NonEmpty, imp_iff_right h.ret, h.num, h.tail, h.spells.eq_head?]
  cases l with
  | nil =>
    refine iff_of_false (fun hne => absurd hne.1 (by decide)) ?_
    rw [List.length_nil] at hlength
    omega
  | cons a l =>
    rw [List.length_cons] at hlength ⊢
    refine iff_of_true ⟨by omega, rfl, ?_⟩ (by omega)
    rw [List.getLast?_cons]
    rfl

/-- An allocation that succeeds is not empty exactly if the pool was not. -/
theorem nonEmpty_step {e : Event T} (h : Inv size s) (hne : NonEmpty s) (hfair : Fair s e)
    (hstep : pool.step s e = some s') : NonEmpty s' ↔ Plenty s e := by
  obtain ⟨⟨l, hl⟩, hasks⟩ := h
  cases e with
  | alloc t num =>
    -- An allocation that is refused returns an error, and not an empty list.
    refine iff_of_true ?_ trivial
    rcases alloc_step s t num with heq | ⟨-, heq⟩ | ⟨-, heq⟩
    · exact Option.some.inj (hstep.symm.trans heq) ▸ hne
    · rw [nonEmpty_update hne (congrArg State.pc (Option.some.inj (hstep.symm.trans heq)))]
      exact fun hret => absurd hret (by decide)
    · rw [nonEmpty_update hne (congrArg State.pc (Option.some.inj (hstep.symm.trans heq)))]
      trivial
  | take t =>
    by_cases hpc : ∃ num, s.pc t = .waiting num
    · rw [Plenty, imp_iff_right hpc]
      obtain ⟨num, hpc⟩ := hpc
      obtain ⟨s'', alloc, n, hstep', hpc', hgrants, -⟩ := take_step hl hpc (hasks t num hpc)
      obtain rfl := Option.some.inj (hstep.symm.trans hstep')
      rw [nonEmpty_update hne hpc', hgrants.nonEmpty_iff (hasks t num hpc)]
    · refine iff_of_true ?_ fun h => absurd h hpc
      rw [not_exists] at hpc
      exact Option.some.inj (hstep.symm.trans (take_of_ne hpc)) ▸ hne
  | free chain =>
    obtain ⟨s'', hstep', hpc, -⟩ := free_step hl hfair
    obtain rfl := Option.some.inj (hstep.symm.trans hstep')
    rw [NonEmpty, hpc]
    exact iff_of_true hne trivial
  | setNext mbuf q => exact iff_of_true (Option.some.inj hstep ▸ hne) trivial

/-- In every run of fair threads, all allocations that succeed have mbufs, at every time, exactly if
    whoever gets the lock to allocate mbufs finds some. -/
theorem alloc_nonempty_iff (h : 0 < size) {es : List (Event T)}
    (hfair : pool.Along Fair (State.start size) es) :
    pool.Always NonEmpty (State.start size) es ↔ pool.Along Plenty (State.start size) es := by
  obtain ⟨s, hrun, -⟩ := Machine.exists_run_history (I := fun _ s => Inv size s)
    (fun _ _ _ hI hfair => inv_step hI hfair) (inv_start h) hfair
  refine Machine.always_iff_along_of_along (I := Inv size) ?_ ?_ (inv_start h) ?_ hfair hrun
  · intro s e s' hI hfair hstep
    obtain ⟨s'', hstep', hI'⟩ := inv_step hI hfair
    rwa [Option.some.inj (hstep.symm.trans hstep')]
  · exact fun s e s' hI hne hfair hstep => nonEmpty_step hI hne hfair hstep
  · exact fun t => trivial

theorem alloc_nonempty_iff_regrouped :
    pool.Always NonEmpty (State.start 3) regrouped ↔ pool.Along Plenty (State.start 3) regrouped :=
  alloc_nonempty_iff (by decide) (by decide)

/-- Two threads and one mbuf: both find it free. -/
def contended : List (Event (Fin 2)) := [.alloc 0 1, .alloc 1 1, .take 0, .take 1]

/-- Who gets the lock second gets none. -/
theorem not_alloc_nonempty : ¬∀ (size : ℕ) (es : List (Event (Fin 2))), 0 < size →
    pool.Along Fair (State.start size) es → pool.Always NonEmpty (State.start size) es := by
  intro h
  obtain ⟨s, hrun, hempty⟩ : ∃ s : State (Fin 2), pool.run (State.start 1) contended = some s ∧
      ¬(s.pc 1).NonEmpty := Machine.exists_run (by decide)
  exact hempty ((h 1 contended (by decide) (by decide)).last hrun 1)

end W132d.Pool
