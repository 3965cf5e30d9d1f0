import W132d.Wcn.Pool

/-!
# Registration of channels

The Wi-Fi driver registers the channels that it uses with the bus (`sprdwl_intf_init`), one after
the other, from a table. The bus (`wcn_bus.c`) keeps for every channel who has registered it, and a
pool of mbufs. If the registration of a channel fails, the driver means to take back the ones before
it.

* `busChnInit`, `busChnDeinit`: a channel is registered, and unregistered;
* `sprdwlIntfInit`: the channels of a table are;
* `AllOrNothing`: after an error, the channels are registered as they were before;
* `FirstFailure`: where the registration fails;
* `Undone`: a failure that nothing is left of;
* `all_or_nothing_iff`: when it is all or nothing.

A channel of the bus has an entry (`ops`), who has registered it, and a pool, which may have memory.
Registering it takes the entry first, and makes the pool then; a pool without memory leaves the
channel registered, but says so. The loop of the driver that takes channels back goes down from the
index of the one that has failed, and stops at 1, so that it unregisters the channel that somebody
else has, and leaves the first one of the table.

How the theorem is proved: up to the first failure, the channels of the table are registered, each
for the first time (`Held.register`). What is left by the failure is known (`Leaves`), and the loop
that follows takes certain channels of the table (`unregister_eq`). Whether the state is the one
from before is then a question about the first channel of the table, which is not taken back, and
about the one that has failed (`undone_of_allOrNothing`).
-/

namespace W132d.Registration

/-- `EINVAL`. -/
def einval : ℤ := 22

/-- `ENOMEM`. -/
def enomem : ℤ := 12

/-- `MAX_CHN_NUM`. -/
def maxChnNum : ℕ := 16

/-! ## The bus -/

/-- `struct mchn_ops_t`, with where it is in memory. -/
structure Ops where
  addr : ℕ
  channel : ℕ
  poolSize : ℤ
  deriving DecidableEq

/-- A pool, and its memory, i.e., the next mbuf of each one. -/
structure ChnPool where
  pool : Pool.BufferPool
  mem : Option (ℕ → Option ℕ)

/-- `struct chn_info_t`. -/
structure ChnInfo where
  ops : ℕ → Option Ops
  pool : ℕ → ChnPool

/-- `buf_pool_init`, which `kzalloc` may have no memory for. -/
def bufPoolInit (kzalloc : Bool) (pool : ChnPool) (size : ℤ) : ChnPool × ℤ :=
  if kzalloc then
    let (pool, mem) := Pool.bufPoolInit size.toNat
    (⟨pool, some mem⟩, 0)
  else (⟨{ pool.pool with size }, none⟩, -enomem)

/-- `buf_pool_deinit`. It clears the memory, and fails if there should be some but is none. -/
def bufPoolDeinit (pool : ChnPool) : Option ChnPool :=
  if pool.mem.isNone ∧ pool.pool.size ≠ 0 then none else some { pool with mem := none }

/-- `bus_chn_init`. -/
def busChnInit (kzalloc : Bool) (s : ChnInfo) (ops : Ops) : ChnInfo × ℤ :=
  if (s.ops ops.channel).isSome then (s, -1)
  else
    let s := { s with ops := Function.update s.ops ops.channel (some ops) }
    if ops.poolSize > 0 then
      let (pool, ret) := bufPoolInit kzalloc (s.pool ops.channel) ops.poolSize
      ({ s with pool := Function.update s.pool ops.channel pool }, ret)
    else (s, 0)

/-- `bus_chn_deinit`, less what it returns, which nobody looks at. -/
def busChnDeinit (s : ChnInfo) (ops : Ops) : Option ChnInfo :=
  if (s.ops ops.channel).isNone then some s
  else if ops.poolSize > 0 then
    (bufPoolDeinit (s.pool ops.channel)).map fun pool =>
      ⟨Function.update s.ops ops.channel none, Function.update s.pool ops.channel pool⟩
  else some { s with ops := Function.update s.ops ops.channel none }

/-! ## The driver -/

/-- The loop of `sprdwl_intf_init` that registers the rest of the table, from the index `chn` on:
    where it ends, what was returned last, and whether that was an error. -/
def register (kzalloc : ℕ → Bool) (ret : ℤ) : ℕ → List Ops → ChnInfo → ChnInfo × ℕ × ℤ
  | chn, [], s => (s, chn, ret)
  | chn, ops :: rest, s =>
    let (s, ret) := busChnInit (kzalloc chn) s ops
    if ret < 0 then (s, chn, ret) else register kzalloc ret (chn + 1) rest s

/-- Its loop that unregisters channels, down from the index `chn`. -/
def unregister (table : List Ops) : ℕ → ChnInfo → Option ChnInfo
  | 0, s => some s
  | chn + 1, s =>
    match table[chn + 1]? with
    | some ops => (busChnDeinit s ops).bind (unregister table chn)
    | none => none

/-- What `sprdwl_intf_init` returns, with the channels and the table that the driver keeps. -/
structure Result where
  ret : ℤ
  info : ChnInfo
  hifOps : List Ops

/-- `sprdwl_intf_init`, with the table for the hardware there is. -/
def sprdwlIntfInit (kzalloc : ℕ → Bool) (table : List Ops) (s : ChnInfo) : Option Result :=
  if table.length < maxChnNum then
    let (s, chn, ret) := register kzalloc (-einval) 0 table s
    if chn < table.length then
      (unregister table chn s).map fun s => ⟨ret, s, []⟩
    else some ⟨ret, s, table⟩
  else some ⟨-einval, s, []⟩

/-! ## What is right -/

/-- No channel of the table was registered, and those that were before are, with the same pool. -/
structure Undoes (table : List Ops) (s s' : ChnInfo) : Prop where
  table : ∀ ops ∈ table, s.ops ops.channel = none → s'.ops ops.channel = none
  others : ∀ c, (s.ops c).isSome → s'.ops c = s.ops c ∧ s'.pool c = s.pool c

/-- The registration returns, and if it returns an error, no channel was registered. -/
def AllOrNothing (kzalloc : ℕ → Bool) (table : List Ops) (s : ChnInfo) : Prop :=
  ∃ r, sprdwlIntfInit kzalloc table s = some r ∧ (r.ret < 0 → Undoes table s r.info)

/-- The registration of a channel fails behind those of `front`: somebody has it, it comes twice, or
    there is no memory for its pool. -/
def Fails (kzalloc : ℕ → Bool) (s : ChnInfo) (front : List Ops) (ops : Ops) : Prop :=
  (s.ops ops.channel).isSome ∨ (∃ o ∈ front, o.channel = ops.channel) ∨
    0 < ops.poolSize ∧ ¬kzalloc front.length

/-- The first failure is that of `ops`, behind `front`. -/
structure FirstFailure (kzalloc : ℕ → Bool) (s : ChnInfo) (table front : List Ops) (ops : Ops) :
    Prop where
  prefix_table : front ++ [ops] <+: table
  fails : Fails kzalloc s front ops
  first : ∀ front' ops', front' ++ [ops'] <+: front → ¬Fails kzalloc s front' ops'

/-- A failure that nothing is left of: of the first channel, since somebody has it; or of one that
    is the first channel again, if its pool, which is taken down, has memory. -/
def Undone (s : ChnInfo) : List Ops → Ops → Prop
  | [], ops => (s.ops ops.channel).isSome
  | o :: _, ops => o.channel = ops.channel ∧ (0 < ops.poolSize → 0 < o.poolSize ∨
    (s.pool o.channel).mem.isSome ∨ (s.pool o.channel).pool.size = 0)

variable {kzalloc : ℕ → Bool} {kz : Bool} {s s' t t' : ChnInfo} {table front rest done : List Ops}
  {ops o : Ops} {c n : ℕ}

/-! ## A channel is registered -/

/-- A channel that somebody has is left alone. -/
theorem busChnInit_taken (h : (s.ops ops.channel).isSome) : busChnInit kz s ops = (s, -1) :=
  if_pos h

/-- What is done to one channel. -/
structure Only (c : ℕ) (s s' : ChnInfo) : Prop where
  ops : ∀ d, d ≠ c → s'.ops d = s.ops d
  pool : ∀ d, d ≠ c → s'.pool d = s.pool d

/-- A channel that is registered has a pool if it needs one, and nothing else changes. -/
structure Adds (o : Ops) (s s' : ChnInfo) : Prop extends Only o.channel s s' where
  self : s'.ops o.channel = some o
  mem : 0 < o.poolSize → (s'.pool o.channel).mem.isSome
  same : ¬0 < o.poolSize → s'.pool o.channel = s.pool o.channel

theorem busChnInit_ok (h : ¬(s.ops ops.channel).isSome) (hmem : 0 < ops.poolSize → kz) :
    ∃ s', busChnInit kz s ops = (s', 0) ∧ Adds ops s s' := by
  rw [busChnInit, if_neg h]
  dsimp only
  split_ifs with hsize
  · rw [bufPoolInit, if_pos (hmem hsize)]
    refine ⟨_, rfl, ⟨fun d hd => Function.update_of_ne hd .., fun d hd =>
      Function.update_of_ne hd ..⟩, Function.update_self .., fun _ => ?_, absurd hsize⟩
    dsimp only
    rw [Function.update_self]
    rfl
  · exact ⟨_, rfl, ⟨fun d hd => Function.update_of_ne hd .., fun _ _ => rfl⟩,
      Function.update_self .., fun hpos => absurd hpos hsize, fun _ => rfl⟩

/-- Without memory for its pool, a channel stays registered. -/
theorem busChnInit_nomem (h : ¬(s.ops ops.channel).isSome) (hsize : 0 < ops.poolSize) :
    ∃ s', busChnInit false s ops = (s', -enomem) ∧ Only ops.channel s s' ∧
      s'.ops ops.channel = some ops := by
  rw [busChnInit, if_neg h]
  dsimp only
  rw [if_pos hsize, bufPoolInit, if_neg Bool.false_ne_true]
  exact ⟨_, rfl, ⟨fun d hd => Function.update_of_ne hd .., fun d hd => Function.update_of_ne hd ..⟩,
    Function.update_self ..⟩

/-! ## Channels are registered -/

/-- The channels of `done` are registered, each for the first time, and the others are as they
    were. -/
structure Held (s : ChnInfo) (done : List Ops) (s' : ChnInfo) : Prop where
  ops : ∀ o ∈ done, s'.ops o.channel = some o
  mem : ∀ o ∈ done, 0 < o.poolSize → (s'.pool o.channel).mem.isSome
  same : ∀ o ∈ done, ¬0 < o.poolSize → s'.pool o.channel = s.pool o.channel
  others : ∀ c, (∀ o ∈ done, o.channel ≠ c) → s'.ops c = s.ops c ∧ s'.pool c = s.pool c
  free : ∀ o ∈ done, s.ops o.channel = none
  distinct : (done.map Ops.channel).Nodup

theorem held_nil : Held s [] s :=
  ⟨fun _ h => absurd h List.not_mem_nil, fun _ h => absurd h List.not_mem_nil,
    fun _ h => absurd h List.not_mem_nil, fun _ _ => ⟨rfl, rfl⟩,
    fun _ h => absurd h List.not_mem_nil, List.nodup_nil⟩

/-- A channel more. -/
theorem Held.concat (h : Held s done s') (hadds : Adds ops s' t) (hfree : s.ops ops.channel = none)
    (hnew : ∀ o ∈ done, o.channel ≠ ops.channel) : Held s (done ++ [ops]) t := by
  refine ⟨?_, ?_, ?_, ?_, ?_, ?_⟩
  · refine List.forall_mem_append.2 ⟨fun o ho => ?_, List.forall_mem_singleton.2 hadds.self⟩
    rw [hadds.ops _ (hnew o ho)]
    exact h.ops o ho
  · refine List.forall_mem_append.2 ⟨fun o ho => ?_, List.forall_mem_singleton.2 hadds.mem⟩
    rw [hadds.pool _ (hnew o ho)]
    exact h.mem o ho
  · refine List.forall_mem_append.2 ⟨fun o ho => ?_, List.forall_mem_singleton.2 fun hsize => ?_⟩
    · rw [hadds.pool _ (hnew o ho)]
      exact h.same o ho
    · rw [hadds.same hsize]
      exact (h.others _ hnew).2
  · intro c hc
    obtain ⟨hdone, hops⟩ := List.forall_mem_append.1 hc
    have hne := (List.forall_mem_singleton.1 hops).symm
    rw [hadds.ops c hne, hadds.pool c hne]
    exact h.others c hdone
  · exact List.forall_mem_append.2 ⟨h.free, List.forall_mem_singleton.2 hfree⟩
  · rw [List.map_append, List.map_singleton, List.nodup_append_comm]
    refine List.nodup_cons.2 ⟨fun hmem => ?_, h.distinct⟩
    obtain ⟨o, ho, heq⟩ := List.mem_map.1 hmem
    exact hnew o ho heq

/-- A channel whose registration does not fail. -/
theorem Held.register_ok (h : Held s done s') (hok : ¬Fails kzalloc s done ops) :
    ∃ t, busChnInit (kzalloc done.length) s' ops = (t, 0) ∧ Held s (done ++ [ops]) t := by
  rw [Fails, not_or, not_or, not_exists] at hok
  obtain ⟨hfree, hnew, hmem⟩ := hok
  have hnew' : ∀ o ∈ done, o.channel ≠ ops.channel := fun o ho heq => hnew o ⟨ho, heq⟩
  have hops : s'.ops ops.channel = s.ops ops.channel := (h.others _ hnew').1
  obtain ⟨t, hinit, hadds⟩ := @busChnInit_ok (kzalloc done.length) s' ops (by rwa [hops])
    (fun hsize => by_contra fun hkz => hmem ⟨hsize, hkz⟩)
  exact ⟨t, hinit, h.concat hadds (Option.not_isSome_iff_eq_none.1 hfree) hnew'⟩

/-- The channels before the first failure. -/
theorem Held.register (h : Held s done s')
    (hok : ∀ front' ops', front' ++ [ops'] <+: front → ¬Fails kzalloc s (done ++ front') ops')
    (ret : ℤ) : ∃ t ret', Held s (done ++ front) t ∧ (front = [] ∧ ret' = ret ∨ ret' = 0) ∧
      register kzalloc ret done.length (front ++ rest) s' =
        register kzalloc ret' (done ++ front).length rest t := by
  induction front generalizing done s' ret with
  | nil => exact ⟨s', ret, by rwa [List.append_nil], .inl ⟨rfl, rfl⟩, by rw [List.append_nil]; rfl⟩
  | cons ops front ih =>
    have hfirst := hok [] ops ⟨front, rfl⟩
    rw [List.append_nil] at hfirst
    obtain ⟨t, hinit, hheld⟩ := h.register_ok hfirst
    have hok' : ∀ front' ops', front' ++ [ops'] <+: front →
        ¬Fails kzalloc s (done ++ [ops] ++ front') ops' := by
      intro front' ops' hprefix
      rw [← List.append_cons]
      exact hok (ops :: front') ops' ((List.prefix_cons_inj ops).2 hprefix)
    obtain ⟨t', ret', hheld', hret, hregister⟩ := ih hheld hok' 0
    rw [← List.append_cons] at hheld' hregister
    refine ⟨t', ret', hheld', .inr (hret.elim And.right id), ?_⟩
    rw [← hregister, List.cons_append, Registration.register, hinit, List.length_append]
    rfl

/-! ## Channels are unregistered -/

/-- The loop takes the channels from the one of its index down to the one of index 1. -/
theorem unregister_eq (h : n < table.length) (s : ChnInfo) :
    unregister table n s = (table.take (n + 1)).tail.reverse.foldlM busChnDeinit s := by
  induction n generalizing s with
  | zero =>
    cases table with
    | nil => exact absurd h (Nat.not_lt_zero 0)
    | cons o table => rfl
  | succ n ih =>
    have htail : (table.take (n + 1 + 1)).tail = (table.take (n + 1)).tail ++ [table[n + 1]] := by
      cases table with
      | nil => exact absurd h (Nat.not_lt_zero _)
      | cons o table =>
        rw [List.take_succ_cons, List.take_succ_cons, List.tail_cons, List.tail_cons]
        exact (List.take_append_getElem (Nat.lt_of_succ_lt_succ h)).symm
    rw [unregister, List.getElem?_eq_getElem h, htail, List.reverse_concat, List.foldlM_cons]
    exact Option.bind_congr fun s _ => ih (Nat.lt_of_succ_lt h) s

/-- A channel that is unregistered changes no other one. -/
theorem busChnDeinit_only (h : busChnDeinit s o = some s') : Only o.channel s s' := by
  rw [busChnDeinit] at h
  split_ifs at h with hnone hsize
  · exact Option.some.inj h ▸ ⟨fun _ _ => rfl, fun _ _ => rfl⟩
  · obtain ⟨pool, -, rfl⟩ := Option.map_eq_some_iff.1 h
    exact ⟨fun d hd => Function.update_of_ne hd .., fun d hd => Function.update_of_ne hd ..⟩
  · exact Option.some.inj h ▸ ⟨fun d hd => Function.update_of_ne hd .., fun _ _ => rfl⟩

/-- Channels that are unregistered change no other one. -/
theorem foldlM_only {l : List Ops} (h : l.foldlM busChnDeinit s = some s')
    (hc : ∀ o ∈ l, o.channel ≠ c) : s'.ops c = s.ops c ∧ s'.pool c = s.pool c := by
  induction l generalizing s with
  | nil => exact Option.some.inj h ▸ ⟨rfl, rfl⟩
  | cons o l ih =>
    rw [List.foldlM_cons] at h
    obtain ⟨t, ht, h⟩ := Option.bind_eq_some_iff.1 h
    obtain ⟨ho, hl⟩ := List.forall_mem_cons.1 hc
    have honly := busChnDeinit_only ht
    rw [← honly.ops c ho.symm, ← honly.pool c ho.symm]
    exact ih h hl

/-- A channel that can be unregistered: if a pool is taken down, it has its memory. -/
structure Ready (s : ChnInfo) (o : Ops) : Prop where
  ops : (s.ops o.channel).isSome
  mem : 0 < o.poolSize → (s.pool o.channel).mem.isSome ∨ (s.pool o.channel).pool.size = 0

theorem busChnDeinit_ready (h : Ready s o) :
    ∃ s', busChnDeinit s o = some s' ∧ s'.ops o.channel = none := by
  have hsome : ¬(s.ops o.channel).isNone := by
    rw [Option.isNone_iff_eq_none, ← Option.not_isSome_iff_eq_none, not_not]
    exact h.ops
  rw [busChnDeinit, if_neg hsome]
  split_ifs with hsize
  · have hmem : ¬((s.pool o.channel).mem.isNone ∧ (s.pool o.channel).pool.size ≠ 0) := by
      rw [Option.isNone_iff_eq_none, ← Option.not_isSome_iff_eq_none]
      have hready := h.mem hsize
      tauto
    rw [bufPoolDeinit, if_neg hmem]
    exact ⟨_, rfl, Function.update_self ..⟩
  · exact ⟨_, rfl, Function.update_self ..⟩

/-- Channels that can be unregistered are. -/
theorem foldlM_ready {l : List Ops} (h : ∀ o ∈ l, Ready s o) (hl : (l.map Ops.channel).Nodup) :
    ∃ s', l.foldlM busChnDeinit s = some s' ∧ ∀ o ∈ l, s'.ops o.channel = none := by
  induction l generalizing s with
  | nil => exact ⟨s, rfl, fun _ h => absurd h List.not_mem_nil⟩
  | cons o l ih =>
    obtain ⟨ho, hrest⟩ := List.forall_mem_cons.1 h
    obtain ⟨hnew, hl⟩ := List.nodup_cons.1 hl
    obtain ⟨t, ht, hnone⟩ := busChnDeinit_ready ho
    have honly := busChnDeinit_only ht
    have hne : ∀ o' ∈ l, o'.channel ≠ o.channel := fun o' ho' heq =>
      hnew (heq ▸ List.mem_map_of_mem ho')
    have hready : ∀ o' ∈ l, Ready t o' := by
      intro o' ho'
      refine ⟨?_, ?_⟩
      · rw [honly.ops _ (hne o' ho')]
        exact (hrest o' ho').ops
      · rw [honly.pool _ (hne o' ho')]
        exact (hrest o' ho').mem
    obtain ⟨s', hs', hnone'⟩ := ih hready hl
    refine ⟨s', ?_, List.forall_mem_cons.2 ⟨?_, hnone'⟩⟩
    · rw [List.foldlM_cons, ht]
      exact hs'
    · rw [(foldlM_only hs' hne).1, hnone]

/-! ## All or nothing -/

/-- Some registration is the first one that fails, or none fails. -/
theorem first_failure_or (kzalloc : ℕ → Bool) (s : ChnInfo) (table : List Ops) :
    (∃ front ops, FirstFailure kzalloc s table front ops) ∨
      ∀ front ops, front ++ [ops] <+: table → ¬Fails kzalloc s front ops := by
  induction table using List.reverseRecOn with
  | nil => exact .inr fun front ops h => absurd (List.prefix_nil.1 h) (by simp)
  | append_singleton table o ih =>
    rcases ih with ⟨front, ops, hprefix, hfails, hfirst⟩ | hnone
    · exact .inl ⟨front, ops, hprefix.trans (List.prefix_append _ _), hfails, hfirst⟩
    · by_cases hfails : Fails kzalloc s table o
      · exact .inl ⟨table, o, List.prefix_rfl, hfails, hnone⟩
      · refine .inr fun front ops hprefix => ?_
        rcases List.prefix_concat_iff.1 hprefix with heq | hprefix
        · obtain ⟨rfl, rfl⟩ := List.append_inj' heq rfl |>.imp_right List.singleton_inj.1
          exact hfails
        · exact hnone front ops hprefix

/-- If no registration fails, there is no error, unless there is nothing to register. -/
theorem all_or_nothing_of_ok (hlen : table.length < maxChnNum)
    (hok : ∀ front ops, front ++ [ops] <+: table → ¬Fails kzalloc s front ops) :
    AllOrNothing kzalloc table s := by
  obtain ⟨t, ret, hheld, hret, hregister⟩ :=
    @Held.register kzalloc s s table [] [] held_nil hok (-einval)
  rw [List.append_nil] at hregister
  have hend : register kzalloc (-einval) 0 table s = (t, table.length, ret) := hregister
  refine ⟨⟨ret, t, table⟩, ?_, ?_⟩
  · rw [sprdwlIntfInit, if_pos hlen, hend]
    exact if_neg (lt_irrefl _)
  · intro herr
    rcases hret with ⟨rfl, -⟩ | rfl
    · have hsame := fun c => hheld.others c fun _ h => absurd h List.not_mem_nil
      exact ⟨fun _ h => absurd h List.not_mem_nil, fun c _ => hsame c⟩
    · exact absurd herr (lt_irrefl 0)

/-- What a registration leaves that fails: nothing, if somebody has the channel; else the channel is
    registered. -/
inductive Leaves (o : Ops) (t t' : ChnInfo) : Prop
  | taken : (t.ops o.channel).isSome → t' = t → Leaves o t t'
  | nomem : t.ops o.channel = none → Only o.channel t t' → t'.ops o.channel = some o →
    Leaves o t t'

theorem Leaves.eq_of_isSome (h : Leaves o t t') (htaken : (t.ops o.channel).isSome) : t' = t := by
  cases h with
  | taken _ heq => exact heq
  | nomem hnone _ _ =>
    rw [hnone] at htaken
    exact absurd htaken Bool.false_ne_true

theorem Held.register_fails (h : Held s done t) (hfails : Fails kzalloc s done o) :
    ∃ t' ret, busChnInit (kzalloc done.length) t o = (t', ret) ∧ ret < 0 ∧ Leaves o t t' := by
  by_cases htaken : (t.ops o.channel).isSome
  · exact ⟨t, -1, busChnInit_taken htaken, by decide, .taken htaken rfl⟩
  · have hnew : ∀ p ∈ done, p.channel ≠ o.channel := by
      intro p hp heq
      rw [← heq, h.ops p hp] at htaken
      exact htaken rfl
    rw [(h.others _ hnew).1] at htaken
    have hnomem : 0 < o.poolSize ∧ ¬kzalloc done.length :=
      hfails.resolve_left htaken |>.resolve_left fun ⟨p, hp, heq⟩ => hnew p hp heq
    have hnone : t.ops o.channel = none := by
      rw [(h.others _ hnew).1]
      exact Option.not_isSome_iff_eq_none.1 htaken
    obtain ⟨t', hinit, honly, hself⟩ := @busChnInit_nomem t o (by rw [hnone]; decide) hnomem.1
    refine ⟨t', -enomem, ?_, by decide, .nomem hnone honly hself⟩
    have hkz : kzalloc done.length = false := Bool.eq_false_of_not_eq_true hnomem.2
    rw [hkz]
    exact hinit

/-- Where the first failure leads: to the loop that unregisters channels, with what the failed
    registration left. -/
theorem intfInit_of_failure (hlen : table.length < maxChnNum)
    (hfailure : FirstFailure kzalloc s table front o) :
    ∃ t t' ret, Held s front t ∧ Leaves o t t' ∧ ret < 0 ∧
      sprdwlIntfInit kzalloc table s =
        ((front ++ [o]).tail.reverse.foldlM busChnDeinit t').map fun s => ⟨ret, s, []⟩ := by
  obtain ⟨⟨post, rfl⟩, hfails, hfirst⟩ := hfailure
  obtain ⟨t, ret, hheld, -, hregister⟩ :=
    @Held.register kzalloc s s front (o :: post) [] held_nil hfirst (-einval)
  rw [List.nil_append, List.append_cons] at hregister
  rw [List.nil_append] at hheld
  obtain ⟨t', ret', hinit, hret, hleaves⟩ := hheld.register_fails hfails
  have hend : register kzalloc (-einval) 0 (front ++ [o] ++ post) s = (t', front.length, ret') := by
    refine hregister.trans ?_
    rw [register, hinit]
    exact if_pos hret
  have hlt : front.length < (front ++ [o] ++ post).length := by
    rw [List.length_append, List.length_append, List.length_singleton]
    omega
  refine ⟨t, t', ret', hheld, hleaves, hret, ?_⟩
  have htake : (front ++ [o] ++ post).take (front.length + 1) = front ++ [o] :=
    List.take_left' (by rw [List.length_append, List.length_singleton])
  rw [sprdwlIntfInit, if_pos hlen, hend]
  dsimp only
  rw [if_pos hlt, unregister_eq hlt, htake]

theorem FirstFailure.mem_table (h : FirstFailure kzalloc s table front o) :
    ∀ p ∈ front ++ [o], p ∈ table := fun _ hp => h.prefix_table.subset hp

/-- A failure that nothing is left of. -/
theorem allOrNothing_of_undone (hlen : table.length < maxChnNum)
    (hfailure : FirstFailure kzalloc s table front o) (h : Undone s front o) :
    AllOrNothing kzalloc table s := by
  obtain ⟨t, t', ret, hheld, hleaves, hret, hinit⟩ := intfInit_of_failure hlen hfailure
  cases front with
  | nil =>
    have hsame := fun c => hheld.others c fun _ h => absurd h List.not_mem_nil
    rw [Undone, ← (hsame _).1] at h
    rw [hleaves.eq_of_isSome h] at hinit
    refine ⟨⟨ret, t, []⟩, hinit, fun _ => ⟨fun ops _ hnone => ?_, fun c _ => hsame c⟩⟩
    rw [(hsame _).1]
    exact hnone
  | cons f rest =>
    obtain ⟨hchannel, hmem⟩ := h
    have hf := hheld.ops f List.mem_cons_self
    have htaken := hleaves.eq_of_isSome (by rw [← hchannel, hf]; rfl)
    -- The channels are given back from the one that failed on, so the first one is left.
    have hlist : (f :: rest ++ [o]).tail.reverse = o :: rest.reverse := List.reverse_concat
    obtain ⟨hnew, hdistinct⟩ := List.nodup_cons.1 hheld.distinct
    -- Each of them can be given back. That which failed shares the channel that is left.
    have hready : ∀ p ∈ o :: rest.reverse, Ready t p := by
      refine List.forall_mem_cons.2 ⟨⟨?_, fun hsize => ?_⟩, fun p hp => ?_⟩
      · rw [← hchannel, hf]
        rfl
      · rw [← hchannel]
        by_cases hfsize : 0 < f.poolSize
        · exact .inl (hheld.mem f List.mem_cons_self hfsize)
        · rw [hheld.same f List.mem_cons_self hfsize]
          exact (hmem hsize).resolve_left hfsize
      · have hp := List.mem_cons_of_mem f (List.mem_reverse.1 hp)
        refine ⟨?_, fun hsize => .inl (hheld.mem p hp hsize)⟩
        rw [hheld.ops p hp]
        rfl
    have hnodup : ((o :: rest.reverse).map Ops.channel).Nodup := by
      rw [List.map_cons, List.map_reverse, List.nodup_cons, List.mem_reverse, List.nodup_reverse,
        ← hchannel]
      exact ⟨hnew, hdistinct⟩
    obtain ⟨s', hs', hnone⟩ := foldlM_ready hready hnodup
    -- No other channel is touched, either way.
    have hothers : ∀ c, (∀ p ∈ f :: rest, p.channel ≠ c) →
        s'.ops c = s.ops c ∧ s'.pool c = s.pool c := by
      intro c hc
      obtain ⟨hfc, hrest⟩ := List.forall_mem_cons.1 hc
      obtain ⟨hops, hpool⟩ := foldlM_only hs' (List.forall_mem_cons.2
        ⟨hchannel ▸ hfc, fun p hp => hrest p (List.mem_reverse.1 hp)⟩)
      rw [hops, hpool]
      exact hheld.others c hc
    rw [htaken, hlist, hs'] at hinit
    refine ⟨⟨ret, s', []⟩, hinit, fun _ => ⟨fun ops _ hops => ?_, fun c hc => ?_⟩⟩
    · by_cases hp : ∃ p ∈ f :: rest, p.channel = ops.channel
      · obtain ⟨p, hp, heq⟩ := hp
        rw [← heq]
        rcases List.mem_cons.1 hp with rfl | hp
        · rw [hchannel]
          exact hnone o List.mem_cons_self
        · exact hnone p (List.mem_cons_of_mem o (List.mem_reverse.2 hp))
      · have hnot : ∀ p ∈ f :: rest, p.channel ≠ ops.channel := fun p hp' heq =>
          hp ⟨p, hp', heq⟩
        exact (hothers _ hnot).1.trans hops
    · refine hothers c ?_
      rintro p hp rfl
      exact absurd hc (by rw [hheld.free p hp]; decide)

/-- A failure that something is left of. -/
theorem undone_of_allOrNothing (hlen : table.length < maxChnNum)
    (hfailure : FirstFailure kzalloc s table front o) (h : AllOrNothing kzalloc table s) :
    Undone s front o := by
  obtain ⟨t, t', ret, hheld, hleaves, hret, hinit⟩ := intfInit_of_failure hlen hfailure
  obtain ⟨r, hr, hundoes⟩ := h
  rw [hinit] at hr
  obtain ⟨s', hs', rfl⟩ := Option.map_eq_some_iff.1 hr
  have hundoes := (hundoes hret).table
  cases front with
  | nil =>
    by_contra hnone
    rw [Undone, Option.not_isSome_iff_eq_none] at hnone
    have hself : t'.ops o.channel = some o := by
      cases hleaves with
      | taken htaken _ =>
        rw [(hheld.others _ fun _ h => absurd h List.not_mem_nil).1, hnone] at htaken
        exact absurd htaken Bool.false_ne_true
      | nomem _ _ hself => exact hself
    have hleft := hundoes o (hfailure.mem_table o (List.mem_singleton_self o)) hnone
    rw [← Option.some.inj hs', hself] at hleft
    exact Option.some_ne_none o hleft
  | cons f rest =>
    have hf := hheld.ops f List.mem_cons_self
    have hleft := hundoes f (hfailure.mem_table f (List.mem_append_left _ List.mem_cons_self))
      (hheld.free f List.mem_cons_self)
    have hlist : (f :: rest ++ [o]).tail.reverse = o :: rest.reverse := List.reverse_concat
    rw [hlist] at hs'
    have hchannel : f.channel = o.channel := by
      by_contra hne
      have hsame : t'.ops f.channel = t.ops f.channel := by
        cases hleaves with
        | taken _ heq => rw [heq]
        | nomem _ honly _ => exact honly.ops _ hne
      have hnew := (List.nodup_cons.1 hheld.distinct).1
      obtain ⟨hops, -⟩ := foldlM_only hs' (List.forall_mem_cons.2 ⟨Ne.symm hne, fun p hp heq =>
        hnew (heq ▸ List.mem_map_of_mem (List.mem_reverse.1 hp))⟩)
      rw [hops, hsame, hf] at hleft
      exact Option.some_ne_none f hleft
    refine ⟨hchannel, fun hsize => ?_⟩
    by_contra hnot
    obtain ⟨hfsize, hmem, hpool⟩ : ¬0 < f.poolSize ∧ ¬(s.pool f.channel).mem.isSome ∧
      (s.pool f.channel).pool.size ≠ 0 := by tauto
    -- The pool of the channel has no memory to clear.
    have htaken := hleaves.eq_of_isSome (by rw [← hchannel, hf]; rfl)
    have hcrash : busChnDeinit t o = none := by
      have hsome : ¬(t.ops o.channel).isNone := by
        rw [← hchannel, hf]
        exact Bool.false_ne_true
      have hpool' : bufPoolDeinit (t.pool o.channel) = none := by
        rw [← hchannel, hheld.same f List.mem_cons_self hfsize]
        exact if_pos ⟨Option.isNone_iff_eq_none.2 (Option.not_isSome_iff_eq_none.1 hmem), hpool⟩
      rw [busChnDeinit, if_neg hsome, if_pos hsize, hpool']
      rfl
    rw [htaken, List.foldlM_cons, hcrash] at hs'
    exact Option.some_ne_none s' hs'.symm

/-- For all tables, whatever is registered before and whichever allocation fails, the registration
    is all or nothing exactly if it is not attempted, or does not fail, or first fails where nothing
    is left of it. -/
theorem all_or_nothing_iff (kzalloc : ℕ → Bool) (table : List Ops) (s : ChnInfo) :
    AllOrNothing kzalloc table s ↔ (table.length < maxChnNum →
      ∀ front ops, FirstFailure kzalloc s table front ops → Undone s front ops) := by
  constructor
  · exact fun h hlen front ops hfailure => undone_of_allOrNothing hlen hfailure h
  · intro h
    by_cases hlen : table.length < maxChnNum
    · rcases first_failure_or kzalloc s table with ⟨front, ops, hfailure⟩ | hok
      · exact allOrNothing_of_undone hlen hfailure (h hlen front ops hfailure)
      · exact all_or_nothing_of_ok hlen hok
    · exact ⟨⟨-einval, s, []⟩, if_neg hlen, fun _ => ⟨fun _ _ h => h, fun _ _ => ⟨rfl, rfl⟩⟩⟩

/-- Two channels, of which somebody has the second one. -/
theorem not_all_or_nothing : ¬∀ kzalloc table s, AllOrNothing kzalloc table s := by
  intro h
  set first : Ops := ⟨0, 22, 1⟩
  set second : Ops := ⟨1, 23, 1⟩
  set other : Ops := ⟨2, 23, 1⟩
  set s : ChnInfo := ⟨fun c => if c = 23 then some other else none,
    fun _ => ⟨⟨0, 0, none⟩, none⟩⟩
  have hfailure : FirstFailure (fun _ => true) s [first, second] [first] second := by
    refine ⟨List.prefix_rfl, .inl rfl, fun front ops hprefix hfails => ?_⟩
    have hlen := hprefix.length_le
    rw [List.length_append, List.length_singleton, List.length_singleton] at hlen
    obtain rfl := List.length_eq_zero_iff.1 (by omega : front.length = 0)
    obtain rfl := (List.cons_prefix_cons.1 hprefix).1
    rcases hfails with htaken | ⟨o, ho, -⟩ | ⟨-, hnomem⟩
    · exact absurd htaken (by decide)
    · exact absurd ho List.not_mem_nil
    · exact hnomem rfl
  have hundone := undone_of_allOrNothing (by decide) hfailure (h _ _ _)
  exact absurd hundone.1 (by decide)

end W132d.Registration
