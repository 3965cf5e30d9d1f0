import W132d.Machine

/-!
# Page fragments

The buffers that packets are received into are fragments of a block of pages
(`sdiohal_alloc_frag`). The block is counted once for all references it may give away (the bias),
so that a packet takes one by lowering the bias only. When a fragment does not fit behind the last
one, the block is used from its start again if all packets have released it, and is left to them if
not. A new block may be smaller than what is asked for, if there is no memory for a larger one.

* `allocFrag`: a request, and the blocks it is served from;
* `Outcome.Safe`: the fragment is inside a block that is there, and no packet was in one that is
  used again;
* `Keeps`: a step that does not leave a block which was put back as the one in use;
* `Large`: the block in use, if it is used again, is large enough, and the offset does not wrap;
* `allocs_safe_iff`: the requests of a run along `Keeps` are safe exactly along `Large`.

The sizes are those of a 64-bit kernel with pages of 4 KiB.

A block of pages is counted by the kernel: `refcount` is the number of references, of which those
that were not given away yet are the bias, a number of the driver's own. The count is raised by the
bias at once when the block is allocated, and a packet that takes a reference lowers the bias. So
the references that packets hold are the difference of the two. When a fragment does not fit, the
bias is taken off the count; if nothing is left, no packet holds a reference, and the block is used
again from its start.

How the theorem is proved: `Valid` says that the count of each block is what packets hold, and for
the block in use the bias on top. It is kept by each of the small changes that a request is made of
(`Valid.alloc`, `Valid.drop`, `Valid.take`, `Valid.move`), and by packets that release their
references at any time, also while the count is looked at. With it, the check of the count is right
(`check_rewound`, `check_refill`), and what is left of `Outcome.Safe` is a question of sizes
(`safe_serve_iff`).
-/

namespace W132d.Sdio.Frag

/-! ## Blocks -/

/-- `PAGE_SIZE`. -/
def pageSize : ℕ := 4096

/-- `SDIOHAL_FRAG_PAGE_MAX_ORDER`. -/
def maxOrder : ℕ := 6

/-- `SDIOHAL_PAGECNT_MAX_BIAS`. -/
def maxBias : ℕ := pageSize * 2 ^ maxOrder

/-- An addition of numbers of 32 bits, which wraps. -/
def add32 (a b : ℕ) : ℕ := if a + b < 2 ^ 32 then a + b else a + b - 2 ^ 32

/-- A subtraction of numbers of 32 bits, which wraps. -/
def sub32 (a b : ℕ) : ℕ := if b ≤ a then a - b else a + 2 ^ 32 - b

/-- A block of pages, with the number of references that packets hold. -/
structure Block where
  size : ℕ
  refcount : ℕ
  refs : ℕ
  released : Bool

/-- No block. -/
def Block.zero : Block := ⟨0, 0, 0, true⟩

/-- `put_page`. -/
def Block.putPage (b : Block) : Block :=
  { b with
    refcount := sub32 b.refcount 1
    released := b.released || sub32 b.refcount 1 = 0 }

/-- A packet releases its reference. -/
def Block.release (b : Block) : Block := { b.putPage with refs := b.refs - 1 }

/-- `struct sdiohal_frag_mg`, and the blocks that were allocated, of which `next` is the number. -/
structure State where
  page : Option ℕ
  size : ℕ
  offset : ℕ
  bias : ℕ
  blocks : ℕ → Block
  next : ℕ

namespace State

/-- Before the first request. -/
def init : State := ⟨none, 0, 0, 0, fun _ => .zero, 0⟩

/-- A block is changed. -/
def setBlock (s : State) (id : ℕ) (b : Block) : State :=
  { s with blocks := Function.update s.blocks id b }

/-- A packet takes a reference: `pagecnt_bias--`. -/
def take (s : State) (id : ℕ) : State :=
  { s.setBlock id { s.blocks id with refs := (s.blocks id).refs + 1 } with
    bias := sub32 s.bias 1 }

end State

/-! ## Requests -/

/-- A request: its arguments; the order of the block that `alloc_pages` has memory for, if any; and
    the number of packets that release the block in use while its count is looked at. -/
structure Request where
  fragsz : UInt32
  ignoreAllocFail : Bool
  order : Option (Fin (maxOrder + 1))
  late : ℕ

/-- The position that is returned, and the size that can be used of it. -/
structure Buf where
  id : ℕ
  offset : ℕ
  size : ℕ

/-- What a request returns, and a block as it was when it was used from its start again. -/
structure Outcome where
  buf : Option Buf
  rewound : Option Block

/-- Whether a fragment fits behind the last one. -/
inductive Check where
  | fits
  | rewound (b : Block)
  | refill

/-- The block that was used from its start again. -/
def Check.block : Check → Option Block
  | .rewound b => some b
  | _ => none

/-- A new block, from the label `refill` on: its number and the size that can be used. -/
def refill (s : State) (r : Request) : State × Option (ℕ × ℕ) :=
  match r.order with
  | none => ({ s with page := none }, none)
  | some order =>
    let size := pageSize * 2 ^ order.val
    let b : Block := ⟨size, 1, 0, false⟩
    let s := { s with page := some s.next, size := size, next := s.next + 1 }
    if size < r.fragsz.toNat ∧ !r.ignoreAllocFail then
      -- The block is put back, but is still the one in use.
      (s.setBlock (s.next - 1) b.putPage, none)
    else
      ({ s.setBlock (s.next - 1) { b with refcount := add32 b.refcount (maxBias - 1) } with
          bias := maxBias
          offset := 0 },
        some (s.next - 1, if size < r.fragsz.toNat then size else r.fragsz.toNat))

/-- The check behind it. -/
def check (s : State) (r : Request) (id : ℕ) : State × Check :=
  if add32 s.offset r.fragsz.toNat > s.size then
    let b := s.blocks id
    if b.refcount ≠ s.bias then
      -- Between the two reads of the count, packets may release it.
      let b := Block.release^[min r.late b.refs] b
      if sub32 b.refcount s.bias ≠ 0 then
        (s.setBlock id { b with refcount := sub32 b.refcount s.bias }, .refill)
      else
        ({ s.setBlock id { b with refcount := maxBias } with bias := maxBias, offset := 0 },
          .rewound b)
    else
      ({ s.setBlock id { b with refcount := add32 b.refcount (sub32 maxBias s.bias) } with
          bias := maxBias
          offset := 0 },
        .rewound b)
  else (s, .fits)

/-- The fragment at the offset is served. With `adma_rx_enable`, it has a reference. -/
def serve (adma : Bool) (s : State) (r : Request) (id : ℕ) : State :=
  let s := { s with offset := add32 s.offset r.fragsz.toNat }
  if adma then s.take id else s

/-- A request is served from a new block. Its count is the bias, so that the check never goes back
    to `refill` (`check_refill`). -/
def fresh (adma : Bool) (s : State) (r : Request) : State × Outcome :=
  match refill s r with
  | (s, none) => (s, ⟨none, none⟩)
  | (s, some (id, size)) =>
    let (s, c) := check s r id
    (serve adma s r id, ⟨some ⟨id, s.offset, size⟩, c.block⟩)

/-- `sdiohal_alloc_frag`. -/
def allocFrag (adma : Bool) (s : State) (r : Request) : State × Outcome :=
  match s.page with
  | none => fresh adma s r
  | some id =>
    match check s r id with
    | (s, .refill) => fresh adma s r
    | (s, c) => (serve adma s r id, ⟨some ⟨id, s.offset, r.fragsz.toNat⟩, c.block⟩)

/-- What happens to the fragments. -/
inductive Event where
  /-- A request. -/
  | alloc (r : Request)
  /-- A packet that was received into the block in use takes a reference. -/
  | take
  /-- A packet releases its reference. -/
  | release (id : ℕ)

/-- The fragments, with or without `adma_rx_enable`. -/
def machine (adma : Bool) : Machine State Event where
  step s
    | .alloc r => some (allocFrag adma s r).1
    | .take => s.page.map s.take
    | .release id =>
      if (s.blocks id).refs = 0 then none else some (s.setBlock id (s.blocks id).release)

/-! ## Properties -/

/-- The fragment is inside a block that has not been released, and no packet held a reference to a
    block that was used from its start again. -/
structure Outcome.Safe (out : Outcome) (s : State) : Prop where
  inside : ∀ buf ∈ out.buf, (s.blocks buf.id).released = false ∧
    buf.offset + buf.size ≤ (s.blocks buf.id).size
  rewound : ∀ b ∈ out.rewound, b.refs = 0

/-- The requests are safe. -/
def Safe (adma : Bool) (s : State) : Event → Prop
  | .alloc r => (allocFrag adma s r).2.Safe (allocFrag adma s r).1
  | .take | .release _ => True

/-- A new block is not put back. -/
def Request.Refills (r : Request) : Prop :=
  ∀ order ∈ r.order, r.ignoreAllocFail = true ∨ r.fragsz.toNat ≤ pageSize * 2 ^ order.val

/-- A new block is not put back, and the bias is not used up. -/
def Keeps (adma : Bool) (s : State) : Event → Prop
  | .alloc r =>
    match s.page with
    | none => r.Refills
    | some id =>
      if add32 s.offset r.fragsz.toNat ≤ s.size then adma → 1 < s.bias
      else r.late < (s.blocks id).refs → r.Refills
  | .take => 1 < s.bias
  | .release _ => True

instance (r : Request) : Decidable r.Refills :=
  inferInstanceAs (Decidable (∀ order ∈ r.order, r.ignoreAllocFail = true ∨
    r.fragsz.toNat ≤ pageSize * 2 ^ order.val))

instance (adma : Bool) (s : State) : DecidablePred (Keeps adma s)
  | .alloc r =>
    match h : s.page with
    | none => decidable_of_iff r.Refills (by rw [Keeps, h])
    | some id =>
      decidable_of_iff
        (if add32 s.offset r.fragsz.toNat ≤ s.size then adma → 1 < s.bias
          else r.late < (s.blocks id).refs → r.Refills) (by rw [Keeps, h])
  | .take => inferInstanceAs (Decidable (1 < s.bias))
  | .release _ => .isTrue trivial

/-- The offset does not wrap, and the block in use is large enough if it is used from its start
    again. -/
def Large (s : State) : Event → Prop
  | .alloc r => ∀ id ∈ s.page,
    if add32 s.offset r.fragsz.toNat ≤ s.size then s.offset + r.fragsz.toNat < 2 ^ 32
    else (s.blocks id).refs ≤ r.late → r.fragsz.toNat ≤ s.size
  | .take | .release _ => True

instance (s : State) : DecidablePred (Large s)
  | .alloc r =>
    inferInstanceAs (Decidable (∀ id ∈ s.page,
      if add32 s.offset r.fragsz.toNat ≤ s.size then s.offset + r.fragsz.toNat < 2 ^ 32
      else (s.blocks id).refs ≤ r.late → r.fragsz.toNat ≤ s.size))
  | .take | .release _ => .isTrue trivial

section

variable {adma : Bool} {s s' : State} {r : Request} {e : Event} {es : List Event} {b : Block}
  {id n c : ℕ}

/-! ## Counts -/

/-- The bias has room in 32 bits. -/
theorem maxBias_lt : maxBias < 2 ^ 32 := by decide

theorem maxBias_pos : 0 < maxBias := by decide

/-- A sum that has room is the sum. -/
theorem add32_eq (h : c + n < 2 ^ 32) : add32 c n = c + n := if_pos h

theorem sub32_eq (h : n ≤ c) : sub32 c n = c - n := if_pos h

/-- All sums have 32 bits. -/
theorem add32_lt (hc : c < 2 ^ 32) (hn : n < 2 ^ 32) : add32 c n < 2 ^ 32 := by
  rw [add32]
  split_ifs <;> omega

/-- A packet that releases its reference leaves the size. -/
theorem release_size : b.release.size = b.size := rfl

theorem release_refcount : b.release.refcount = sub32 b.refcount 1 := rfl

theorem release_refs : b.release.refs = b.refs - 1 := rfl

theorem release_released : b.release.released = (b.released || sub32 b.refcount 1 = 0) := rfl

/-- Packets release a block that is counted for something else, too. -/
theorem release_iterate (hcount : b.refcount = b.refs + c) (hc : 0 < c)
    (hle : b.refcount ≤ maxBias) (hreleased : b.released = false) (hn : n ≤ b.refs) :
    Block.release^[n] b = { b with refcount := b.refs - n + c, refs := b.refs - n } := by
  induction n generalizing b with
  | zero =>
    rw [Function.iterate_zero_apply, Nat.sub_zero, ← hcount]
  | succ n ih =>
    have hlt := maxBias_lt
    have hsub : sub32 b.refcount 1 = b.refs - 1 + c := by
      rw [sub32_eq (by omega)]
      omega
    have hrelease : b.release = { b with refcount := b.refs - 1 + c, refs := b.refs - 1 } := by
      rw [Block.release, Block.putPage, hsub, hreleased, Bool.false_or,
        decide_eq_false (by omega)]
    have hle' : b.refs - 1 + c ≤ maxBias := by omega
    rw [Function.iterate_succ_apply, hrelease,
      ih (b := { b with refcount := b.refs - 1 + c, refs := b.refs - 1 }) rfl hle' hreleased
        (Nat.le_sub_one_of_lt hn)]
    dsimp only
    rw [show b.refs - 1 - n = b.refs - (n + 1) by omega]

/-! ## Blocks in use -/

/-- What holds of all blocks after one was changed. -/
theorem forall_setBlock {P : ℕ → Block → Prop} (hid : P id b)
    (hother : ∀ i, i ≠ id → P i (s.blocks i)) (i : ℕ) : P i ((s.setBlock id b).blocks i) := by
  change P i (Function.update s.blocks id b i)
  by_cases hi : i = id
  · subst hi
    rwa [Function.update_self]
  · rw [Function.update_of_ne hi]
    exact hother i hi

/-- Only one block is in use. -/
theorem page_ne {i : ℕ} (hpage : s.page = some id) (hi : i ≠ id) : s.page ≠ some i := by
  rw [hpage]
  exact fun h => hi (Option.some.inj h).symm

/-- A block is counted for the references that packets hold, and the one in use for the bias, too;
    it is there until its count is 0. -/
structure Valid (s : State) : Prop where
  count : ∀ id, (s.blocks id).refcount = (s.blocks id).refs + if s.page = some id then s.bias else 0
  le : ∀ id, (s.blocks id).refcount ≤ maxBias
  released : ∀ id, (s.blocks id).released = true ↔ (s.blocks id).refcount = 0
  bias : s.page.isSome → 0 < s.bias
  size : ∀ id, s.page = some id → (s.blocks id).size = s.size
  size_le : s.size ≤ maxBias
  offset : s.offset < 2 ^ 32
  unused : ∀ id, s.next ≤ id → s.blocks id = .zero ∧ s.page ≠ some id

/-- There is no block yet. -/
theorem valid_init : Valid .init where
  count _ := rfl
  le _ := Nat.zero_le _
  released _ := iff_of_true rfl rfl
  bias h := absurd h (by decide)
  size id h := by cases h
  size_le := Nat.zero_le _
  offset := by decide
  unused id _ := ⟨rfl, by simp [State.init]⟩

namespace Valid

/-- The block in use. -/
theorem inUse (h : Valid s) (hpage : s.page = some id) :
    (s.blocks id).refcount = (s.blocks id).refs + s.bias ∧ 0 < s.bias ∧ s.bias ≤ maxBias ∧
      (s.blocks id).released = false ∧ (s.blocks id).size = s.size ∧ id < s.next := by
  have hcount := h.count id
  rw [if_pos hpage] at hcount
  have hbias := h.bias (hpage ▸ rfl)
  have hle := h.le id
  refine ⟨hcount, hbias, by omega, ?_, h.size id hpage, ?_⟩
  · rw [← Bool.not_eq_true, h.released id]
    omega
  · by_contra hnext
    exact (h.unused id (not_lt.1 hnext)).2 hpage

/-- The block in use gets other counts. -/
theorem setBlock (h : Valid s) (hpage : s.page = some id) (refs bias offset : ℕ)
    (hbias : 0 < bias) (hle : refs + bias ≤ maxBias) (hoffset : offset < 2 ^ 32) :
    Valid { s.setBlock id { s.blocks id with refcount := refs + bias, refs := refs } with
      bias := bias
      offset := offset } := by
  obtain ⟨-, -, -, hreleased, hsize, hnext⟩ := h.inUse hpage
  exact {
    count := forall_setBlock (P := fun i b => b.refcount = b.refs +
        if s.page = some i then bias else 0) (by rw [if_pos hpage])
      fun i hi => by rw [if_neg (page_ne hpage hi), h.count i, if_neg (page_ne hpage hi)]
    le := forall_setBlock (P := fun _ b => b.refcount ≤ maxBias) hle fun i _ => h.le i
    released := forall_setBlock (P := fun _ b => b.released = true ↔ b.refcount = 0)
      (iff_of_false (by simp [hreleased]) (by dsimp only; omega)) fun i _ => h.released i
    bias := fun _ => hbias
    size := forall_setBlock (P := fun i b => s.page = some i → b.size = s.size) (fun _ => hsize)
      fun i _ => h.size i
    size_le := h.size_le
    offset := hoffset
    unused := forall_setBlock (P := fun i b => s.next ≤ i → b = .zero ∧ s.page ≠ some i)
      (fun hle => absurd hnext (not_lt.2 hle)) fun i _ => h.unused i }

/-- The block in use is left to the packets. -/
theorem drop (h : Valid s) (hpage : s.page = some id) (refs : ℕ) (hpos : 0 < refs)
    (hle : refs ≤ maxBias) :
    Valid { s.setBlock id { s.blocks id with refcount := refs, refs := refs } with
      page := none } := by
  obtain ⟨-, -, -, hreleased, -, hnext⟩ := h.inUse hpage
  exact {
    count := forall_setBlock (P := fun _ b => b.refcount = b.refs + 0) rfl
      fun i hi => by rw [h.count i, if_neg (page_ne hpage hi)]
    le := forall_setBlock (P := fun _ b => b.refcount ≤ maxBias) hle fun i _ => h.le i
    released := forall_setBlock (P := fun _ b => b.released = true ↔ b.refcount = 0)
      (iff_of_false (by simp [hreleased]) hpos.ne') fun i _ => h.released i
    bias := fun hsome => absurd hsome Bool.false_ne_true
    size := fun i hi => absurd hi.symm (Option.some_ne_none i)
    size_le := h.size_le
    offset := h.offset
    unused := forall_setBlock (P := fun i b => s.next ≤ i → b = .zero ∧ none ≠ some i)
      (fun hle => absurd hnext (not_lt.2 hle))
      fun i _ hi => ⟨(h.unused i hi).1, (Option.some_ne_none i).symm⟩ }

/-- A block is allocated. -/
theorem alloc (h : Valid { s with page := none }) (size : ℕ) (hsize : size ≤ maxBias) :
    Valid { s.setBlock s.next ⟨size, maxBias, 0, false⟩ with
      page := some s.next
      size := size
      offset := 0
      bias := maxBias
      next := s.next + 1 } where
  count := forall_setBlock (P := fun i b => b.refcount = b.refs +
      if some s.next = some i then maxBias else 0) (by simp)
    fun i hi => by
      rw [if_neg fun h => hi (Option.some.inj h).symm]
      exact h.count i
  le := forall_setBlock (P := fun _ b => b.refcount ≤ maxBias) le_rfl fun i _ => h.le i
  released := forall_setBlock (P := fun _ b => b.released = true ↔ b.refcount = 0)
    (iff_of_false Bool.false_ne_true maxBias_pos.ne') fun i _ => h.released i
  bias _ := maxBias_pos
  size := forall_setBlock (P := fun i b => some s.next = some i → b.size = size) (fun _ => rfl)
    fun i hi hpage => absurd (Option.some.inj hpage).symm hi
  size_le := hsize
  offset := Nat.two_pow_pos 32
  unused := forall_setBlock (P := fun i b => s.next + 1 ≤ i → b = .zero ∧ some s.next ≠ some i)
    (fun hle => absurd (Nat.lt_succ_self _) (not_lt.2 hle))
    fun i hi hle => ⟨(h.unused i (Nat.le_of_succ_le hle)).1,
      fun hpage => hi (Option.some.inj hpage).symm⟩

/-- A packet releases its reference. -/
theorem release (h : Valid s) (hrefs : (s.blocks id).refs ≠ 0) :
    Valid (s.setBlock id (s.blocks id).release) := by
  have hcount := h.count id
  have hle := h.le id
  have hlt := maxBias_lt
  -- Somebody holds a reference, so that the count is not zero yet, and does not wrap.
  have hreleased : (s.blocks id).released = false := by
    rw [← Bool.not_eq_true, h.released id]
    omega
  have hsub : sub32 (s.blocks id).refcount 1 = (s.blocks id).refcount - 1 :=
    sub32_eq (by omega)
  have hput : (s.blocks id).release.released = true ↔ (s.blocks id).release.refcount = 0 := by
    rw [release_released, release_refcount, hreleased, Bool.false_or]
    exact decide_eq_true_iff
  -- Nothing but this block is written.
  exact {
    count := forall_setBlock (P := fun i b => b.refcount = b.refs +
        if s.page = some i then s.bias else 0)
      (by
        rw [release_refcount, release_refs, hsub, hcount]
        omega) fun i _ => h.count i
    le := forall_setBlock (P := fun _ b => b.refcount ≤ maxBias)
      (by
        rw [release_refcount, hsub]
        omega) fun i _ => h.le i
    released := forall_setBlock (P := fun _ b => b.released = true ↔ b.refcount = 0)
      hput fun i _ => h.released i
    bias := h.bias
    size := forall_setBlock (P := fun i b => s.page = some i → b.size = s.size)
      (release_size.symm ▸ h.size id) fun i _ => h.size i
    size_le := h.size_le
    offset := h.offset
    unused := forall_setBlock (P := fun i b => s.next ≤ i → b = .zero ∧ s.page ≠ some i)
      (fun hle => by
        rw [(h.unused id hle).1] at hrefs
        exact absurd rfl hrefs) fun i _ => h.unused i }

/-- The offset moves. -/
theorem move (h : Valid s) (offset : ℕ) (hoffset : offset < 2 ^ 32) :
    Valid { s with offset := offset } :=
  { h with offset := hoffset }

/-- A packet takes a reference. -/
theorem take (h : Valid s) (hpage : s.page = some id) (hbias : 1 < s.bias) : Valid (s.take id) := by
  obtain ⟨hcount, -, hmax, -⟩ := h.inUse hpage
  have hlt := maxBias_lt
  have hle := h.le id
  have hset := h.setBlock hpage ((s.blocks id).refs + 1) (s.bias - 1) s.offset (by omega)
    (by omega) h.offset
  rw [show (s.blocks id).refs + 1 + (s.bias - 1) = (s.blocks id).refcount by omega,
    ← sub32_eq (by omega)] at hset
  exact hset

/-- A fragment is served. -/
theorem serve (h : Valid s) (hpage : s.page = some id) (hbias : adma → 1 < s.bias) :
    Valid (serve adma s r id) := by
  have hmove := h.move (add32 s.offset r.fragsz.toNat) (add32_lt h.offset r.fragsz.toNat_lt)
  cases adma with
  | false => exact hmove
  | true => exact hmove.take hpage (hbias rfl)

end Valid

/-- What is served is inside the block in use if the size is. -/
theorem safe_serve_iff (h : Valid s) (hpage : s.page = some id) (hbias : adma → 1 < s.bias)
    {offset size : ℕ} {c : Check} (hc : ∀ b ∈ c.block, b.refs = 0) :
    Outcome.Safe ⟨some ⟨id, offset, size⟩, c.block⟩ (serve adma s r id) ↔
      offset + size ≤ s.size := by
  have hserve : (serve adma s r id).page = some id ∧ (serve adma s r id).size = s.size := by
    cases adma with
    | false => exact ⟨hpage, rfl⟩
    | true => exact ⟨hpage, rfl⟩
  obtain ⟨-, -, -, hreleased, hsize, -⟩ := (h.serve (r := r) hpage hbias).inUse hserve.1
  refine ⟨fun hsafe => ?_, fun hle => ⟨fun buf hbuf => ?_, hc⟩⟩
  · have hinside := (hsafe.inside _ rfl).2
    rwa [hsize, hserve.2] at hinside
  · rw [Option.mem_some_iff] at hbuf
    subst hbuf
    exact ⟨hreleased, by rw [hsize, hserve.2]; exact hle⟩

/-! ## The check -/

/-- A fragment that fits is served behind the last one. -/
theorem check_fits (hfits : add32 s.offset r.fragsz.toNat ≤ s.size) :
    check s r id = (s, .fits) := if_neg (not_lt.2 hfits)

/-- No packet holds a reference to the block, which is used from its start again. -/
theorem check_rewound (h : Valid s) (hpage : s.page = some id)
    (hfull : s.size < add32 s.offset r.fragsz.toNat) (hrefs : (s.blocks id).refs ≤ r.late) :
    ∃ b, b.refs = 0 ∧ check s r id =
      ({ s.setBlock id { s.blocks id with refcount := 0 + maxBias, refs := 0 } with
        bias := maxBias
        offset := 0 }, .rewound b) := by
  obtain ⟨hcount, hbias, hmax, hreleased, -, -⟩ := h.inUse hpage
  have hlt := maxBias_lt
  rw [check, if_pos hfull]
  dsimp only
  by_cases hzero : (s.blocks id).refs = 0
  · rw [hzero, Nat.zero_add] at hcount
    have hadd : add32 s.bias (sub32 maxBias s.bias) = 0 + maxBias := by
      rw [sub32_eq hmax, add32_eq (by omega)]
      omega
    rw [if_neg (not_not.2 hcount), hcount, hadd]
    have hblock : { s.blocks id with refcount := 0 + maxBias } =
        { s.blocks id with refcount := 0 + maxBias, refs := 0 } := by
      rw [← hzero]
    exact ⟨s.blocks id, hzero, by rw [hblock]⟩
  · have hrelease := release_iterate hcount hbias (h.le id) hreleased le_rfl
    rw [Nat.sub_self, Nat.zero_add] at hrelease
    rw [if_pos (by omega), min_eq_right hrefs, hrelease]
    dsimp only
    rw [sub32_eq le_rfl, Nat.sub_self, if_neg (not_not.2 rfl), Nat.zero_add]
    exact ⟨_, rfl, rfl⟩

/-- A packet holds a reference to the block, which is left to the packets. -/
theorem check_refill (h : Valid s) (hpage : s.page = some id)
    (hfull : s.size < add32 s.offset r.fragsz.toNat) (hrefs : r.late < (s.blocks id).refs) :
    check s r id =
      (s.setBlock id { s.blocks id with
        refcount := (s.blocks id).refs - r.late
        refs := (s.blocks id).refs - r.late }, .refill) := by
  obtain ⟨hcount, hbias, hmax, hreleased, -, -⟩ := h.inUse hpage
  have hlt := maxBias_lt
  have hle := h.le id
  have hrelease := release_iterate hcount hbias hle hreleased hrefs.le
  rw [check, if_pos hfull]
  dsimp only
  rw [if_pos (by omega), min_eq_left hrefs.le, hrelease]
  dsimp only
  rw [sub32_eq (Nat.le_add_left ..), Nat.add_sub_cancel, if_pos (by omega)]

/-- The block in use is the one the request is served from: the fragment fits behind the last one,
    or the block is used from its start again. -/
structure Reused (s : State) (r : Request) (id : ℕ) (t : State) (c : Check) : Prop where
  eq : check s r id = (t, c)
  ne : c ≠ .refill
  valid : Valid t
  page : t.page = some id
  size : t.size = s.size
  fits : add32 s.offset r.fragsz.toNat ≤ s.size → t.offset = s.offset ∧ t.bias = s.bias
  full : s.size < add32 s.offset r.fragsz.toNat → t.offset = 0 ∧ t.bias = maxBias
  rewound : ∀ b ∈ c.block, b.refs = 0

/-- If nobody holds a reference any more, the block is used from its start again, or as it is. -/
theorem exists_reused (h : Valid s) (hpage : s.page = some id)
    (hreuse : s.size < add32 s.offset r.fragsz.toNat → (s.blocks id).refs ≤ r.late) :
    ∃ t c, Reused s r id t c := by
  by_cases hfits : add32 s.offset r.fragsz.toNat ≤ s.size
  · exact ⟨s, .fits, check_fits hfits, Check.noConfusion, h, hpage, rfl, fun _ => ⟨rfl, rfl⟩,
      fun hfull => absurd hfits (not_le.2 hfull),
      fun b hb => absurd hb.symm (Option.some_ne_none b)⟩
  · have hfull := not_le.1 hfits
    obtain ⟨b, hb, hcheck⟩ := check_rewound h hpage hfull (hreuse hfull)
    refine ⟨_, _, hcheck, Check.noConfusion, ?_, hpage, rfl, fun h => absurd h hfits,
      fun _ => ⟨rfl, rfl⟩, fun b' hb' => ?_⟩
    · exact h.setBlock hpage 0 maxBias 0 maxBias_pos (Nat.zero_add _).le (Nat.two_pow_pos 32)
    · exact Option.some.inj hb' ▸ hb

/-! ## Requests -/

/-- A new block is not smaller than what can be used of it, and not larger than the bias. -/
theorem order_le (order : Fin (maxOrder + 1)) : pageSize * 2 ^ order.val ≤ maxBias :=
  Nat.mul_le_mul_left _ (Nat.pow_le_pow_right Nat.two_pos (Nat.lt_succ_iff.1 order.isLt))

/-- A new block that is not put back. -/
theorem refill_eq {order : Fin (maxOrder + 1)} (horder : r.order = some order)
    (hrefills : r.Refills) :
    refill s r =
      ({ s.setBlock s.next ⟨pageSize * 2 ^ order.val, maxBias, 0, false⟩ with
          page := some s.next
          size := pageSize * 2 ^ order.val
          offset := 0
          bias := maxBias
          next := s.next + 1 },
        some (s.next, if pageSize * 2 ^ order.val < r.fragsz.toNat then pageSize * 2 ^ order.val
          else r.fragsz.toNat)) := by
  have hadd : add32 1 (maxBias - 1) = maxBias := by decide
  rw [refill, horder]
  dsimp only
  rw [if_neg, hadd, Nat.add_sub_cancel]
  · rfl
  · rintro ⟨hlt, hignore⟩
    rcases hrefills order horder with h | h
    · rw [h] at hignore
      exact absurd hignore (by decide)
    · exact absurd hlt (not_lt.2 h)

/-- A request that is served from a new block. -/
theorem fresh_spec (adma : Bool) (h : Valid { s with page := none }) (hrefills : r.Refills) :
    Valid (fresh adma s r).1 ∧ (fresh adma s r).2.Safe (fresh adma s r).1 := by
  rw [fresh]
  cases horder : r.order with
  | none =>
    rw [refill, horder]
    exact ⟨h, fun buf hbuf => absurd hbuf.symm (Option.some_ne_none buf),
      fun b hb => absurd hb.symm (Option.some_ne_none b)⟩
  | some order =>
    rw [refill_eq horder hrefills]
    have halloc := h.alloc (pageSize * 2 ^ order.val) (order_le order)
    have hrefs : ((s.setBlock s.next ⟨pageSize * 2 ^ order.val, maxBias, 0, false⟩).blocks
        s.next).refs = 0 := by
      rw [State.setBlock]
      dsimp only
      rw [Function.update_self]
    obtain ⟨t, c, ht⟩ := exists_reused (r := r) halloc rfl fun _ => hrefs.trans_le (Nat.zero_le _)
    -- Whether it fits or not, it begins at the start.
    obtain ⟨hoffset, hbias⟩ : t.offset = 0 ∧ t.bias = maxBias := by
      rcases le_or_gt (add32 0 r.fragsz.toNat) (pageSize * 2 ^ order.val) with hfits | hfull
      · exact ht.fits hfits
      · exact ht.full hfull
    have hadma : adma → 1 < t.bias := fun _ => by rw [hbias]; decide
    dsimp only
    rw [ht.eq]
    refine ⟨ht.valid.serve ht.page hadma, (safe_serve_iff ht.valid ht.page hadma ht.rewound).2 ?_⟩
    rw [hoffset, Nat.zero_add, ht.size]
    dsimp only
    split_ifs with hlt
    · exact le_rfl
    · exact not_lt.1 hlt

/-- A request that is served from the block in use. -/
theorem Reused.allocFrag_eq {t : State} {c : Check} (h : Reused s r id t c)
    (hpage : s.page = some id) :
    allocFrag adma s r =
      (Frag.serve adma t r id, ⟨some ⟨id, t.offset, r.fragsz.toNat⟩, c.block⟩) := by
  rw [allocFrag, hpage]
  dsimp only
  rw [h.eq]
  cases c with
  | fits | rewound => rfl
  | refill => exact absurd rfl h.ne

/-- A request that does not leave a block which was put back as the one in use is safe exactly if
    the block in use is large enough. -/
theorem allocFrag_spec (h : Valid s) (hkeeps : Keeps adma s (.alloc r)) :
    Valid (allocFrag adma s r).1 ∧
      ((allocFrag adma s r).2.Safe (allocFrag adma s r).1 ↔ Large s (.alloc r)) := by
  rw [Keeps] at hkeeps
  rw [Large]
  cases hpage : s.page with
  | none =>
    rw [hpage] at hkeeps
    have hnone : Valid { s with page := none } := hpage ▸ h
    obtain ⟨hvalid, hsafe⟩ := fresh_spec adma hnone hkeeps
    rw [allocFrag, hpage]
    exact ⟨hvalid, iff_of_true hsafe fun id hid => absurd hid.symm (Option.some_ne_none id)⟩
  | some id =>
    rw [hpage] at hkeeps
    dsimp only at hkeeps
    simp only [Option.mem_some_iff, forall_eq']
    by_cases hfits : add32 s.offset r.fragsz.toNat ≤ s.size
    · -- The fragment is put behind the last one.
      rw [if_pos hfits] at hkeeps ⊢
      obtain ⟨t, c, ht⟩ := exists_reused h hpage fun hfull => absurd hfits (not_le.2 hfull)
      obtain ⟨hoffset, hbias⟩ := ht.fits hfits
      rw [ht.allocFrag_eq hpage, safe_serve_iff ht.valid ht.page (hbias ▸ hkeeps) ht.rewound,
        hoffset, ht.size]
      refine ⟨ht.valid.serve ht.page (hbias ▸ hkeeps), fun hle => ?_, fun hlt => ?_⟩
      · exact (hle.trans h.size_le).trans_lt maxBias_lt
      · rwa [add32_eq hlt] at hfits
    rw [if_neg hfits] at hkeeps ⊢
    by_cases hrefs : (s.blocks id).refs ≤ r.late
    · -- The block is used from its start again.
      obtain ⟨t, c, ht⟩ := exists_reused h hpage fun _ => hrefs
      obtain ⟨hoffset, hbias⟩ := ht.full (not_le.1 hfits)
      have hadma : adma → 1 < t.bias := fun _ => by rw [hbias]; decide
      rw [ht.allocFrag_eq hpage, safe_serve_iff ht.valid ht.page hadma ht.rewound, hoffset,
        Nat.zero_add, ht.size]
      exact ⟨ht.valid.serve ht.page hadma, fun hle _ => hle, fun hle => hle hrefs⟩
    · -- The block is left to its packets.
      have hlate := not_le.1 hrefs
      have hcount := (h.inUse hpage).1
      have hle := h.le id
      have hdrop := h.drop hpage ((s.blocks id).refs - r.late) (by omega) (by omega)
      obtain ⟨hvalid, hsafe⟩ := fresh_spec adma hdrop (hkeeps hlate)
      have hfresh : allocFrag adma s r = fresh adma (s.setBlock id { s.blocks id with
          refcount := (s.blocks id).refs - r.late
          refs := (s.blocks id).refs - r.late }) r := by
        rw [allocFrag, hpage]
        dsimp only
        rw [check_refill h hpage (not_le.1 hfits) hlate]
      rw [hfresh]
      exact ⟨hvalid, iff_of_true hsafe fun hle => absurd hle hrefs⟩

/-! ## Runs -/

/-- A step along `Keeps`. -/
theorem valid_step (h : Valid s) (hkeeps : Keeps adma s e)
    (hstep : (machine adma).step s e = some s') : Valid s' := by
  cases e with
  | alloc r => exact Option.some.inj hstep ▸ (allocFrag_spec h hkeeps).1
  | take =>
    obtain ⟨id, hpage, rfl⟩ := Option.map_eq_some_iff.1 hstep
    exact h.take hpage hkeeps
  | release id =>
    simp only [machine] at hstep
    split_ifs at hstep with hrefs
    exact Option.some.inj hstep ▸ h.release hrefs

/-- A step along `Keeps` is safe exactly along `Large`. -/
theorem safe_iff (h : Valid s) (hkeeps : Keeps adma s e) : Safe adma s e ↔ Large s e := by
  cases e with
  | alloc r => exact (allocFrag_spec h hkeeps).2
  | take | release => exact Iff.rfl

/-- A block is there as long as a packet holds a reference to it. -/
theorem not_released (hkeeps : (machine adma).Along (Keeps adma) .init es)
    (hrun : (machine adma).run .init es = some s) (hrefs : (s.blocks id).refs ≠ 0) :
    (s.blocks id).released = false := by
  have h : Valid s := Machine.invariant (fun _ _ _ => valid_step) valid_init hkeeps hrun
  have hcount := h.count id
  rw [← Bool.not_eq_true, h.released id]
  omega

/-- In a run along `Keeps`, every fragment is inside a block that is there, and no block is used
    from its start again while a packet holds a reference to it, exactly if the block in use is
    always large enough. -/
theorem allocs_safe_iff (hkeeps : (machine adma).Along (Keeps adma) .init es) :
    (machine adma).Along (Safe adma) .init es ↔ (machine adma).Along Large .init es := by
  have hstep (s : State) (e : Event) (s' : State) (P : State → Event → Prop) (h : Valid s)
      (he : Keeps adma s e ∧ P s e) (hs : (machine adma).step s e = some s') : Valid s' :=
    valid_step h he.1 hs
  refine ⟨fun hsafe => ?_, fun hlarge => ?_⟩
  · exact (hkeeps.and hsafe).imp (fun s e s' => hstep s e s' _)
      (fun s e h he => (safe_iff h he.1).1 he.2) valid_init
  · exact (hkeeps.and hlarge).imp (fun s e s' => hstep s e s' _)
      (fun s e h he => (safe_iff h he.1).2 he.2) valid_init

end

/-- A packet still holds a reference to the first block as this is full, so that there is a second
    one. This is used from its start again, as its packet has released it. -/
def packets : List Event :=
  [.alloc ⟨100000, false, some 6, 0⟩, .take, .alloc ⟨100000, false, some 6, 0⟩, .take, .release 0,
    .alloc ⟨100000, false, some 6, 0⟩, .take, .release 0, .alloc ⟨100000, false, some 6, 0⟩,
    .release 1, .alloc ⟨204800, true, none, 0⟩]

/-- All of them are safe: the block in use has the largest order. -/
theorem allocs_safe_packets :
    (machine false).Along (Safe false) .init packets ∧
      ((machine false).run .init packets).any fun s => s.next = 2 ∧ s.offset = 204800 := by
  have hkeeps : (machine false).Along (Keeps false) .init packets := by decide +kernel
  exact ⟨(allocs_safe_iff hkeeps).2 (by decide +kernel), by decide +kernel⟩

/-- The buffer of the start, and one for received packets. -/
def twoBuffers (order : Fin (maxOrder + 1)) : List Event :=
  [.alloc ⟨2048, false, some order, 0⟩, .alloc ⟨204800, true, some 6, 0⟩]

/-- If there is memory for a single page only, the second one does not fit, and the page is used
    from its start again. -/
theorem not_allocs_safe :
    ¬∀ (adma : Bool) (es : List Event), (machine adma).Along (Safe adma) .init es := by
  intro h
  have hsafe := (h false (twoBuffers 0)).2.1
  exact absurd (hsafe.inside _ rfl).2 (by decide +kernel)

end W132d.Sdio.Frag
