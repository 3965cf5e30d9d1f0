import W132d.Machine
import W132d.Sdio.Basic

/-!
# Permits to transmit over Bluetooth

The Bluetooth driver has a pool of mbufs, and a semaphore with a permit for all but one of them
(`tty.c`). `marlin_sdio_write` takes a permit, fills an mbuf and pushes it to the SDIO layer. Once
packets were sent, the SDIO layer gives the mbufs back in groups, with one call of `mtty_tx_cb`
for a group, which gives one permit back.

* `marlinSdioWrite`, `mttyTxCb`: the two functions;
* `bt`: the machine of writes and groups of sent packets;
* `permits_conserved_iff`: permits and packets on their way are as many as there were permits at
  first exactly if no push failed and every group was of one packet.
-/

namespace W132d.Tty

open Sdio

/-- `BT_TX_POOL_SIZE`. -/
def btTxPoolSize : ℕ := 64

/-- `BT_SDIO_HEAD_LEN`. -/
def btSdioHeadLen : ℕ := 4

/-- `ENOMEM`. -/
def enomem : ℤ := 12

/-- `EBUSY`. -/
def ebusy : ℤ := 16

/-- The count of the semaphore `sem_id`, and the mbufs that were pushed and not given back. -/
structure Mtty where
  semId : ℕ
  pushed : List Mbuf
  deriving DecidableEq

/-- The driver as it is set up. -/
def Mtty.start : Mtty := ⟨btTxPoolSize - 1, []⟩

/-- `marlin_sdio_write`, and what it returns, or `none` if it waits for a permit. Whether
    `kmalloc`, `sprdwcn_bus_list_alloc` and `sprdwcn_bus_push_list` succeed is given. -/
def marlinSdioWrite (kmalloc listAlloc pushList : Bool) (buf : List UInt8) (s : Mtty) :
    Option (ℤ × Mtty) :=
  if kmalloc = false then some (-enomem, s)
  else
    let block := List.replicate btSdioHeadLen 0 ++ buf
    -- `down(&sem_id)`
    if s.semId = 0 then none
    else
      let s := { s with semId := s.semId - 1 }
      if listAlloc = false then some (-enomem, { s with semId := s.semId + 1 })
      else
        let txHead : Mbuf := ⟨none, block, buf.length⟩
        if pushList = false then
          -- The block and the mbuf are freed, the permit is not given back.
          some (-ebusy, s)
        else some (buf.length, { s with pushed := s.pushed ++ [txHead] })

/-- `sprdwcn_bus_list_free`, which fails if there is nothing to free. -/
def busListFree (mbufs : List Mbuf) : ℤ := if mbufs = [] then -1 else 0

/-- `mtty_tx_cb`, once it has freed the buffers. -/
def mttyTxCb (mbufs : List Mbuf) (s : Mtty) : Mtty :=
  if busListFree mbufs = 0 then { s with semId := s.semId + 1 } else s

/-- What happens. -/
inductive TtyEvent where
  /-- A write, and whether its parts succeed. -/
  | write (kmalloc listAlloc pushList : Bool) (buf : List UInt8)
  /-- The SDIO layer gives the next `num` mbufs back. -/
  | txCb (num : ℕ)

/-- The driver. A write that waits, and a group that is empty or has mbufs that were not pushed,
    are no steps. -/
def bt : Machine Mtty TtyEvent where
  step s
    | .write kmalloc listAlloc pushList buf =>
      (marlinSdioWrite kmalloc listAlloc pushList buf s).map (·.2)
    | .txCb num =>
      if 0 < num ∧ num ≤ s.pushed.length then
        some (mttyTxCb (s.pushed.take num) { s with pushed := s.pushed.drop num })
      else none

/-- No permit is lost: if there is an mbuf, it is pushed, and a group is of one mbuf. -/
def TtyEvent.Conserves : TtyEvent → Prop
  | .write kmalloc listAlloc pushList _ => kmalloc = true → listAlloc = true → pushList = true
  | .txCb num => num = 1

/-- The permits, and the mbufs on their way. -/
def Mtty.total (s : Mtty) : ℕ := s.semId + s.pushed.length

variable {s s' : Mtty} {e : TtyEvent} {es : List TtyEvent}

/-- A write keeps the total, unless the push fails. -/
theorem total_marlinSdioWrite {kmalloc listAlloc pushList : Bool} {buf : List UInt8} {r : ℤ}
    (h : marlinSdioWrite kmalloc listAlloc pushList buf s = some (r, s')) :
    s'.total ≤ s.total ∧ (s'.total = s.total ↔
      (TtyEvent.write kmalloc listAlloc pushList buf).Conserves) := by
  rw [marlinSdioWrite] at h
  rw [TtyEvent.Conserves, Mtty.total, Mtty.total]
  split_ifs at h with hk hsem hl hp
  all_goals
    simp only [Option.some.injEq, Prod.mk.injEq] at h
    obtain ⟨-, rfl⟩ := h
  · simp [hk]
  · simp [hl]
    omega
  · simp [hk, hl, hp]
    omega
  · simp [hk, hl, hp]
    omega

/-- A group gives back the permit of one of its mbufs. -/
theorem total_mttyTxCb {num : ℕ} (hpos : 0 < num) (hle : num ≤ s.pushed.length) :
    (mttyTxCb (s.pushed.take num) { s with pushed := s.pushed.drop num }).total + num =
      s.total + 1 := by
  have hne : s.pushed.take num ≠ [] := by
    rw [← List.length_pos_iff, List.length_take]
    omega
  rw [mttyTxCb, busListFree, if_neg hne, if_pos rfl]
  simp only [Mtty.total, List.length_drop]
  omega

/-- No step raises the total, and those that lose no permit keep it. -/
theorem total_step (h : bt.step s e = some s') :
    s'.total ≤ s.total ∧ (s'.total = s.total ↔ e.Conserves) := by
  cases e with
  | write kmalloc listAlloc pushList buf =>
    obtain ⟨⟨r, t⟩, ht, rfl⟩ := Option.map_eq_some_iff.1 h
    exact total_marlinSdioWrite ht
  | txCb num =>
    simp only [bt] at h
    split_ifs at h with hnum
    obtain rfl := Option.some.inj h
    have htotal := total_mttyTxCb hnum.1 hnum.2
    rw [TtyEvent.Conserves]
    omega

/-- A write does not wait if there is a permit. -/
theorem marlinSdioWrite_returns (h : 0 < s.semId) (kmalloc listAlloc pushList : Bool)
    (buf : List UInt8) : ∃ r, marlinSdioWrite kmalloc listAlloc pushList buf s = some r := by
  rw [marlinSdioWrite]
  split_ifs with hk hsem
  · exact ⟨_, rfl⟩
  · exact absurd hsem h.ne'
  all_goals exact ⟨_, rfl⟩

/-- Permits and mbufs on their way are as many as there were permits at first, and once all mbufs
    came back, so are the permits, and no write waits. -/
structure Mtty.Conserved (s : Mtty) : Prop where
  total : s.semId + s.pushed.length = btTxPoolSize - 1
  returned : s.pushed = [] → s.semId = btTxPoolSize - 1
  writes : s.pushed = [] → ∀ kmalloc listAlloc pushList buf,
    ∃ r, marlinSdioWrite kmalloc listAlloc pushList buf s = some r

theorem Mtty.conserved_iff : s.Conserved ↔ s.total = Mtty.start.total := by
  refine ⟨fun h => h.total, fun h => ?_⟩
  have hreturned : s.pushed = [] → s.semId = btTxPoolSize - 1 := by
    intro hnil
    rwa [Mtty.total, hnil, List.length_nil, Nat.add_zero] at h
  refine ⟨h, hreturned, fun hnil => marlinSdioWrite_returns ?_⟩
  rw [hreturned hnil]
  decide

/-- Permits are conserved exactly by the runs in which no push failed, and every group had one
    mbuf. -/
theorem permits_conserved_iff (h : bt.run .start es = some s) :
    s.Conserved ↔ ∀ e ∈ es, e.Conserves := by
  rw [Mtty.conserved_iff]
  exact (Machine.measure_eq_iff (fun _ _ _ => total_step) h).2

/-- Two packets that come back one by one. -/
theorem permits_conserved_iff_fixture :
    let es : List TtyEvent :=
      [.write true true true [1, 2], .write true true true [3], .txCb 1, .txCb 1]
    ∃ s, bt.run .start es = some s ∧ (s.Conserved ↔ ∀ e ∈ es, e.Conserves) :=
  ⟨_, rfl, permits_conserved_iff rfl⟩

/-- Two packets that come back together: a permit is lost. -/
theorem not_permits_conserved :
    ∃ s, bt.run .start [.write true true true [1, 2], .write true true true [3], .txCb 2] =
      some s ∧ s.pushed = [] ∧ s.semId = btTxPoolSize - 2 ∧ ¬s.Conserved := by
  refine ⟨_, rfl, rfl, rfl, fun h => ?_⟩
  exact absurd h.total (by decide)

end W132d.Tty
