import W132d.Machine
import W132d.Sdio.Basic

/-!
# The transmit queue

The packets to send wait in one list of mbufs (`sdiohal_common.c`): the drivers put chains of
mbufs at its end, and the transmit thread takes batches from its start, of at most
`maxChainNodeNum` mbufs. A chain is not copied, the mbufs themselves are linked and cut.

* `sdiohalTxListEnq`, `sdiohalTxFindDataList`: the two operations, as far as they hold the lock;
* `txQueue`: the machine of these operations and of what their callers do to mbufs in between;
* `TxQueue.Waits`: the list and both counters agree about the mbufs that wait;
* `tx_queue_fifo`: the batches taken and the mbufs that wait are the chains put in, in order.
-/

namespace W132d.Sdio

/-! ## Operations -/

/-- `MAX_CHAIN_NODE_NUM`. -/
def maxChainNodeNum : ℕ := 100

/-- The mbufs in memory, and the queue: `tx_list_head` and `tx_mbuf_num`. -/
structure TxQueue where
  heap : Heap
  txListHead : SdiohalList
  txMbufNum : ℤ

/-- `sdiohal_is_tx_list_empty`. -/
def sdiohalIsTxListEmpty (s : TxQueue) : Bool := s.txMbufNum == 0

/-- `sdiohal_atomic_sub`, which never subtracts from 0. -/
def sdiohalAtomicSub (count value : ℤ) : ℤ := if value = 0 then value else value - count

/-- `sdiohal_tx_list_enq` once it holds the lock. It crashes if the queue is not empty and has
    no last mbuf. -/
def sdiohalTxListEnq (head tail : Addr) (num : ℕ) (s : TxQueue) : Option TxQueue := do
  let (heap, mbufHead) ←
    if s.txMbufNum = 0 then
      some (s.heap, some head)
    else do
      let last ← s.txListHead.mbufTail
      some (s.heap.setNext last (some head), s.txListHead.mbufHead)
  some {
    heap := heap.setNext tail none
    txListHead := { s.txListHead with
      mbufHead
      mbufTail := some tail
      nodeNum := s.txListHead.nodeNum + num }
    txMbufNum := s.txMbufNum + num }

/-- `sdiohal_tx_find_data_list`: the batch it takes, of which it sets neither type nor subtype.
    It crashes if the queue is empty, or has fewer mbufs than `node_num` says. -/
def sdiohalTxFindDataList (dataList : SdiohalList) (s : TxQueue) :
    Option (SdiohalList × TxQueue) := do
  let num := min s.txListHead.nodeNum maxChainNodeNum
  let mbufNode ← advance s.heap.next (num - 1) s.txListHead.mbufHead
  let txMbufNum := sdiohalAtomicSub num s.txMbufNum
  let nodeNum := s.txListHead.nodeNum - num
  let txListHead :=
    if txMbufNum = 0 then
      { s.txListHead with mbufHead := none, mbufTail := none, nodeNum }
    else
      { s.txListHead with mbufHead := (s.heap mbufNode).next, nodeNum }
  some (
    { dataList with
      mbufHead := s.txListHead.mbufHead
      mbufTail := some mbufNode
      nodeNum := num },
    { heap := s.heap.setNext mbufNode none, txListHead, txMbufNum })

/-! ## The machine -/

/-- What happens to the queue. -/
inductive TxEvent where
  /-- The owners of mbufs write to them, and leave those that wait as they are. -/
  | write (heap : Heap)
  /-- `sdiohal_tx_list_enq` before it takes the lock. -/
  | fill (channel : ℕ) (head : Addr) (num : ℕ)
  /-- `sdiohal_tx_list_enq` while it holds the lock, for the mbufs of `init` and `tail`. -/
  | enq (init : List Addr) (tail : Addr)
  /-- The transmit thread calls `sdiohal_tx_find_data_list`. -/
  | find

/-- The mbufs that wait, as far as the list tells them. -/
def TxQueue.pending (s : TxQueue) : List Addr :=
  (nodes s.heap.next s.txListHead.nodeNum s.txListHead.mbufHead).getD []

/-- The mbufs of a chain that is put into the queue. -/
def TxEvent.enqueued : TxEvent → List Addr
  | .enq init tail => init ++ [tail]
  | _ => []

/-- The queue, its locks taken apart. -/
def txQueue : Machine TxQueue TxEvent where
  step s
    | .write heap => some { s with heap }
    | .fill channel head num =>
      some { s with heap := sdiohalTxFillPuh channel (some head) num s.heap }
    | .enq init tail =>
      sdiohalTxListEnq ((init ++ [tail]).head (by simp)) tail (init ++ [tail]).length s
    | .find => (sdiohalTxFindDataList .zero s).map (·.2)

/-- The batch that an event takes. -/
def taken (s : TxQueue) : TxEvent → List (List Addr)
  | .find =>
    ((sdiohalTxFindDataList .zero s).bind fun (dataList, s') =>
      nodes s'.heap.next dataList.nodeNum dataList.mbufHead).toList
  | _ => []

/-- What the callers keep to.

* Nobody writes to mbufs that wait;
* a chain that is put in is linked up to its last mbuf, and its mbufs are distinct and do not
  wait already;
* the transmit thread only takes a batch if the queue is not empty. -/
def TxCaller (s : TxQueue) : TxEvent → Prop
  | .write heap => ∀ a ∈ s.pending, heap.next a = s.heap.next a
  | .fill .. => True
  | .enq init tail =>
    (init ++ [tail]).IsChain (fun a b => s.heap.next a = some b) ∧ (init ++ [tail]).Nodup ∧
      ∀ a ∈ init ++ [tail], a ∉ s.pending
  | .find => sdiohalIsTxListEmpty s = false

instance : ∀ s e, Decidable (TxCaller s e)
  | s, .write heap => inferInstanceAs (Decidable (∀ a ∈ s.pending, heap.next a = s.heap.next a))
  | _, .fill .. => inferInstanceAs (Decidable True)
  | s, .enq init tail =>
    inferInstanceAs (Decidable ((init ++ [tail]).IsChain (fun a b => s.heap.next a = some b) ∧
      (init ++ [tail]).Nodup ∧ ∀ a ∈ init ++ [tail], a ∉ s.pending))
  | s, .find => inferInstanceAs (Decidable (sdiohalIsTxListEmpty s = false))

/-- The queue as it is set up. -/
def TxQueue.start (heap : Heap) : TxQueue := ⟨heap, .zero, 0⟩

/-! ## Agreement of the list and the counters -/

/-- The mbufs `l` wait in the queue, and both counters tell their number. -/
structure TxQueue.Waits (s : TxQueue) (l : List Addr) : Prop where
  holds : s.txListHead.Holds s.heap l
  txMbufNum : s.txMbufNum = l.length

variable {s : TxQueue} {l init : List Addr} {tail : Addr} {heap : Heap}

theorem TxQueue.waits_start (heap : Heap) : (TxQueue.start heap).Waits [] :=
  ⟨⟨rfl, List.nodup_nil, rfl, rfl⟩, rfl⟩

theorem TxQueue.Waits.pending_eq (h : s.Waits l) : s.pending = l := by
  rw [TxQueue.pending, h.holds.nodeNum, h.holds.spells.nodes_length, Option.getD_some]

theorem TxQueue.Waits.isEmpty_iff (h : s.Waits l) : sdiohalIsTxListEmpty s = true ↔ l = [] := by
  rw [sdiohalIsTxListEmpty, h.txMbufNum, beq_iff_eq, Nat.cast_eq_zero, List.length_eq_zero_iff]

/-- Only what the mbufs that wait lead to matters to the queue. -/
theorem TxQueue.Waits.write (h : s.Waits l) (hnext : ∀ a ∈ l, heap.next a = s.heap.next a) :
    TxQueue.Waits { s with heap } l :=
  ⟨{ h.holds with spells := h.holds.spells.congr hnext }, h.txMbufNum⟩

/-- A chain is put behind the mbufs that wait. -/
theorem sdiohalTxListEnq_spec (h : s.Waits l)
    (hchain : (init ++ [tail]).IsChain fun a b => s.heap.next a = some b)
    (hnodup : (init ++ [tail]).Nodup) (hfresh : ∀ a ∈ init ++ [tail], a ∉ l) :
    ∃ s', sdiohalTxListEnq ((init ++ [tail]).head (by simp)) tail (init ++ [tail]).length s =
      some s' ∧ s'.Waits (l ++ (init ++ [tail])) := by
  obtain ⟨⟨hspells, hl, hlast, hnum⟩, hcount⟩ := h
  have hended := spells_of_isChain hchain hnodup
  rw [List.head?_eq_some_head (by simp)] at hended
  have hnodup' : (l ++ (init ++ [tail])).Nodup :=
    List.nodup_append'.2 ⟨hl, hnodup, fun a ha ha' => hfresh a ha' ha⟩
  have hcount' : s.txMbufNum + ((init ++ [tail]).length : ℕ) =
      ((l ++ (init ++ [tail])).length : ℕ) := by
    rw [hcount, ← Nat.cast_add, ← List.length_append]
  have hnum' : s.txListHead.nodeNum + (init ++ [tail]).length =
      (l ++ (init ++ [tail])).length := by
    rw [hnum, ← List.length_append]
  have hlast' : some tail = (l ++ (init ++ [tail])).getLast? := by simp
  rw [sdiohalTxListEnq]
  rcases List.eq_nil_or_concat l with rfl | ⟨l, last, rfl⟩
  · -- The queue was empty, and begins with the chain.
    rw [if_pos (by simpa using hcount)]
    refine ⟨_, rfl, ⟨?_, hnodup', hlast', hnum'⟩, hcount'⟩
    simpa using hended
  · -- The last mbuf leads to the chain now; it is not the one that ends the chain.
    rw [List.concat_eq_append] at *
    rw [if_neg (by rw [hcount]; simp; omega), hlast, List.getLast?_concat]
    refine ⟨_, rfl, ⟨?_, hnodup', hlast', hnum'⟩, hcount'⟩
    have htail : tail ∉ l ++ [last] := hfresh tail (by simp)
    have hbefore : Spells (Function.update s.heap.next tail none) s.txListHead.mbufHead
        (l ++ [last]) :=
      hspells.congr fun a ha => Function.update_of_ne (ne_of_mem_of_not_mem ha htail) ..
    have hne : last ≠ tail := ne_of_mem_of_not_mem (by simp) htail
    rw [Heap.next_setNext, Heap.next_setNext, Function.update_comm hne]
    exact hbefore.append hended hl fun hmem => hfresh last hmem (by simp)

/-- The queue is cut behind the mbuf `t`, where the batch ends. -/
theorem sdiohalTxFindDataList_cut {t : Addr} {rest : List Addr}
    (h : s.Waits (init ++ t :: rest))
    (hlen : min s.txListHead.nodeNum maxChainNodeNum = init.length + 1)
    (dataList : SdiohalList) :
    ∃ dataList' s', sdiohalTxFindDataList dataList s = some (dataList', s') ∧
      dataList'.Holds s'.heap (init ++ [t]) ∧ s'.Waits rest := by
  obtain ⟨⟨hspells, hl, hlast, hnum⟩, hcount⟩ := h
  have hlength : (init ++ t :: rest).length = init.length + 1 + rest.length := by
    rw [List.append_cons, List.length_append, List.length_append, List.length_singleton]
  obtain ⟨hmem, hrest⟩ := List.nodup_cons.1 hl.of_append_right
  have hnodup : (init ++ [t]).Nodup := by
    rw [List.append_cons] at hl
    exact hl.of_append_left
  -- The loop gets to `t`, which ends the batch.
  have hadvance : advance s.heap.next (init.length + 1 - 1) s.txListHead.mbufHead = some t := by
    rw [hspells.advance_eq (by rw [hlength]; omega)]
    simp
  have hsub : sdiohalAtomicSub ((init.length + 1 : ℕ) : ℤ) s.txMbufNum = rest.length := by
    rw [sdiohalAtomicSub, if_neg (by omega), hcount, hlength]
    push_cast
    ring
  have hnum' : s.txListHead.nodeNum - (init.length + 1) = rest.length := by
    rw [hnum, hlength, Nat.add_sub_cancel_left]
  -- `t` leads nowhere afterwards, which cuts the chain there and leaves the rest as it is.
  have hbatch : Spells (Function.update s.heap.next t none) s.txListHead.mbufHead
      (init ++ [t]) := hspells.cut hnodup
  have hafter : Spells (Function.update s.heap.next t none) (s.heap.next t) rest :=
    hspells.tail.congr fun a ha => Function.update_of_ne (ne_of_mem_of_not_mem ha hmem) ..
  rw [sdiohalTxFindDataList, hlen, hadvance]
  refine ⟨_, _, rfl, ⟨?_, hnodup, by simp, by simp⟩, ⟨?_, hrest, ?_, ?_⟩, hsub⟩
  · rw [Heap.next_setNext]
    exact hbatch
  all_goals
    simp only [hsub, Nat.cast_eq_zero, List.length_eq_zero_iff, Heap.next_setNext, hnum']
  · split_ifs with hempty
    · rw [hempty]
      rfl
    · exact hafter
  · split_ifs with hempty
    · rw [hempty]
      rfl
    · rw [hlast, List.getLast?_append_cons, List.getLast?_cons_of_ne_nil hempty]
  · rw [apply_ite SdiohalList.nodeNum, ite_self]

/-- A batch is cut off the start of the mbufs that wait. -/
theorem sdiohalTxFindDataList_spec (h : s.Waits l) (hne : l ≠ []) (dataList : SdiohalList) :
    ∃ dataList' s', sdiohalTxFindDataList dataList s = some (dataList', s') ∧
      dataList'.Holds s'.heap (l.take maxChainNodeNum) ∧ s'.Waits (l.drop maxChainNodeNum) := by
  obtain ⟨init, t, htake⟩ : ∃ init t, l.take maxChainNodeNum = init ++ [t] :=
    (List.eq_nil_or_concat' _).resolve_left (by simp [hne, maxChainNodeNum])
  have hsplit : l = init ++ t :: l.drop maxChainNodeNum := by
    rw [List.append_cons, ← htake, List.take_append_drop]
  rw [htake]
  refine sdiohalTxFindDataList_cut (hsplit ▸ h) ?_ dataList
  rw [h.holds.nodeNum, Nat.min_comm, ← List.length_take, htake, List.length_append,
    List.length_singleton]

/-! ## The queue is first in, first out -/

/-- The mbufs put into the queue, in order. -/
def enqueued (es : List TxEvent) : List Addr := es.flatMap TxEvent.enqueued

/-- The batches taken out of the queue. -/
def batches (heap : Heap) (es : List TxEvent) : List (List Addr) :=
  txQueue.outputs taken (.start heap) es

/-- What is so after the events `es`, `l` being the mbufs that wait. -/
structure Accounts (heap : Heap) (es : List TxEvent) (s : TxQueue) (l : List Addr) : Prop where
  run : txQueue.run (.start heap) es = some s
  waits : s.Waits l
  length_le : ∀ batch ∈ batches heap es, batch.length ≤ maxChainNodeNum
  batches_append : (batches heap es).flatten ++ l = enqueued es

/-- No mbufs wait, and none were put in or taken. -/
theorem accounts_start (heap : Heap) : Accounts heap [] (.start heap) [] :=
  ⟨rfl, TxQueue.waits_start heap, List.forall_mem_nil _, rfl⟩

/-- An event moves mbufs from those that wait to the batch, and puts others behind them. -/
theorem Accounts.concat {es : List TxEvent} {e : TxEvent} {s' : TxQueue} {l' : List Addr}
    (h : Accounts heap es s l) (hstep : txQueue.step s e = some s') (hwaits : s'.Waits l')
    (hlen : ∀ batch ∈ taken s e, batch.length ≤ maxChainNodeNum)
    (hmove : (taken s e).flatten ++ l' = l ++ e.enqueued) :
    Accounts heap (es ++ [e]) s' l' := by
  have hbatches : batches heap (es ++ [e]) = batches heap es ++ taken s e :=
    Machine.outputs_concat h.run
  refine ⟨Machine.run_concat h.run hstep, hwaits, ?_, ?_⟩
  · rw [hbatches, List.forall_mem_append]
    exact ⟨h.length_le, hlen⟩
  · rw [hbatches, List.flatten_append, List.append_assoc, hmove, ← List.append_assoc,
      h.batches_append, enqueued, enqueued, List.flatMap_append, List.flatMap_singleton]

/-- One more event of callers that keep to their part. -/
theorem Accounts.step {es : List TxEvent} {e : TxEvent} (h : Accounts heap es s l)
    (hcaller : TxCaller s e) :
    ∃ s' l', txQueue.step s e = some s' ∧ Accounts heap (es ++ [e]) s' l' := by
  cases e with
  | write heap' =>
    rw [TxCaller, h.waits.pending_eq] at hcaller
    exact ⟨_, l, rfl, h.concat rfl (h.waits.write hcaller) (List.forall_mem_nil _)
      (List.append_nil l).symm⟩
  | fill channel head num =>
    have hnext : ∀ a ∈ l, (sdiohalTxFillPuh channel (some head) num s.heap).next a =
        s.heap.next a := by
      simp
    exact ⟨_, l, rfl, h.concat rfl (h.waits.write hnext) (List.forall_mem_nil _)
      (List.append_nil l).symm⟩
  | enq init tail =>
    obtain ⟨hchain, hnodup, hfresh⟩ := hcaller
    rw [h.waits.pending_eq] at hfresh
    obtain ⟨s', hs', hwaits⟩ := sdiohalTxListEnq_spec h.waits hchain hnodup hfresh
    exact ⟨s', _, hs', h.concat hs' hwaits (List.forall_mem_nil _) rfl⟩
  | find =>
    have hne : l ≠ [] := by
      rwa [TxCaller, ← Bool.not_eq_true, h.waits.isEmpty_iff] at hcaller
    obtain ⟨dataList, s', hfind, hholds, hwaits⟩ :=
      sdiohalTxFindDataList_spec h.waits hne .zero
    have hstep : txQueue.step s .find = some s' := by
      simp only [txQueue, hfind, Option.map_some]
    -- The batch that the event puts out is the one that was taken.
    have hnodes : nodes s'.heap.next dataList.nodeNum dataList.mbufHead =
        some (l.take maxChainNodeNum) := by
      rw [hholds.nodeNum, hholds.spells.nodes_length]
    have htaken : taken s .find = [l.take maxChainNodeNum] := by
      simp only [taken, hfind, Option.bind_some, hnodes, Option.toList_some]
    refine ⟨s', _, hstep, h.concat hstep hwaits ?_ ?_⟩
    · rw [htaken, List.forall_mem_singleton]
      exact List.length_take_le ..
    · rw [htaken, List.flatten_singleton, List.take_append_drop]
      exact (List.append_nil l).symm

/-- The transmit queue is first in, first out: whatever chains are put into it and whenever
    batches are taken, it does not crash, both counters tell how many mbufs wait, a batch has at
    most `maxChainNodeNum` mbufs, and the batches and the mbufs that wait are what was put in. -/
theorem tx_queue_fifo (heap : Heap) {es : List TxEvent}
    (h : txQueue.Along TxCaller (.start heap) es) :
    ∃ s l, txQueue.run (.start heap) es = some s ∧ s.txListHead.Holds s.heap l ∧
      s.txMbufNum = l.length ∧ s.txListHead.nodeNum = l.length ∧
      (∀ batch ∈ batches heap es, batch.length ≤ maxChainNodeNum) ∧
      (batches heap es).flatten ++ l = enqueued es := by
  obtain ⟨s, hrun, l, hl⟩ :=
    Machine.exists_run_history (I := fun es s => ∃ l, Accounts heap es s l)
      (fun es s e ⟨l, hl⟩ hcaller =>
        let ⟨s', l', hs', hl'⟩ := hl.step hcaller
        ⟨s', hs', l', hl'⟩)
      ⟨[], accounts_start heap⟩ h
  exact ⟨s, l, hrun, hl.waits.holds, hl.waits.txMbufNum, hl.waits.holds.nodeNum, hl.length_le,
    hl.batches_append⟩

/-- Two mbufs are put in and a third one, a batch of all is taken, and one more is put in. -/
theorem tx_queue_fifo_fixture :
    let heap : Heap := fun a => ⟨if a = 0 then some 1 else none, [0, 0, 0, 0], 0⟩
    let es : List TxEvent := [.fill 8 0 2, .enq [0] 1, .enq [] 2, .find, .enq [] 3]
    txQueue.Along TxCaller (.start heap) es ∧
      ∃ s l, txQueue.run (.start heap) es = some s ∧ s.txListHead.Holds s.heap l ∧
        s.txMbufNum = l.length ∧ s.txListHead.nodeNum = l.length ∧
        (∀ batch ∈ batches heap es, batch.length ≤ maxChainNodeNum) ∧
        (batches heap es).flatten ++ l = enqueued es := by
  intro heap es
  have h : txQueue.Along TxCaller (.start heap) es := by decide
  exact ⟨h, tx_queue_fifo heap h⟩

end W132d.Sdio
