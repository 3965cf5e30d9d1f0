import W132d.Sdio.Channels

/-!
# Packets go back to the drivers

`sdiohal_rx_list_dispatch` and `sdiohal_tx_list_denq` hand the packets in the lists of the
channels over to the callbacks. Both stop before the last list of the ring, so that they hand
all packets over exactly if the last list is empty.

* `rxChannels`, `txChannels`: the machines of packets that are received, or were sent;
* `Delivered`: all lists are empty, and every callback got the packets of its channel in order;
* `dispatch_complete_iff`: this is so exactly if no packet is in the last list;
* `not_dispatch_complete`: a packet of the last channel stays in its list.

How the theorem is proved: along a run, every mbuf is in at most one list (`rxChannels_step`,
`txChannels_step`), so that `dispatch_spec` of `W132d.Sdio.Channels` says what is handed over: each
list but the last one, to the callback of its channel. As different lists have different channels, a
callback gets the packets of its own list and no others (`handedIn_callOf`), and all lists are empty
exactly if the last one was.
-/

namespace W132d.Sdio

variable {d : Direction} {cb : Callbacks} {s s' : Channels} {l : ℕ → List Addr}

/-! ## What is delivered -/

/-- All lists are empty after `s'`, and the callback of every channel whose operations are
    registered got the packets `l` of its list. -/
structure Delivered (d : Direction) (cb : Callbacks) (l : ℕ → List Addr) (s s' : Channels) :
    Prop where
  empty : ∀ i < d.listNum, (s'.lists i).nodeNum = 0
  handed : ∀ i < d.listNum, cb.registered (d.channel i) →
    s'.handed (d.channel i) = s.handed (d.channel i) ++ l i

/-- The list that is not visited. -/
def Direction.last (d : Direction) : ℕ := d.listNum - 1

theorem Direction.Valid.last_lt (hd : d.Valid) : d.last < d.listNum :=
  Nat.sub_lt hd.listNum_pos one_pos

theorem Direction.channel_injective (d : Direction) : Function.Injective d.channel := by
  intro i j hij
  rw [Direction.channel, Direction.channel, sdiohalHwtypeToChannel, sdiohalHwtypeToChannel] at hij
  split at hij
  · exact hij
  · exact Nat.add_right_cancel hij

theorem handedIn_append (calls calls' : List (ℕ × List Addr)) (channel : ℕ) :
    handedIn (calls ++ calls') channel = handedIn calls channel ++ handedIn calls' channel :=
  List.flatMap_append

/-- The callback of a channel gets the packets of its own list, if it is visited. -/
theorem handedIn_callOf {i : ℕ} (hreg : cb.registered (d.channel i)) (m : ℕ) :
    handedIn ((List.range m).flatMap (callOf d cb l)) (d.channel i) =
      if i < m then l i else [] := by
  induction m with
  | zero => rfl
  | succ m ih =>
    have hcall : handedIn (callOf d cb l m) (d.channel i) = if i = m then l i else [] := by
      rw [callOf]
      by_cases him : i = m
      · subst him
        by_cases hnil : l i = [] <;> simp [handedIn, hnil, hreg]
      · have hne : d.channel m ≠ d.channel i := fun h => him (d.channel_injective h).symm
        split_ifs <;> simp [handedIn, hne]
    rw [List.range_succ, List.flatMap_append, List.flatMap_singleton, handedIn_append, ih, hcall]
    rcases Nat.lt_trichotomy i m with hlt | rfl | hgt
    · rw [if_pos hlt, if_neg hlt.ne, if_pos (Nat.lt_succ_of_lt hlt), List.append_nil]
    · rw [if_neg (lt_irrefl i), if_pos rfl, if_pos (Nat.lt_succ_self i), List.nil_append]
    · rw [if_neg hgt.not_gt, if_neg hgt.ne', if_neg (by omega), List.append_nil]

/-- The loop over the lists delivers all packets exactly if the last list is empty. -/
theorem delivered_iff (hd : d.Valid) (hcb : cb.KeepOthers) (h : s.Queued d l) :
    (∃ s', dispatch d cb s = some s' ∧ Delivered d cb l s s') ↔ l d.last = [] := by
  obtain ⟨s', hs', hqueued, hcalls⟩ := dispatch_spec hd hcb h
  have hlast : leftBehind d l d.last = l d.last := if_neg (lt_irrefl _)
  constructor
  · rintro ⟨t, ht, hdelivered⟩
    obtain rfl : s' = t := Option.some.inj (hs'.symm.trans ht)
    have hzero := hdelivered.empty _ hd.last_lt
    rwa [(hqueued.queue _ hd.last_lt).nodeNum, hlast, List.length_eq_zero_iff] at hzero
  · intro hnil
    have hleft : ∀ i < d.listNum, leftBehind d l i = [] := by
      intro i hi
      rw [leftBehind]
      split_ifs with hlt
      · rfl
      · have hi : i = d.last := by rw [Direction.last]; omega
        rw [hi, hnil]
    refine ⟨s', hs', ⟨fun i hi => ?_, fun i hi hreg => ?_⟩⟩
    · rw [(hqueued.queue i hi).nodeNum, hleft i hi, List.length_nil]
    · rw [Channels.handed, hcalls, handedIn_append, handedIn_callOf hreg, ← Channels.handed]
      split_ifs with hlt
      · rfl
      · have hi : i = d.last := by rw [Direction.last]; omega
        rw [hi, hnil]

theorem Channels.Queued.pending (h : s.Queued d l) : s.Queued d s.pending :=
  h.congr fun _ hi => h.pending_eq hi

/-- The owners of mbufs write to those that are in no list. -/
theorem Channels.Queued.write {heap : Heap} (h : s.Queued d l)
    (hnext : ∀ i < d.listNum, ∀ a ∈ s.pending i, heap.next a = s.heap.next a) :
    Channels.Queued d { s with heap } l := by
  refine ⟨fun i hi => (h.queue i hi).congr ?_, h.disjoint⟩
  rw [← h.pending_eq hi]
  exact hnext i hi

/-! ## Packets that are received -/

/-- What happens to packets that are received. -/
inductive RxEvent where
  /-- The owners of mbufs write to them, and leave those in the lists as they are. -/
  | write (heap : Heap)
  /-- A packet with the header `puh` is received in the mbuf. -/
  | receive (mbufNode : Addr) (puh : Puh)
  /-- The packets are handed over. -/
  | dispatch

/-- The lists of packets that are received. The parsers free a packet whose channel is an
    error. -/
def rxChannels (cb : Callbacks) : Machine Channels RxEvent where
  step s
    | .write heap => some { s with heap }
    | .receive mbufNode puh =>
      let channel := sdiohalHwtypeToChannel false puh.type puh.subtype
      if sdioChannelNum ≤ channel then some s
      else sdiohalDataListAssignment mbufNode puh channel s
    | .dispatch => sdiohalRxListDispatch cb s

/-- Nobody writes to mbufs that are in the lists, and a packet is received in an mbuf that is
    not. -/
def RxCaller (s : Channels) : RxEvent → Prop
  | .write heap => ∀ i < sdioChnRxNum, ∀ a ∈ s.pending i, heap.next a = s.heap.next a
  | .receive mbufNode _ => ∀ i < sdioChnRxNum, mbufNode ∉ s.pending i
  | .dispatch => True

/-- A step keeps every mbuf in one list. -/
theorem rxChannels_step (hcb : cb.KeepOthers) {e : RxEvent} (h : s.Queued .rx l)
    (hcaller : RxCaller s e) : ∃ s', (rxChannels cb).step s e = some s' ∧
      ∃ l', s'.Queued .rx l' := by
  cases e with
  | write heap => exact ⟨_, rfl, l, h.write hcaller⟩
  | receive mbufNode puh =>
    simp only [rxChannels]
    split_ifs with hchannel
    · exact ⟨s, rfl, l, h⟩
    · have hsub : puh.subtype < sdioChnRxNum := by
        rw [not_le, sdiohalHwtypeToChannel, sdioChannelNum, Nat.add_comm sdioChnTxNum] at hchannel
        exact Nat.lt_of_add_lt_add_right hchannel
      obtain ⟨s', hs', hqueued⟩ := sdiohalDataListAssignment_spec h hsub fun i hi => by
        rw [← h.pending_eq hi]
        exact hcaller i hi
      exact ⟨s', hs', _, hqueued⟩
  | dispatch =>
    obtain ⟨s', hs', hqueued, -⟩ := dispatch_spec Direction.valid_rx hcb h
    exact ⟨s', hs', _, hqueued⟩

/-! ## Packets that were sent -/

/-- What happens to packets that were sent. -/
inductive TxDoneEvent where
  /-- The owners of mbufs write to them, and leave those in the lists as they are. -/
  | write (heap : Heap)
  /-- The packets of a batch were sent, and are handed over. -/
  | denq (dataList : SdiohalList)

/-- The lists of packets that were sent. -/
def txChannels (cb : Callbacks) : Machine Channels TxDoneEvent where
  step s
    | .write heap => some { s with heap }
    | .denq dataList => sdiohalTxListDenq cb dataList s

/-- The mbufs of a batch, as far as its list tells them. -/
def batchOf (s : Channels) (dataList : SdiohalList) : List Addr :=
  (nodes s.heap.next dataList.nodeNum dataList.mbufHead).getD []

/-- The list is a batch that `sdiohal_tx_find_data_list` took: mbufs that are linked, and are in
    none of the lists of the channels. -/
structure IsBatch (s : Channels) (dataList : SdiohalList) : Prop where
  holds : dataList.Holds s.heap (batchOf s dataList)
  fresh : ∀ i < sdioChnTxNum, ∀ a ∈ batchOf s dataList, a ∉ s.pending i

/-- Nobody writes to mbufs that are in the lists, and batches are what they should be. -/
def TxDoneCaller (s : Channels) : TxDoneEvent → Prop
  | .write heap => ∀ i < sdioChnTxNum, ∀ a ∈ s.pending i, heap.next a = s.heap.next a
  | .denq dataList => IsBatch s dataList

/-- The packets of a batch are put behind those that are in the lists. -/
theorem sdiohalTxPopAssignment_spec {dataList : SdiohalList} (h : s.Queued .tx l)
    (hbatch : IsBatch s dataList) :
    ∃ t, sdiohalTxPopAssignment dataList s = some t ∧ t.calls = s.calls ∧
      t.Queued .tx fun i => l i ++ sentOn s.heap (batchOf s dataList) i := by
  rw [sdiohalTxPopAssignment, hbatch.holds.nodeNum]
  refine txPopAssignment_spec h hbatch.holds.spells hbatch.holds.nodup fun a ha j hj => ?_
  rw [← h.pending_eq hj]
  exact hbatch.fresh j hj a ha

/-- A step keeps every mbuf in one list. -/
theorem txChannels_step (hcb : cb.KeepOthers) {e : TxDoneEvent} (h : s.Queued .tx l)
    (hcaller : TxDoneCaller s e) : ∃ s', (txChannels cb).step s e = some s' ∧
      ∃ l', s'.Queued .tx l' := by
  cases e with
  | write heap => exact ⟨_, rfl, l, h.write hcaller⟩
  | denq dataList =>
    obtain ⟨t, ht, -, hqueued⟩ := sdiohalTxPopAssignment_spec h hcaller
    obtain ⟨s', hs', hqueued', -⟩ := dispatch_spec Direction.valid_tx hcb hqueued
    refine ⟨s', ?_, _, hqueued'⟩
    rw [txChannels]
    simp only [sdiohalTxListDenq, ht]
    exact hs'

theorem sdiohalTxListDenq_iff (hcb : cb.KeepOthers) {dataList : SdiohalList}
    (h : s.Queued .tx l) (hbatch : IsBatch s dataList) :
    (∃ s', sdiohalTxListDenq cb dataList s = some s' ∧
        Delivered .tx cb (fun i => l i ++ sentOn s.heap (batchOf s dataList) i) s s') ↔
      l Direction.tx.last = [] ∧
        sentOn s.heap (batchOf s dataList) Direction.tx.last = [] := by
  obtain ⟨t, ht, hcalls, hqueued⟩ := sdiohalTxPopAssignment_spec h hbatch
  have hdenq : sdiohalTxListDenq cb dataList s = dispatch .tx cb t := by
    rw [sdiohalTxListDenq, ht]
    rfl
  have hhanded : t.handed = s.handed := by
    funext channel
    rw [Channels.handed, Channels.handed, hcalls]
  have hiff := delivered_iff Direction.valid_tx hcb hqueued
  rw [List.append_eq_nil_iff] at hiff
  rw [hdenq, ← hiff]
  constructor
  · rintro ⟨s', hs', hempty, hgot⟩
    exact ⟨s', hs', hempty, hhanded ▸ hgot⟩
  · rintro ⟨s', hs', hempty, hgot⟩
    exact ⟨s', hs', hempty, hhanded ▸ hgot⟩

/-! ## Everything is delivered unless it is in the last list -/

/-- Whatever packets were received and sent, handing them over empties all lists and gives every
    packet to the callback of its channel, once and in order, exactly if no packet is in the last
    list: that of the packets received on channel 25, or sent on channel 11. -/
theorem dispatch_complete_iff {cb : Callbacks} (hcb : cb.KeepOthers) (heap : Heap) :
    (∀ es, (rxChannels cb).Along RxCaller (.start heap) es →
      ∃ s, (rxChannels cb).run (.start heap) es = some s ∧
        ((∃ s', sdiohalRxListDispatch cb s = some s' ∧ Delivered .rx cb s.pending s s') ↔
          s.pending 13 = [])) ∧
    (∀ es, (txChannels cb).Along TxDoneCaller (.start heap) es →
      ∃ s, (txChannels cb).run (.start heap) es = some s ∧ ∀ dataList, IsBatch s dataList →
        ((∃ s', sdiohalTxListDenq cb dataList s = some s' ∧
            Delivered .tx cb (fun i => s.pending i ++ sentOn s.heap (batchOf s dataList) i)
              s s') ↔
          s.pending 11 = [] ∧ sentOn s.heap (batchOf s dataList) 11 = [])) := by
  constructor
  · intro es hes
    obtain ⟨s, hs, l, hl⟩ := Machine.exists_run_history (I := fun _ s => ∃ l, s.Queued .rx l)
      (fun _ s e ⟨l, hl⟩ he => rxChannels_step hcb hl he)
      ⟨_, Channels.queued_start .rx heap⟩ hes
    exact ⟨s, hs, delivered_iff Direction.valid_rx hcb hl.pending⟩
  · intro es hes
    obtain ⟨s, hs, l, hl⟩ := Machine.exists_run_history (I := fun _ s => ∃ l, s.Queued .tx l)
      (fun _ s e ⟨l, hl⟩ he => txChannels_step hcb hl he)
      ⟨_, Channels.queued_start .tx heap⟩ hes
    exact ⟨s, hs, fun dataList hbatch => sdiohalTxListDenq_iff hcb hl.pending hbatch⟩

/-- Callbacks that free the mbufs they get, of which all channels have one. -/
def freeing : Callbacks where
  registered _ := true
  heapAfter s i a := if a ∈ s.pending i then { s.heap a with buf := [], len := 0 } else s.heap a

theorem keepOthers_freeing : freeing.KeepOthers := by
  intro s i j _ a _
  simp only [freeing, Heap.next]
  split_ifs <;> rfl

/-- A packet received on channel 17, and a batch of one packet sent on channel 3. -/
theorem dispatch_complete_iff_fixture :
    let heap : Heap := fun _ => ⟨none, [0, 0, 0, 3], 0⟩
    let batch : SdiohalList := ⟨some 0, some 0, 0, 0, 1⟩
    (∃ s, (rxChannels freeing).run (.start heap) [.receive 0 ⟨0, 0, 4, 0, 5, 0⟩] = some s ∧
      ((∃ s', sdiohalRxListDispatch freeing s = some s' ∧
          Delivered .rx freeing s.pending s s') ↔
        s.pending 13 = [])) ∧
    (∃ s, (txChannels freeing).run (.start heap) [.denq batch] = some s ∧
      (IsBatch s batch →
        ((∃ s', sdiohalTxListDenq freeing batch s = some s' ∧
            Delivered .tx freeing
              (fun i => s.pending i ++ sentOn s.heap (batchOf s batch) i) s s') ↔
          s.pending 11 = [] ∧ sentOn s.heap (batchOf s batch) 11 = []))) := by
  intro heap batch
  have hbatch : IsBatch (.start heap) batch :=
    ⟨⟨⟨rfl, rfl⟩, List.nodup_singleton _, rfl, rfl⟩, fun _ _ _ _ => List.not_mem_nil⟩
  obtain ⟨hrx, htx⟩ := dispatch_complete_iff keepOthers_freeing heap
  obtain ⟨s, hs, hiff⟩ := htx [.denq batch] ⟨hbatch, by split <;> trivial⟩
  exact ⟨hrx _ ⟨fun _ _ => List.not_mem_nil, by split <;> trivial⟩, s, hs, hiff batch⟩

/-- A packet received on channel 25 stays in its list. -/
theorem not_dispatch_complete :
    let heap : Heap := fun _ => ⟨none, [0, 0, 0, 13], 0⟩
    ∃ s, (rxChannels freeing).Along RxCaller (.start heap) [.receive 0 ⟨0, 0, 4, 0, 13, 0⟩] ∧
      (rxChannels freeing).run (.start heap) [.receive 0 ⟨0, 0, 4, 0, 13, 0⟩] = some s ∧
      ¬∃ s', sdiohalRxListDispatch freeing s = some s' ∧
        Delivered .rx freeing s.pending s s' := by
  intro heap
  refine ⟨_, ⟨fun _ _ => List.not_mem_nil, by split <;> trivial⟩, rfl, ?_⟩
  rintro ⟨s', hs', hdelivered⟩
  have hzero := hdelivered.empty 13 (by decide)
  obtain rfl := Option.some.inj hs'
  exact absurd hzero (by decide)

end W132d.Sdio
