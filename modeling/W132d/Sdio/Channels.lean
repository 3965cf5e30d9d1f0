import W132d.ListHead
import W132d.Machine
import W132d.Sdio.Basic

/-!
# The lists of the channels

Packets that were sent, and packets that were received, go back to the drivers through one list
for each channel (`sdiohal_common.c`): packets are assigned to the lists by their public headers,
and each list that is not empty is handed to the callback of its channel at once. Both
directions do this in the same way (`Direction`).

* `Channels`: the lists of one direction, and the calls of callbacks so far;
* `sdiohalDataListAssignment`, `sdiohalTxPopAssignment`: packets are assigned;
* `dispatch`: the loop over the lists of `sdiohal_rx_list_dispatch` and `sdiohal_tx_list_denq`;
* `Channels.Queued`: which mbufs are in which list;
* `dispatch_spec`: every list is handed to its callback in order, except for the last one, which
  the loop does not visit.

How the theorem is proved: `Queued` says which mbufs are in which list, so that each function is
described by the lists before and after it. A packet is put behind the last mbuf of its list, which
writes to this one only (`SdiohalList.Appended`). The loop over the lists goes along a ring of
heads, from the first one behind the head to the last one before it, as `W132d.ListHead` says of
this loop; as the ring begins with a list and not with a head of its own, one list is left out
(`visited_sdiohalListInit`).
-/

namespace W132d.Sdio

/-! ## Directions -/

/-- What differs between the lists of packets that were sent and that were received. -/
structure Direction where
  inout : Bool
  listNum : ℕ
  channelNum : ℕ

/-- The lists `list_tx`. -/
def Direction.tx : Direction := ⟨true, sdioChnTxNum, sdioChnTxNum⟩

/-- The lists `list_rx`. -/
def Direction.rx : Direction := ⟨false, sdioChnRxNum, sdioChannelNum⟩

/-- The channel of the list `i`. -/
def Direction.channel (d : Direction) (i : ℕ) : ℕ := sdiohalHwtypeToChannel d.inout 0 i

/-- A direction has a list, and no list belongs to a channel that is none. -/
structure Direction.Valid (d : Direction) : Prop where
  listNum_pos : 0 < d.listNum
  channel_lt : ∀ i < d.listNum, d.channel i < d.channelNum

/-- The channels to the chip are numbered. -/
theorem Direction.valid_tx : Direction.tx.Valid := ⟨by decide, by decide⟩

theorem Direction.valid_rx : Direction.rx.Valid := ⟨by decide, by decide⟩

/-- The heads of the lists are linked (`sdiohal_list_init`). -/
def sdiohalListInit (d : Direction) : Links ℕ :=
  (List.range d.listNum).foldl
    (fun links channel =>
      if channel = 0 then initListHead channel links else listAddTail channel 0 links)
    fun _ => ⟨0, 0⟩

/-! ## State -/

/-- The lists of one direction, by their numbers, and the calls of `pop_link` so far: the channel
    and the mbufs of each. -/
structure Channels where
  heap : Heap
  lists : ℕ → SdiohalList
  calls : List (ℕ × List Addr)

/-- The lists as they are set up. -/
def Channels.start (heap : Heap) : Channels := ⟨heap, fun _ => .zero, []⟩

/-- What is known of the callbacks. -/
structure Callbacks where
  /-- The channels whose operations are registered, with a callback. -/
  registered : ℕ → Bool
  /-- The mbufs in memory after the callback of the list. Where no operations are registered,
      this is what `sdiohal_rx_list_free` does to packets that were received, and nothing for
      packets that were sent. -/
  heapAfter : Channels → ℕ → Heap

/-- The mbufs in the list `i`, as far as it tells them. -/
def Channels.pending (s : Channels) (i : ℕ) : List Addr :=
  (nodes s.heap.next (s.lists i).nodeNum (s.lists i).mbufHead).getD []

/-- The mbufs that the callback of `channel` got in some calls. -/
def handedIn (calls : List (ℕ × List Addr)) (channel : ℕ) : List Addr :=
  calls.flatMap fun (c, mbufs) => if c = channel then mbufs else []

/-- The mbufs that the callback of `channel` got. -/
def Channels.handed (s : Channels) (channel : ℕ) : List Addr := handedIn s.calls channel

/-- A callback leaves the mbufs of the other lists as they are. -/
def Callbacks.KeepOthers (cb : Callbacks) : Prop :=
  ∀ s i j, i ≠ j → ∀ a ∈ s.pending j, (cb.heapAfter s i).next a = s.heap.next a

/-! ## Assignment -/

/-- `sdiohal_data_list_assignment`, for a packet that was received. It crashes if the channel
    has no list, or a list that is not empty has no last mbuf. -/
def sdiohalDataListAssignment (mbufNode : Addr) (puh : Puh) (channel : ℕ) (s : Channels) :
    Option Channels := do
  let i := channel - sdioChnTxNum
  if sdioChnRxNum ≤ i then none
  else do
    let list := s.lists i
    let (heap, mbufHead) ←
      if list.nodeNum = 0 then
        some (s.heap, some mbufNode)
      else do
        let last ← list.mbufTail
        some (s.heap.setNext last (some mbufNode), list.mbufHead)
    some { s with
      heap := heap.setNext mbufNode none
      lists := Function.update s.lists i {
        mbufHead
        mbufTail := some mbufNode
        type := puh.type
        subtype := puh.subtype
        nodeNum := list.nodeNum + 1 } }

/-- The channel of a packet that was sent. -/
def txChannel (heap : Heap) (a : Addr) : ℕ :=
  sdiohalHwtypeToChannel true (Puh.ofBytes (heap a).buf).type (Puh.ofBytes (heap a).buf).subtype

/-- One turn of the loop of `sdiohal_tx_pop_assignment`, for a packet that was sent. -/
def txPopAssign (mbufNode : Addr) (s : Channels) : Option Channels := do
  let puh := Puh.ofBytes (s.heap mbufNode).buf
  let channel := txChannel s.heap mbufNode
  if sdioChnTxNum ≤ channel then some s
  else do
    let list := s.lists channel
    let heap := s.heap.setNext mbufNode none
    let (heap, mbufHead) ←
      if list.nodeNum = 0 then
        some (heap, some mbufNode)
      else do
        let last ← list.mbufTail
        some (heap.setNext last (some mbufNode), list.mbufHead)
    some { s with
      heap
      lists := Function.update s.lists channel {
        mbufHead
        mbufTail := some mbufNode
        type := puh.type
        subtype := puh.subtype
        nodeNum := list.nodeNum + 1 } }

/-- The loop of `sdiohal_tx_pop_assignment`, over `nodeNum` mbufs. It ends with an error, that
    nobody asks for, if there are fewer. -/
def txPopAssignment : ℕ → Option Addr → Channels → Option Channels
  | 0, _, s => some s
  | _ + 1, none, s => some s
  | nodeNum + 1, some mbufNode, s => do
    let mbufNext := s.heap.next mbufNode
    let s ← txPopAssign mbufNode s
    txPopAssignment nodeNum mbufNext s

/-- `sdiohal_tx_pop_assignment`. -/
def sdiohalTxPopAssignment (dataList : SdiohalList) : Channels → Option Channels :=
  txPopAssignment dataList.nodeNum dataList.mbufHead

/-! ## Dispatch -/

/-- A list that was handed over, and is empty now. -/
def SdiohalList.emptied (list : SdiohalList) : SdiohalList := { list with nodeNum := 0 }

/-- One turn of the loop over the lists: a list that is not empty is handed to the callback of
    its channel. It crashes if the list has fewer mbufs than `node_num` says. -/
def dispatchList (d : Direction) (cb : Callbacks) (s : Channels) (i : ℕ) : Option Channels := do
  let list := s.lists i
  if list.nodeNum = 0 then some s
  else
    let channel := sdiohalHwtypeToChannel d.inout list.type list.subtype
    if d.channelNum ≤ channel then some s
    else do
      let mbufs ← nodes s.heap.next list.nodeNum list.mbufHead
      some {
        heap := cb.heapAfter s i
        lists := Function.update s.lists i list.emptied
        calls := if cb.registered channel then s.calls ++ [(channel, mbufs)] else s.calls }

/-- The loop over the lists. -/
def dispatch (d : Direction) (cb : Callbacks) (s : Channels) : Option Channels := do
  let lists ← visited (sdiohalListInit d) 0 d.listNum 0
  lists.foldlM (dispatchList d cb) s

/-- `sdiohal_rx_list_dispatch`. -/
def sdiohalRxListDispatch (cb : Callbacks) (s : Channels) : Option Channels :=
  dispatch .rx cb s

/-- `sdiohal_tx_list_denq`. -/
def sdiohalTxListDenq (cb : Callbacks) (dataList : SdiohalList) (s : Channels) :
    Option Channels := do
  let s ← sdiohalTxPopAssignment dataList s
  dispatch .tx cb s

/-! ## Which mbufs are in which list -/

/-- The list is of the mbufs `l`, and has the subtype `subtype` unless it is empty. The first and
    the last mbuf of an empty list are left from before. -/
structure SdiohalList.Queue (list : SdiohalList) (heap : Heap) (subtype : ℕ) (l : List Addr) :
    Prop where
  nodeNum : list.nodeNum = l.length
  holds : l ≠ [] → list.Holds heap l
  subtype : l ≠ [] → list.subtype = subtype

/-- The list `i` is of the mbufs `l i`, and no mbuf is in two lists. -/
structure Channels.Queued (d : Direction) (s : Channels) (l : ℕ → List Addr) : Prop where
  queue : ∀ i < d.listNum, (s.lists i).Queue s.heap i (l i)
  disjoint : ∀ i < d.listNum, ∀ j < d.listNum, i ≠ j → ∀ a ∈ l i, a ∉ l j

variable {d : Direction} {cb : Callbacks} {s s' : Channels} {list : SdiohalList} {heap : Heap}
  {l : ℕ → List Addr} {m : List Addr} {a : Addr} {i subtype : ℕ}

/-- A list that counts no mbuf is empty. -/
theorem SdiohalList.queue_nil (h : list.nodeNum = 0) : list.Queue heap subtype [] :=
  ⟨h, fun h => absurd rfl h, fun h => absurd rfl h⟩

/-- A list has the mbufs that its links say. -/
theorem SdiohalList.Queue.nodes_eq (h : list.Queue heap subtype m) :
    nodes heap.next list.nodeNum list.mbufHead = some m := by
  rw [h.nodeNum]
  by_cases hm : m = []
  · rw [hm]
    rfl
  · exact (h.holds hm).spells.nodes_length

/-- Only what its mbufs lead to matters to a list. -/
theorem SdiohalList.Queue.congr {heap' : Heap} (h : list.Queue heap subtype m)
    (hnext : ∀ a ∈ m, heap'.next a = heap.next a) : list.Queue heap' subtype m :=
  { h with
    holds := fun hm => { h.holds hm with spells := (h.holds hm).spells.congr hnext } }

/-- All lists are empty in the beginning. -/
theorem Channels.queued_start (d : Direction) (heap : Heap) :
    (Channels.start heap).Queued d fun _ => [] :=
  ⟨fun _ _ => SdiohalList.queue_nil rfl, fun _ _ _ _ _ _ _ => List.not_mem_nil⟩

/-- What is pending is what is queued. -/
theorem Channels.Queued.pending_eq (h : s.Queued d l) (hi : i < d.listNum) :
    s.pending i = l i := by
  rw [Channels.pending, (h.queue i hi).nodes_eq, Option.getD_some]

/-- The memory `heap'`, and the first mbuf `mbufHead` of a list, after the mbuf `a` was put
    behind the mbufs `m` of the list. -/
structure SdiohalList.Appended (list : SdiohalList) (heap heap' : Heap) (m : List Addr) (a : Addr)
    (mbufHead : Option Addr) : Prop where
  first : m = [] → heap'.next = Function.update heap.next a none ∧ mbufHead = some a
  behind : ∀ m' last, m = m' ++ [last] →
    heap'.next = Function.update (Function.update heap.next a none) last (some a) ∧
      mbufHead = list.mbufHead

variable {heap' : Heap} {mbufHead : Option Addr}

/-- An mbuf is the first one of a list. -/
theorem SdiohalList.appended_first (hm : m = [])
    (hnext : heap'.next = Function.update heap.next a none) :
    list.Appended heap heap' m a (some a) :=
  ⟨fun _ => ⟨hnext, rfl⟩, fun m' last hlast => absurd (hm.symm.trans hlast) (by simp)⟩

theorem SdiohalList.appended_behind {last : Addr} (hlast : m.getLast? = some last)
    (hnext : heap'.next = Function.update (Function.update heap.next a none) last (some a)) :
    list.Appended heap heap' m a list.mbufHead := by
  refine ⟨fun hm => absurd hlast (by simp [hm]), fun m' last' hm => ⟨?_, rfl⟩⟩
  rw [hm, List.getLast?_concat, Option.some_inj] at hlast
  rw [hlast, hnext]

/-- A list is empty, or has a last mbuf. -/
theorem SdiohalList.Queue.empty_or_last (h : list.Queue heap subtype m) :
    (list.nodeNum = 0 ∧ m = []) ∨
      (list.nodeNum ≠ 0 ∧ ∃ last, m.getLast? = some last ∧ list.mbufTail = some last) := by
  rcases List.eq_nil_or_concat' m with rfl | ⟨m', last, rfl⟩
  · exact .inl ⟨h.nodeNum, rfl⟩
  · refine .inr ⟨by simp [h.nodeNum], last, List.getLast?_concat, ?_⟩
    rw [(h.holds (by simp)).mbufTail, List.getLast?_concat]

/-- Only the new mbuf and the one before it are written to. -/
theorem SdiohalList.Appended.frame (h : list.Appended heap heap' m a mbufHead) {b : Addr}
    (hba : b ≠ a) (hbm : b ∉ m) : heap'.next b = heap.next b := by
  rcases List.eq_nil_or_concat' m with hnil | ⟨m', last, hlast⟩
  · rw [(h.first hnil).1, Function.update_of_ne hba]
  · have hne : b ≠ last := fun heq => hbm (heq ▸ hlast ▸ by simp)
    rw [(h.behind m' last hlast).1, Function.update_of_ne hne, Function.update_of_ne hba]

/-- An mbuf that is queued is the last one then. -/
theorem SdiohalList.Queue.append (h : list.Queue heap subtype m) (ha : a ∉ m)
    (happ : list.Appended heap heap' m a mbufHead) (type : ℕ) :
    SdiohalList.Queue ⟨mbufHead, some a, type, subtype, list.nodeNum + 1⟩ heap' subtype
      (m ++ [a]) := by
  have hnodeNum : list.nodeNum + 1 = (m ++ [a]).length := by
    rw [h.nodeNum, List.length_append, List.length_singleton]
  suffices hholds : Spells heap'.next mbufHead (m ++ [a]) ∧ (m ++ [a]).Nodup from
    ⟨hnodeNum, fun _ => ⟨hholds.1, hholds.2, by simp, hnodeNum⟩, fun _ => rfl⟩
  rcases List.eq_nil_or_concat' m with rfl | ⟨m', last, rfl⟩
  · obtain ⟨hheap, rfl⟩ := happ.first rfl
    rw [hheap]
    exact ⟨⟨rfl, Function.update_self ..⟩, List.nodup_singleton _⟩
  · obtain ⟨hheap, rfl⟩ := happ.behind m' last rfl
    obtain ⟨hspells, hnodup, -, -⟩ := h.holds (by simp)
    have hbefore : Spells (Function.update heap.next a none) list.mbufHead (m' ++ [last]) :=
      hspells.congr fun b hb => Function.update_of_ne (ne_of_mem_of_not_mem hb ha) ..
    have hne : last ≠ a := ne_of_mem_of_not_mem (by simp) ha
    rw [hheap]
    exact ⟨hbefore.append ⟨rfl, Function.update_self ..⟩ hnodup (by simpa using hne),
      List.nodup_append'.2 ⟨hnodup, List.nodup_singleton _, by simpa using ha⟩⟩

/-- What is queued depends on the lists of the channels of this direction only. -/
theorem Channels.Queued.congr {l' : ℕ → List Addr} (h : s.Queued d l)
    (hl : ∀ i < d.listNum, l' i = l i) : s.Queued d l' := by
  refine ⟨fun i hi => ?_, fun i hi j hj => ?_⟩
  · rw [hl i hi]
    exact h.queue i hi
  · rw [hl i hi, hl j hj]
    exact h.disjoint i hi j hj

/-- An mbuf is put behind the last one of the list `i`. -/
theorem Channels.Queued.assign (h : s.Queued d l) (hi : i < d.listNum)
    (hfresh : ∀ j < d.listNum, a ∉ l j)
    (happ : (s.lists i).Appended s.heap heap' (l i) a mbufHead) (type : ℕ) :
    Channels.Queued d
      { s with
        heap := heap'
        lists := Function.update s.lists i
          ⟨mbufHead, some a, type, i, (s.lists i).nodeNum + 1⟩ }
      (Function.update l i (l i ++ [a])) := by
  refine ⟨fun j hj => ?_, fun j hj k hk hjk b hb => ?_⟩
  · by_cases hji : j = i
    · subst hji
      -- The mbuf is fresh, so that it is the last one of this list,
      simp only [Function.update_self]
      exact (h.queue j hj).append (hfresh j hj) happ type
    · simp only [Function.update_of_ne hji]
      -- and the other lists do not see the link that was written.
      exact (h.queue j hj).congr fun b hb =>
        happ.frame (ne_of_mem_of_not_mem hb (hfresh j hj)) (h.disjoint j hj i hi hji b hb)
  · -- No mbuf is in two lists, the new one neither.
    by_cases hji : j = i
    · subst hji
      rw [Function.update_self] at hb
      rw [Function.update_of_ne hjk.symm]
      rcases List.mem_append.1 hb with hb | hb
      · exact h.disjoint j hj k hk hjk b hb
      · rw [List.mem_singleton.1 hb]
        exact hfresh k hk
    · rw [Function.update_of_ne hji] at hb
      by_cases hki : k = i
      · subst hki
        rw [Function.update_self, List.mem_append, List.mem_singleton, not_or]
        exact ⟨h.disjoint j hj k hk hjk b hb, ne_of_mem_of_not_mem hb (hfresh j hj)⟩
      · rw [Function.update_of_ne hki]
        exact h.disjoint j hj k hk hjk b hb

/-! ## What the operations do -/

/-- A link leaves the buffers. -/
@[simp] theorem Heap.buf_setNext (heap : Heap) (a b : Addr) (p : Option Addr) :
    (heap.setNext a p b).buf = (heap b).buf := by
  by_cases hb : b = a
  · subst hb
    simp [Heap.setNext]
  · simp [Heap.setNext, hb]

/-- A packet that was received is put at the end of the list of its channel. -/
theorem sdiohalDataListAssignment_spec (h : s.Queued .rx l) {puh : Puh}
    (hsub : puh.subtype < sdioChnRxNum) (hfresh : ∀ j < sdioChnRxNum, a ∉ l j) :
    ∃ s', sdiohalDataListAssignment a puh
        (sdiohalHwtypeToChannel false puh.type puh.subtype) s = some s' ∧
      s'.Queued .rx (Function.update l puh.subtype (l puh.subtype ++ [a])) := by
  have hindex : sdiohalHwtypeToChannel false puh.type puh.subtype - sdioChnTxNum =
      puh.subtype := by
    simp [sdiohalHwtypeToChannel]
  simp only [sdiohalDataListAssignment, hindex]
  rw [if_neg (Nat.not_le.2 hsub)]
  rcases (h.queue puh.subtype hsub).empty_or_last with ⟨hzero, hnil⟩ | ⟨hpos, last, hlast, htail⟩
  · rw [if_pos hzero]
    refine ⟨_, rfl, h.assign hsub hfresh (SdiohalList.appended_first hnil ?_) _⟩
    rw [Heap.next_setNext]
  · have hne : last ≠ a := ne_of_mem_of_not_mem (List.mem_of_getLast? hlast) (hfresh _ hsub)
    rw [if_neg hpos, htail]
    refine ⟨_, rfl, h.assign hsub hfresh (SdiohalList.appended_behind hlast ?_) _⟩
    rw [Heap.next_setNext, Heap.next_setNext, Function.update_comm hne]

/-- What an assignment of packets that were sent leaves alone: the calls so far, the buffers, and
    what other mbufs lead to. -/
structure Channels.Frame (s s' : Channels) (others : Addr → Prop) : Prop where
  calls : s'.calls = s.calls
  buf : ∀ a, (s'.heap a).buf = (s.heap a).buf
  next : ∀ a, others a → s'.heap.next a = s.heap.next a

/-- A packet that was sent is put at the end of the list of its channel, if it is one. -/
theorem txPopAssign_spec (h : s.Queued .tx l) (hfresh : ∀ j < sdioChnTxNum, a ∉ l j) :
    ∃ s', txPopAssign a s = some s' ∧
      s'.Queued .tx (Function.update l (txChannel s.heap a) (l (txChannel s.heap a) ++ [a])) ∧
      s.Frame s' fun b => b ≠ a ∧ ∀ j < sdioChnTxNum, b ∉ l j := by
  set i := txChannel s.heap a with hi
  simp only [txPopAssign, ← hi]
  by_cases hlt : i < sdioChnTxNum
  · rw [if_neg (Nat.not_le.2 hlt)]
    rcases (h.queue i hlt).empty_or_last with ⟨hzero, hnil⟩ | ⟨hpos, last, hlast, htail⟩
    · rw [if_pos hzero]
      have happ : (s.lists i).Appended s.heap (s.heap.setNext a none) (l i) a (some a) :=
        SdiohalList.appended_first hnil (Heap.next_setNext ..)
      refine ⟨_, rfl, h.assign hlt hfresh happ _, rfl, fun b => Heap.buf_setNext .., ?_⟩
      exact fun b hb => happ.frame hb.1 (hb.2 i hlt)
    · rw [if_neg hpos, htail]
      have happ : (s.lists i).Appended s.heap ((s.heap.setNext a none).setNext last (some a)) (l i)
          a (s.lists i).mbufHead :=
        SdiohalList.appended_behind hlast (by rw [Heap.next_setNext, Heap.next_setNext])
      refine ⟨_, rfl, h.assign hlt hfresh happ _, rfl, fun b => ?_, ?_⟩
      · exact (Heap.buf_setNext ..).trans (Heap.buf_setNext ..)
      · exact fun b hb => happ.frame hb.1 (hb.2 i hlt)
  · -- The channel is an error, and the packet is passed over.
    rw [if_pos (Nat.not_lt.1 hlt)]
    refine ⟨s, rfl, h.congr fun j hj => ?_, rfl, fun _ => rfl, fun _ _ => rfl⟩
    rw [Function.update_of_ne]
    exact fun heq => hlt (heq ▸ hj)

/-- The packets of a batch that were sent on the channel `i`. -/
def sentOn (heap : Heap) (batch : List Addr) (i : ℕ) : List Addr :=
  batch.filter fun a => txChannel heap a = i

/-- The packets of a batch are put at the ends of the lists of their channels, in order. -/
theorem txPopAssignment_spec {batch : List Addr} {p : Option Addr} (h : s.Queued .tx l)
    (hspells : Spells s.heap.next p batch) (hnodup : batch.Nodup)
    (hfresh : ∀ a ∈ batch, ∀ j < sdioChnTxNum, a ∉ l j) :
    ∃ s', txPopAssignment batch.length p s = some s' ∧ s'.calls = s.calls ∧
      s'.Queued .tx fun i => l i ++ sentOn s.heap batch i := by
  induction batch generalizing s p l with
  | nil => exact ⟨s, rfl, rfl, h.congr fun i _ => List.append_nil _⟩
  | cons a batch ih =>
    obtain ⟨rfl, hspells⟩ := hspells
    obtain ⟨ha, hnodup⟩ := List.nodup_cons.1 hnodup
    rw [List.forall_mem_cons] at hfresh
    obtain ⟨t, ht, hqueued, hframe⟩ := txPopAssign_spec h hfresh.1
    have hchannel : txChannel t.heap = txChannel s.heap := by
      funext b
      rw [txChannel, txChannel, hframe.buf]
    -- The rest of the batch is linked as before, and still in no list.
    have hspells' : Spells t.heap.next (s.heap.next a) batch :=
      hspells.congr fun b hb =>
        hframe.next b ⟨ne_of_mem_of_not_mem hb ha, hfresh.2 b hb⟩
    have hfresh' : ∀ b ∈ batch, ∀ j < sdioChnTxNum,
        b ∉ Function.update l (txChannel s.heap a) (l (txChannel s.heap a) ++ [a]) j := by
      intro b hb j hj
      by_cases hja : j = txChannel s.heap a
      · subst hja
        rw [Function.update_self, List.mem_append, List.mem_singleton, not_or]
        exact ⟨hfresh.2 b hb _ hj, ne_of_mem_of_not_mem hb ha⟩
      · rw [Function.update_of_ne hja]
        exact hfresh.2 b hb j hj
    obtain ⟨s', hs', hcalls, hqueued'⟩ := ih hqueued hspells' hnodup hfresh'
    refine ⟨s', ?_, hcalls.trans hframe.calls, hqueued'.congr fun i _ => ?_⟩
    · simp only [List.length_cons, txPopAssignment, ht]
      exact hs'
    · rw [sentOn, sentOn, hchannel]
      by_cases hia : i = txChannel s.heap a
      · subst hia
        simp
      · rw [Function.update_of_ne hia, List.filter_cons_of_neg (by simpa using Ne.symm hia)]

/-- The call of the list `i`, if it is not empty and its channel has a callback. -/
def callOf (d : Direction) (cb : Callbacks) (l : ℕ → List Addr) (i : ℕ) :
    List (ℕ × List Addr) :=
  if l i ≠ [] ∧ cb.registered (d.channel i) then [(d.channel i, l i)] else []

/-- A list is handed over, and empty then. -/
theorem dispatchList_spec (hd : d.Valid) (hcb : cb.KeepOthers) (h : s.Queued d l)
    (hi : i < d.listNum) :
    ∃ s', dispatchList d cb s i = some s' ∧ s'.Queued d (Function.update l i []) ∧
      s'.calls = s.calls ++ callOf d cb l i := by
  have hqueue := h.queue i hi
  rw [dispatchList, callOf]
  -- An empty list is passed. Another one goes to the driver of its channel, and is empty
  -- afterwards.
  by_cases hnil : l i = []
  · rw [if_pos (by rw [hqueue.nodeNum, hnil, List.length_nil]), if_neg (by simp [hnil])]
    refine ⟨s, rfl, ?_, (List.append_nil _).symm⟩
    rwa [← hnil, Function.update_eq_self]
  · have hchannel : sdiohalHwtypeToChannel d.inout (s.lists i).type (s.lists i).subtype =
        d.channel i := by
      rw [hqueue.subtype hnil]
      rfl
    simp only [hchannel]
    rw [if_neg (by rw [hqueue.nodeNum]; simpa using hnil),
      if_neg (Nat.not_le.2 (hd.channel_lt i hi)), hqueue.nodes_eq]
    refine ⟨_, rfl, ⟨fun j hj => ?_, fun j hj k hk hjk b hb => ?_⟩, ?_⟩
    · -- The callback may write to the mbufs that it was given, which are in no other list.
      by_cases hji : j = i
      · subst hji
        simp only [Function.update_self]
        exact SdiohalList.queue_nil rfl
      · simp only [Function.update_of_ne hji]
        exact (h.queue j hj).congr fun b hb =>
          hcb s i j (Ne.symm hji) b (by rwa [h.pending_eq hj])
    · by_cases hji : j = i
      · simp [hji] at hb
      · rw [Function.update_of_ne hji] at hb
        by_cases hki : k = i
        · simp [hki]
        · rw [Function.update_of_ne hki]
          exact h.disjoint j hj k hk hjk b hb
    · by_cases hreg : cb.registered (d.channel i) = true <;> simp [hnil, hreg]

/-! ## The whole loop -/

/-- The heads of the lists are a ring, in the order of the lists. -/
theorem isRing_sdiohalListInit (hd : d.Valid) :
    IsRing (sdiohalListInit d) 0 (List.range' 1 (d.listNum - 1)) := by
  obtain ⟨n, hn⟩ := Nat.exists_eq_succ_of_ne_zero hd.listNum_pos.ne'
  rw [sdiohalListInit, hn, Nat.succ_sub_one]
  clear hn
  induction n with
  | zero => exact isRing_init ..
  | succ n ih =>
    rw [List.range_succ, List.foldl_append, List.foldl_cons, List.foldl_nil,
      if_neg (Nat.succ_ne_zero n), List.range'_1_concat, Nat.add_comm 1 n]
    exact ih.add_tail (by simp; omega)

/-- All lists but the last one are visited, in order. -/
theorem visited_sdiohalListInit (hd : d.Valid) :
    visited (sdiohalListInit d) 0 d.listNum 0 = some (List.range (d.listNum - 1)) := by
  obtain ⟨n, hn⟩ := Nat.exists_eq_succ_of_ne_zero hd.listNum_pos.ne'
  have hrange : 0 :: List.range' 1 n = List.range (n + 1) := by
    rw [List.range_eq_range', List.range'_succ]
  rw [(isRing_sdiohalListInit hd).visited_eq (by simp [hn]), hn, Nat.succ_sub_one, hrange,
    List.range_succ, List.dropLast_concat]

/-- The first `m` turns of the loop. -/
theorem foldlM_dispatchList (hd : d.Valid) (hcb : cb.KeepOthers) (h : s.Queued d l) {m : ℕ}
    (hm : m ≤ d.listNum) :
    ∃ s', (List.range m).foldlM (dispatchList d cb) s = some s' ∧
      s'.Queued d (fun i => if i < m then [] else l i) ∧
      s'.calls = s.calls ++ (List.range m).flatMap (callOf d cb l) := by
  induction m with
  | zero => exact ⟨s, rfl, h.congr fun _ _ => rfl, (List.append_nil _).symm⟩
  | succ m ih =>
    obtain ⟨t, ht, hqueued, hcalls⟩ := ih (Nat.le_of_succ_le hm)
    obtain ⟨s', hs', hqueued', hcalls'⟩ := dispatchList_spec hd hcb hqueued hm
    have hcall : callOf d cb (fun i => if i < m then [] else l i) m = callOf d cb l m := by
      simp [callOf]
    refine ⟨s', ?_, hqueued'.congr fun i _ => ?_, ?_⟩
    · rw [List.range_succ, List.foldlM_append, ht]
      simp [hs']
    · by_cases him : i = m
      · simp [him]
      · rw [Function.update_of_ne him]
        simp only [Nat.lt_succ_iff_lt_or_eq, him, or_false]
    · rw [hcalls', hcalls, hcall, List.range_succ, List.flatMap_append, List.flatMap_singleton,
        List.append_assoc]

/-- The mbufs that are still in the lists after the loop. -/
def leftBehind (d : Direction) (l : ℕ → List Addr) (i : ℕ) : List Addr :=
  if i < d.listNum - 1 then [] else l i

/-- All lists but the last one are handed over, in order. -/
theorem dispatch_spec (hd : d.Valid) (hcb : cb.KeepOthers) (h : s.Queued d l) :
    ∃ s', dispatch d cb s = some s' ∧ s'.Queued d (leftBehind d l) ∧
      s'.calls = s.calls ++ (List.range (d.listNum - 1)).flatMap (callOf d cb l) := by
  rw [dispatch, visited_sdiohalListInit hd]
  exact foldlM_dispatchList hd hcb h (Nat.sub_le ..)

end W132d.Sdio
