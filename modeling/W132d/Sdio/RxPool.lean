import W132d.Sdio.Dispatch
import W132d.Sdio.Parser
import W132d.Sdio.Queue

/-!
# The mbufs of the receive path

With ADMA, the receive thread takes mbufs off the list of free ones, lets the bus read packets into
them, and puts each of them into the list of its channel, or back if its header is bad. Without it,
all packets are read into one buffer, and an mbuf is taken for each packet that is found there. The
thread then hands the lists of the channels over to the drivers, which give the mbufs back when they
like, several at once and in chains of their own making (`sdiohal_rx_list_free`). The list of free
mbufs is read and written under a lock, but for the look at their number before some are taken.

* `RxPath`: the mbufs, the lists, and where the receive thread is;
* `rxPath`: the machine of the receive thread and of any number of drivers, one section of the lock
  or one turn of a loop of the thread at a time;
* `Fair`: a driver gives back a chain of mbufs that it has, of as many as it says, and writes to
  such mbufs only;
* `Inv`, `step_inv`: what every step keeps, and that none reads behind `NULL`;
* `rxPath_accounted`: every mbuf is always in exactly one place, and none is lost but those of an
  ADMA transfer that has failed.

The pages that mbufs point to are in `W132d.Sdio.Frag`. The number of mbufs is far from leaving its
32 bits.

A list of mbufs is a chain in memory, with its head, its tail and its length
(`W132d.Sdio.Dispatch`). A driver may write to an mbuf that it has, its link included, at any time,
also while the receive thread is between two steps. So what is kept is said of the links of the
mbufs that are not with a driver, and each of the functions is described by the lists before and
after it: `sdiohalRxListFree_spec` puts a chain behind the free mbufs, `sdiohalGetRxMbufNode_spec`
takes some off the front.

How the theorem is proved: `Places` says which mbufs are in the free list, in the hands of the
thread, in the lists of the channels, and elsewhere, and that these are all. What the thread has in
hand depends on where it is (`Pc.Has`), so that there is one lemma for each place, and the step
lemma (`step_inv`) is their sum. An mbuf goes from the thread to a channel (`parsed_assign`), from
there to a driver or back (`handOver_spec`), and from a driver back (`push_inv`), so that the list
of all mbufs is only permuted.
-/

namespace W132d.Sdio.RxPool

/-! ## State -/

/-- The buffer that `sdiohal_rx_buf_parser` walks through, and its local variables. -/
structure RxBufWalk where
  mem : Memory
  validLen : UInt32
  puh : ℕ
  parseLen : UInt32

namespace RxBufWalk

variable (b : RxBufWalk)

/-- The header that it has come to. -/
def header : Puh := b.mem.puh b.puh

/-- The lengths are added. -/
def check : RxBufWalk :=
  { b with mem := b.mem.check b.puh, parseLen := b.parseLen + UInt32.ofNat b.header.len }

/-- It goes on to the next header. -/
def next : RxBufWalk := { b with puh := b.header.behind b.puh }

/-- The packet with its header. -/
def packet : List UInt8 := (List.range (puhSize + b.header.len)).map fun i => b.mem (b.puh + i)

end RxBufWalk

/-- Where the receive thread is. -/
inductive Pc where
  /-- Before `sdiohal_get_rx_mbuf_list`. -/
  | idle
  /-- In `sdiohal_get_rx_mbuf_node`, before its section. -/
  | take (num : ℕ)
  /-- In the loop of `sdiohal_get_rx_mbuf_list`, with so many turns to go. -/
  | fill (dataList : SdiohalList) (mbufTemp : Option Addr) (i : ℕ)
  /-- Before `sdiohal_adma_pt_read`. -/
  | read (dataList : SdiohalList)
  /-- In the loop of `sdiohal_rx_list_parser`, with so many turns to go. -/
  | parse (mbufNext : Option Addr) (i : ℕ)
  /-- Before `sdiohal_sdio_pt_read`. -/
  | readBuf
  /-- In the loop of `sdiohal_rx_buf_parser`. -/
  | parseBuf (b : RxBufWalk)
  /-- In `sdiohal_get_rx_mbuf_node` for one of its packets, before its section. -/
  | takeBuf (b : RxBufWalk)
  /-- After it. -/
  | assignBuf (b : RxBufWalk) (dataList : SdiohalList)
  /-- In the loop of `sdiohal_rx_list_dispatch`, with these lists to go. -/
  | dispatch (lists : List ℕ)

/-- The receive path. The mbufs that drivers have, and those that nobody has any more, are a
    record only. -/
structure RxPath where
  channels : Channels
  listRxBuf : SdiohalList
  remainPacNum : ℕ
  pc : Pc
  owned : List Addr
  lost : List Addr

/-- The mbufs in memory. -/
def RxPath.heap (s : RxPath) : Heap := s.channels.heap

/-- The state with other mbufs. -/
def RxPath.setHeap (s : RxPath) (heap : Heap) : RxPath :=
  { s with channels := { s.channels with heap } }

/-- The loop of `sdiohal_alloc_rx_mbuf_nodes`, for the mbufs that it allocates. -/
def link : List Addr → Heap → Heap
  | [], heap => heap
  | [a], heap => heap.setNext a none
  | a :: b :: l, heap => link (b :: l) (heap.setNext a (some b))

/-- After `sdiohal_alloc_rx_mbuf_nodes`, and `sdiohal_rx_adapt_set_pac_num(1)`. -/
def RxPath.start (mbufs : List Addr) (heap : Heap) : RxPath where
  channels := .start (link mbufs heap)
  listRxBuf := { SdiohalList.zero with
    mbufHead := mbufs.head?, mbufTail := mbufs.getLast?, nodeNum := mbufs.length }
  remainPacNum := 1
  pc := .idle
  owned := []
  lost := []

/-! ## Functions -/

/-- `sdiohal_rx_adapt_set_pac_num`. -/
def sdiohalRxAdaptSetPacNum (num : ℕ) : ℕ :=
  if num = 0 then 1 else if num ≥ maxChainNodeNum then maxChainNodeNum else num

/-- The section of `sdiohal_get_rx_mbuf_node`. It crashes if there are fewer mbufs than `num`. -/
def sdiohalGetRxMbufNode (num : ℕ) (s : RxPath) : Option (SdiohalList × RxPath) := do
  let mbufHead := s.listRxBuf.mbufHead
  let mbufTail ← advance s.heap.next (num - 1) mbufHead
  let nodeNum := s.listRxBuf.nodeNum - num
  let listRxBuf :=
    if nodeNum = 0 then { s.listRxBuf with mbufHead := none, mbufTail := none, nodeNum }
    else { s.listRxBuf with mbufHead := s.heap.next mbufTail, nodeNum }
  let idleList := { SdiohalList.zero with mbufHead, mbufTail := some mbufTail, nodeNum := num }
  some (idleList, { s with listRxBuf }.setHeap (s.heap.setNext mbufTail none))

/-- The mbufs without their buffers. -/
def clear (mbufs : List Addr) (heap : Heap) : Heap :=
  fun a => if a ∈ mbufs then { heap a with buf := [], len := 0 } else heap a

/-- `sdiohal_rx_list_free`. It crashes if there are fewer mbufs than `num`, or the list of free
    ones is not empty and has no last one. -/
def sdiohalRxListFree (mbufHead mbufTail : Option Addr) (num : ℕ) (s : RxPath) :
    Option RxPath := do
  let mbufs ← nodes s.heap.next num mbufHead
  let heap := clear mbufs s.heap
  let (heap, head) ←
    if s.listRxBuf.nodeNum = 0 then some (heap, mbufHead)
    else do
      let last ← s.listRxBuf.mbufTail
      some (heap.setNext last mbufHead, s.listRxBuf.mbufHead)
  some ({ s with
    listRxBuf := { s.listRxBuf with
      mbufHead := head
      mbufTail
      nodeNum := s.listRxBuf.nodeNum + num } }.setHeap heap)

/-- A turn of the loop of `sdiohal_rx_list_parser`, after it has read `mbuf_next`. -/
def parseNode (blkSize : Bool) (mbufNode : Addr) (s : RxPath) : Option RxPath :=
  let mbuf := s.heap mbufNode
  let puh := Puh.ofBytes mbuf.buf
  if puh.eof = 0 ∧ puh.type ≠ 0xF then
    let puh := puh.checked
    let buf := puh.toBytes ++ mbuf.buf.drop puhSize
    let s := s.setHeap (Function.update s.heap mbufNode { mbuf with buf })
    if puh.Rejected blkSize then sdiohalRxListFree (some mbufNode) (some mbufNode) 1 s
    else do
      -- `MAX_MBUF_SIZE`.
      let len := 2 * 2 ^ 10
      let s := s.setHeap (Function.update s.heap mbufNode { s.heap mbufNode with len })
      let channels ← sdiohalDataListAssignment mbufNode puh
        (sdiohalHwtypeToChannel false puh.type puh.subtype) s.channels
      some { s with channels }
  else sdiohalRxListFree (some mbufNode) (some mbufNode) 1 s

/-- A turn of the loop of `sdiohal_rx_list_dispatch`, for the list `i`. The operations of its
    channel are registered or not. -/
def handOver (registered : Bool) (s : RxPath) (i : ℕ) : Option RxPath := do
  let list := s.channels.lists i
  if list.nodeNum = 0 then some s
  else
    let channel := sdiohalHwtypeToChannel false list.type list.subtype
    if sdioChannelNum ≤ channel then some s
    else do
      let mbufs ← nodes s.heap.next list.nodeNum list.mbufHead
      let s ←
        if registered then some { s with
          channels := { s.channels with calls := s.channels.calls ++ [(channel, mbufs)] }
          owned := s.owned ++ mbufs }
        else sdiohalRxListFree list.mbufHead list.mbufTail list.nodeNum s
      some { s with
        channels := { s.channels with
          lists := Function.update s.channels.lists i list.emptied } }

/-! ## The machine -/

/-- What the receive thread finds in its next step. -/
structure Answer where
  /-- There is memory, or the transfer has succeeded. -/
  ok : Bool
  /-- What has been read into each mbuf. -/
  bytes : Addr → List UInt8
  /-- What has been read into the one buffer, and the valid length that is behind it. -/
  mem : Memory
  validLen : UInt32
  registered : Bool
  /-- The number of packets that the chip has. -/
  dtbs : ℕ

inductive Event where
  /-- The receive thread goes on. -/
  | rx (answer : Answer)
  /-- A driver calls `sdiohal_list_push`, while the bus is ready or not. -/
  | push (ready : Bool) (head tail : Addr) (num : ℕ)
  /-- A driver writes to an mbuf. -/
  | write (a : Addr) (mbuf : Mbuf)

/-- The receive thread goes on with `submit_list`. -/
def submit (s : RxPath) : Option RxPath := do
  let lists ← visited (sdiohalListInit .rx) 0 Direction.rx.listNum 0
  some { s with pc := .dispatch lists }

/-- A turn of the loop of `sdiohal_rx_buf_parser`, up to the section of
    `sdiohal_get_rx_mbuf_node`. -/
def parseBuf (blkSize : Bool) (answer : Answer) (b : RxBufWalk) (s : RxPath) : Option RxPath :=
  if ¬b.parseLen < b.validLen ∨ b.header.eof ≠ 0 then submit s
  else if b.header.type = 0xF then some { s with pc := .parseBuf b.next }
  -- A packet that is rejected is looked at again, with its longer length.
  else if b.header.checked.Rejected blkSize then some { s with pc := .parseBuf b.check }
  else if 1 > s.listRxBuf.nodeNum ∨ answer.ok = false then submit s
  else some { s with pc := .takeBuf b.check }

/-- The mbuf is the packet's, and goes into the list of its channel. -/
def assignBuf (b : RxBufWalk) (dataList : SdiohalList) (s : RxPath) : Option RxPath := do
  let mbufNode ← dataList.mbufTail
  let mbuf := { s.heap mbufNode with buf := b.packet, len := b.header.len }
  let s := s.setHeap (Function.update s.heap mbufNode mbuf)
  let channels ← sdiohalDataListAssignment mbufNode b.header
    (sdiohalHwtypeToChannel false b.header.type b.header.subtype) s.channels
  some { s with channels, pc := .parseBuf b.next }

/-- A step of the receive thread, with ADMA or without. -/
def rxStep (adma blkSize polling : Bool) (answer : Answer) (s : RxPath) : Option RxPath :=
  match s.pc with
  | .idle =>
    if adma then
      let num := s.remainPacNum
      if num = 0 ∨ num > s.listRxBuf.nodeNum ∨ answer.ok = false then submit s
      else some { s with pc := .take num }
    -- `sdiohal_get_rx_free_buf`
    else if answer.ok = false then submit s
    else some { s with pc := .readBuf }
  | .take num => do
    let (dataList, s) ← sdiohalGetRxMbufNode num s
    some { s with pc := .fill dataList dataList.mbufHead num }
  | .fill dataList _ 0 => some { s with pc := .read dataList }
  | .fill _ none (_ + 1) => none
  | .fill dataList (some mbufTemp) (i + 1) =>
    if answer.ok then some { s with pc := .fill dataList (s.heap.next mbufTemp) i }
    else do
      let s ← sdiohalRxListFree dataList.mbufHead dataList.mbufTail dataList.nodeNum s
      submit s
  | .read dataList => do
    let mbufs ← nodes s.heap.next dataList.nodeNum dataList.mbufHead
    let s := s.setHeap fun a =>
      if a ∈ mbufs then { s.heap a with buf := answer.bytes a } else s.heap a
    if answer.ok = false ∧ polling = false then submit { s with lost := s.lost ++ mbufs }
    else some { s with pc := .parse dataList.mbufHead dataList.nodeNum }
  | .parse _ 0 => submit s
  | .parse none (_ + 1) => none
  | .parse (some mbufNode) (i + 1) => do
    let mbufNext := s.heap.next mbufNode
    let s ← parseNode blkSize mbufNode s
    some { s with pc := .parse mbufNext i }
  | .readBuf =>
    if answer.ok = false ∧ polling = false then submit s
    else some { s with pc := .parseBuf ⟨answer.mem, answer.validLen, 0, 0⟩ }
  | .parseBuf b => parseBuf blkSize answer b s
  | .takeBuf b => do
    let (dataList, s) ← sdiohalGetRxMbufNode 1 s
    some { s with pc := .assignBuf b dataList }
  | .assignBuf b dataList => assignBuf b dataList s
  | .dispatch [] =>
    -- The number of bytes that `sdiohal_rx_adapt_set_dtbs` sets is left out.
    let remainPacNum := if adma then sdiohalRxAdaptSetPacNum answer.dtbs else s.remainPacNum
    some { s with pc := .idle, remainPacNum }
  | .dispatch (i :: lists) => do
    let s ← handOver answer.registered s i
    some { s with pc := .dispatch lists }

/-- `sdiohal_mbuf_list_check`. It reads what is behind each of `num` mbufs, and crashes if there are
    fewer. -/
def sdiohalMbufListCheck (heap : Heap) (head : Addr) (num : ℕ) : Option Unit := do
  let _ ← nodes heap.next num (some head)
  some ()

/-- `sdiohal_list_push`, for the channel of a driver that receives. -/
def sdiohalListPush (ready : Bool) (head tail : Addr) (num : ℕ) (s : RxPath) : Option RxPath :=
  if ready = false then some s
  else do
    sdiohalMbufListCheck s.heap head num
    if num = 0 then some s
    else match nodes s.heap.next num (some head) with
      | none => some s
      | some mbufs => do
        let s ← sdiohalRxListFree (some head) (some tail) num s
        some { s with owned := s.owned.diff mbufs }

/-- The receive thread and the drivers. -/
def rxPath (adma blkSize polling : Bool) : Machine RxPath Event where
  step s
    | .rx answer => rxStep adma blkSize polling answer s
    | .push ready head tail num => sdiohalListPush ready head tail num s
    | .write a mbuf => some (s.setHeap (Function.update s.heap a mbuf))

/-- Who gives back `num` mbufs has a chain of as many, and who writes to an mbuf has it. -/
def Fair (s : RxPath) : Event → Prop
  | .rx _ => True
  | .push _ head tail num => ∃ mbufs ∈ nodes s.heap.next num (some head),
    mbufs.Nodup ∧ mbufs ⊆ s.owned ∧ (num ≠ 0 → mbufs.getLast? = some tail)
  | .write a _ => a ∈ s.owned

instance (s : RxPath) : DecidablePred (Fair s)
  | .rx _ => inferInstanceAs (Decidable True)
  | .push _ _ _ _ => inferInstanceAs (Decidable (∃ mbufs ∈ nodes _ _ _, _ ∧ _ ∧ _))
  | .write _ _ => inferInstanceAs (Decidable (_ ∈ _))

/-! ## The free mbufs -/

/-- The free mbufs are `l`. The last one may lead anywhere. -/
structure Pooled (heap : Heap) (list : SdiohalList) (l : List Addr) : Prop where
  nodeNum : list.nodeNum = l.length
  mbufHead : l ≠ [] → list.mbufHead = l.head?
  mbufTail : l ≠ [] → list.mbufTail = l.getLast?
  linked : Linked heap.next l

variable {s s' : RxPath} {heap heap' : Heap} {list : SdiohalList}
  {pool data chain mbufs : List Addr} {l : ℕ → List Addr} {head tail : Option Addr} {a : Addr}
  {num i : ℕ}

/-- The pool depends on the links of its mbufs only. -/
theorem Pooled.congr (h : Pooled heap list pool) (heq : ∀ a ∈ pool, heap'.next a = heap.next a) :
    Pooled heap' list pool :=
  ⟨h.nodeNum, h.mbufHead, h.mbufTail, h.linked.congr heq⟩

theorem Pooled.nodes_eq (h : Pooled heap list pool) :
    nodes heap.next list.nodeNum list.mbufHead = some pool := by
  rw [h.nodeNum]
  by_cases hpool : pool = []
  · rw [hpool]
    rfl
  · rw [h.mbufHead hpool]
    exact h.linked.nodes_length

/-- The mbufs that were written are those that are read. -/
@[simp] theorem heap_setHeap (s : RxPath) (heap : Heap) : (s.setHeap heap).heap = heap := rfl

/-- Clearing the mbufs of a list leaves their links. -/
theorem next_clear (mbufs : List Addr) (heap : Heap) : (clear mbufs heap).next = heap.next := by
  funext a
  by_cases ha : a ∈ mbufs <;> simp [Heap.next, clear, ha]

/-- Mbufs are put at the end of the free ones. -/
theorem sdiohalRxListFree_spec (hp : Pooled s.heap s.listRxBuf pool)
    (hnodes : nodes s.heap.next num head = some chain) (hne : chain ≠ [])
    (htail : tail = chain.getLast?) (hnodup : pool.Nodup) (hdisjoint : ∀ a ∈ pool, a ∉ chain) :
    ∃ heap' list', sdiohalRxListFree head tail num s =
        some ({ s with listRxBuf := list' }.setHeap heap') ∧
      Pooled heap' list' (pool ++ chain) ∧ ∀ a ∉ pool, heap'.next a = s.heap.next a := by
  obtain ⟨hlinked, hlen, hhead⟩ := linked_of_nodes hnodes
  have hlast : (pool ++ chain).getLast? = tail := by
    rw [List.getLast?_append_of_ne_nil _ hne, htail]
  rw [sdiohalRxListFree, hnodes]
  -- The pool is empty, and the chain becomes it, or the chain is linked behind its tail.
  rcases List.eq_nil_or_concat' pool with rfl | ⟨front, t, rfl⟩
  · have hzero : s.listRxBuf.nodeNum = 0 := hp.nodeNum
    refine ⟨clear chain s.heap, { s.listRxBuf with
      mbufHead := head, mbufTail := tail, nodeNum := s.listRxBuf.nodeNum + num }, ?_,
      ⟨?_, ?_, ?_, ?_⟩, fun a _ => by rw [next_clear]⟩
    · simp only [hzero, if_true]
      rfl
    · simp [hzero, hlen]
    · exact fun _ => hhead hne
    · exact fun _ => hlast.symm
    · rw [next_clear, List.nil_append]
      exact hlinked
  · have hpos : s.listRxBuf.nodeNum ≠ 0 := by simp [hp.nodeNum]
    -- The tail is the last mbuf of the pool, so that only its link is written.
    have ht : s.listRxBuf.mbufTail = some t := by
      rw [hp.mbufTail (by simp), List.getLast?_concat]
    have htchain : t ∉ chain := hdisjoint t (by simp)
    have hnext : ((clear chain s.heap).setNext t head).next =
        Function.update s.heap.next t chain.head? := by
      rw [Heap.next_setNext, next_clear, hhead hne]
    refine ⟨(clear chain s.heap).setNext t head, { s.listRxBuf with
      mbufTail := tail, nodeNum := s.listRxBuf.nodeNum + num }, ?_, ⟨?_, fun _ => ?_, ?_, ?_⟩,
      fun a ha => ?_⟩
    · simp only [hpos, if_false, ht]
      rfl
    · rw [hp.nodeNum, @List.length_append _ (front ++ [t]) chain, hlen]
    · rw [hp.mbufHead (by simp)]
      cases front <;> rfl
    · exact fun _ => hlast.symm
    · rw [hnext]
      exact hp.linked.append hlinked hnodup htchain
    · have hat : a ≠ t := fun heq => ha (heq ▸ by simp)
      rw [hnext, Function.update_of_ne hat]

/-- Mbufs are taken off the start of the free ones. -/
theorem sdiohalGetRxMbufNode_spec {front rest : List Addr} {t : Addr}
    (hp : Pooled s.heap s.listRxBuf (front ++ [t] ++ rest))
    (hnodup : (front ++ [t] ++ rest).Nodup) :
    ∃ dataList heap' list', sdiohalGetRxMbufNode (front.length + 1) s =
        some (dataList, { s with listRxBuf := list' }.setHeap heap') ∧
      dataList.Holds heap' (front ++ [t]) ∧ Pooled heap' list' rest ∧
      ∀ a ≠ t, heap'.next a = s.heap.next a := by
  -- The list is cut behind `t`: its link is cleared, and the pool begins with the next mbuf.
  have ht : t ∉ rest := fun h => List.disjoint_of_nodup_append hnodup (by simp) h
  have hnext : (s.heap.setNext t none).next = Function.update s.heap.next t none :=
    Heap.next_setNext ..
  have hhead : s.listRxBuf.mbufHead = (front ++ [t]).head? := by
    rw [hp.mbufHead (by simp)]
    cases front <;> rfl
  have hadvance : advance s.heap.next front.length s.listRxBuf.mbufHead = some t := by
    rw [hp.mbufHead (by simp), hp.linked.advance_eq (by simp)]
    simp
  have hnum : s.listRxBuf.nodeNum - (front.length + 1) = rest.length := by
    rw [hp.nodeNum]
    simp only [List.length_append, List.length_singleton]
    omega
  have hlinked : Linked (s.heap.setNext t none).next rest := by
    rw [hnext]
    exact Linked.congr hp.linked.right_of_append fun a ha =>
      Function.update_of_ne (ne_of_mem_of_not_mem ha ht) ..
  have hholds : SdiohalList.Holds { SdiohalList.zero with
      mbufHead := s.listRxBuf.mbufHead, mbufTail := some t, nodeNum := front.length + 1 }
      (s.heap.setNext t none) (front ++ [t]) := by
    refine ⟨?_, hnodup.sublist (List.sublist_append_left _ _), ?_, by simp⟩
    · rw [hnext, hhead]
      exact spells_of_isChain hp.linked.left_of_append
        (hnodup.sublist (List.sublist_append_left _ _))
    · rw [List.getLast?_concat]
  have hframe : ∀ a ≠ t, (s.heap.setNext t none).next a = s.heap.next a := by
    intro a ha
    rw [hnext, Function.update_of_ne ha]
  rw [sdiohalGetRxMbufNode, Nat.add_sub_cancel, hadvance]
  refine ⟨_, _, _, rfl, hholds, ?_, hframe⟩
  -- The pool is empty then, or its tail is what it was.
  by_cases hrest : rest = []
  · rw [if_pos (by rw [hnum, hrest, List.length_nil])]
    exact ⟨hnum, fun h => absurd hrest h, fun h => absurd hrest h, hlinked⟩
  · rw [if_neg (by rw [hnum]; exact (List.length_pos_iff.2 hrest).ne')]
    refine ⟨hnum, fun _ => ?_, fun _ => ?_, hlinked⟩
    · obtain ⟨b, m, rfl⟩ := List.exists_cons_of_ne_nil hrest
      have hchain := hp.linked
      rw [List.append_assoc] at hchain
      exact (List.isChain_cons_cons.1 (List.IsChain.right_of_append hchain)).1
    · rw [hp.mbufTail (by simp), List.getLast?_append_of_ne_nil _ hrest]

/-! ## The invariant -/

/-- The mbufs that the receive thread has, while `free` mbufs are free. -/
def Pc.Has (adma : Bool) (heap : Heap) (free : ℕ) (data : List Addr) : Pc → Prop
  | idle | readBuf | parseBuf _ => data = []
  | take num => data = [] ∧ 0 < num ∧ num ≤ free ∧ adma = true
  | fill dataList mbufTemp i => dataList.Holds heap data ∧ data ≠ [] ∧ adma = true ∧
      ∃ rest, rest ⊆ data ∧ rest.length = i ∧ Spells heap.next mbufTemp rest
  | read dataList => dataList.Holds heap data ∧ adma = true
  | parse mbufNext i => Spells heap.next mbufNext data ∧ data.length = i
  | takeBuf b => data = [] ∧ 0 < free ∧ b.header.subtype < sdioChnRxNum
  | assignBuf b dataList =>
    dataList.Holds heap data ∧ data.length = 1 ∧ b.header.subtype < sdioChnRxNum
  | dispatch lists => data = [] ∧ ∀ i ∈ lists, i < sdioChnRxNum

/-- A list depends on the links of its mbufs only. -/
theorem holds_congr (h : list.Holds heap data) (heq : ∀ a ∈ data, heap'.next a = heap.next a) :
    list.Holds heap' data :=
  ⟨h.spells.congr heq, h.nodup, h.mbufTail, h.nodeNum⟩

theorem Pc.Has.congr {adma : Bool} {pc : Pc} {free free' : ℕ} (h : pc.Has adma heap free data)
    (hfree : free ≤ free') (heq : ∀ a ∈ data, heap'.next a = heap.next a) :
    pc.Has adma heap' free' data := by
  cases pc with
  | idle | readBuf | parseBuf _ => exact h
  | take num => exact ⟨h.1, h.2.1, h.2.2.1.trans hfree, h.2.2.2⟩
  | fill dataList mbufTemp i =>
    obtain ⟨hholds, hne, hadma, rest, hrest, hlen, hspells⟩ := h
    exact ⟨holds_congr hholds heq, hne, hadma, rest, hrest, hlen,
      hspells.congr fun a ha => heq a (hrest ha)⟩
  | read dataList => exact ⟨holds_congr h.1 heq, h.2⟩
  | takeBuf b => exact ⟨h.1, h.2.1.trans_le hfree, h.2.2⟩
  | assignBuf b dataList => exact ⟨holds_congr h.1 heq, h.2⟩
  | parse mbufNext i => exact ⟨h.1.congr heq, h.2⟩
  | dispatch lists => exact h

/-- The mbufs in the lists of the channels. -/
def inLists (l : ℕ → List Addr) : List Addr := (List.range sdioChnRxNum).flatMap l

/-- All mbufs: the free ones `pool`, those that the receive thread has, those in the lists, and
    those that drivers have or nobody. -/
structure Places (adma polling : Bool) (all : List Addr) (s : RxPath) (pool data : List Addr)
    (l : ℕ → List Addr) : Prop where
  pooled : Pooled s.heap s.listRxBuf pool
  queued : s.channels.Queued .rx l
  perm : (pool ++ data ++ inLists l ++ s.owned ++ s.lost).Perm all
  kept : polling = true ∨ adma = false → s.lost = []

structure Inv (adma polling : Bool) (all : List Addr) (s : RxPath) (pool data : List Addr)
    (l : ℕ → List Addr) : Prop extends Places adma polling all s pool data l where
  has : s.pc.Has adma s.heap pool.length data

/-- No mbuf is in two places. -/
structure Apart (pool data lists owned : List Addr) : Prop where
  nodup_pool : pool.Nodup
  nodup_data : data.Nodup
  nodup_owned : owned.Nodup
  pool_data : ∀ a ∈ pool, a ∉ data
  pool_lists : ∀ a ∈ pool, a ∉ lists
  pool_owned : ∀ a ∈ pool, a ∉ owned
  data_lists : ∀ a ∈ data, a ∉ lists
  data_owned : ∀ a ∈ data, a ∉ owned
  lists_owned : ∀ a ∈ lists, a ∉ owned

variable {adma polling blkSize : Bool} {all : List Addr}

/-- An mbuf is in a list if it is in one of a channel. -/
theorem mem_inLists : a ∈ inLists l ↔ ∃ i < sdioChnRxNum, a ∈ l i := by
  simp [inLists]

/-- No mbuf is in two places. -/
theorem Places.apart (h : Places adma polling all s pool data l) (hall : all.Nodup) :
    Apart pool data (inLists l) s.owned := by
  have hnodup := (h.perm.nodup_iff).2 hall
  simp only [List.nodup_append', List.disjoint_left, List.mem_append] at hnodup
  obtain ⟨⟨⟨⟨hpool, hdata, hpd⟩, _, hl⟩, howned, ho⟩, _⟩ := hnodup
  refine ⟨hpool, hdata, howned, hpd, fun a ha => hl (.inl ha), fun a ha => ho (.inl (.inl ha)),
    fun a ha => hl (.inr ha), fun a ha => ho (.inl (.inr ha)), fun a ha => ho (.inr ha)⟩

/-- One list of the channels is another one. -/
theorem perm_inLists (hi : i < sdioChnRxNum) (m : List Addr) :
    (inLists (Function.update l i m) ++ l i).Perm (inLists l ++ m) := by
  have hmem : i ∈ List.range sdioChnRxNum := List.mem_range.2 hi
  have hnodup : (List.range sdioChnRxNum).Nodup := List.nodup_range
  rw [inLists, inLists]
  generalize List.range sdioChnRxNum = is at hmem hnodup
  induction is with
  | nil => exact absurd hmem List.not_mem_nil
  | cons j is ih =>
    obtain ⟨hj, hnodup⟩ := List.nodup_cons.1 hnodup
    rw [List.flatMap_cons, List.flatMap_cons]
    by_cases hij : i = j
    · subst hij
      have hrest : is.flatMap (Function.update l i m) = is.flatMap l :=
        List.flatMap_congr fun k hk => Function.update_of_ne (ne_of_mem_of_not_mem hk hj) ..
      rw [Function.update_self, hrest]
      refine List.perm_iff_count.2 fun b => ?_
      simp only [List.count_append]
      omega
    · have hmem : i ∈ is := (List.mem_cons.1 hmem).resolve_left hij
      rw [Function.update_of_ne (Ne.symm hij), List.append_assoc, List.append_assoc]
      exact (ih hmem hnodup).append_left _

/-! ## What the functions keep -/

/-- The buffers are written to. -/
theorem Places.setHeap (h : Places adma polling all s pool data l)
    (hnext : heap.next = s.heap.next) :
    Places adma polling all (s.setHeap heap) pool data l where
  pooled := h.pooled.congr fun a _ => congrFun hnext a
  queued := h.queued.write fun _ _ a _ => congrFun hnext a
  perm := h.perm
  kept := h.kept

/-- The mbufs `chain` were put at the end of the free ones. -/
structure Freed (s s' : RxPath) (pool chain : List Addr) (l : ℕ → List Addr) : Prop where
  pooled : Pooled s'.heap s'.listRxBuf (pool ++ chain)
  queued : s'.channels.Queued .rx l
  next : ∀ a ∉ pool, s'.heap.next a = s.heap.next a
  lists : s'.channels.lists = s.channels.lists
  pc : s'.pc = s.pc
  owned : s'.owned = s.owned
  lost : s'.lost = s.lost

/-- A chain is given back to the pool. -/
theorem Places.free (h : Places adma polling all s pool data l) (hall : all.Nodup)
    (hnodes : nodes s.heap.next num head = some chain) (hne : chain ≠ [])
    (htail : tail = chain.getLast?) (hdisjoint : ∀ a ∈ pool, a ∉ chain) :
    ∃ s', sdiohalRxListFree head tail num s = some s' ∧ Freed s s' pool chain l := by
  have hapart := h.apart hall
  obtain ⟨heap', list', hs', hpooled, hnext⟩ :=
    sdiohalRxListFree_spec h.pooled hnodes hne htail hapart.nodup_pool hdisjoint
  refine ⟨_, hs', hpooled, Channels.Queued.write h.queued fun i hi a ha => hnext a fun hpool => ?_,
    hnext, rfl, rfl, rfl, rfl⟩
  rw [h.queued.pending_eq hi] at ha
  exact hapart.pool_lists a hpool (mem_inLists.2 ⟨i, hi, ha⟩)

/-- The receive thread goes on with the lists of the channels. -/
theorem Places.submit (h : Places adma polling all s pool [] l) :
    ∃ s', submit s = some s' ∧ Inv adma polling all s' pool [] l := by
  rw [RxPool.submit, visited_sdiohalListInit Direction.valid_rx]
  refine ⟨_, rfl, ⟨h.pooled, h.queued, h.perm, h.kept⟩, rfl, fun i hi => ?_⟩
  exact (List.mem_range.1 hi).trans (Direction.valid_rx.last_lt)

/-- A list has as many mbufs as it counts. -/
theorem holds_nodes (h : list.Holds heap chain) :
    nodes heap.next list.nodeNum list.mbufHead = some chain := by
  rw [h.nodeNum]
  exact h.spells.nodes_length

/-! ## The receive thread -/

/-- Mbufs are taken for the receive thread, which had none. -/
theorem Places.take (h : Places adma polling all s pool [] l) (hall : all.Nodup) (hpos : 0 < num)
    (hle : num ≤ pool.length) :
    ∃ dataList s' pool' data', sdiohalGetRxMbufNode num s = some (dataList, s') ∧
      Places adma polling all s' pool' data' l ∧ dataList.Holds s'.heap data' ∧
      data'.length = num := by
  have hapart := h.apart hall
  obtain ⟨n, rfl⟩ := Nat.exists_eq_succ_of_ne_zero hpos.ne'
  have htake : pool.take (n + 1) ≠ [] := List.length_pos_iff.1 (by rw [List.length_take]; omega)
  obtain ⟨front, t, hfront⟩ := (List.eq_nil_or_concat' (pool.take (n + 1))).resolve_left htake
  have hlen : front.length = n := by
    have := congrArg List.length hfront
    rw [List.length_take_of_le hle, List.length_append, List.length_singleton] at this
    omega
  obtain ⟨rest, hpool⟩ : ∃ rest, front ++ [t] ++ rest = pool :=
    ⟨pool.drop (n + 1), by rw [← hfront, List.take_append_drop]⟩
  have hpooled := h.pooled
  have hnodup := hapart.nodup_pool
  rw [← hpool] at hpooled hnodup
  obtain ⟨dataList, heap', list', hs', hholds, hrest, hnext⟩ :=
    sdiohalGetRxMbufNode_spec hpooled hnodup
  rw [hlen] at hs'
  have hmem : t ∈ pool := hpool ▸ by simp
  refine ⟨dataList, _, rest, front ++ [t], hs', ⟨hrest, h.queued.write fun i hi a ha => hnext a ?_,
    ?_, h.kept⟩, hholds, by rw [List.length_append, hlen, List.length_singleton]⟩
  · rw [h.queued.pending_eq hi] at ha
    rintro rfl
    exact hapart.pool_lists _ hmem (mem_inLists.2 ⟨i, hi, ha⟩)
  · refine (List.Perm.append_right _ (List.Perm.append_right _ (List.Perm.append_right _ ?_))).trans
      h.perm
    rw [List.append_nil, ← hpool]
    exact List.perm_append_comm

/-- The mbufs for a transfer are taken from the pool, if it has enough. -/
theorem take_inv (h : Inv adma polling all s pool data l) (hall : all.Nodup)
    (hpc : s.pc = .take num) (answer : Answer) :
    ∃ s', rxStep adma blkSize polling answer s = some s' ∧
      ∃ pool' data', Inv adma polling all s' pool' data' l := by
  have hhas := h.has
  rw [hpc] at hhas
  obtain ⟨rfl, hpos, hle, hadma⟩ := hhas
  obtain ⟨dataList, s₁, pool', data', hs₁, hplaces, hholds, hlen⟩ := h.toPlaces.take hall hpos hle
  simp only [rxStep, hpc, hs₁]
  refine ⟨_, rfl, pool', data', ⟨hplaces.pooled, hplaces.queued, hplaces.perm, hplaces.kept⟩,
    hholds, ?_, hadma, data', List.Subset.refl _, hlen, hholds.spells⟩
  exact List.ne_nil_of_length_pos (hlen ▸ hpos)

/-- Each mbuf of the transfer gets a buffer, or all are given back if there is no memory. -/
theorem fill_inv {dataList : SdiohalList} {mbufTemp : Option Addr}
    (h : Inv adma polling all s pool data l) (hall : all.Nodup)
    (hpc : s.pc = .fill dataList mbufTemp i) (answer : Answer) :
    ∃ s', rxStep adma blkSize polling answer s = some s' ∧
      ∃ pool' data', Inv adma polling all s' pool' data' l := by
  have hapart := h.apart hall
  have hhas := h.has
  rw [hpc] at hhas
  obtain ⟨hholds, hne, hadma, rest, hrest, rfl, hspells⟩ := hhas
  cases rest with
  | nil =>
    simp only [rxStep, hpc, List.length_nil]
    exact ⟨_, rfl, pool, data, ⟨h.pooled, h.queued, h.perm, h.kept⟩, hholds, hadma⟩
  | cons a rest =>
    obtain ⟨rfl, hspells⟩ := hspells
    simp only [rxStep, hpc, List.length_cons]
    split_ifs with hok
    · exact ⟨_, rfl, pool, data, ⟨h.pooled, h.queued, h.perm, h.kept⟩, hholds, hne, hadma, rest,
        fun b hb => hrest (List.mem_cons_of_mem _ hb), rfl, hspells⟩
    · -- There is no memory, and all mbufs go back.
      obtain ⟨s₁, hs₁, hfreed⟩ :=
        h.free hall (holds_nodes hholds) hne hholds.mbufTail hapart.pool_data
      have hperm : (pool ++ data ++ [] ++ inLists l ++ s₁.owned ++ s₁.lost).Perm all := by
        rw [hfreed.owned, hfreed.lost, List.append_nil]
        exact h.perm
      have hplaces : Places adma polling all s₁ (pool ++ data) [] l :=
        ⟨hfreed.pooled, hfreed.queued, hperm, fun hp => hfreed.lost.trans (h.kept hp)⟩
      obtain ⟨s', hs', hinv⟩ := hplaces.submit
      refine ⟨s', ?_, _, _, hinv⟩
      rw [hs₁]
      exact hs'

/-- The transfer has succeeded, or its mbufs are left. -/
theorem read_inv {dataList : SdiohalList} (h : Inv adma polling all s pool data l)
    (hpc : s.pc = .read dataList) (answer : Answer) :
    ∃ s', rxStep adma blkSize polling answer s = some s' ∧
      ∃ pool' data', Inv adma polling all s' pool' data' l := by
  have hhas := h.has
  rw [hpc] at hhas
  obtain ⟨hholds, hadma⟩ : dataList.Holds s.heap data ∧ adma = true := hhas
  simp only [rxStep, hpc, holds_nodes hholds]
  set heap : Heap := fun a =>
    if a ∈ data then { s.heap a with buf := answer.bytes a } else s.heap a with hheap
  have hnext : heap.next = s.heap.next := by
    funext a
    by_cases ha : a ∈ data <;> simp [Heap.next, hheap, ha]
  have hplaces := h.toPlaces.setHeap hnext
  by_cases hlost : answer.ok = false ∧ polling = false
  · -- The mbufs of the transfer are forgotten.
    have hplaces' : Places adma polling all
        { s.setHeap heap with lost := s.lost ++ data } pool [] l := by
      refine ⟨hplaces.pooled, hplaces.queued, ?_, fun hp => ?_⟩
      · refine List.Perm.trans (List.perm_iff_count.2 fun b => ?_) hplaces.perm
        simp only [List.count_append, List.count_nil, RxPath.setHeap]
        omega
      · rcases hp with hp | hp
        · exact absurd (hp.symm.trans hlost.2) (by simp)
        · exact absurd (hadma.symm.trans hp) (by simp)
    obtain ⟨s', hs', hinv⟩ := hplaces'.submit
    refine ⟨s', ?_, _, _, hinv⟩
    simp only [Option.bind_eq_bind, Option.bind_some, if_pos hlost]
    exact hs'
  · simp only [Option.bind_eq_bind, Option.bind_some, if_neg hlost]
    refine ⟨_, rfl, pool, data, ⟨hplaces.pooled, hplaces.queued, hplaces.perm, hplaces.kept⟩,
      hholds.spells.congr fun a _ => congrFun hnext a, hholds.nodeNum.symm⟩

/-- A turn of the parser has put the mbuf somewhere, and left the ones behind it. -/
structure Parsed (adma polling : Bool) (all : List Addr) (s s' : RxPath) (rest : List Addr) :
    Prop where
  places : ∃ pool l, Places adma polling all s' pool rest l
  next : ∀ a ∈ rest, s'.heap.next a = s.heap.next a

variable {rest : List Addr}

/-- An mbuf without a packet is given back. -/
theorem parsed_free (h : Places adma polling all s pool (a :: rest) l) (hall : all.Nodup) :
    ∃ s', sdiohalRxListFree (some a) (some a) 1 s = some s' ∧
      Parsed adma polling all s s' rest := by
  have hapart := h.apart hall
  have hdisjoint : ∀ b ∈ pool, b ∉ [a] := fun b hb hba =>
    hapart.pool_data b hb (List.mem_singleton.1 hba ▸ List.mem_cons_self)
  have hnodes : nodes s.heap.next 1 (some a) = some [a] := rfl
  have hlast : some a = [a].getLast? := rfl
  obtain ⟨s', hs', hfreed⟩ := h.free hall hnodes (List.cons_ne_nil a []) hlast hdisjoint
  refine ⟨s', hs', ⟨pool ++ [a], l, hfreed.pooled, hfreed.queued, ?_, fun hp =>
    hfreed.lost.trans (h.kept hp)⟩, fun b hb => hfreed.next b fun hpool => ?_⟩
  · rw [hfreed.owned, hfreed.lost, ← List.append_cons]
    exact h.perm
  · exact hapart.pool_data b hpool (List.mem_cons_of_mem _ hb)

/-- What an assignment leaves alone. -/
theorem sdiohalDataListAssignment_frame {ch ch' : Channels} {puh : Puh} (h : ch.Queued .rx l)
    (hsub : puh.subtype < sdioChnRxNum)
    (hch : sdiohalDataListAssignment a puh
      (sdiohalHwtypeToChannel false puh.type puh.subtype) ch = some ch')
    {b : Addr} (hba : b ≠ a) (hb : ∀ i < sdioChnRxNum, b ∉ l i) :
    ch'.heap.next b = ch.heap.next b := by
  have hindex : sdiohalHwtypeToChannel false puh.type puh.subtype - sdioChnTxNum =
      puh.subtype := by
    simp [sdiohalHwtypeToChannel]
  simp only [sdiohalDataListAssignment, hindex] at hch
  rw [if_neg (Nat.not_le.2 hsub)] at hch
  rcases (h.queue puh.subtype hsub).empty_or_last with ⟨hzero, _⟩ | ⟨hpos, last, hlast, htail⟩
  · rw [if_pos hzero] at hch
    rw [← Option.some.inj hch]
    simp only
    rw [Heap.next_setNext, Function.update_of_ne hba]
  · rw [if_neg hpos, htail] at hch
    have hne : b ≠ last := fun heq => hb _ hsub (heq ▸ List.mem_of_getLast? hlast)
    rw [← Option.some.inj hch]
    simp only
    rw [Heap.next_setNext, Heap.next_setNext, Function.update_of_ne hba,
      Function.update_of_ne hne]

theorem parsed_assign {puh : Puh} (h : Places adma polling all s pool (a :: rest) l)
    (hall : all.Nodup) (hsub : puh.subtype < sdioChnRxNum) :
    ∃ channels, sdiohalDataListAssignment a puh
        (sdiohalHwtypeToChannel false puh.type puh.subtype) s.channels = some channels ∧
      Parsed adma polling all s { s with channels } rest := by
  have hapart := h.apart hall
  have hnot : ∀ b ∈ a :: rest, ∀ i < sdioChnRxNum, b ∉ l i := fun b hb i hi hbl =>
    hapart.data_lists b hb (mem_inLists.2 ⟨i, hi, hbl⟩)
  obtain ⟨channels, hch, hqueued⟩ :=
    sdiohalDataListAssignment_spec h.queued hsub (hnot a List.mem_cons_self)
  have hframe : ∀ b, b ≠ a → (∀ i < sdioChnRxNum, b ∉ l i) →
      channels.heap.next b = s.heap.next b := fun b hba hb =>
    sdiohalDataListAssignment_frame h.queued hsub hch hba hb
  refine ⟨channels, hch, ⟨pool, _, h.pooled.congr fun b hb => hframe b ?_ fun i hi hbl => ?_,
    hqueued, ?_, h.kept⟩, fun b hb => hframe b ?_ (hnot b (List.mem_cons_of_mem _ hb))⟩
  · rintro rfl
    exact hapart.pool_data _ hb List.mem_cons_self
  · exact hapart.pool_lists b hb (mem_inLists.2 ⟨i, hi, hbl⟩)
  · refine List.Perm.trans (List.perm_iff_count.2 fun b => ?_) h.perm
    have hlists := List.perm_iff_count.1 (perm_inLists (l := l) hsub (l puh.subtype ++ [a])) b
    simp only [List.count_append, List.count_cons, List.count_nil] at hlists ⊢
    omega
  · rintro rfl
    exact (List.nodup_cons.1 hapart.nodup_data).1 hb

theorem not_rejected {puh : Puh} (h : ¬puh.Rejected blkSize) : puh.subtype < sdioChnRxNum := by
  have hchannel := (not_or.1 h).1
  rw [ge_iff_le, not_le, sdiohalHwtypeToChannel, sdioChannelNum, Nat.add_comm sdioChnTxNum]
    at hchannel
  exact Nat.lt_of_add_lt_add_right hchannel

/-- Writing to an mbuf leaves the links if it leaves its own. -/
theorem next_update (heap : Heap) (a : Addr) (mbuf : Mbuf) (hmbuf : mbuf.next = (heap a).next) :
    Heap.next (Function.update heap a mbuf) = heap.next := by
  funext b
  by_cases hb : b = a
  · subst hb
    simp [Heap.next, hmbuf]
  · simp [Heap.next, hb]

/-- What a turn of the parser does depends on the links only. -/
theorem Parsed.of_next {heap : Heap} (h : Parsed adma polling all (s.setHeap heap) s' rest)
    (hnext : heap.next = s.heap.next) : Parsed adma polling all s s' rest :=
  ⟨h.places, fun b hb => (h.next b hb).trans (congrFun hnext b)⟩

/-- A turn of the parser gives the mbuf back, or puts it in the list of its channel. -/
theorem parseNode_spec (blkSize : Bool) (h : Places adma polling all s pool (a :: rest) l)
    (hall : all.Nodup) :
    ∃ s', parseNode blkSize a s = some s' ∧ Parsed adma polling all s s' rest := by
  rw [parseNode]
  dsimp only
  set puh := (Puh.ofBytes (s.heap a).buf).checked
  set buf := puh.toBytes ++ (s.heap a).buf.drop puhSize
  have hnext : Heap.next (Function.update s.heap a { s.heap a with buf }) = s.heap.next :=
    next_update _ _ _ rfl
  split_ifs with hpacket hrejected
  · obtain ⟨s', hs', hparsed⟩ := parsed_free (h.setHeap hnext) hall
    exact ⟨s', hs', hparsed.of_next hnext⟩
  · set s₁ := s.setHeap (Function.update s.heap a { s.heap a with buf })
    have hnext₁ : Heap.next (Function.update s₁.heap a { s₁.heap a with len := 2 * 2 ^ 10 }) =
        s₁.heap.next := next_update _ _ _ rfl
    obtain ⟨channels, hch, hparsed⟩ :=
      parsed_assign ((h.setHeap hnext).setHeap hnext₁) hall (not_rejected hrejected)
    refine ⟨_, ?_, (hparsed.of_next hnext₁).of_next hnext⟩
    rw [hch]
    rfl
  · exact parsed_free h hall

/-- The parser goes on with the next mbuf, or has come to the end. -/
theorem parse_inv {mbufNext : Option Addr} (h : Inv adma polling all s pool data l)
    (hall : all.Nodup) (hpc : s.pc = .parse mbufNext i) (answer : Answer) :
    ∃ s', rxStep adma blkSize polling answer s = some s' ∧
      ∃ pool' data' l', Inv adma polling all s' pool' data' l' := by
  have hhas := h.has
  rw [hpc] at hhas
  obtain ⟨hspells, rfl⟩ := hhas
  cases data with
  | nil =>
    simp only [rxStep, hpc, List.length_nil]
    obtain ⟨s', hs', hinv⟩ := h.toPlaces.submit
    exact ⟨s', hs', _, _, _, hinv⟩
  | cons a rest =>
    obtain ⟨rfl, hspells⟩ := hspells
    obtain ⟨s', hs', ⟨pool', l', hplaces⟩, hnext⟩ := parseNode_spec blkSize h.toPlaces hall
    simp only [rxStep, hpc, List.length_cons, hs']
    exact ⟨_, rfl, pool', rest, l', ⟨hplaces.pooled, hplaces.queued, hplaces.perm, hplaces.kept⟩,
      hspells.congr hnext, rfl⟩

/-! ## Dispatch -/

/-- A list is empty now. -/
theorem queued_emptied (ch : Channels) (h : ch.Queued .rx l) (i : ℕ) :
    Channels.Queued .rx
      { ch with lists := Function.update ch.lists i (ch.lists i).emptied }
      (Function.update l i []) := by
  refine ⟨fun j hj => ?_, fun j hj k hk hjk b hb => ?_⟩
  · by_cases hji : j = i
    · subst hji
      simp only [Function.update_self]
      exact SdiohalList.queue_nil rfl
    · simp only [Function.update_of_ne hji]
      exact h.queue j hj
  · by_cases hji : j = i
    · simp [hji] at hb
    · rw [Function.update_of_ne hji] at hb
      by_cases hki : k = i
      · simp [hki]
      · rw [Function.update_of_ne hki]
        exact h.disjoint j hj k hk hjk b hb

/-- A list is handed over to its driver, or given back if there is none. -/
theorem handOver_spec (h : Places adma polling all s pool [] l) (hall : all.Nodup)
    (hi : i < sdioChnRxNum) (registered : Bool) :
    ∃ s', handOver registered s i = some s' ∧
      ∃ pool' l', Places adma polling all s' pool' [] l' := by
  -- The mbufs of the list are in no other place, so that giving them back is safe.
  have hapart := h.apart hall
  have hqueue := h.queued.queue i hi
  have hlists := List.perm_iff_count.1 (perm_inLists (l := l) hi [])
  simp only [List.count_append, List.count_nil] at hlists
  rw [handOver]
  dsimp only
  by_cases hnil : l i = []
  · rw [if_pos (by rw [hqueue.nodeNum, hnil, List.length_nil])]
    exact ⟨s, rfl, pool, l, h⟩
  · have hchannel : ¬sdioChannelNum ≤
        sdiohalHwtypeToChannel false (s.channels.lists i).type (s.channels.lists i).subtype := by
      rw [hqueue.subtype hnil]
      exact Nat.not_le.2 (Direction.valid_rx.channel_lt i hi)
    rw [if_neg (by rw [hqueue.nodeNum]; simpa using hnil), if_neg hchannel]
    have hnodes := hqueue.nodes_eq
    have hheap : s.channels.heap = s.heap := rfl
    rw [hheap] at hnodes
    rw [hnodes]
    cases registered with
    | true =>
      -- The driver owns them from now on.
      refine ⟨_, rfl, pool, _, h.pooled, queued_emptied { s.channels with
        calls := s.channels.calls ++ [_] } ⟨h.queued.queue, h.queued.disjoint⟩ i, ?_, h.kept⟩
      refine List.Perm.trans (List.perm_iff_count.2 fun b => ?_) h.perm
      have := hlists b
      simp only [List.count_append]
      omega
    | false =>
      -- No driver is registered: the mbufs go back to the pool, behind those that are there.
      obtain ⟨hspells, hnodup, htail, hnum⟩ := hqueue.holds hnil
      obtain ⟨s₁, hs₁, hfreed⟩ := h.free hall hnodes hnil htail fun a ha hal =>
        hapart.pool_lists a ha (mem_inLists.2 ⟨i, hi, hal⟩)
      have hempty := queued_emptied _ hfreed.queued i
      rw [hfreed.lists] at hempty
      refine ⟨{ s₁ with channels := { s₁.channels with
        lists := Function.update s₁.channels.lists i (s.channels.lists i).emptied } }, ?_,
        pool ++ l i, Function.update l i [], hfreed.pooled, ?_, ?_, fun hp =>
          hfreed.lost.trans (h.kept hp)⟩
      · simp only [Option.bind_eq_bind, Option.bind_some, Bool.false_eq_true, if_false, hs₁]
      · rw [hfreed.lists]
        exact hempty
      · dsimp only
        rw [hfreed.owned, hfreed.lost]
        refine List.Perm.trans (List.perm_iff_count.2 fun b => ?_) h.perm
        have := hlists b
        simp only [List.count_append, List.count_nil]
        omega

/-- The lists are handed over one after the other. -/
theorem dispatch_inv {lists : List ℕ} (h : Inv adma polling all s pool data l) (hall : all.Nodup)
    (hpc : s.pc = .dispatch lists) (answer : Answer) :
    ∃ s', rxStep adma blkSize polling answer s = some s' ∧
      ∃ pool' data' l', Inv adma polling all s' pool' data' l' := by
  have hhas := h.has
  rw [hpc] at hhas
  obtain ⟨rfl, hlists⟩ := hhas
  cases lists with
  | nil =>
    simp only [rxStep, hpc]
    exact ⟨_, rfl, pool, [], l, ⟨h.pooled, h.queued, h.perm, h.kept⟩, rfl⟩
  | cons i lists =>
    rw [List.forall_mem_cons] at hlists
    obtain ⟨s', hs', pool', l', hplaces⟩ :=
      handOver_spec h.toPlaces hall hlists.1 answer.registered
    simp only [rxStep, hpc, hs']
    exact ⟨_, rfl, pool', [], l', ⟨hplaces.pooled, hplaces.queued, hplaces.perm, hplaces.kept⟩,
      rfl, hlists.2⟩

/-- The thread begins to receive. -/
theorem idle_inv (h : Inv adma polling all s pool data l) (hpc : s.pc = .idle) (answer : Answer) :
    ∃ s', rxStep adma blkSize polling answer s = some s' ∧
      ∃ pool' data' l', Inv adma polling all s' pool' data' l' := by
  have hhas := h.has
  rw [hpc] at hhas
  obtain rfl : data = [] := hhas
  simp only [rxStep, hpc]
  split_ifs with hadma hfails hfails
  · obtain ⟨s', hs', hinv⟩ := h.toPlaces.submit
    exact ⟨s', hs', _, _, _, hinv⟩
  · rw [not_or, not_or, h.pooled.nodeNum, not_lt] at hfails
    exact ⟨_, rfl, pool, [], l, ⟨h.pooled, h.queued, h.perm, h.kept⟩, rfl,
      Nat.pos_of_ne_zero hfails.1, hfails.2.1, hadma⟩
  · obtain ⟨s', hs', hinv⟩ := h.toPlaces.submit
    exact ⟨s', hs', _, _, _, hinv⟩
  · exact ⟨_, rfl, pool, [], l, ⟨h.pooled, h.queued, h.perm, h.kept⟩, rfl⟩

/-! ## The one buffer -/

/-- In the normal mode, the thread reads into one buffer. -/
theorem readBuf_inv (h : Inv adma polling all s pool data l) (hpc : s.pc = .readBuf)
    (answer : Answer) : ∃ s', rxStep adma blkSize polling answer s = some s' ∧
      ∃ pool' data' l', Inv adma polling all s' pool' data' l' := by
  have hhas := h.has
  rw [hpc] at hhas
  obtain rfl : data = [] := hhas
  simp only [rxStep, hpc]
  split_ifs
  · obtain ⟨s', hs', hinv⟩ := h.toPlaces.submit
    exact ⟨s', hs', _, _, _, hinv⟩
  · exact ⟨_, rfl, pool, [], l, ⟨h.pooled, h.queued, h.perm, h.kept⟩, rfl⟩

/-- The header, once its length has been added to. -/
theorem RxBufWalk.header_check (b : RxBufWalk) : b.check.header = b.header.checked :=
  Memory.puh_check

/-- The packets of the buffer are looked at one after the other. -/
theorem parseBuf_inv {b : RxBufWalk} (h : Inv adma polling all s pool data l)
    (hpc : s.pc = .parseBuf b) (answer : Answer) :
    ∃ s', rxStep adma blkSize polling answer s = some s' ∧
      ∃ pool' data' l', Inv adma polling all s' pool' data' l' := by
  have hhas := h.has
  rw [hpc] at hhas
  obtain rfl : data = [] := hhas
  simp only [rxStep, hpc, parseBuf]
  split_ifs with _ _ hrejected hnone
  · obtain ⟨s', hs', hinv⟩ := h.toPlaces.submit
    exact ⟨s', hs', _, _, _, hinv⟩
  · exact ⟨_, rfl, pool, [], l, ⟨h.pooled, h.queued, h.perm, h.kept⟩, rfl⟩
  · exact ⟨_, rfl, pool, [], l, ⟨h.pooled, h.queued, h.perm, h.kept⟩, rfl⟩
  · obtain ⟨s', hs', hinv⟩ := h.toPlaces.submit
    exact ⟨s', hs', _, _, _, hinv⟩
  · -- There is an mbuf, and it stays there: only this thread takes any.
    rw [not_or, h.pooled.nodeNum, gt_iff_lt, not_lt] at hnone
    refine ⟨_, rfl, pool, [], l, ⟨h.pooled, h.queued, h.perm, h.kept⟩, rfl, hnone.1, ?_⟩
    rw [b.header_check]
    exact not_rejected hrejected

theorem takeBuf_inv {b : RxBufWalk} (h : Inv adma polling all s pool data l) (hall : all.Nodup)
    (hpc : s.pc = .takeBuf b) (answer : Answer) :
    ∃ s', rxStep adma blkSize polling answer s = some s' ∧
      ∃ pool' data' l', Inv adma polling all s' pool' data' l' := by
  have hhas := h.has
  rw [hpc] at hhas
  obtain ⟨rfl, hfree, hsub⟩ := hhas
  obtain ⟨dataList, s₁, pool', data', hs₁, hplaces, hholds, hlen⟩ :=
    h.toPlaces.take hall one_pos hfree
  simp only [rxStep, hpc, hs₁]
  exact ⟨_, rfl, pool', data', l, ⟨hplaces.pooled, hplaces.queued, hplaces.perm, hplaces.kept⟩,
    hholds, hlen, hsub⟩

theorem assignBuf_inv {b : RxBufWalk} {dataList : SdiohalList}
    (h : Inv adma polling all s pool data l) (hall : all.Nodup) (hpc : s.pc = .assignBuf b dataList)
    (answer : Answer) : ∃ s', rxStep adma blkSize polling answer s = some s' ∧
      ∃ pool' data' l', Inv adma polling all s' pool' data' l' := by
  have hhas := h.has
  rw [hpc] at hhas
  obtain ⟨hholds, hlen, hsub⟩ := hhas
  obtain ⟨a, rfl⟩ := List.length_eq_one_iff.1 hlen
  have htail : dataList.mbufTail = some a := hholds.mbufTail
  set mbuf := { s.heap a with buf := b.packet, len := b.header.len }
  have hnext : Heap.next (Function.update s.heap a mbuf) = s.heap.next := next_update _ _ _ rfl
  obtain ⟨channels, hch, ⟨pool', l', hplaces⟩, -⟩ :=
    parsed_assign (h.toPlaces.setHeap hnext) hall hsub
  simp only [rxStep, hpc, assignBuf, htail, Option.bind_eq_bind, Option.bind_some]
  rw [hch]
  exact ⟨_, rfl, pool', [], l', ⟨hplaces.pooled, hplaces.queued, hplaces.perm, hplaces.kept⟩, rfl⟩

/-! ## The drivers -/

/-- A driver gives back a chain of mbufs that it has. -/
theorem push_inv (h : Inv adma polling all s pool data l) (hall : all.Nodup) {ready : Bool}
    {head tail : Addr} (hfair : Fair s (.push ready head tail num)) :
    ∃ s', sdiohalListPush ready head tail num s = some s' ∧
      ∃ pool', Inv adma polling all s' pool' data l := by
  have hapart := h.apart hall
  obtain ⟨chain, hnodes, hnodup, howned, htail⟩ := hfair
  have hnodes : nodes s.heap.next num (some head) = some chain := hnodes
  simp only [sdiohalListPush, sdiohalMbufListCheck, hnodes, Option.bind_eq_bind, Option.bind_some]
  split_ifs with hready hnum
  · exact ⟨s, rfl, pool, h⟩
  · exact ⟨s, rfl, pool, h⟩
  · have hne : chain ≠ [] := by
      rintro rfl
      exact hnum (linked_of_nodes hnodes).2.1.symm
    obtain ⟨s₁, hs₁, hfreed⟩ := h.toPlaces.free hall hnodes hne (htail hnum).symm
      fun a ha hac => hapart.pool_owned a ha (howned hac)
    simp only [hs₁]
    refine ⟨_, rfl, pool ++ chain, ⟨hfreed.pooled, hfreed.queued, ?_, fun hp =>
      hfreed.lost.trans (h.kept hp)⟩, ?_⟩
    · -- The chain was among the mbufs of the drivers.
      have hsplit : (chain ++ s.owned.diff chain).Perm s.owned := by
        refine List.subperm_append_diff_self_of_count_le fun a ha => ?_
        rw [List.count_eq_one_of_mem hnodup ha]
        exact List.one_le_count_iff.2 (howned ha)
      dsimp only
      rw [hfreed.owned, hfreed.lost]
      refine List.Perm.trans (List.perm_iff_count.2 fun b => ?_) h.perm
      have := List.perm_iff_count.1 hsplit b
      simp only [List.count_append] at this ⊢
      omega
    · dsimp only
      rw [hfreed.pc]
      refine h.has.congr (by simp) fun a ha => hfreed.next a fun hpool => ?_
      exact hapart.pool_data a hpool ha

/-- A driver writes to an mbuf that it has. -/
theorem write_inv (h : Inv adma polling all s pool data l) (hall : all.Nodup) {mbuf : Mbuf}
    (ha : a ∈ s.owned) :
    Inv adma polling all (s.setHeap (Function.update s.heap a mbuf)) pool data l := by
  have hapart := h.apart hall
  have hnext : ∀ b, b ≠ a → Heap.next (Function.update s.heap a mbuf) b = s.heap.next b :=
    fun b hb => by simp [Heap.next, hb]
  have hne : ∀ m : List Addr, (∀ b ∈ m, b ∉ s.owned) →
      ∀ b ∈ m, Heap.next (Function.update s.heap a mbuf) b = s.heap.next b :=
    fun m hm b hb => hnext b fun heq => hm b hb (heq ▸ ha)
  refine ⟨⟨h.pooled.congr (hne pool hapart.pool_owned), h.queued.write fun i hi b hb => ?_, h.perm,
    h.kept⟩, h.has.congr le_rfl (hne data hapart.data_owned)⟩
  rw [h.queued.pending_eq hi] at hb
  exact hne (inLists l) hapart.lists_owned b (mem_inLists.2 ⟨i, hi, hb⟩)

/-- Every step keeps the invariant, and none crashes. -/
theorem step_inv (h : Inv adma polling all s pool data l) (hall : all.Nodup) {e : Event}
    (hfair : Fair s e) : ∃ s', (rxPath adma blkSize polling).step s e = some s' ∧
      ∃ pool' data' l', Inv adma polling all s' pool' data' l' := by
  cases e with
  | rx answer =>
    cases hpc : s.pc with
    | idle => exact idle_inv h hpc answer
    | take num =>
      obtain ⟨s', hs', pool', data', hinv⟩ := take_inv h hall hpc answer
      exact ⟨s', hs', pool', data', l, hinv⟩
    | fill dataList mbufTemp i =>
      obtain ⟨s', hs', pool', data', hinv⟩ := fill_inv h hall hpc answer
      exact ⟨s', hs', pool', data', l, hinv⟩
    | read dataList =>
      obtain ⟨s', hs', pool', data', hinv⟩ := read_inv h hpc answer
      exact ⟨s', hs', pool', data', l, hinv⟩
    | parse mbufNext i => exact parse_inv h hall hpc answer
    | readBuf => exact readBuf_inv h hpc answer
    | parseBuf b => exact parseBuf_inv h hpc answer
    | takeBuf b => exact takeBuf_inv h hall hpc answer
    | assignBuf b dataList => exact assignBuf_inv h hall hpc answer
    | dispatch lists => exact dispatch_inv h hall hpc answer
  | push ready head tail num =>
    obtain ⟨s', hs', pool', hinv⟩ := push_inv h hall hfair
    exact ⟨s', hs', pool', data, l, hinv⟩
  | write a mbuf => exact ⟨_, rfl, pool, data, l, write_inv h hall hfair⟩

/-! ## Runs -/

/-- The mbufs in the list of free ones, as far as it tells them. -/
def RxPath.free (s : RxPath) : List Addr :=
  (nodes s.heap.next s.listRxBuf.nodeNum s.listRxBuf.mbufHead).getD []

/-- The mbufs that the receive thread has. -/
def RxPath.inHand (s : RxPath) : List Addr :=
  match s.pc with
  | .fill dataList _ _ | .read dataList | .assignBuf _ dataList =>
    (nodes s.heap.next dataList.nodeNum dataList.mbufHead).getD []
  | .parse mbufNext i => (nodes s.heap.next i mbufNext).getD []
  | .idle | .take _ | .readBuf | .parseBuf _ | .takeBuf _ | .dispatch _ => []

/-- Where the mbufs are. -/
structure Accounted (adma polling : Bool) (mbufs : List Addr) (s : RxPath) : Prop where
  /-- Each mbuf is free, or the receive thread, a list or a driver has it, or it is lost. -/
  perm : (s.free ++ s.inHand ++ inLists s.channels.pending ++ s.owned ++ s.lost).Perm mbufs
  /-- When the chip is polled, or without ADMA, none is lost. -/
  kept : polling = true ∨ adma = false → s.lost = []
  /-- When the receive thread waits, and no list and no driver has any, all others are free. -/
  quiet : s.pc = .idle → inLists s.channels.pending = [] → s.owned = [] →
    s.listRxBuf.nodeNum + s.lost.length = mbufs.length

/-- What the thread has in hand is what it is to process. -/
theorem Inv.inHand (h : Inv adma polling all s pool data l) : s.inHand = data := by
  have hhas := h.has
  cases hpc : s.pc <;> rw [hpc] at hhas <;> rw [RxPath.inHand, hpc]
  case idle | readBuf | parseBuf => exact hhas.symm
  case take => exact hhas.1.symm
  case fill => exact (congrArg (Option.getD · []) (holds_nodes hhas.1))
  case read => exact (congrArg (Option.getD · []) (holds_nodes hhas.1))
  case parse mbufNext i =>
    obtain ⟨hspells, rfl⟩ := hhas
    dsimp only
    rw [hspells.nodes_length, Option.getD_some]
  case assignBuf => exact (congrArg (Option.getD · []) (holds_nodes hhas.1))
  case takeBuf | dispatch => exact hhas.1.symm

/-- Every mbuf is in one place. -/
theorem Inv.accounted (h : Inv adma polling all s pool data l) : Accounted adma polling all s := by
  have hfree : s.free = pool := by rw [RxPath.free, h.pooled.nodes_eq, Option.getD_some]
  have hlists : inLists s.channels.pending = inLists l :=
    List.flatMap_congr fun i hi => h.queued.pending_eq (List.mem_range.1 hi)
  have hperm :
      (s.free ++ s.inHand ++ inLists s.channels.pending ++ s.owned ++ s.lost).Perm all := by
    rw [hfree, h.inHand, hlists]
    exact h.perm
  refine ⟨hperm, h.kept, fun hpc hnil howned => ?_⟩
  have hlen := hperm.length_eq
  rw [hnil, howned, RxPath.inHand, hpc, hfree] at hlen
  simpa [h.pooled.nodeNum] using hlen

/-- Linking a chain leaves the other mbufs. -/
theorem next_link {mbufs : List Addr} (ha : a ∉ mbufs) (heap : Heap) :
    (link mbufs heap).next a = heap.next a := by
  induction mbufs, heap using link.induct with
  | case1 heap => rfl
  | case2 b heap =>
    rw [link, Heap.next_setNext, Function.update_of_ne (by simpa using ha)]
  | case3 b c l heap ih =>
    rw [link, ih (fun h => ha (List.mem_cons_of_mem _ h)), Heap.next_setNext,
      Function.update_of_ne fun (h : a = b) => ha (h ▸ List.mem_cons_self)]

theorem linked_link {mbufs : List Addr} (hnodup : mbufs.Nodup) (heap : Heap) :
    Linked (link mbufs heap).next mbufs := by
  induction mbufs, heap using link.induct with
  | case1 heap => exact List.isChain_nil
  | case2 b heap => exact List.isChain_singleton b
  | case3 b c l heap ih =>
    obtain ⟨hb, hnodup⟩ := List.nodup_cons.1 hnodup
    refine List.isChain_cons_cons.2 ⟨?_, ih hnodup⟩
    rw [link, next_link hb, Heap.next_setNext, Function.update_self]

/-- In the beginning, all mbufs are in the pool. -/
theorem inv_start {mbufs : List Addr} (hnodup : mbufs.Nodup) (adma polling : Bool) (heap : Heap) :
    Inv adma polling mbufs (.start mbufs heap) mbufs [] fun _ => [] where
  pooled := ⟨rfl, fun _ => rfl, fun _ => rfl, linked_link hnodup heap⟩
  queued := ⟨fun _ _ => SdiohalList.queue_nil rfl, fun _ _ _ _ _ _ ha => absurd ha List.not_mem_nil⟩
  perm := by simp [RxPath.start, inLists, List.flatMap_eq_nil_iff.2]
  kept _ := rfl
  has := rfl

/-- **The mbufs of the receive path**: whatever the order of the steps, nothing reads behind `NULL`,
    and every mbuf is in one place. -/
theorem rxPath_accounted (adma blkSize polling : Bool) (mbufs : List Addr) (hnodup : mbufs.Nodup)
    (heap : Heap) (es : List Event)
    (hfair : (rxPath adma blkSize polling).Along Fair (.start mbufs heap) es) :
    ∃ s, (rxPath adma blkSize polling).run (.start mbufs heap) es = some s ∧
      Accounted adma polling mbufs s := by
  obtain ⟨s, hs, pool, data, l, hinv⟩ := Machine.exists_run_history
    (I := fun _ s => ∃ pool data l, Inv adma polling mbufs s pool data l)
    (fun _ _ _ ⟨_, _, _, h⟩ hfair => step_inv h hnodup hfair)
    ⟨_, _, _, inv_start hnodup adma polling heap⟩ hfair
  exact ⟨s, hs, hinv.accounted⟩

/-- A packet of the first channel, with its header. -/
def fixturePacket : List UInt8 := (Puh.mk 0 0 4 0 0 0).toBytes ++ [1, 2, 3, 4]

/-- The transfer succeeds, with such a packet in each mbuf, or two and a last header in the
    buffer. -/
def fixtureAnswer : Answer where
  ok := true
  bytes _ := fixturePacket
  mem i := (fixturePacket ++ fixturePacket ++ (Puh.mk 0 0 0 1 0 0).toBytes).getD i 0
  validLen := 20
  registered := true
  dtbs := 2

/-- With ADMA, a packet is received, and given back during the next transfer, which fails. -/
def receiving : List Event :=
  List.replicate 8 (.rx fixtureAnswer) ++ List.replicate 14 (.rx fixtureAnswer) ++
    [.rx fixtureAnswer, .write 1 ⟨some 1, [], 0⟩, .push true 1 1 1, .rx fixtureAnswer,
      .rx fixtureAnswer, .rx fixtureAnswer, .rx { fixtureAnswer with ok := false }]

/-- Without it, the two packets of the buffer are received, and given back as one chain while the
    next ones are parsed. -/
def receivingBuf : List Event :=
  List.replicate 28 (.rx fixtureAnswer) ++ [.push true 1 2 2, .rx fixtureAnswer]

/-- With ADMA, the transfer fails in the end, and its mbufs are lost; without, all are there. -/
theorem rxPath_accounted_receiving :
    (∃ s, (rxPath true true false).run (.start [1, 2, 3] fun _ => ⟨none, [], 0⟩) receiving =
      some s ∧ s.free = [1] ∧ s.lost = [2, 3]) ∧
    (∃ s, (rxPath true true false).run (.start [1, 2, 3] fun _ => ⟨none, [], 0⟩) receiving =
      some s ∧ Accounted true false [1, 2, 3] s) ∧
    (∃ s, (rxPath false true false).run (.start [1, 2, 3] fun _ => ⟨none, [], 0⟩) receivingBuf =
      some s ∧ s.free = [1, 2] ∧ s.inHand = [] ∧ inLists s.channels.pending = [3]) ∧
    ∃ s, (rxPath false true false).run (.start [1, 2, 3] fun _ => ⟨none, [], 0⟩) receivingBuf =
      some s ∧ Accounted false false [1, 2, 3] s :=
  ⟨Machine.exists_run (by decide +kernel),
    rxPath_accounted true true false [1, 2, 3] (by decide) _ receiving (by decide +kernel),
    Machine.exists_run (by decide +kernel),
    rxPath_accounted false true false [1, 2, 3] (by decide) _ receivingBuf (by decide +kernel)⟩

end W132d.Sdio.RxPool
