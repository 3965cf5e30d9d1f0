import W132d.Machine
import W132d.Pick
import W132d.Reorder.Basic

/-!
# Reassembly of fragments

Received fragments are put together to the frames they were split from (`defrag.c`). Each
frame in progress has a node, which queues its fragments until the last one arrives. There
are three nodes, those used last at the head of the list.

* `findDefragNode`, `initFirstDefragNode`: the node for a further fragment of a frame, and
  for the first one;
* `reassemble`: the frame that is made of queued fragments;
* `defragDataProcess`: what becomes of a received frame.

A socket buffer is its bytes from the receive descriptor on, of which the fields of the
descriptor (`struct rx_msdu_desc`) are read. A byte behind the end of a buffer reads as `0`,
and a copy from behind it copies nothing.
-/

namespace W132d.Defrag

open Reorder (seqnoLeq)

/-- The bytes of a socket buffer: the receive descriptor and the frame behind it. -/
abbrev Skb := List UInt8

/-! ## The receive descriptor -/

section

variable (skb : Skb)

/-- A byte of the descriptor, whose words WORD7 to WORD13 follow each other, low byte first. -/
def byte (i : ℕ) : ℕ := (skb[i]?.getD 0).toNat

/-- Of WORD7, bits 8 to 15. -/
def msduOffset : ℕ := byte skb 1

/-- Of WORD7, the upper half. -/
def msduLen : ℕ := byte skb 2 + 256 * byte skb 3

/-- Of WORD9, the last five bits. -/
def staLutIndex : ℕ := byte skb 11 / 8

/-- Of WORD10, bit 8. -/
def snapHdrPresent : Bool := byte skb 13 % 2 = 1

/-- Of WORD10, bits 16 to 19. -/
def tid : ℕ := byte skb 14 % 16

/-- Of WORD10, the last twelve bits. -/
def seqNum : ℕ := byte skb 14 / 16 + 16 * byte skb 15

/-- Of WORD12, bits 16 to 19, behind the upper half of the PN. -/
def fragNum : ℕ := byte skb 22 % 16

/-- Of WORD12, bit 20. -/
def moreFragBit : Bool := byte skb 22 / 16 % 2 = 1

/-- The size of `struct rx_msdu_desc`. -/
def rxMsduDescSize : ℕ := 28

/-- `msdu_desc->msdu_len = n`, of 16 bits. -/
def setMsduLen (n : ℕ) : Skb :=
  (skb.set 2 (UInt8.ofNat (n % 256))).set 3 (UInt8.ofNat (n / 256 % 256))

/-- `msdu_total_len`. -/
def msduTotalLen : ℕ := msduOffset skb + msduLen skb

/-- `ETH_HLEN`, or `2*ETH_ALEN` if no SNAP header is present: the header that every fragment
    of a frame has. -/
def headerLen : ℕ := if snapHdrPresent skb then 14 else 12

/-- `frag_len`, of 16 bits. -/
def fragLen : ℕ := (msduLen skb + 2 ^ 16 - headerLen skb) % 2 ^ 16

/-- The bytes that are copied of a further fragment: `frag_len` of them at `frag_offset`. -/
def payload : Skb := (skb.drop (msduOffset skb + headerLen skb)).take (fragLen skb)

end

/-! ## Nodes -/

/-- `MAX_DEFRAG_NUM`. -/
def maxDefragNum : ℕ := 3

/-- `struct rx_defrag_node`, its descriptor in place. -/
structure Node where
  staLutIndex : ℕ
  tid : ℕ
  fragNum : ℕ
  seqNum : ℕ
  skbList : List Skb
  msduLen : ℕ
  lastFragNum : ℕ
  deriving DecidableEq, Repr

/-- A zeroed node. -/
def Node.zero : Node := ⟨0, 0, 0, 0, [], 0, 0⟩

/-- `sprdwl_defrag_init`, every allocation succeeding. -/
def sprdwlDefragInit : List Node := List.replicate maxDefragNum .zero

/-- The station and the TID of a fragment. -/
def keyOf (d : Skb) : ℕ × ℕ := (Defrag.staLutIndex d, Defrag.tid d)

/-- The station and the TID that a node is for. -/
def Node.key (node : Node) : ℕ × ℕ := (node.staLutIndex, node.tid)

/-- The node is one of the station and TID of the fragment. -/
def Node.isOf (d : Skb) (node : Node) : Bool :=
  node.staLutIndex = Defrag.staLutIndex d && node.tid = Defrag.tid d

theorem isOf_iff {d : Skb} {node : Node} : node.isOf d = true ↔ node.key = keyOf d := by
  simp [Node.isOf, Node.key, keyOf]

theorem isOf_eq_false_iff {d : Skb} {node : Node} : node.isOf d = false ↔ node.key ≠ keyOf d := by
  rw [← Bool.not_eq_true, isOf_iff]

/-- `find_defrag_node`: the node, between those before and after it. -/
def findDefragNode (d : Skb) (list : List Node) : Option (List Node × Node × List Node) :=
  match pick (Node.isOf d) list with
  | some (pre, node, post) =>
    if node.seqNum = seqNum d ∧ node.lastFragNum + 1 = fragNum d then
      some (pre, { node with lastFragNum := fragNum d }, post)
    else none
  | none => none

/-- `__init_first_frag_node`. -/
def initFirstFragNode (d : Skb) : Node where
  staLutIndex := staLutIndex d
  tid := tid d
  fragNum := fragNum d
  seqNum := seqNum d
  skbList := []
  msduLen := headerLen d + msduOffset d
  lastFragNum := fragNum d

/-- `init_first_defrag_node`: the node, moved to the head of the list. -/
def initFirstDefragNode (d : Skb) (list : List Node) :
    Option (List Node × Node × List Node) :=
  match pick (Node.isOf d) list with
  | some (pre, node, post) =>
    if seqnoLeq (seqNum d) node.seqNum then none
    else some ([], initFirstFragNode d, pre ++ post)
  | none => some ([], initFirstFragNode d, list.dropLast)

/-- `get_defrag_node`. -/
def getDefragNode (d : Skb) (list : List Node) : Option (List Node × Node × List Node) :=
  if fragNum d ≠ 0 then findDefragNode d list else initFirstDefragNode d list

/-- A fragment is queued. -/
def Node.queue (node : Node) (pskb : Skb) : Node :=
  { node with
    skbList := node.skbList ++ [pskb]
    msduLen := (node.msduLen + fragLen pskb) % 2 ^ 32 }

/-- A further fragment is queued. -/
def Node.further (node : Node) (d : Skb) : Node :=
  { node with lastFragNum := Defrag.fragNum d }.queue d

/-- The queue is emptied. -/
def Node.emptied (node : Node) : Node := { node with skbList := [] }

/-! ## Reassembly -/

/-- `memcpy` of bytes into a buffer, of which what has been written so far is given. -/
def memcpy (buf : Skb) (offset : ℕ) (src : Skb) : Skb :=
  buf.take offset ++ List.replicate (offset - buf.length) 0 ++ src ++
    buf.drop (offset + src.length)

/-- A turn of the loop that copies the further fragments: the buffer and the offset in it. -/
def copyFragment (dst : Skb × ℕ) (skb : Skb) : Skb × ℕ :=
  (memcpy dst.1 dst.2 (payload skb), (dst.2 + fragLen skb) % 2 ^ 16)

/-- The frame that is made of the queued fragments, of the length `len`. -/
def reassemble (len : ℕ) : List Skb → Option Skb
  | [] => none
  | first :: rest =>
    let offset := msduTotalLen first % 2 ^ 16
    let head := (setMsduLen first ((len + 2 ^ 16 - msduOffset first) % 2 ^ 16)).take offset
    some (rest.foldl copyFragment (head, offset)).1

/-- `defrag_single_data_process`: the list, and the frame if it is complete. `alloc` tells
    whether the allocation of its buffer succeeds. -/
def defragSingleDataProcess (list : List Node) (pskb : Skb) (alloc : Bool) :
    List Node × Option Skb :=
  match getDefragNode pskb list with
  | none => (list, none)
  | some (pre, node, post) =>
    let node := node.queue pskb
    if moreFragBit pskb then (pre ++ node :: post, none)
    else
      -- The node is moved to the tail.
      (pre ++ post ++ [node.emptied],
        if alloc then reassemble node.msduLen node.skbList else none)

/-- The received frame is a fragment. -/
def isFragment (pskb : Skb) : Bool := fragNum pskb ≠ 0 || moreFragBit pskb

/-- `defrag_data_process`. -/
def defragDataProcess (list : List Node) (pskb : Skb) (alloc : Bool) :
    List Node × Option Skb :=
  if isFragment pskb then defragSingleDataProcess list pskb alloc else (list, some pskb)

/-- A received frame, and whether an allocation succeeds. -/
structure Event where
  pskb : Skb
  alloc : Bool
  deriving DecidableEq, Repr

/-- The defragmenter. -/
def machine : Machine (List Node) Event where
  step list e := some (defragDataProcess list e.pskb e.alloc).1

/-- The frame that a received one completes, if any. -/
def output (list : List Node) (e : Event) : Option Skb :=
  (defragDataProcess list e.pskb e.alloc).2

/-! ## What a frame can do -/

/-- What becomes of the list when a frame is received, and the frame that is handed on. -/
inductive Step (d : Skb) (alloc : Bool) (list : List Node) : List Node → Option Skb → Prop
  /-- The frame is no fragment. -/
  | single (h : isFragment d = false) : Step d alloc list list (some d)
  /-- The fragment is dropped. -/
  | drop (h : getDefragNode d list = none) : Step d alloc list list none
  /-- The first fragment of a frame takes the place of an older frame of its station and
      TID. -/
  | replace {pre old post} (hnum : fragNum d = 0) (hmore : moreFragBit d)
      (hpick : pick (Node.isOf d) list = some (pre, old, post))
      (hseq : seqnoLeq (seqNum d) old.seqNum = false) :
      Step d alloc list ((initFirstFragNode d).queue d :: (pre ++ post)) none
  /-- The first fragment of a frame takes the oldest node. -/
  | oldest (hnum : fragNum d = 0) (hmore : moreFragBit d)
      (hpick : pick (Node.isOf d) list = none) :
      Step d alloc list ((initFirstFragNode d).queue d :: list.dropLast) none
  /-- A further fragment of a frame. -/
  | further {pre old post} (hnum : fragNum d ≠ 0) (hmore : moreFragBit d)
      (hpick : pick (Node.isOf d) list = some (pre, old, post))
      (hseq : old.seqNum = seqNum d) (hlast : old.lastFragNum + 1 = fragNum d) :
      Step d alloc list
        (pre ++ old.further d :: post) none
  /-- The last fragment of a frame. -/
  | last {pre old post} (hnum : fragNum d ≠ 0) (hmore : moreFragBit d = false)
      (hpick : pick (Node.isOf d) list = some (pre, old, post))
      (hseq : old.seqNum = seqNum d) (hlast : old.lastFragNum + 1 = fragNum d) :
      Step d alloc list
        (pre ++ post ++ [(old.further d).emptied])
        (if alloc then
          reassemble ((old.msduLen + fragLen d) % 2 ^ 32) (old.skbList ++ [d])
        else none)

/-- The node that is found for a further fragment. -/
theorem findDefragNode_eq_some {d : Skb} {list pre post : List Node} {node : Node}
    (h : findDefragNode d list = some (pre, node, post)) :
    ∃ old, pick (Node.isOf d) list = some (pre, old, post) ∧ old.seqNum = seqNum d ∧
      old.lastFragNum + 1 = fragNum d ∧ node = { old with lastFragNum := fragNum d } := by
  rw [findDefragNode] at h
  split at h
  · rename_i pre' old post' hpick
    split_ifs at h with hnum
    cases h
    exact ⟨old, hpick, hnum.1, hnum.2, rfl⟩
  · cases h

theorem step_defragDataProcess (list : List Node) (d : Skb) (alloc : Bool) :
    Step d alloc list (defragDataProcess list d alloc).1 (defragDataProcess list d alloc).2 := by
  rw [defragDataProcess]
  split
  · rename_i hfrag
    rw [defragSingleDataProcess]
    split
    · rename_i hget
      exact .drop hget
    · rename_i pre node post hget
      rw [getDefragNode] at hget
      split at hget
      · rename_i hnum
        obtain ⟨old, hpick, hseq, hlast, rfl⟩ := findDefragNode_eq_some hget
        split
        · rename_i hmore
          exact .further hnum hmore hpick hseq hlast
        · rename_i hmore
          exact .last hnum (Bool.eq_false_iff.2 hmore) hpick hseq hlast
      · -- A fragment with the number 0 is followed by more.
        rename_i hnum
        rw [not_not] at hnum
        have hmore : moreFragBit d = true := by simpa [isFragment, hnum] using hfrag
        rw [if_pos hmore]
        rw [initFirstDefragNode] at hget
        split at hget
        · rename_i pre' old post' hpick
          split_ifs at hget with hseq
          cases hget
          exact .replace hnum hmore hpick (Bool.eq_false_iff.2 hseq)
        · rename_i hpick
          cases hget
          exact .oldest hnum hmore hpick
  · rename_i hfrag
    exact .single (Bool.eq_false_iff.2 hfrag)

/-- The number of nodes stays the same. -/
theorem Step.length_eq {d : Skb} {alloc : Bool} {list list' : List Node} {out : Option Skb}
    (h : Step d alloc list list' out) (hne : list ≠ []) : list'.length = list.length := by
  cases h with
  | single | drop => rfl
  | replace hnum hmore hpick hseq =>
    rw [(pick_eq_some.1 hpick).1]
    simp [Nat.add_assoc]
  | oldest hnum hmore hpick =>
    rw [List.length_cons, List.length_dropLast]
    exact Nat.sub_add_cancel (List.length_pos_iff.2 hne)
  | further hnum hmore hpick hseq hlast =>
    rw [(pick_eq_some.1 hpick).1]
    simp
  | last hnum hmore hpick hseq hlast =>
    rw [(pick_eq_some.1 hpick).1]
    simp

/-- A node is there already, or is for the station and TID of the frame. -/
theorem Step.mem_cases {d : Skb} {alloc : Bool} {list list' : List Node} {out : Option Skb}
    (h : Step d alloc list list' out) :
    ∀ n ∈ list', n ∈ list ∨ n.key = keyOf d := by
  cases h with
  | single | drop => exact fun n hn => .inl hn
  | replace hnum hmore hpick hseq =>
    refine List.forall_mem_cons.2 ⟨.inr rfl, fun n hn => .inl (pick_subset hpick hn)⟩
  | oldest hnum hmore hpick =>
    exact List.forall_mem_cons.2 ⟨.inr rfl, fun n hn => .inl (List.mem_of_mem_dropLast hn)⟩
  | further hnum hmore hpick hseq hlast =>
    have hkey := isOf_iff.1 (pick_eq_some.1 hpick).2.1
    intro n hn
    rcases List.mem_append.1 hn with hn | hn
    · exact .inl (pick_subset hpick (List.mem_append_left _ hn))
    · rcases List.mem_cons.1 hn with rfl | hn
      · exact .inr hkey
      · exact .inl (pick_subset hpick (List.mem_append_right _ hn))
  | last hnum hmore hpick hseq hlast =>
    have hkey := isOf_iff.1 (pick_eq_some.1 hpick).2.1
    intro n hn
    rcases List.mem_append.1 hn with hn | hn
    · exact .inl (pick_subset hpick hn)
    · rw [List.mem_singleton] at hn
      exact .inr (hn ▸ hkey)

end W132d.Defrag
