import W132d.Hci
import W132d.Sdio.Basic

/-!
# Bluetooth packets that are received

The SDIO layer hands packets that were received for Bluetooth over in groups: it calls
`mtty_rx_cb` with the chain of their mbufs (`tty.c`). With `CONFIG_TTY_OVERY_SDIO_HCI`, the
callback passes a block of bytes to `sprd_hci_recv` (`W132d.Hci`), whose length it takes from the
bits of the public header, and gives the chain back. The header is as the parser left it, which
counts the two bytes of a checksum as part of the packet.

* `mttyRxCb`: the callback, which only looks at the first mbuf of the chain;
* `blockSize_eq`: the length is that of the public header;
* `rx_stream_iff`: the bytes passed on are the payloads of all packets in order exactly if every
  group is of one packet.
-/

namespace W132d.Tty

open Sdio

/-! ## The callback -/

/-- The length of a block, of the first bytes of a buffer. -/
def blockSize (buf : List UInt8) : ℕ :=
  ((byte buf 2 &&& 0x7F) <<< 9) + (byte buf 1 <<< 1) + (byte buf 0 >>> 7)

/-- What `mtty_rx_cb` passes to `sprd_hci_recv`. It crashes without an mbuf. -/
def mttyRxCb (heap : Heap) (head : Option Addr) : Option (List UInt8) := do
  let head ← head
  let buf := (heap head).buf
  some ((buf.drop puhSize).take (blockSize buf))

/-- A group: the chain that a call of the callback gets, and its mbufs at that time. -/
structure Group where
  heap : Heap
  list : SdiohalList
  mbufs : List Addr
  holds : list.Holds heap mbufs
  ne_nil : mbufs ≠ []

/-- The blocks of bytes that the calls for some groups pass on. -/
def blocks (groups : List Group) : Option (List (List UInt8)) :=
  groups.mapM fun g => mttyRxCb g.heap g.list.mbufHead

/-! ## Packets -/

/-- A packet that was parsed: its length is not zero, and its buffer has as many bytes. -/
structure Parsed (mbuf : Mbuf) : Prop where
  len_pos : 0 < (Puh.ofBytes mbuf.buf).len
  room : puhSize + (Puh.ofBytes mbuf.buf).len ≤ mbuf.buf.length

/-- The payload of a packet, as long as its header tells. -/
def payload (mbuf : Mbuf) : List UInt8 :=
  (mbuf.buf.drop puhSize).take (Puh.ofBytes mbuf.buf).len

/-- The payloads of the packets of a group. -/
def Group.payloads (g : Group) : List UInt8 := g.mbufs.flatMap fun a => payload (g.heap a)

theorem length_payload {mbuf : Mbuf} (h : Parsed mbuf) :
    (payload mbuf).length = (Puh.ofBytes mbuf.buf).len := by
  have hroom := h.room
  rw [payload, List.length_take, List.length_drop]
  omega

theorem byte_lt (buf : List UInt8) (i : ℕ) : byte buf i < 2 ^ 8 := UInt8.toNat_lt _

/-- The callback reads the length of the public header. -/
theorem blockSize_eq (buf : List UInt8) : blockSize buf = (Puh.ofBytes buf).len := by
  have h0 := byte_lt buf 0
  have h1 := byte_lt buf 1
  have hand : byte buf 2 &&& 0x7F = byte buf 2 % 2 ^ 7 :=
    Nat.and_two_pow_sub_one_eq_mod (byte buf 2) 7
  rw [blockSize, hand, Nat.shiftLeft_eq, Nat.shiftLeft_eq, Nat.shiftRight_eq_div_pow]
  simp only [Puh.ofBytes]
  omega

/-! ## What is passed on -/

/-- The packets of a group are a first one, and others behind it. -/
theorem Group.exists_cons (g : Group) : ∃ a rest, g.mbufs = a :: rest ∧
    g.list.mbufHead = some a ∧ g.list.nodeNum = rest.length + 1 := by
  obtain ⟨a, rest, hmbufs⟩ := List.exists_cons_of_ne_nil g.ne_nil
  refine ⟨a, rest, hmbufs, ?_, ?_⟩
  · have hspells := g.holds.spells
    rw [hmbufs] at hspells
    exact hspells.1
  · rw [g.holds.nodeNum, hmbufs, List.length_cons]

/-- The callback passes on the payload of the first packet. -/
theorem mttyRxCb_eq (heap : Heap) (a : Addr) :
    mttyRxCb heap (some a) = some (payload (heap a)) := by
  rw [payload, ← blockSize_eq]
  rfl

/-- A group passes on no more than its payloads, and all of them only if it is of one packet. -/
theorem Group.length_le (g : Group) (hparsed : ∀ a ∈ g.mbufs, Parsed (g.heap a)) :
    ∃ block, mttyRxCb g.heap g.list.mbufHead = some block ∧ block.length ≤ g.payloads.length ∧
      (block.length = g.payloads.length → g.list.nodeNum = 1) ∧
      (g.list.nodeNum = 1 → block = g.payloads) := by
  obtain ⟨a, rest, hmbufs, hhead, hnum⟩ := g.exists_cons
  rw [hmbufs, List.forall_mem_cons] at hparsed
  refine ⟨payload (g.heap a), by rw [hhead, mttyRxCb_eq], ?_⟩
  rw [Group.payloads, hmbufs, hnum, List.flatMap_cons, List.length_append]
  refine ⟨Nat.le_add_right .., fun hlen => ?_, fun hone => ?_⟩
  · cases rest with
    | nil => rfl
    | cons b rest =>
      have hb := hparsed.2 b List.mem_cons_self
      have hpos := length_payload hb ▸ hb.len_pos
      rw [List.flatMap_cons, List.length_append] at hlen
      omega
  · have hnil : rest = [] := List.length_eq_zero_iff.1 (Nat.succ.inj hone)
    rw [hnil, List.flatMap_nil, List.append_nil]

/-- Groups pass on no more than their payloads, and all of them only if each is of one packet. -/
theorem length_blocks_le {groups : List Group}
    (hparsed : ∀ g ∈ groups, ∀ a ∈ g.mbufs, Parsed (g.heap a)) :
    ∃ passed, blocks groups = some passed ∧
      passed.flatten.length ≤ (groups.flatMap Group.payloads).length ∧
      (passed.flatten.length = (groups.flatMap Group.payloads).length →
        ∀ g ∈ groups, g.list.nodeNum = 1) ∧
      ((∀ g ∈ groups, g.list.nodeNum = 1) → passed.flatten = groups.flatMap Group.payloads) := by
  induction groups with
  | nil => exact ⟨[], rfl, le_rfl, fun _ => List.forall_mem_nil _, fun _ => rfl⟩
  | cons g groups ih =>
    rw [List.forall_mem_cons] at hparsed
    obtain ⟨block, hblock, hle, hall, hone⟩ := g.length_le hparsed.1
    obtain ⟨passed, hpassed, hle', hall', hone'⟩ := ih hparsed.2
    refine ⟨block :: passed, ?_, ?_, fun hlen => ?_, fun h => ?_⟩
    · rw [blocks, List.mapM_cons, hblock, ← blocks, hpassed]
      rfl
    · rw [List.flatten_cons, List.flatMap_cons, List.length_append, List.length_append]
      exact Nat.add_le_add hle hle'
    · rw [List.flatten_cons, List.flatMap_cons, List.length_append, List.length_append] at hlen
      exact List.forall_mem_cons.2 ⟨hall (by omega), hall' (by omega)⟩
    · rw [List.forall_mem_cons] at h
      rw [List.flatten_cons, List.flatMap_cons, hone h.1, hone' h.2]

/-- The bytes that are passed on are the payloads of all packets, in order and each as long as
    its header tells, exactly if every group is of one packet. -/
theorem rx_stream_iff {groups : List Group}
    (hparsed : ∀ g ∈ groups, ∀ a ∈ g.mbufs, Parsed (g.heap a)) :
    ∃ passed, blocks groups = some passed ∧
      (passed.flatten = groups.flatMap Group.payloads ↔ ∀ g ∈ groups, g.list.nodeNum = 1) := by
  obtain ⟨passed, hpassed, -, hall, hone⟩ := length_blocks_le hparsed
  exact ⟨passed, hpassed, fun h => hall (congrArg List.length h), hone⟩

/-- Two packets for Bluetooth, of three bytes each (an event, cut in two). -/
def eventHeap : Heap := fun a =>
  if a = 0 then ⟨some 1, [0x80, 0x01, 0x00, 0x05, 0x04, 0x0e, 0x01], 3⟩
  else ⟨none, [0x80, 0x01, 0x00, 0x05, 0x00, 0x04, 0x05], 3⟩

theorem parsed_eventHeap (a : Addr) : Parsed (eventHeap a) := by
  rw [eventHeap]
  split_ifs
  · exact ⟨by decide, by decide⟩
  · exact ⟨by decide, by decide⟩

/-- A packet that comes twice, each time in a group of its own. -/
theorem rx_stream_iff_fixture :
    let group : Group := ⟨eventHeap, ⟨some 1, some 1, 0, 5, 1⟩, [1], by
      exact ⟨⟨rfl, rfl⟩, List.nodup_singleton _, rfl, rfl⟩, by decide⟩
    ∃ passed, blocks [group, group] = some passed ∧
      (passed.flatten = [group, group].flatMap Group.payloads ↔
        ∀ g ∈ [group, group], g.list.nodeNum = 1) :=
  rx_stream_iff fun _ hg _ _ => by
    rcases List.mem_pair.1 hg with rfl | rfl <;> exact parsed_eventHeap _

/-- The two packets in one group: only the first one is passed on. -/
theorem not_rx_stream :
    ∃ group : Group, group.heap = eventHeap ∧ group.mbufs = [0, 1] ∧
      (∀ a ∈ group.mbufs, Parsed (group.heap a)) ∧
      blocks [group] = some [[0x04, 0x0e, 0x01]] ∧
      [group].flatMap Group.payloads = [0x04, 0x0e, 0x01, 0x00, 0x04, 0x05] := by
  refine ⟨⟨eventHeap, ⟨some 0, some 1, 0, 5, 2⟩, [0, 1],
    ⟨by decide, by decide, rfl, rfl⟩, by decide⟩, rfl, rfl, fun a _ => parsed_eventHeap a, ?_, ?_⟩
  · decide
  · decide

end W132d.Tty
