import W132d.Loop
import W132d.Sdio.Blocks

/-!
# Packets are parsed from the bus

The receive thread reads an aggregate of packets into a buffer, and walks from header to header,
handing each packet to the list of its channel (`sdiohal_rx_buf_parser`). It stops at a header with
`eof` set, or once the lengths of the packets add up to the valid length that the chip has told.

* `RxBuf.turn`: a turn of the loop;
* `RxBuf.wellFormed`: the packets that are in the buffer;
* `RxBuf.Parses`: the loop returns, having handed over exactly these, and all headers it reads and
  packets it hands over are within the valid length;
* `RxBuf.EndsAt`: what becomes of a packet that is rejected, at whose header the loop stays;
* `RxBuf.Orderly`: the buffers that are parsed;
* `parses_iff`: that the loop parses exactly these;
* `not_parses`: a buffer of zeros, on which it does not return.

The loop reads headers from the memory that the chip has written, and writes there itself, as it
adds the length of the check sum to that of a packet. So the memory is part of its state, and what
it has not come to yet is unchanged (`Parser.Agrees`). The lengths are added up in 32 bits.

How the theorem is proved: each kind of header has a lemma for the turn (`turn_padding`,
`turn_rejected`, `turn_packet`, ...), and from it one that relates what the loop does from here with
what it does from the next header on (`walks_skip_iff`, `walks_take_iff`). The headers that are
walked over are finitely many if they are within the valid length, so that both directions are
inductions on them (`walks_of_orderly`, `orderly_of_walks`). At a packet that is rejected the loop
stays, so that the same length is added again and again; when this ends, and how, is said by
`EndsAt`.
-/

namespace W132d.Sdio

/-! ## Memory -/

/-- The memory, from the start of the buffer. -/
abbrev Memory := ℕ → UInt8

namespace Memory

/-- The header at an offset. -/
def puh (mem : Memory) (p : ℕ) : Puh := Puh.ofBytes [mem p, mem (p + 1), mem (p + 2), mem (p + 3)]

/-- A header is written. -/
def setPuh (mem : Memory) (p : ℕ) (puh : Puh) : Memory :=
  fun i => if p ≤ i ∧ i < p + puhSize then puh.toBytes.getD (i - p) 0 else mem i

end Memory

/-- The header with the length of the check sum added, if there is one. -/
def Puh.checked (puh : Puh) : Puh :=
  if puh.checkSum ≠ 0 then { puh with len := (puh.len + 2) % 2 ^ 16 } else puh

/-- This is added where the header is. -/
def Memory.check (mem : Memory) (p : ℕ) : Memory :=
  if (mem.puh p).checkSum ≠ 0 then mem.setPuh p (mem.puh p).checked else mem

/-! ## The loop -/

/-- `SDIO_PUB_HEADER_SIZE`. -/
def sdioPubHeaderSize : ℕ := 4

/-- `MAX_PAC_SIZE`. -/
def maxPacSize (blkSize : Bool) : ℕ :=
  if sdiohalGetBlkSize blkSize = 512 then sdiohalGetBlkSize blkSize * 4
  else sdiohalGetBlkSize blkSize * 2

/-- `ENOMEM`. -/
def enomem : ℤ := 12

/-- The packet is rejected, by its channel or its length. -/
def Puh.Rejected (blkSize : Bool) (puh : Puh) : Prop :=
  sdiohalHwtypeToChannel false puh.type puh.subtype ≥ sdioChannelNum ∨
    puh.len > maxPacSize blkSize - sdioPubHeaderSize ∨ puh.len = 0

instance (blkSize : Bool) : DecidablePred (Puh.Rejected blkSize) :=
  fun _ => inferInstanceAs (Decidable (_ ∨ _ ∨ _))

/-- A packet in the list of a channel: an mbuf that refers to the buffer from `buf` on, and what the
    list is told of its header. -/
structure RxPacket where
  channel : ℕ
  type : ℕ
  subtype : ℕ
  buf : ℕ
  len : ℕ
  deriving DecidableEq, Repr

/-- The packet whose header is at an offset. -/
def Puh.packet (puh : Puh) (p : ℕ) : RxPacket :=
  ⟨sdiohalHwtypeToChannel false puh.type puh.subtype, puh.type, puh.subtype, p, puh.len⟩

/-- The offset of the header behind the packet. -/
def Puh.behind (puh : Puh) (p : ℕ) : ℕ := p + puhSize + sdiohalAlign4Byte puh.len

/-- What the loop is called with, and whether there is an mbuf for each of its packets
    (`sdiohal_get_rx_mbuf_node`). The valid length is compared without a sign. -/
structure RxBuf where
  blkSize : Bool
  validLen : UInt32
  nodes : ℕ → Bool

/-- The local variables of the loop, the memory, and the packets that were handed over. -/
structure Parser where
  mem : Memory
  puh : ℕ
  parseLen : UInt32
  packets : List RxPacket

/-- Before the first turn. -/
def Parser.start (mem : Memory) : Parser := ⟨mem, 0, 0, []⟩

namespace RxBuf

variable (b : RxBuf)

/-- A turn of the loop of `sdiohal_rx_buf_parser`. -/
def turn (s : Parser) : ℤ ⊕ Parser :=
  if s.parseLen < b.validLen then
    let puh := s.mem.puh s.puh
    if puh.eof ≠ 0 then .inl 0
    else if puh.type ≠ 0xF then
      let s := { s with mem := s.mem.check s.puh, parseLen := s.parseLen + UInt32.ofNat puh.len }
      let puh := puh.checked
      if puh.Rejected b.blkSize then .inr s
      else if b.nodes s.packets.length then
        .inr { s with puh := puh.behind s.puh, packets := s.packets ++ [puh.packet s.puh] }
      else .inl (-enomem)
    else .inr { s with puh := puh.behind s.puh }
  else .inl 0

/-! ## The packets in the buffer -/

/-- The packets whose headers are found from the offset `p` on, of at most `n` headers, as long as
    their lengths do not add up to the valid length, and the headers and the packets are within it.
    A packet that is rejected is passed over, as if it were not there. There may be no mbuf for the
    packet after `count` other ones. -/
def packetsFrom (mem : Memory) : ℕ → ℕ → UInt32 → ℕ → List RxPacket
  | 0, _, _, _ => []
  | n + 1, p, parseLen, count =>
    if ¬parseLen < b.validLen ∨ b.validLen.toNat < p + puhSize ∨ (mem.puh p).eof ≠ 0 then []
    else if (mem.puh p).type = 0xF then packetsFrom mem n ((mem.puh p).behind p) parseLen count
    else
      let puh := (mem.puh p).checked
      if puh.Rejected b.blkSize then packetsFrom mem n (puh.behind p) parseLen count
      else if b.validLen.toNat < p + puhSize + puh.len ∨ ¬b.nodes count then []
      else
        puh.packet p ::
          packetsFrom mem n (puh.behind p) (parseLen + UInt32.ofNat (mem.puh p).len) (count + 1)

/-- The packets from the offset `p` on. -/
def wellFormed (mem : Memory) (p : ℕ) (parseLen : UInt32) (count : ℕ) : List RxPacket :=
  b.packetsFrom mem (b.validLen.toNat - p) p parseLen count

/-- The header that is read next, if any, and all packets that were handed over, are within the
    valid length. -/
structure InBounds (s : Parser) : Prop where
  header : s.parseLen < b.validLen → s.puh + puhSize ≤ b.validLen.toNat
  payload : ∀ packet ∈ s.packets, packet.buf + puhSize + packet.len ≤ b.validLen.toNat

/-- From the state `s`, the loop returns with the packets `l`, and stays in bounds. -/
structure ParsesTo (s : Parser) (l : List RxPacket) : Prop where
  returns : ∃ t r, Loop.Returns b.turn s t r ∧ t.packets = l
  inBounds : ∀ t, Loop.Reaches b.turn s t → b.InBounds t

/-- `sdiohal_rx_buf_parser` hands over exactly the packets in the buffer, and stays in bounds. -/
def Parses (mem : Memory) : Prop := b.ParsesTo (.start mem) (b.wellFormed mem 0 0 0)

/-! ## The condition -/

/-- From a header that is neither a last one nor padding, the loop returns without handing over a
    packet: the length of a packet that is rejected is added again and again, and if there is a
    check sum, grows by 2 each time. It goes on until these add up to the valid length, or until the
    packet is not rejected any more and there is no mbuf for it. -/
inductive EndsAt (count : ℕ) : Puh → UInt32 → Prop
  | reached {puh : Puh} {parseLen : UInt32} : ¬parseLen < b.validLen → EndsAt count puh parseLen
  | rejected {puh : Puh} {parseLen : UInt32} : puh.checked.Rejected b.blkSize →
      EndsAt count puh.checked (parseLen + UInt32.ofNat puh.len) → EndsAt count puh parseLen
  | noNode {puh : Puh} {parseLen : UInt32} : ¬puh.checked.Rejected b.blkSize →
      ¬b.nodes count → EndsAt count puh parseLen

/-- From the offset `p` on, all headers up to one with `eof` set, and all packets, are within the
    valid length, and no packet is rejected, except for one at which the loop ends and behind which
    there is no other one. -/
inductive Orderly (mem : Memory) : ℕ → UInt32 → ℕ → Prop
  | reached {p : ℕ} {parseLen : UInt32} {count : ℕ} :
      ¬parseLen < b.validLen → Orderly mem p parseLen count
  | eof {p : ℕ} {parseLen : UInt32} {count : ℕ} : p + puhSize ≤ b.validLen.toNat →
      (mem.puh p).eof ≠ 0 → Orderly mem p parseLen count
  | padding {p : ℕ} {parseLen : UInt32} {count : ℕ} : p + puhSize ≤ b.validLen.toNat →
      (mem.puh p).eof = 0 → (mem.puh p).type = 0xF →
      Orderly mem ((mem.puh p).behind p) parseLen count → Orderly mem p parseLen count
  | packet {p : ℕ} {parseLen : UInt32} {count : ℕ} : p + puhSize ≤ b.validLen.toNat →
      (mem.puh p).eof = 0 → (mem.puh p).type ≠ 0xF → ¬(mem.puh p).checked.Rejected b.blkSize →
      b.nodes count → p + puhSize + (mem.puh p).checked.len ≤ b.validLen.toNat →
      Orderly mem ((mem.puh p).checked.behind p) (parseLen + UInt32.ofNat (mem.puh p).len)
        (count + 1) → Orderly mem p parseLen count
  | last {p : ℕ} {parseLen : UInt32} {count : ℕ} : p + puhSize ≤ b.validLen.toNat →
      (mem.puh p).eof = 0 → (mem.puh p).type ≠ 0xF → b.EndsAt count (mem.puh p) parseLen →
      b.wellFormed mem p parseLen count = [] → Orderly mem p parseLen count

end RxBuf

/-! ## Memory and headers -/

variable {mem mem' : Memory} {p q i n m count : ℕ} {puh : Puh} {b : RxBuf} {s s' t : Parser}
  {parseLen : UInt32} {l : List RxPacket} {r : ℤ}

/-- A header that is read fits in its bits. -/
theorem Puh.fits_ofBytes (buf : List UInt8) : (Puh.ofBytes buf).Fits :=
  ⟨Nat.mod_lt _ (by decide), Nat.mod_lt _ (by decide), Nat.mod_lt _ (by decide),
    Nat.mod_lt _ (by decide), Nat.mod_lt _ (by decide), Nat.mod_lt _ (by decide)⟩

/-- It still does with the length of the check sum. -/
theorem Puh.Fits.checked (h : puh.Fits) : puh.checked.Fits := by
  rw [Puh.checked]
  split
  · exact ⟨h.pad, h.checkSum, Nat.mod_lt _ (by decide), h.eof, h.subtype, h.type⟩
  · exact h

@[simp] theorem Puh.checked_eof : puh.checked.eof = puh.eof := by
  rw [Puh.checked]
  split <;> rfl

@[simp] theorem Puh.checked_type : puh.checked.type = puh.type := by
  rw [Puh.checked]
  split <;> rfl

/-- The next header is behind this one. -/
theorem Puh.add_le_behind (puh : Puh) (p : ℕ) : p + puhSize ≤ puh.behind p :=
  Nat.le_add_right _ _

/-- What is read depends on the memory from there on only. -/
theorem Memory.puh_congr (h : ∀ i, p ≤ i → mem' i = mem i) : mem'.puh p = mem.puh p := by
  rw [Memory.puh, Memory.puh, h p le_rfl, h (p + 1) (Nat.le_add_right _ _),
    h (p + 2) (Nat.le_add_right _ _), h (p + 3) (Nat.le_add_right _ _)]

/-- A header is read as it was written. -/
theorem Memory.puh_setPuh (h : puh.Fits) : (mem.setPuh p puh).puh p = puh := by
  have hbytes : [mem.setPuh p puh p, mem.setPuh p puh (p + 1), mem.setPuh p puh (p + 2),
      mem.setPuh p puh (p + 3)] = puh.toBytes ++ [] := by
    simp [Memory.setPuh, Puh.toBytes, puhSize]
  rw [Memory.puh, hbytes, Puh.ofBytes_toBytes h]

/-- The header, after the length of the check sum was added. -/
theorem Memory.puh_check : (mem.check p).puh p = (mem.puh p).checked := by
  rw [Memory.check]
  split
  · exact Memory.puh_setPuh (Puh.fits_ofBytes _).checked
  · rename_i h
    rw [Puh.checked, if_neg h]

/-- This leaves the memory behind the header alone. -/
theorem Memory.check_of_le (h : p + puhSize ≤ i) : mem.check p i = mem i := by
  rw [Memory.check]
  split
  · rw [Memory.setPuh, if_neg fun hi => absurd hi.2 (not_lt.2 h)]
  · rfl

/-- The memory that the loop has not come to yet is as it was. -/
def Parser.Agrees (mem : Memory) (s : Parser) : Prop := ∀ i, s.puh ≤ i → s.mem i = mem i

/-- In particular the next header. -/
theorem Parser.Agrees.puh_eq (h : s.Agrees mem) : s.mem.puh s.puh = mem.puh s.puh :=
  Memory.puh_congr h

/-! ## Turns -/

/-- The state after padding, -/
def Parser.skip (s : Parser) : Parser := { s with puh := (s.mem.puh s.puh).behind s.puh }

/-- after a packet that is rejected, -/
def Parser.stay (s : Parser) : Parser :=
  { s with
    mem := s.mem.check s.puh
    parseLen := s.parseLen + UInt32.ofNat (s.mem.puh s.puh).len }

/-- and after one that is handed over. -/
def Parser.take (s : Parser) : Parser :=
  ⟨s.mem.check s.puh, (s.mem.puh s.puh).checked.behind s.puh,
    s.parseLen + UInt32.ofNat (s.mem.puh s.puh).len,
    s.packets ++ [(s.mem.puh s.puh).checked.packet s.puh]⟩

/-- What the loop has not come to yet stays as it was. -/
theorem Parser.Agrees.skip (h : s.Agrees mem) : s.skip.Agrees mem :=
  fun i hi => h i (((Nat.le_add_right _ _).trans (Puh.add_le_behind _ _)).trans hi)

theorem Parser.Agrees.take (h : s.Agrees mem) : s.take.Agrees mem := by
  intro i hi
  have hi' := (Puh.add_le_behind _ _).trans hi
  exact (Memory.check_of_le hi').trans (h i ((Nat.le_add_right _ _).trans hi'))

namespace RxBuf

/-- The lengths add up to the valid length. -/
theorem turn_reached (h : ¬s.parseLen < b.validLen) : b.turn s = .inl 0 := by
  rw [turn, if_neg h]

/-- The last header. -/
theorem turn_eof (hlt : s.parseLen < b.validLen) (heof : (s.mem.puh s.puh).eof ≠ 0) :
    b.turn s = .inl 0 := by
  rw [turn, if_pos hlt, if_pos heof]

/-- Padding is passed over. -/
theorem turn_padding (hlt : s.parseLen < b.validLen) (heof : (s.mem.puh s.puh).eof = 0)
    (htype : (s.mem.puh s.puh).type = 0xF) : b.turn s = .inr s.skip := by
  rw [turn, if_pos hlt, if_neg (not_not.2 heof), if_neg (not_not.2 htype), Parser.skip]

/-- A packet that is rejected. -/
theorem turn_rejected (hlt : s.parseLen < b.validLen) (heof : (s.mem.puh s.puh).eof = 0)
    (htype : (s.mem.puh s.puh).type ≠ 0xF)
    (hrejected : (s.mem.puh s.puh).checked.Rejected b.blkSize) : b.turn s = .inr s.stay := by
  rw [turn, if_pos hlt, if_neg (not_not.2 heof), if_pos htype, Parser.stay]
  dsimp only
  rw [if_pos hrejected]

/-- A packet without an mbuf. -/
theorem turn_noNode (hlt : s.parseLen < b.validLen) (heof : (s.mem.puh s.puh).eof = 0)
    (htype : (s.mem.puh s.puh).type ≠ 0xF)
    (hrejected : ¬(s.mem.puh s.puh).checked.Rejected b.blkSize)
    (hnode : ¬b.nodes s.packets.length) : b.turn s = .inl (-enomem) := by
  rw [turn, if_pos hlt, if_neg (not_not.2 heof), if_pos htype]
  dsimp only
  rw [if_neg hrejected, if_neg hnode]

/-- A packet that is handed over. -/
theorem turn_packet (hlt : s.parseLen < b.validLen) (heof : (s.mem.puh s.puh).eof = 0)
    (htype : (s.mem.puh s.puh).type ≠ 0xF)
    (hrejected : ¬(s.mem.puh s.puh).checked.Rejected b.blkSize)
    (hnode : b.nodes s.packets.length) : b.turn s = .inr s.take := by
  rw [turn, if_pos hlt, if_neg (not_not.2 heof), if_pos htype, Parser.take]
  dsimp only
  rw [if_neg hrejected, if_pos hnode]

/-- A turn keeps the packets that were handed over. -/
theorem prefix_of_turn (h : b.turn s = .inr s') : s.packets <+: s'.packets := by
  rw [turn] at h
  split at h
  · dsimp only at h
    split at h
    · cases h
    · split at h
      · split at h
        · cases h
          exact List.prefix_refl _
        · split at h
          · cases h
            exact List.prefix_append _ _
          · cases h
      · cases h
        exact List.prefix_refl _
  · cases h

/-- So does the loop. -/
theorem prefix_of_returns (h : Loop.Returns b.turn s t r) : s.packets <+: t.packets := by
  refine h.induction (motive := fun s => s.packets <+: t.packets) (fun _ => List.prefix_refl _) ?_
  exact fun s s' hs _ ih => (prefix_of_turn hs).trans ih

/-! ## From one turn to the next -/

/-- A loop that goes on. -/
theorem parsesTo_iff_of_next (h : b.turn s = .inr s') :
    b.ParsesTo s l ↔ b.InBounds s ∧ b.ParsesTo s' l := by
  refine ⟨fun ⟨hreturns, hbounds⟩ => ?_, fun ⟨hs, hreturns, hbounds⟩ => ?_⟩
  · refine ⟨hbounds s Loop.reaches_refl, ?_, fun t ht => ?_⟩
    · obtain ⟨t, r, ht, hl⟩ := hreturns
      exact ⟨t, r, (Loop.returns_iff_of_next h).1 ht, hl⟩
    · exact hbounds t ((Loop.reaches_iff_of_next h).2 (.inr ht))
  · refine ⟨?_, fun t ht => ?_⟩
    · obtain ⟨t, r, ht, hl⟩ := hreturns
      exact ⟨t, r, (Loop.returns_iff_of_next h).2 ht, hl⟩
    · rcases (Loop.reaches_iff_of_next h).1 ht with rfl | ht
      · exact hs
      · exact hbounds t ht

/-- A loop that returns. -/
theorem parsesTo_iff_of_return (h : b.turn s = .inl r) :
    b.ParsesTo s l ↔ b.InBounds s ∧ s.packets = l := by
  refine ⟨fun ⟨hreturns, hbounds⟩ => ?_, fun ⟨hs, hl⟩ => ⟨⟨s, r, ?_, hl⟩, fun t ht => ?_⟩⟩
  · obtain ⟨t, r', ht, hl⟩ := hreturns
    obtain ⟨rfl, -⟩ := (Loop.returns_iff_of_return h).1 ht
    exact ⟨hbounds t Loop.reaches_refl, hl⟩
  · exact (Loop.returns_iff_of_return h).2 ⟨rfl, rfl⟩
  · obtain rfl := (Loop.reaches_iff_of_return h).1 ht
    exact hs

/-! ## The packets in the buffer -/

/-- All headers are looked at. -/
theorem packetsFrom_eq (hn : b.validLen.toNat ≤ n + p) (hm : b.validLen.toNat ≤ m + p) :
    b.packetsFrom mem n p parseLen count = b.packetsFrom mem m p parseLen count := by
  induction n generalizing m p parseLen count with
  | zero =>
    cases m with
    | zero => rfl
    | succ m =>
      rw [packetsFrom, packetsFrom, if_pos (.inr (.inl (by rw [puhSize]; omega)))]
  | succ n ih =>
    cases m with
    | zero =>
      rw [packetsFrom, packetsFrom, if_pos (.inr (.inl (by rw [puhSize]; omega)))]
    | succ m =>
      have hbehind (puh : Puh) (parseLen : UInt32) (count : ℕ) :
          b.packetsFrom mem n (puh.behind p) parseLen count =
            b.packetsFrom mem m (puh.behind p) parseLen count := by
        have hle := puh.add_le_behind p
        rw [puhSize] at hle
        exact ih (by omega) (by omega)
      rw [packetsFrom, packetsFrom]
      simp only [hbehind]

/-- The packets from a header on. -/
theorem wellFormed_eq : b.wellFormed mem p parseLen count =
    if ¬parseLen < b.validLen ∨ b.validLen.toNat < p + puhSize ∨ (mem.puh p).eof ≠ 0 then []
    else if (mem.puh p).type = 0xF then b.wellFormed mem ((mem.puh p).behind p) parseLen count
    else if (mem.puh p).checked.Rejected b.blkSize then
      b.wellFormed mem ((mem.puh p).checked.behind p) parseLen count
    else if b.validLen.toNat < p + puhSize + (mem.puh p).checked.len ∨ ¬b.nodes count then []
    else (mem.puh p).checked.packet p ::
      b.wellFormed mem ((mem.puh p).checked.behind p)
        (parseLen + UInt32.ofNat (mem.puh p).len) (count + 1) := by
  have hsucc : b.wellFormed mem p parseLen count =
      b.packetsFrom mem (b.validLen.toNat + 1) p parseLen count :=
    packetsFrom_eq (by omega) (by omega)
  have hbehind (puh : Puh) (parseLen : UInt32) (count : ℕ) :
      b.packetsFrom mem b.validLen.toNat (puh.behind p) parseLen count =
        b.wellFormed mem (puh.behind p) parseLen count :=
    packetsFrom_eq (by omega) (by omega)
  rw [hsucc, packetsFrom]
  simp only [hbehind]

/-- They are all behind it. -/
theorem le_buf_of_mem_packetsFrom {packet : RxPacket}
    (h : packet ∈ b.packetsFrom mem n p parseLen count) : p ≤ packet.buf := by
  induction n generalizing p parseLen count with
  | zero => exact absurd h List.not_mem_nil
  | succ n ih =>
    have hbehind {puh : Puh} {parseLen : UInt32} {count : ℕ}
        (h : packet ∈ b.packetsFrom mem n (puh.behind p) parseLen count) : p ≤ packet.buf :=
      ((Nat.le_add_right _ _).trans (puh.add_le_behind p)).trans (ih h)
    rw [packetsFrom] at h
    split at h
    · exact absurd h List.not_mem_nil
    · split at h
      · exact hbehind h
      · dsimp only at h
        split at h
        · exact hbehind h
        · split at h
          · exact absurd h List.not_mem_nil
          · rcases List.mem_cons.1 h with rfl | h
            · exact le_rfl
            · exact hbehind h

/-! ## From one header to the next -/

/-- All packets that were handed over are within the valid length. -/
def Within (b : RxBuf) (s : Parser) : Prop :=
  ∀ packet ∈ s.packets, packet.buf + puhSize + packet.len ≤ b.validLen.toNat

/-- From the state `s` on, the loop hands over exactly the packets in the buffer, and stays in
    bounds. -/
def Walks (b : RxBuf) (mem : Memory) (s : Parser) : Prop :=
  b.ParsesTo s (s.packets ++ b.wellFormed mem s.puh s.parseLen s.packets.length)

/-- The loop returns once the lengths add up. -/
theorem parsesTo_of_reached (h : ¬s.parseLen < b.validLen) (hwithin : b.Within s) :
    b.ParsesTo s s.packets :=
  (parsesTo_iff_of_return (turn_reached h)).2 ⟨⟨fun hlt => absurd hlt h, hwithin⟩, rfl⟩

/-- There are no more packets then. -/
theorem walks_of_reached (h : ¬s.parseLen < b.validLen) (hwithin : b.Within s) :
    b.Walks mem s := by
  rw [Walks, wellFormed_eq, if_pos (.inl h), List.append_nil]
  exact parsesTo_of_reached h hwithin

/-- Nor are there at the last header. -/
theorem walks_of_eof (hagrees : s.Agrees mem) (hlt : s.parseLen < b.validLen)
    (hheader : s.puh + puhSize ≤ b.validLen.toNat) (hwithin : b.Within s)
    (heof : (mem.puh s.puh).eof ≠ 0) : b.Walks mem s := by
  rw [Walks, wellFormed_eq, if_pos (.inr (.inr heof)), List.append_nil]
  rw [← hagrees.puh_eq] at heof
  exact (parsesTo_iff_of_return (turn_eof hlt heof)).2 ⟨⟨fun _ => hheader, hwithin⟩, rfl⟩

/-- What the packets in the buffer are, if there may be one at a header. -/
theorem wellFormed_of_header (hlt : parseLen < b.validLen)
    (hheader : p + puhSize ≤ b.validLen.toNat) (heof : (mem.puh p).eof = 0) :
    b.wellFormed mem p parseLen count =
      if (mem.puh p).type = 0xF then b.wellFormed mem ((mem.puh p).behind p) parseLen count
      else if (mem.puh p).checked.Rejected b.blkSize then
        b.wellFormed mem ((mem.puh p).checked.behind p) parseLen count
      else if b.validLen.toNat < p + puhSize + (mem.puh p).checked.len ∨ ¬b.nodes count then []
      else (mem.puh p).checked.packet p ::
        b.wellFormed mem ((mem.puh p).checked.behind p)
          (parseLen + UInt32.ofNat (mem.puh p).len) (count + 1) := by
  rw [wellFormed_eq,
    if_neg (not_or.2 ⟨not_not.2 hlt, not_or.2 ⟨not_lt.2 hheader, not_not.2 heof⟩⟩)]

/-- Padding is passed over. -/
theorem walks_skip_iff (hagrees : s.Agrees mem) (hlt : s.parseLen < b.validLen)
    (hheader : s.puh + puhSize ≤ b.validLen.toNat) (hwithin : b.Within s)
    (heof : (mem.puh s.puh).eof = 0) (htype : (mem.puh s.puh).type = 0xF) :
    b.Walks mem s ↔ b.Walks mem s.skip := by
  rw [Walks, wellFormed_of_header hlt hheader heof, if_pos htype]
  rw [← hagrees.puh_eq] at heof htype ⊢
  rw [parsesTo_iff_of_next (turn_padding hlt heof htype)]
  exact and_iff_right ⟨fun _ => hheader, hwithin⟩

/-- A packet is handed over. -/
theorem walks_take_iff (hagrees : s.Agrees mem) (hlt : s.parseLen < b.validLen)
    (hheader : s.puh + puhSize ≤ b.validLen.toNat) (hwithin : b.Within s)
    (heof : (mem.puh s.puh).eof = 0) (htype : (mem.puh s.puh).type ≠ 0xF)
    (hrejected : ¬(mem.puh s.puh).checked.Rejected b.blkSize) (hnode : b.nodes s.packets.length) :
    b.Walks mem s ↔
      s.puh + puhSize + (mem.puh s.puh).checked.len ≤ b.validLen.toNat ∧ b.Walks mem s.take := by
  have hwellFormed := @wellFormed_of_header mem s.puh s.packets.length b _ hlt hheader heof
  rw [if_neg htype, if_neg hrejected] at hwellFormed
  rw [← hagrees.puh_eq] at heof htype hrejected
  have hnext := @parsesTo_iff_of_next b s _
    (s.packets ++ b.wellFormed mem s.puh s.parseLen s.packets.length)
    (turn_packet hlt heof htype hrejected hnode)
  have hpacket : (mem.puh s.puh).checked.packet s.puh ∈ s.take.packets := by
    rw [Parser.take, hagrees.puh_eq]
    exact List.mem_concat_self
  have hlen (h : s.puh + puhSize + (mem.puh s.puh).checked.len ≤ b.validLen.toNat) :
      s.packets ++ b.wellFormed mem s.puh s.parseLen s.packets.length =
        s.take.packets ++
          b.wellFormed mem s.take.puh s.take.parseLen s.take.packets.length := by
    rw [hwellFormed, if_neg (not_or.2 ⟨not_lt.2 h, not_not.2 hnode⟩), List.append_cons,
      Parser.take, hagrees.puh_eq, List.length_append, List.length_singleton]
  refine ⟨fun h => ?_, fun ⟨hle, h⟩ => ?_⟩
  · obtain ⟨-, h⟩ := hnext.1 h
    have hle := (h.inBounds _ Loop.reaches_refl).payload _ hpacket
    rw [hlen hle] at h
    exact ⟨hle, h⟩
  · refine hnext.2 ⟨⟨fun _ => hheader, hwithin⟩, ?_⟩
    rw [hlen hle]
    exact h

/-! ## Packets at which the loop stays -/

/-- The loop returns at a header at which it ends. -/
theorem parsesTo_of_endsAt (h : b.EndsAt count puh parseLen) (hpuh : s.mem.puh s.puh = puh)
    (hparseLen : s.parseLen = parseLen) (hcount : s.packets.length = count)
    (heof : puh.eof = 0) (htype : puh.type ≠ 0xF) (hheader : s.puh + puhSize ≤ b.validLen.toNat)
    (hwithin : b.Within s) : b.ParsesTo s s.packets := by
  induction h generalizing s with
  | reached hreached =>
    subst hparseLen
    exact parsesTo_of_reached hreached hwithin
  | rejected hrejected _ ih =>
    subst hpuh hparseLen
    by_cases hlt : s.parseLen < b.validLen
    · refine (parsesTo_iff_of_next (turn_rejected hlt heof htype hrejected)).2
        ⟨⟨fun _ => hheader, hwithin⟩, ?_⟩
      exact ih Memory.puh_check rfl hcount (by rwa [Puh.checked_eof]) (by rwa [Puh.checked_type])
        hheader hwithin
    · exact parsesTo_of_reached hlt hwithin
  | noNode hrejected hnode =>
    subst hpuh hparseLen hcount
    by_cases hlt : s.parseLen < b.validLen
    · exact (parsesTo_iff_of_return (turn_noNode hlt heof htype hrejected hnode)).2
        ⟨⟨fun _ => hheader, hwithin⟩, rfl⟩
    · exact parsesTo_of_reached hlt hwithin

/-- The loop ends at a header, or hands over a packet whose header is there. -/
theorem endsAt_or_of_returns (h : Loop.Returns b.turn s t r) (heof : (s.mem.puh s.puh).eof = 0)
    (htype : (s.mem.puh s.puh).type ≠ 0xF) :
    b.EndsAt s.packets.length (s.mem.puh s.puh) s.parseLen ∨
      ∃ packet : RxPacket, packet.buf = s.puh ∧ s.packets ++ [packet] <+: t.packets := by
  refine h.induction (motive := fun s => (s.mem.puh s.puh).eof = 0 → (s.mem.puh s.puh).type ≠ 0xF →
    b.EndsAt s.packets.length (s.mem.puh s.puh) s.parseLen ∨
      ∃ packet : RxPacket, packet.buf = s.puh ∧ s.packets ++ [packet] <+: t.packets)
    (fun ht heof htype => ?_) (fun s s' hs hreturns ih heof htype => ?_) heof htype
  · by_cases hlt : t.parseLen < b.validLen
    · by_cases hrejected : (t.mem.puh t.puh).checked.Rejected b.blkSize
      · exact absurd (ht.symm.trans (turn_rejected hlt heof htype hrejected)) Sum.inl_ne_inr
      · by_cases hnode : b.nodes t.packets.length
        · exact absurd (ht.symm.trans (turn_packet hlt heof htype hrejected hnode)) Sum.inl_ne_inr
        · exact .inl (.noNode hrejected hnode)
    · exact .inl (.reached hlt)
  · by_cases hlt : s.parseLen < b.validLen
    · by_cases hrejected : (s.mem.puh s.puh).checked.Rejected b.blkSize
      · -- The next turn is at the same header, with its length changed.
        obtain rfl := Sum.inr.inj (hs.symm.trans (turn_rejected hlt heof htype hrejected))
        rw [Parser.stay, Memory.puh_check, Puh.checked_eof, Puh.checked_type] at ih
        exact (ih heof htype).imp_left (.rejected hrejected)
      · by_cases hnode : b.nodes s.packets.length
        · obtain rfl := Sum.inr.inj (hs.symm.trans (turn_packet hlt heof htype hrejected hnode))
          exact .inr ⟨_, rfl, prefix_of_returns hreturns⟩
        · exact .inl (.noNode hrejected hnode)
    · exact .inl (.reached hlt)

/-- The packets in the buffer have none whose header is at a packet that is rejected, or that has no
    mbuf. -/
theorem buf_ne_of_mem_wellFormed (htype : (mem.puh p).type ≠ 0xF)
    (h : (mem.puh p).checked.Rejected b.blkSize ∨ ¬b.nodes count) {packet : RxPacket}
    (hpacket : packet ∈ b.wellFormed mem p parseLen count) : packet.buf ≠ p := by
  rw [wellFormed_eq] at hpacket
  split at hpacket
  · exact absurd hpacket List.not_mem_nil
  · split at hpacket
    · have hle := ((mem.puh p).checked.add_le_behind p).trans (le_buf_of_mem_packetsFrom hpacket)
      rw [puhSize] at hle
      omega
    · rename_i hrejected
      rw [if_pos (.inr (h.resolve_left hrejected))] at hpacket
      exact absurd hpacket List.not_mem_nil

/-- A packet that is rejected, or that has no mbuf, has to be the last one, and the loop to end at
    it. -/
theorem endsAt_of_walks (h : b.Walks mem s) (hagrees : s.Agrees mem)
    (hheader : s.puh + puhSize ≤ b.validLen.toNat) (hwithin : b.Within s)
    (heof : (mem.puh s.puh).eof = 0) (htype : (mem.puh s.puh).type ≠ 0xF)
    (hnot : (mem.puh s.puh).checked.Rejected b.blkSize ∨ ¬b.nodes s.packets.length) :
    b.EndsAt s.packets.length (mem.puh s.puh) s.parseLen ∧
      b.wellFormed mem s.puh s.parseLen s.packets.length = [] := by
  obtain ⟨t, r, hreturns, hl⟩ := h.returns
  have hends : b.EndsAt s.packets.length (mem.puh s.puh) s.parseLen := by
    rw [← hagrees.puh_eq] at heof ⊢
    rcases endsAt_or_of_returns hreturns heof (hagrees.puh_eq ▸ htype) with hends | ⟨x, hx, hpre⟩
    · exact hends
    · rw [hl, List.prefix_append_right_inj] at hpre
      have hmem := hpre.subset (List.mem_singleton_self x)
      exact absurd hx (buf_ne_of_mem_wellFormed htype hnot hmem)
  obtain ⟨t', r', hreturns', hl'⟩ :=
    (parsesTo_of_endsAt hends hagrees.puh_eq rfl rfl heof htype hheader hwithin).returns
  obtain rfl := hreturns.unique hreturns'
  exact ⟨hends, List.append_right_eq_self.1 (hl.symm.trans hl')⟩

/-- Without a check sum, the loop ends at a packet that is rejected if its length is not 0, unless
    the valid length is close to what is lost of the sum. -/
theorem endsAt_of_pos (hsum : puh.checkSum = 0) (hrejected : puh.Rejected b.blkSize)
    (hpos : 0 < puh.len) (hlen : puh.len < 2 ^ 16)
    (hvalid : b.validLen.toNat ≤ 2 ^ 32 - 2 ^ 16) : b.EndsAt count puh parseLen := by
  have hchecked : puh.checked = puh := if_neg (not_not.2 hsum)
  induction hk : b.validLen.toNat - parseLen.toNat using Nat.strong_induction_on
    generalizing parseLen with
  | _ k ih =>
    by_cases hlt : parseLen < b.validLen
    · have hlt' : parseLen.toNat < b.validLen.toNat := UInt32.lt_iff_toNat_lt.1 hlt
      have hadd : (parseLen + UInt32.ofNat puh.len).toNat = parseLen.toNat + puh.len := by
        rw [UInt32.toNat_add, UInt32.toNat_ofNat_of_lt' (by rw [UInt32.size]; omega)]
        omega
      refine .rejected (by rwa [hchecked]) ?_
      rw [hchecked]
      exact ih _ (by omega) rfl
    · exact .reached hlt

/-! ## Orderly buffers -/

/-- A packet that is handed over is within the valid length. -/
theorem Within.take (h : b.Within s) (hagrees : s.Agrees mem)
    (hlen : s.puh + puhSize + (mem.puh s.puh).checked.len ≤ b.validLen.toNat) :
    b.Within s.take := by
  intro packet hpacket
  rcases List.mem_append.1 hpacket with hpacket | hpacket
  · exact h packet hpacket
  · rw [List.mem_singleton.1 hpacket, hagrees.puh_eq]
    exact hlen

/-- How many packets were handed over then. -/
theorem length_take : s.take.packets.length = s.packets.length + 1 := List.length_append

/-- An orderly buffer is parsed from every header on. -/
theorem walks_of_orderly (h : b.Orderly mem p parseLen count) (hp : s.puh = p)
    (hparseLen : s.parseLen = parseLen) (hcount : s.packets.length = count)
    (hagrees : s.Agrees mem) (hwithin : b.Within s) : b.Walks mem s := by
  -- A header of an orderly buffer is one of these; each ends the walk or leads to the next.
  induction h generalizing s with
  | reached hreached =>
    subst hparseLen
    exact walks_of_reached hreached hwithin
  | eof hheader heof =>
    subst hp hparseLen
    by_cases hlt : s.parseLen < b.validLen
    · exact walks_of_eof hagrees hlt hheader hwithin heof
    · exact walks_of_reached hlt hwithin
  | padding hheader heof htype _ ih =>
    subst hp hparseLen
    by_cases hlt : s.parseLen < b.validLen
    · refine (walks_skip_iff hagrees hlt hheader hwithin heof htype).2 ?_
      refine ih ?_ rfl hcount hagrees.skip hwithin
      rw [Parser.skip, hagrees.puh_eq]
    · exact walks_of_reached hlt hwithin
  | packet hheader heof htype hrejected hnode hlen _ ih =>
    subst hp hparseLen hcount
    by_cases hlt : s.parseLen < b.validLen
    · refine (walks_take_iff hagrees hlt hheader hwithin heof htype hrejected hnode).2 ⟨hlen, ?_⟩
      refine ih ?_ ?_ length_take hagrees.take (hwithin.take hagrees hlen)
      · rw [Parser.take, hagrees.puh_eq]
      · rw [Parser.take, hagrees.puh_eq]
    · exact walks_of_reached hlt hwithin
  | @last p parseLen count hheader heof htype hends hnil =>
    subst hp hparseLen hcount
    by_cases hlt : s.parseLen < b.validLen
    · rw [Walks, hnil, List.append_nil]
      exact parsesTo_of_endsAt hends hagrees.puh_eq rfl rfl heof htype hheader hwithin
    · exact walks_of_reached hlt hwithin

/-- A buffer that is parsed is orderly from every header on. -/
theorem orderly_of_walks (hn : b.validLen.toNat ≤ n + s.puh) (hagrees : s.Agrees mem)
    (h : b.Walks mem s) : b.Orderly mem s.puh s.parseLen s.packets.length := by
  obtain ⟨hheader, hwithin⟩ := h.inBounds s Loop.reaches_refl
  induction n generalizing s with
  | zero =>
    refine .reached fun hlt => ?_
    have hle := hheader hlt
    rw [puhSize] at hle
    omega
  | succ n ih =>
    -- The first of these that is so says what the header is.
    by_cases hreached : ¬s.parseLen < b.validLen
    · exact .reached hreached
    have hlt := not_not.1 hreached
    have hheader := hheader hlt
    have hbehind (puh : Puh) : b.validLen.toNat ≤ n + puh.behind s.puh := by
      have hle := puh.add_le_behind s.puh
      rw [puhSize] at hle
      omega
    by_cases hlast : (mem.puh s.puh).eof ≠ 0
    · exact .eof hheader hlast
    have heof := not_not.1 hlast
    by_cases htype : (mem.puh s.puh).type = 0xF
    · have hnext := (walks_skip_iff hagrees hlt hheader hwithin heof htype).1 h
      obtain ⟨hheader', hwithin'⟩ := hnext.inBounds _ Loop.reaches_refl
      have horderly := ih (hbehind _) hagrees.skip hnext hheader' hwithin'
      rw [Parser.skip, hagrees.puh_eq] at horderly
      exact .padding hheader heof htype horderly
    by_cases hpacket : ¬(mem.puh s.puh).checked.Rejected b.blkSize ∧ b.nodes s.packets.length
    · obtain ⟨hrejected, hnode⟩ := hpacket
      obtain ⟨hlen, hnext⟩ :=
        (walks_take_iff hagrees hlt hheader hwithin heof htype hrejected hnode).1 h
      obtain ⟨hheader', hwithin'⟩ := hnext.inBounds _ Loop.reaches_refl
      have horderly := ih (hbehind _) hagrees.take hnext hheader' hwithin'
      rw [length_take, Parser.take, hagrees.puh_eq] at horderly
      exact .packet hheader heof htype hrejected hnode hlen horderly
    · obtain ⟨hends, hnil⟩ := endsAt_of_walks h hagrees hheader hwithin heof htype
        (or_iff_not_imp_left.2 fun hrejected hnode => hpacket ⟨hrejected, hnode⟩)
      exact .last hheader heof htype hends hnil

/-! ## Every buffer -/

/-- **SDIO receive buffer parsing is total exactly on the orderly buffers**: the loop returns, reads
    no header and hands over no packet outside of the valid length, and hands over exactly the
    packets in the buffer, as if those that are rejected were not there, if and only if all headers
    up to one with `eof` set and all packets are within the valid length, and no packet is rejected,
    except for one at which the loop ends and behind which there is no other one. -/
theorem parses_iff (b : RxBuf) (mem : Memory) : b.Parses mem ↔ b.Orderly mem 0 0 0 := by
  refine ⟨fun h => ?_, fun h => ?_⟩
  · exact @orderly_of_walks mem b.validLen.toNat b (.start mem) (Nat.le_add_right _ _)
      (fun _ _ => rfl) h
  · exact @walks_of_orderly mem 0 0 b (.start mem) 0 h rfl rfl rfl (fun _ _ => rfl) nofun

/-- A packet whose channel does not exist, in front of one for the first channel. -/
def badChannel : Memory := fun i =>
  [0x00, 0x02, 0x00, 0x0F, 0, 0, 0, 0, 0x00, 0x02, 0x00, 0x00, 0, 0, 0, 0, 0x00, 0x00, 0x80,
    0x00].getD i 0

/-- The loop never returns from a buffer of zeros, and loses the packet behind the one whose channel
    does not exist. -/
theorem not_parses :
    ¬Parses ⟨true, 20, fun _ => true⟩ (fun _ => 0) ∧
      ¬Parses ⟨true, 20, fun _ => true⟩ badChannel := by
  refine ⟨fun h => ?_, fun h => ?_⟩
  · obtain ⟨t, r, hreturns, -⟩ := h.returns
    have hnext : turn ⟨true, 20, fun _ => true⟩ (.start fun _ => 0) = .inr (.start fun _ => 0) :=
      rfl
    exact Loop.not_returns_of_next_self hnext hreturns
  · obtain ⟨t, r, hreturns, hl⟩ := h.returns
    have hends := @parsesTo_of_endsAt 0 _ ⟨true, 20, fun _ => true⟩ (.start badChannel) 0
      (endsAt_of_pos (by decide) (by decide) (by decide) (by decide) (by decide)) rfl rfl rfl
      (by decide) (by decide) (by decide) nofun
    obtain ⟨t', r', hreturns', hl'⟩ := hends.returns
    obtain rfl := hreturns.unique hreturns'
    exact absurd (hl.symm.trans hl') (by decide)

end RxBuf

end W132d.Sdio
