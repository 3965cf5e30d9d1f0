import W132d.Chain

/-!
# Packets on the SDIO bus

The Wi-Fi and Bluetooth drivers exchange packets with the chip over SDIO (`sdiohal_common.c`).
A packet is in the buffer of an `mbuf`, behind a public header (`Puh`) of four bytes that tells
its channel and length. Mbufs are linked to lists.

* `Puh.ofBytes`, `Puh.toBytes`: the public header, of a word in little-endian order;
* `Heap`: the mbufs in memory, by their addresses;
* `SdiohalList`: a list of mbufs, as its first and last mbuf and their number;
* `fillPuh`: the headers of the packets of a list are filled in.

The numbers of mbufs are those of mbufs that are allocated, and far from leaving their 32 bits.
-/

namespace W132d.Sdio

/-! ## Public headers -/

/-- `struct sdio_puh_t`. -/
structure Puh where
  pad : ℕ
  checkSum : ℕ
  len : ℕ
  eof : ℕ
  subtype : ℕ
  type : ℕ
  deriving DecidableEq, Repr

/-- A byte of a buffer. -/
def byte (buf : List UInt8) (i : ℕ) : ℕ := (buf[i]?.getD 0).toNat

/-- The header at the start of a buffer. -/
def Puh.ofBytes (buf : List UInt8) : Puh :=
  let w := byte buf 0 + 2 ^ 8 * byte buf 1 + 2 ^ 16 * byte buf 2 + 2 ^ 24 * byte buf 3
  { pad := w % 2 ^ 6
    checkSum := w / 2 ^ 6 % 2
    len := w / 2 ^ 7 % 2 ^ 16
    eof := w / 2 ^ 23 % 2
    subtype := w / 2 ^ 24 % 2 ^ 4
    type := w / 2 ^ 28 % 2 ^ 4 }

/-- The word of a header whose fields fit in their bits. -/
def Puh.word (puh : Puh) : ℕ :=
  puh.pad + 2 ^ 6 * puh.checkSum + 2 ^ 7 * puh.len + 2 ^ 23 * puh.eof + 2 ^ 24 * puh.subtype +
    2 ^ 28 * puh.type

/-- The bytes of a header. -/
def Puh.toBytes (puh : Puh) : List UInt8 :=
  [puh.word, puh.word / 2 ^ 8, puh.word / 2 ^ 16, puh.word / 2 ^ 24].map UInt8.ofNat

/-- The fields fit in their bits. -/
structure Puh.Fits (puh : Puh) : Prop where
  pad : puh.pad < 2 ^ 6
  checkSum : puh.checkSum < 2
  len : puh.len < 2 ^ 16
  eof : puh.eof < 2
  subtype : puh.subtype < 2 ^ 4
  type : puh.type < 2 ^ 4

/-- `sizeof(struct sdio_puh_t)`. -/
def puhSize : ℕ := 4

/-- A header is read as it was written. -/
theorem Puh.ofBytes_toBytes {puh : Puh} (h : puh.Fits) (rest : List UInt8) :
    Puh.ofBytes (puh.toBytes ++ rest) = puh := by
  obtain ⟨hpad, hsum, hlen, heof, hsub, htype⟩ := h
  have hword : puh.word < 2 ^ 32 := by
    rw [Puh.word]
    omega
  have hbytes : byte (puh.toBytes ++ rest) 0 + 2 ^ 8 * byte (puh.toBytes ++ rest) 1 +
      2 ^ 16 * byte (puh.toBytes ++ rest) 2 + 2 ^ 24 * byte (puh.toBytes ++ rest) 3 =
      puh.word := by
    simp only [byte, Puh.toBytes, List.map_cons, List.cons_append, List.getElem?_cons_zero,
      List.getElem?_cons_succ, Option.getD_some, UInt8.toNat_ofNat']
    omega
  rw [Puh.ofBytes, hbytes]
  rw [Puh.word] at hword ⊢
  cases puh
  simp only [Puh.mk.injEq]
  simp only at hpad hsum hlen heof hsub htype hword ⊢
  omega

/-! ## Channels -/

/-- `SDIO_CHN_TX_NUM`. -/
def sdioChnTxNum : ℕ := 12

/-- `SDIO_CHN_RX_NUM`. -/
def sdioChnRxNum : ℕ := 14

/-- `SDIO_CHANNEL_NUM`. -/
def sdioChannelNum : ℕ := sdioChnTxNum + sdioChnRxNum

/-- `sdiohal_channel_to_hwtype`: the type and the subtype. -/
def sdiohalChannelToHwtype (inout : Bool) (channel : ℕ) : ℕ × ℕ :=
  (0, if inout then channel else channel - sdioChnTxNum)

/-- `sdiohal_hwtype_to_channel`. -/
def sdiohalHwtypeToChannel (inout : Bool) (_type subtype : ℕ) : ℕ :=
  if inout then subtype else subtype + sdioChnTxNum

/-! ## Mbufs -/

/-- The address of an mbuf. -/
abbrev Addr := ℕ

/-- `struct mbuf_t`, with the bytes of its buffer. -/
structure Mbuf where
  next : Option Addr
  buf : List UInt8
  len : ℕ
  deriving DecidableEq, Repr

/-- The mbufs in memory. -/
abbrev Heap := Addr → Mbuf

/-- The mbuf after each one. -/
def Heap.next (heap : Heap) : Addr → Option Addr := fun a => (heap a).next

/-- `mbuf->next = p`. -/
def Heap.setNext (heap : Heap) (a : Addr) (p : Option Addr) : Heap :=
  Function.update heap a { heap a with next := p }

@[simp] theorem Heap.next_setNext (heap : Heap) (a : Addr) (p : Option Addr) :
    (heap.setNext a p).next = Function.update heap.next a p := by
  funext b
  by_cases hb : b = a
  · subst hb
    simp [Heap.next, Heap.setNext]
  · simp [Heap.next, Heap.setNext, hb]

/-- `struct sdiohal_list_t`, without the head that links it to other lists. -/
structure SdiohalList where
  mbufHead : Option Addr
  mbufTail : Option Addr
  type : ℕ
  subtype : ℕ
  nodeNum : ℕ
  deriving DecidableEq, Repr

/-- A zeroed list. -/
def SdiohalList.zero : SdiohalList := ⟨none, none, 0, 0, 0⟩

/-- The list is of the mbufs `l`. -/
structure SdiohalList.Holds (list : SdiohalList) (heap : Heap) (l : List Addr) : Prop where
  spells : Spells heap.next list.mbufHead l
  nodup : l.Nodup
  mbufTail : list.mbufTail = l.getLast?
  nodeNum : list.nodeNum = l.length

/-! ## Filling in headers -/

/-- The mbuf with its header filled in, whose `check_sum` is left as it is. -/
def Mbuf.fillPuh (type subtype : ℕ) (mbuf : Mbuf) : Mbuf :=
  let puh : Puh :=
    { pad := 0
      checkSum := (Puh.ofBytes mbuf.buf).checkSum
      len := mbuf.len % 2 ^ 16
      eof := 0
      subtype := subtype % 2 ^ 4
      type := type % 2 ^ 4 }
  { mbuf with buf := puh.toBytes ++ mbuf.buf.drop puhSize }

/-- The loop of `sdiohal_tx_fill_puh`, over `num` mbufs. -/
def fillPuh (type subtype : ℕ) : ℕ → Option Addr → Heap → Heap
  | 0, _, heap => heap
  | _ + 1, none, heap => heap
  | num + 1, some a, heap =>
    fillPuh type subtype num (heap a).next
      (Function.update heap a ((heap a).fillPuh type subtype))

/-- `sdiohal_tx_fill_puh`. -/
def sdiohalTxFillPuh (channel : ℕ) (head : Option Addr) (num : ℕ) (heap : Heap) : Heap :=
  fillPuh (sdiohalChannelToHwtype true channel).1 (sdiohalChannelToHwtype true channel).2 num
    head heap

variable {heap : Heap} {type subtype : ℕ} {p : Option Addr} {l : List Addr} {a : Addr}

/-- Filling in a header leaves the lists as they are. -/
theorem next_update_fillPuh (type subtype : ℕ) (heap : Heap) (a : Addr) :
    Heap.next (Function.update heap a ((heap a).fillPuh type subtype)) = heap.next := by
  funext b
  by_cases hb : b = a
  · subst hb
    simp [Heap.next, Mbuf.fillPuh]
  · simp [Heap.next, hb]

theorem next_fillPuh (type subtype num : ℕ) (p : Option Addr) (heap : Heap) :
    (fillPuh type subtype num p heap).next = heap.next := by
  induction num generalizing p heap with
  | zero => rfl
  | succ num ih =>
    cases p with
    | none => rfl
    | some a => rw [fillPuh, ih, next_update_fillPuh]

@[simp] theorem next_sdiohalTxFillPuh (channel num : ℕ) (p : Option Addr) (heap : Heap) :
    (sdiohalTxFillPuh channel p num heap).next = heap.next :=
  next_fillPuh ..

end W132d.Sdio
