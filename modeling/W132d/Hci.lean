import W132d.Machine

/-!
# Receiving HCI frames

The Bluetooth chip sends HCI packets over the SDIO transport as a stream of bytes:
a byte with the type of a packet, its header and its payload, whose length the
header has. The transport cuts the stream into blocks that know nothing of packets,
and `sprd_hci_recv` puts the packets together again (`hci.c`).

* `sprdHciRecv`: the function, block by block;
* `Hci.feed`: what one byte does. A block does what its bytes do, one after the
  other (`recvLoop_eq_feed`), so that the way the stream was cut does not matter;
* `sprdHciRecv_frames`: of a stream of packets and bytes that are no type of a
  packet, exactly the packets are handed on, and the other bytes are counted.

The kernel's part is a parameter: whether the allocation of the `n`th `sk_buff`
succeeds (`alloc`), and the room in a fresh one (`cap`).

A block may end anywhere, so that the receiver keeps an `sk_buff` that is not complete, with how
much it wants next: the rest of the header, and then the payload, whose length is known only once
the header is complete. An `sk_buff` that is allocated has a certain room, and one without room for
what is wanted is dropped with the rest of the block.

How the theorem is proved: putting the bytes of a block into the `sk_buff` at once is the same as
doing so one by one, as only the last of them can complete what is wanted (`foldlM_feed`). So the
loop over a block does what its bytes do (`recvLoop_eq_feed`), and all blocks do what the stream
does. The bytes of a packet then make one frame, starting from a receiver without an `sk_buff`
(`feed_packet`), and the theorem is an induction on the items of the stream.
-/

namespace W132d.Hci

/-! ## Packets -/

/-- `HCI_ACLDATA_PKT`. -/
def aclDataPkt : UInt8 := 0x02

/-- `HCI_SCODATA_PKT`. -/
def scoDataPkt : UInt8 := 0x03

/-- `HCI_EVENT_PKT`. -/
def eventPkt : UInt8 := 0x04

/-- `HCI_ISODATA_PKT`. -/
def isoDataPkt : UInt8 := 0x05

/-- `sprd_hci_hdr_len`: the length of the header, zero for a byte that is no type. -/
def hdrLen (type : UInt8) : ℕ :=
  if type = eventPkt then 2
  else if type = aclDataPkt then 4
  else if type = scoDataPkt then 3
  else if type = isoDataPkt then 4
  else 0

/-- `__le16_to_cpu`, of the bytes at `i`. -/
def le16At (data : List UInt8) (i : ℕ) : ℕ :=
  (data.getD i 0).toNat + 256 * (data.getD (i + 1) 0).toNat

/-- `sprd_hci_payload_len`: the length of the payload that a header has. -/
def payloadLen (type : UInt8) (data : List UInt8) : ℕ :=
  if type = eventPkt then (data.getD 1 0).toNat
  else if type = aclDataPkt then le16At data 2
  else if type = scoDataPkt then (data.getD 2 0).toNat
  else if type = isoDataPkt then le16At data 2 &&& 0x3fff
  else 0

/-- A packet: its header and payload (`data`) are as long as they say. -/
structure Packet where
  pktType : UInt8
  data : List UInt8
  isType : hdrLen pktType ≠ 0
  size_eq : data.length = hdrLen pktType + payloadLen pktType data

/-! ## The receiver -/

/-- An `sk_buff`: its type (`hci_skb_pkt_type`) and its data. -/
structure RxSkb where
  pktType : UInt8
  data : List UInt8
  deriving DecidableEq, Repr

/-- The receiver (`struct sprd_hci` and its `hci_dev`), with the number of `sk_buff`s
    asked for and the frames handed to `hci_recv_frame`. -/
structure SprdHci where
  attached : Bool
  running : Bool
  rxSkb : Option RxSkb
  rxHdrLen : ℕ
  rxWant : ℕ
  errRx : UInt32
  byteRx : UInt32
  allocs : ℕ
  frames : List RxSkb
  deriving DecidableEq, Repr

/-- What is left of `n` after `m`, as an `unsigned int`. -/
def sub32 (n m : ℕ) : ℕ := (((n : ℤ) - m) % 2 ^ 32).toNat

/-- Keeping the `sk_buff`, or handing it on (`hci_recv_frame`) if it is complete. -/
def handOn (s : SprdHci) (skb : RxSkb) : SprdHci :=
  if skb.data.length = s.rxWant then
    { s with
      byteRx := s.byteRx + UInt32.ofNat skb.data.length
      frames := s.frames ++ [skb]
      rxSkb := none }
  else { s with rxSkb := some skb }

/-- After data was put into the `sk_buff`: a complete header tells the length of the
    packet, and a complete packet is handed on. -/
def settle (s : SprdHci) (skb : RxSkb) : SprdHci :=
  if skb.data.length = s.rxHdrLen ∧ s.rxWant = s.rxHdrLen then
    handOn { s with rxWant := s.rxHdrLen + payloadLen skb.pktType skb.data } skb
  else handOn s skb

section

variable (cap : ℕ) (alloc : ℕ → Bool)

/-- Putting as much of a block into the `sk_buff` as it wants: the rest of the block,
    or `none` if the `sk_buff` is too small and the function returns. -/
def recvSome (s : SprdHci) (skb : RxSkb) (data : List UInt8) : SprdHci × Option (List UInt8) :=
  let n := min data.length (sub32 s.rxWant skb.data.length)
  if n > cap - skb.data.length then ({ s with errRx := s.errRx + 1, rxSkb := none }, none)
  else (settle s { skb with data := skb.data ++ data.take n }, some (data.drop n))

/-- The loop of `sprd_hci_recv`; it takes at most one turn for each byte. -/
def recvLoop : ℕ → SprdHci → List UInt8 → Option SprdHci
  | _, s, [] => some s
  | 0, _, _ :: _ => none
  | fuel + 1, s, b :: data =>
    match s.rxSkb with
    | some skb =>
      match recvSome cap s skb (b :: data) with
      | (s, none) => some s
      | (s, some data) => recvLoop fuel s data
    | none =>
      let s := { s with rxHdrLen := hdrLen b }
      if s.rxHdrLen = 0 then recvLoop fuel { s with errRx := s.errRx + 1 } data
      else
        let s' := { s with allocs := s.allocs + 1 }
        if !alloc s.allocs then some { s' with errRx := s.errRx + 1 }
        else
          match recvSome cap { s' with rxWant := s.rxHdrLen } ⟨b, []⟩ data with
          | (s, none) => some s
          | (s, some data) => recvLoop fuel s data

/-- `sprd_hci_recv`. -/
def sprdHciRecv (s : SprdHci) (data : List UInt8) : Option SprdHci :=
  if !s.attached || !s.running then some s else recvLoop cap alloc data.length s data

/-- What one byte does: it starts an `sk_buff`, is counted as no type of a packet, or is
    put into the `sk_buff`. It does nothing (`none`) if there is no `sk_buff` for it, or
    the packet does not fit into the one there is. -/
def feed (s : SprdHci) (b : UInt8) : Option SprdHci :=
  match s.rxSkb with
  | some skb =>
    let s := settle s { skb with data := skb.data ++ [b] }
    if s.rxWant ≤ cap then some s else none
  | none =>
    if hdrLen b = 0 then some { s with rxHdrLen := 0, errRx := s.errRx + 1 }
    else if alloc s.allocs ∧ hdrLen b ≤ cap then
      some { s with
        rxHdrLen := hdrLen b, rxWant := hdrLen b, allocs := s.allocs + 1, rxSkb := some ⟨b, []⟩ }
    else none

/-- The `sk_buff` of a packet in the making wants more, and there is room for it. -/
structure Ready (s : SprdHci) : Prop where
  hdr_le : ∀ skb ∈ s.rxSkb, s.rxHdrLen ≤ 4
  want : ∀ skb ∈ s.rxSkb, skb.data.length < s.rxWant ∧ s.rxWant ≤ cap ∧ s.rxWant < 2 ^ 32

variable {cap} {alloc} {s s' : SprdHci} {skb : RxSkb} {bs data : List UInt8}

theorem hdrLen_le (type : UInt8) : hdrLen type ≤ 4 := by
  unfold hdrLen
  split_ifs <;> decide

theorem le16At_lt (data : List UInt8) (i : ℕ) : le16At data i < 2 ^ 16 := by
  have h₁ := (data.getD i 0).toNat_lt
  have h₂ := (data.getD (i + 1) 0).toNat_lt
  unfold le16At
  omega

theorem payloadLen_lt (type : UInt8) (data : List UInt8) : payloadLen type data < 2 ^ 16 := by
  have hbyte : ∀ i, (data.getD i 0).toNat < 2 ^ 16 := fun i =>
    (data.getD i 0).toNat_lt.trans (by decide)
  unfold payloadLen
  split_ifs
  · exact hbyte 1
  · exact le16At_lt data 2
  · exact hbyte 2
  · exact Nat.and_le_left.trans_lt (le16At_lt data 2)
  · decide

/-- Short of what is wanted, data is only kept. -/
theorem settle_of_lt (h : skb.data.length < s.rxWant) :
    settle s skb = { s with rxSkb := some skb } := by
  have hhdr : ¬(skb.data.length = s.rxHdrLen ∧ s.rxWant = s.rxHdrLen) := by omega
  rw [settle, if_neg hhdr, handOn, if_neg h.ne]

/-- A complete header tells the length of the packet. -/
theorem settle_of_header (hlen : skb.data.length = s.rxHdrLen) (hwant : s.rxWant = s.rxHdrLen) :
    settle s skb =
      handOn { s with rxWant := s.rxHdrLen + payloadLen skb.pktType skb.data } skb := by
  rw [settle, if_pos ⟨hlen, hwant⟩]

/-- A complete packet with a payload is handed on. -/
theorem settle_of_full (hlen : skb.data.length = s.rxWant) (hne : s.rxWant ≠ s.rxHdrLen) :
    settle s skb = { s with
      byteRx := s.byteRx + UInt32.ofNat skb.data.length
      frames := s.frames ++ [skb]
      rxSkb := none } := by
  rw [settle, if_neg fun h => hne h.2, handOn, if_pos hlen]

/-- What is kept or handed on does not depend on the `sk_buff` before. -/
theorem settle_frame (h : skb.data.length ≤ s.rxWant) :
    (settle s skb).rxHdrLen = s.rxHdrLen ∧ (settle s skb).attached = s.attached ∧
      (settle s skb).running = s.running ∧
      ((settle s skb).rxSkb = none ∨
        (settle s skb).rxSkb = some skb ∧ skb.data.length < (settle s skb).rxWant ∧
        ((settle s skb).rxWant = s.rxWant ∨ (settle s skb).rxWant < s.rxHdrLen + 2 ^ 16)) := by
  have hlen := payloadLen_lt skb.pktType skb.data
  unfold settle handOn
  split_ifs with hhdr hfull hfull
  · exact ⟨rfl, rfl, rfl, .inl rfl⟩
  · dsimp only at hfull ⊢
    refine ⟨rfl, rfl, rfl, .inr ⟨rfl, by omega, .inr (by omega)⟩⟩
  · exact ⟨rfl, rfl, rfl, .inl rfl⟩
  · dsimp only at hfull ⊢
    exact ⟨rfl, rfl, rfl, .inr ⟨rfl, by omega, .inl rfl⟩⟩

/-- Bytes that do not exceed what is wanted are put into the `sk_buff` one by one as
    they are at once: only the last of them can complete the header or the packet. -/
theorem foldlM_feed (hskb : s.rxSkb = some skb) (hwant : s.rxWant ≤ cap) (hne : bs ≠ [])
    (hlen : skb.data.length + bs.length ≤ s.rxWant) :
    bs.foldlM (feed cap alloc) s =
      if (settle s { skb with data := skb.data ++ bs }).rxWant ≤ cap then
        some (settle s { skb with data := skb.data ++ bs })
      else none := by
  induction bs generalizing s skb with
  | nil => exact absurd rfl hne
  | cons b bs ih =>
    rw [List.foldlM_cons, feed, hskb]
    dsimp only
    cases bs with
    | nil => simp only [List.foldlM_nil]; split_ifs <;> rfl
    | cons b' bs =>
      have hlt : (skb.data ++ [b]).length < s.rxWant := by
        rw [List.length_cons, List.length_cons] at hlen
        rw [List.length_append, List.length_singleton]
        omega
      rw [@settle_of_lt s { skb with data := skb.data ++ [b] } hlt, if_pos hwant]
      have hrest : (skb.data ++ [b]).length + (b' :: bs).length ≤ s.rxWant := by
        rw [List.length_cons] at hlen
        rw [List.length_append, List.length_singleton]
        omega
      have hih := @ih { s with rxSkb := some { skb with data := skb.data ++ [b] } } _ rfl hwant
        (List.cons_ne_nil b' bs) hrest
      rw [List.append_assoc, List.singleton_append] at hih
      exact hih

/-- What a byte leaves is ready for the next one. -/
theorem Ready.feed (h : Ready cap s) {b : UInt8} (hs : feed cap alloc s b = some s') :
    Ready cap s' ∧ s'.attached = s.attached ∧ s'.running = s.running := by
  unfold Hci.feed at hs
  split at hs
  · -- A packet is being collected: it has room for one more byte.
    rename_i skb hskb
    dsimp only at hs
    obtain ⟨hlt, hle, hmax⟩ := h.want skb hskb
    have hlen : (skb.data ++ [b]).length ≤ s.rxWant := by
      rw [List.length_append, List.length_singleton]
      omega
    obtain ⟨hhdr, hatt, hrun, hcase⟩ :=
      @settle_frame s { skb with data := skb.data ++ [b] } hlen
    obtain ⟨hcap, hs⟩ := Option.ite_none_right_eq_some.1 hs
    obtain rfl := Option.some.inj hs
    have hle' := h.hdr_le skb hskb
    refine ⟨⟨fun _ _ => hhdr ▸ hle', fun skb' hskb' => ?_⟩, hatt, hrun⟩
    -- The byte may complete the packet, or its header, which says how much is wanted then.
    rcases hcase with hnone | ⟨hsome, hlt', hbound⟩
    · rw [hnone] at hskb'
      exact absurd hskb' (Option.not_mem_none skb')
    · rw [hsome] at hskb'
      obtain rfl := Option.some.inj hskb'
      exact ⟨hlt', hcap, by omega⟩
  · -- A new packet begins, unless the byte begins none.
    rename_i hskb
    split_ifs at hs with hjunk halloc
    · obtain rfl := Option.some.inj hs
      refine ⟨⟨fun _ _ => Nat.zero_le _, fun skb' hskb' => ?_⟩, rfl, rfl⟩
      exact absurd (hskb.symm.trans hskb') (by simp)
    · obtain rfl := Option.some.inj hs
      have hle := hdrLen_le b
      refine ⟨⟨fun _ _ => hle, fun skb' hskb' => ?_⟩, rfl, rfl⟩
      obtain rfl := Option.some.inj hskb'
      exact ⟨Nat.pos_of_ne_zero hjunk, halloc.2, by dsimp only; omega⟩

theorem Ready.foldlM (h : Ready cap s) (hs : bs.foldlM (Hci.feed cap alloc) s = some s') :
    Ready cap s' ∧ s'.attached = s.attached ∧ s'.running = s.running := by
  refine foldlM_invariant
    (I := fun t => Ready cap t ∧ t.attached = s.attached ∧ t.running = s.running) ?_
    ⟨h, rfl, rfl⟩ hs
  rintro t b t' ⟨ht, hatt, hrun⟩ hfeed
  obtain ⟨ht', hatt', hrun'⟩ := ht.feed hfeed
  exact ⟨ht', hatt'.trans hatt, hrun'.trans hrun⟩

/-- A block goes into the `sk_buff` as far as it is wanted, which does what these bytes
    do, and the rest is left. -/
theorem recvSome_eq (h : Ready cap s) (hskb : s.rxSkb = some skb)
    (hs : data.foldlM (feed cap alloc) s = some s') :
    ∃ s₁ rest, (∀ o, recvSome cap { s with rxSkb := o } skb data = (s₁, some rest)) ∧
      Ready cap s₁ ∧ rest.foldlM (feed cap alloc) s₁ = some s' ∧
      rest.length ≤ data.length - 1 := by
  obtain ⟨hlt, hle, hmax⟩ := h.want skb hskb
  have hsub : sub32 s.rxWant skb.data.length = s.rxWant - skb.data.length := by
    unfold sub32
    omega
  set n := min data.length (s.rxWant - skb.data.length) with hn
  have hrecv : ∀ o, recvSome cap { s with rxSkb := o } skb data =
      (settle s { skb with data := skb.data ++ data.take n }, some (data.drop n)) := by
    intro o
    unfold recvSome
    dsimp only
    rw [hsub, ← hn, if_neg (by omega)]
    rfl
  rcases data.eq_nil_or_concat' with rfl | ⟨bs, b, hdata⟩
  · -- An empty block changes nothing.
    have hsame : settle s { skb with data := skb.data ++ [].take n } = s := by
      rw [List.take_nil, List.append_nil, settle_of_lt hlt, ← hskb]
    refine ⟨s, [], fun o => ?_, h, hs, Nat.zero_le _⟩
    rw [hrecv o, hsame, List.drop_nil]
  · -- What fits is fed as one block, and the bytes behind it are the rest.
    have hpos : 0 < data.length := by
      rw [hdata, List.length_append, List.length_singleton]
      omega
    have htake : (data.take n).length = n := by
      rw [List.length_take]
      omega
    have hne : data.take n ≠ [] := by
      rw [← List.length_pos_iff, htake]
      omega
    have hfeed := @foldlM_feed cap alloc s skb (data.take n) hskb hle hne (by rw [htake]; omega)
    rw [← List.take_append_drop n data, List.foldlM_append] at hs
    obtain ⟨s₁, h₁, hs⟩ := Option.bind_eq_some_iff.1 hs
    have hready := (h.foldlM h₁).1
    rw [hfeed] at h₁
    obtain ⟨-, h₁⟩ := Option.ite_none_right_eq_some.1 h₁
    refine ⟨s₁, data.drop n, fun o => ?_, hready, hs, ?_⟩
    · rw [hrecv o, Option.some.inj h₁]
    · rw [List.length_drop]
      omega

/-! ### Turns of the loop -/

variable {b : UInt8} {rest : List UInt8} {fuel : ℕ} {s₁ : SprdHci}

theorem recvLoop_some (hskb : s.rxSkb = some skb)
    (hrecv : recvSome cap s skb (b :: data) = (s₁, some rest)) :
    recvLoop cap alloc (fuel + 1) s (b :: data) = recvLoop cap alloc fuel s₁ rest := by
  simp only [recvLoop, hskb, hrecv]

theorem recvLoop_junk (hskb : s.rxSkb = none) (hjunk : hdrLen b = 0) :
    recvLoop cap alloc (fuel + 1) s (b :: data) =
      recvLoop cap alloc fuel { s with rxHdrLen := 0, errRx := s.errRx + 1 } data := by
  simp only [recvLoop, hskb, hjunk, if_pos]

theorem recvLoop_none (hskb : s.rxSkb = none) (htype : hdrLen b ≠ 0)
    (halloc : alloc s.allocs = true)
    (hrecv : recvSome cap
      { s with rxHdrLen := hdrLen b, rxWant := hdrLen b, allocs := s.allocs + 1, rxSkb := none }
      ⟨b, []⟩ data = (s₁, some rest)) :
    recvLoop cap alloc (fuel + 1) s (b :: data) = recvLoop cap alloc fuel s₁ rest := by
  have hsame : ({ s with rxHdrLen := hdrLen b, rxWant := hdrLen b, allocs := s.allocs + 1,
                         rxSkb := none } : SprdHci) =
      { s with rxHdrLen := hdrLen b, rxWant := hdrLen b, allocs := s.allocs + 1 } := by
    rw [← hskb]
  rw [hsame] at hrecv
  simp only [recvLoop, hskb, htype, halloc, if_false, Bool.not_true, Bool.false_eq_true] at hrecv ⊢
  simp only [hrecv]

/-- A block does what its bytes do, one after the other. -/
theorem recvLoop_eq_feed (h : Ready cap s) (hfuel : data.length ≤ fuel)
    (hs : data.foldlM (feed cap alloc) s = some s') : recvLoop cap alloc fuel s data = some s' := by
  -- By induction on the fuel: a turn takes one byte at least.
  induction fuel generalizing s data with
  | zero =>
    obtain rfl := List.length_eq_zero_iff.1 (Nat.le_zero.1 hfuel)
    exact hs
  | succ fuel ih =>
    cases data with
    | nil => exact hs
    | cons b data =>
      rw [List.length_cons] at hfuel
      cases hskb : s.rxSkb with
      | some skb =>
        obtain ⟨s₁, rest, hrecv, h₁, hs₁, hlen⟩ := recvSome_eq h hskb hs
        have hsame := hrecv s.rxSkb
        rw [recvLoop_some hskb hsame]
        rw [List.length_cons] at hlen
        exact ih h₁ (by omega) hs₁
      | none =>
        rw [List.foldlM_cons] at hs
        obtain ⟨s₁, hfeed, hs⟩ := Option.bind_eq_some_iff.1 hs
        have h₁ := (h.feed hfeed).1
        rw [feed, hskb] at hfeed
        dsimp only at hfeed
        split_ifs at hfeed with hjunk halloc
        · -- No packet begins with the byte.
          rw [← hskb] at hfeed
          rw [recvLoop_junk hskb hjunk, Option.some.inj hfeed]
          exact ih h₁ (by omega) hs
        · -- The rest of the turn is that of an `sk_buff` that is there.
          obtain rfl := Option.some.inj hfeed
          obtain ⟨s₂, rest, hrecv, h₂, hs₂, hlen⟩ := recvSome_eq h₁ rfl hs
          rw [recvLoop_none hskb hjunk halloc.1 (hrecv none)]
          exact ih h₂ (by omega) hs₂

/-! ### Packets and other bytes -/

theorem getD_take {n i : ℕ} (h : i < n) : (data.take n).getD i 0 = data.getD i 0 := by
  rw [List.getD_eq_getElem?_getD, List.getD_eq_getElem?_getD, List.getElem?_take_of_lt h]

/-- The length of the payload is in the header. -/
theorem payloadLen_take (type : UInt8) :
    payloadLen type (data.take (hdrLen type)) = payloadLen type data := by
  unfold payloadLen hdrLen le16At
  split_ifs with hevent hacl hsco hiso
  · rw [getD_take (by decide)]
  · rw [getD_take (by decide), getD_take (by decide)]
  · rw [getD_take (by decide)]
  · rw [getD_take (by decide), getD_take (by decide)]
  · rfl

/-- The frame of a packet. -/
def Packet.frame (p : Packet) : RxSkb := ⟨p.pktType, p.data⟩

/-- The receiver after a whole packet. -/
def received (s : SprdHci) (p : Packet) : SprdHci :=
  { s with
    rxHdrLen := hdrLen p.pktType
    rxWant := p.data.length
    allocs := s.allocs + 1
    byteRx := s.byteRx + UInt32.ofNat p.data.length
    frames := s.frames ++ [p.frame]
    rxSkb := none }

/-- The bytes of a packet make its frame. -/
theorem feed_packet (p : Packet) (hskb : s.rxSkb = none) (halloc : alloc s.allocs = true)
    (hcap : p.data.length ≤ cap) :
    (p.pktType :: p.data).foldlM (feed cap alloc) s = some (received s p) := by
  have hsize := p.size_eq
  have htype := p.isType
  set hdr := p.data.take (hdrLen p.pktType) with hhdr
  have hlen : hdr.length = hdrLen p.pktType := by
    rw [hhdr, List.length_take]
    omega
  have hne : hdr ≠ [] := by
    rw [← List.length_pos_iff]
    omega
  -- The type byte starts an `sk_buff`.
  set s₁ : SprdHci := { s with
      rxHdrLen := hdrLen p.pktType
      rxWant := hdrLen p.pktType
      allocs := s.allocs + 1
      rxSkb := some ⟨p.pktType, []⟩ } with hs₁
  have hfirst : feed cap alloc s p.pktType = some s₁ := by
    simp only [feed, hskb]
    rw [if_neg htype, if_pos ⟨halloc, by omega⟩]
  -- The header tells the length of the packet.
  have hheader : settle s₁ ⟨p.pktType, hdr⟩ =
      handOn { s₁ with rxWant := p.data.length } ⟨p.pktType, hdr⟩ := by
    rw [settle_of_header hlen rfl, hhdr, payloadLen_take, hsize]
  have hwant : (settle s₁ ⟨p.pktType, hdr⟩).rxWant = p.data.length := by
    rw [hheader, handOn]
    split_ifs <;> rfl
  have hsecond : hdr.foldlM (feed cap alloc) s₁ = some (settle s₁ ⟨p.pktType, hdr⟩) := by
    have hfold := @foldlM_feed cap alloc s₁ ⟨p.pktType, []⟩ hdr rfl
      (by change hdrLen p.pktType ≤ cap; omega) hne (by rw [List.length_nil, Nat.zero_add, hlen])
    rw [List.nil_append, hwant, if_pos hcap] at hfold
    exact hfold
  have hsplit : p.data = hdr ++ p.data.drop (hdrLen p.pktType) :=
    (List.take_append_drop _ _).symm
  rw [List.foldlM_cons, hfirst, hsplit]
  change (hdr ++ _).foldlM (feed cap alloc) s₁ = _
  rw [List.foldlM_append, hsecond]
  change (p.data.drop (hdrLen p.pktType)).foldlM (feed cap alloc) _ = _
  by_cases hfull : p.data.length = hdrLen p.pktType
  · -- There is no payload.
    have hdata : hdr = p.data := by rw [hhdr, ← hfull, List.take_length]
    rw [← hfull, List.drop_length, List.foldlM_nil, hheader, hdata, handOn, if_pos rfl]
    rfl
  · -- The payload completes the packet.
    have hshort : hdr.length ≠ p.data.length := by omega
    have hstate : settle s₁ ⟨p.pktType, hdr⟩ =
        { s₁ with rxWant := p.data.length, rxSkb := some ⟨p.pktType, hdr⟩ } := by
      rw [hheader, handOn, if_neg hshort]
    have hpayload : p.data.drop (hdrLen p.pktType) ≠ [] := by
      rw [Ne, List.drop_eq_nil_iff]
      omega
    have hdone : settle { s₁ with rxWant := p.data.length, rxSkb := some ⟨p.pktType, hdr⟩ }
        ⟨p.pktType, p.data⟩ = received s p := settle_of_full rfl hfull
    rw [hstate, foldlM_feed rfl hcap hpayload
      (by rw [← List.length_append, ← hsplit])]
    dsimp only
    rw [← hsplit, hdone]
    exact if_pos hcap

/-- What the stream has between two cuts of the sender: a packet, or a byte that is no
    type of a packet. -/
inductive Item where
  | packet (p : Packet)
  | junk (b : UInt8) (h : hdrLen b = 0)

/-- The bytes of an item. -/
def Item.encode : Item → List UInt8
  | .packet p => p.pktType :: p.data
  | .junk b _ => [b]

/-- The frames of the packets of a stream, in order. -/
def frames : List Item → List RxSkb
  | [] => []
  | .packet p :: items => p.frame :: frames items
  | .junk .. :: items => frames items

/-- The number of the other bytes. -/
def junkCount : List Item → ℕ
  | [] => 0
  | .packet _ :: items => junkCount items
  | .junk .. :: items => junkCount items + 1

/-- The packets of a stream fit into an `sk_buff`. -/
def Fits (cap : ℕ) (items : List Item) : Prop :=
  ∀ p, .packet p ∈ items → p.data.length ≤ cap

/-- The bytes of a stream, one after the other, make the frames of its packets. -/
theorem feed_items {items : List Item} (hcap : Fits cap items) (halloc : ∀ n, alloc n = true)
    (hskb : s.rxSkb = none) :
    ∃ s', (items.flatMap Item.encode).foldlM (feed cap alloc) s = some s' ∧
      s'.frames = s.frames ++ frames items ∧
      s'.errRx = s.errRx + UInt32.ofNat (junkCount items) ∧ s'.rxSkb = none := by
  induction items generalizing s with
  | nil =>
    refine ⟨s, rfl, ?_, ?_, hskb⟩
    · rw [frames, List.append_nil]
    · exact (UInt32.add_zero _).symm
  | cons item items ih =>
    have hcap' : Fits cap items := fun p hp => hcap p (List.mem_cons_of_mem _ hp)
    rw [List.flatMap_cons]
    cases item with
    | packet p =>
      have hp := @feed_packet cap alloc s p hskb (halloc _) (hcap p List.mem_cons_self)
      obtain ⟨s', hs', hframes, herr, hnone⟩ := ih hcap' (s := received s p) rfl
      refine ⟨s', ?_, ?_, herr, hnone⟩
      · rw [List.foldlM_append, Item.encode, hp]
        exact hs'
      · rw [hframes, frames]
        exact List.append_assoc ..
    | junk b hb =>
      -- A byte that begins no packet is dropped, and counted.
      have hb' : feed cap alloc s b = some { s with rxHdrLen := 0, errRx := s.errRx + 1 } := by
        simp only [feed, hskb, if_pos hb]
      obtain ⟨s', hs', hframes, herr, hnone⟩ :=
        ih hcap' (s := { s with rxHdrLen := 0, errRx := s.errRx + 1 }) hskb
      refine ⟨s', ?_, hframes, ?_, hnone⟩
      · rw [Item.encode, List.singleton_append, List.foldlM_cons, hb']
        exact hs'
      · rw [herr, junkCount, UInt32.ofNat_add, UInt32.add_comm (UInt32.ofNat _),
          ← UInt32.add_assoc]
        rfl

/-- A device that is attached and running takes a stream block by block as it takes
    its bytes, however the stream was cut. -/
theorem sprdHciRecv_eq_feed {blocks : List (List UInt8)} (hattached : s.attached = true)
    (hrunning : s.running = true) (h : Ready cap s)
    (hs : blocks.flatten.foldlM (feed cap alloc) s = some s') :
    blocks.foldlM (sprdHciRecv cap alloc) s = some s' := by
  induction blocks generalizing s with
  | nil => exact hs
  | cons data blocks ih =>
    rw [List.flatten_cons, List.foldlM_append] at hs
    obtain ⟨s₁, hs₁, hs⟩ := Option.bind_eq_some_iff.1 hs
    obtain ⟨h₁, hatt, hrun⟩ := h.foldlM hs₁
    have hdata : sprdHciRecv cap alloc s data = some s₁ := by
      rw [sprdHciRecv, hattached, hrunning]
      exact recvLoop_eq_feed h le_rfl hs₁
    rw [List.foldlM_cons, hdata]
    exact ih (hatt.trans hattached) (hrun.trans hrunning) h₁ hs

end

/-- Of a stream of packets that fit into an `sk_buff` and of other bytes, however it is
    cut into blocks, exactly the packets are handed on, in order, the other bytes are
    counted, and no packet is left in the making. -/
theorem sprdHciRecv_frames (cap : ℕ) (alloc : ℕ → Bool) (halloc : ∀ n, alloc n = true)
    (s : SprdHci) (hattached : s.attached = true) (hrunning : s.running = true)
    (hskb : s.rxSkb = none) (items : List Item) (hcap : Fits cap items)
    (blocks : List (List UInt8)) (hblocks : blocks.flatten = items.flatMap Item.encode) :
    ∃ s', blocks.foldlM (sprdHciRecv cap alloc) s = some s' ∧
      s'.frames = s.frames ++ frames items ∧
      s'.errRx = s.errRx + UInt32.ofNat (junkCount items) ∧ s'.rxSkb = none := by
  obtain ⟨s', hs', hrest⟩ := feed_items hcap halloc hskb
  have hready : Ready cap s :=
    ⟨fun skb h => absurd (hskb.symm.trans h) (by simp),
      fun skb h => absurd (hskb.symm.trans h) (by simp)⟩
  rw [← hblocks] at hs'
  exact ⟨s', sprdHciRecv_eq_feed hattached hrunning hready hs', hrest⟩

/-- A receiver that was just attached and opened. -/
def opened : SprdHci where
  attached := true
  running := true
  rxSkb := none
  rxHdrLen := 0
  rxWant := 0
  errRx := 0
  byteRx := 0
  allocs := 0
  frames := []

/-- An event without parameters. -/
def eventPacket : Packet := ⟨eventPkt, [0x0e, 0x00], by decide, by decide⟩

/-- An isochronous packet with two bytes of payload, above whose length two more bits
    of the field are set. -/
def isoPacket : Packet := ⟨isoDataPkt, [0x00, 0x00, 0x02, 0xc0, 0x55, 0xaa], by decide, by decide⟩

/-- A stream with a byte between the two packets, cut inside the header of the second. -/
theorem sprdHciRecv_frames_cut :
    ∃ s', [[0x04, 0x0e, 0x00, 0xff, 0x05, 0x00], [], [0x00, 0x02, 0xc0, 0x55], [0xaa]].foldlM
        (sprdHciRecv 1028 fun _ => true) opened = some s' ∧
      s'.frames = opened.frames ++
        frames [.packet eventPacket, .junk 0xff (by decide), .packet isoPacket] ∧
      s'.errRx = opened.errRx + UInt32.ofNat
        (junkCount [.packet eventPacket, .junk 0xff (by decide), .packet isoPacket]) ∧
      s'.rxSkb = none := by
  refine sprdHciRecv_frames 1028 _ (fun _ => rfl) opened rfl rfl rfl _ ?_ _ rfl
  intro p hp
  simp only [List.mem_cons, List.not_mem_nil, Item.packet.injEq, reduceCtorEq, or_false,
    false_or] at hp
  rcases hp with rfl | rfl <;> decide

end W132d.Hci
