import W132d.Sdio.Basic

/-!
# Packets are packed for the bus

The transmit thread copies the packets of a batch behind each other into a buffer, and sends it
when the next packet may not fit, and at the end (`sdiohal_tx_data_list_send`). What is sent is an
*aggregate*: packets with their public headers, each padded to a multiple of four bytes, and a
header with `eof` set. Whoever receives it walks from header to header until that one.

* `sdiohalTxPacker`, `sdiohalTxSetEof`: a packet, and the last header, are put into the buffer;
* `sdiohalTxDataListSend`: a batch is packed and sent;
* `walk`: the packets of an aggregate;
* `Roomy`: the last header fits into the buffer, too, whenever it is sent;
* `pack_walk_iff`: the aggregates have the packets of the batch exactly if so;
* `not_pack_walk`: the buffer is full before the last header.
-/

namespace W132d.Sdio

/-! ## The buffer -/

/-- `MAX_MBUF_SIZE`. -/
def maxMbufSize : ℕ := 2 ^ 11

/-- `SDIOHAL_TX_SENDBUF_LEN`: `MAX_CHAIN_NODE_NUM * MAX_MBUF_SIZE`. -/
def sdiohalTxSendbufLen : ℕ := 100 * maxMbufSize

/-- `SDIOHAL_ALIGN_4BYTE`: `(a + 3) & ~3`. -/
def sdiohalAlign4Byte (a : ℕ) : ℕ := (a + 3) / 4 * 4

/-- `memcpy` into a buffer, which crashes if it writes behind its end. -/
def memcpy (buf : List UInt8) (offset : ℕ) (src : List UInt8) : Option (List UInt8) :=
  if offset + src.length ≤ buf.length then
    some (buf.take offset ++ src ++ buf.drop (offset + src.length))
  else none

/-- `struct sdiohal_sendbuf_t`: the buffer of `SDIOHAL_TX_SENDBUF_LEN` bytes, and how many of
    them are used. -/
structure SendBuf where
  buf : List UInt8
  usedLen : ℕ

/-- The header of `eof_buf`. -/
def eofPuh : Puh := ⟨0, 0, 0, 1, 0, 0⟩

/-- `sdiohal_tx_packer`, which crashes if the buffer of the mbuf is too short. -/
def sdiohalTxPacker (sendBuf : SendBuf) (mbufNode : Mbuf) : Option SendBuf :=
  if mbufNode.buf.length < mbufNode.len + puhSize then none
  else do
    let buf ← memcpy sendBuf.buf sendBuf.usedLen (mbufNode.buf.take (mbufNode.len + puhSize))
    some ⟨buf, sendBuf.usedLen + puhSize + sdiohalAlign4Byte mbufNode.len⟩

/-- `sdiohal_tx_set_eof`. -/
def sdiohalTxSetEof (sendBuf : SendBuf) : Option SendBuf := do
  let buf ← memcpy sendBuf.buf sendBuf.usedLen eofPuh.toBytes
  some ⟨buf, sendBuf.usedLen + puhSize⟩

/-! ## Sending a batch -/

/-- The buffer, and the aggregates sent so far. -/
structure Sender where
  sendBuf : SendBuf
  sent : List (List UInt8)

/-- The last header is put into the buffer, which is sent and unused again. -/
def sendAggregate (s : Sender) : Option Sender := do
  let sendBuf ← sdiohalTxSetEof s.sendBuf
  some ⟨{ sendBuf with usedLen := 0 }, s.sent ++ [sendBuf.buf.take sendBuf.usedLen]⟩

/-- The loop of `sdiohal_tx_data_list_send`, over `nodeNum` mbufs. -/
def packMbufs (heap : Heap) : ℕ → Option Addr → Sender → Option Sender
  | 0, _, s => some s
  | _ + 1, none, _ => none
  | nodeNum + 1, some a, s => do
    let s ←
      if s.sendBuf.usedLen + puhSize + sdiohalAlign4Byte (heap a).len > sdiohalTxSendbufLen then
        sendAggregate s
      else some s
    let sendBuf ← sdiohalTxPacker s.sendBuf (heap a)
    packMbufs heap nodeNum (heap a).next { s with sendBuf }

/-- `sdiohal_tx_data_list_send`. Before the last sending, it may hand the packets back, on which
    the buffer does not depend. -/
def sdiohalTxDataListSend (heap : Heap) (dataList : SdiohalList) (s : Sender) : Option Sender := do
  let s ← packMbufs heap dataList.nodeNum dataList.mbufHead s
  sendAggregate s

/-! ## Walking an aggregate -/

/-- A packet on the bus. -/
structure Packet where
  type : ℕ
  subtype : ℕ
  len : ℕ
  payload : List UInt8
  deriving DecidableEq, Repr

/-- The packets of an aggregate, of at most `n` headers: the next header is behind the payload,
    which is padded as `sdiohal_rx_buf_parser` expects it, and the walk stops at a header with
    `eof` set. It is `none` if the bytes end before. -/
def walk : ℕ → List UInt8 → Option (List Packet)
  | 0, _ => none
  | n + 1, bytes =>
    let puh := Puh.ofBytes bytes
    if bytes.length < puhSize then none
    else if puh.eof ≠ 0 then some []
    else if bytes.length < puhSize + puh.len then none
    else
      (walk n (bytes.drop (puhSize + sdiohalAlign4Byte puh.len))).map
        (⟨puh.type, puh.subtype, puh.len, (bytes.drop puhSize).take puh.len⟩ :: ·)

/-- The packets of an aggregate. -/
def packetsOf (aggregate : List UInt8) : Option (List Packet) :=
  walk aggregate.length aggregate

variable {buf buf' src bytes : List UInt8} {offset n : ℕ} {p : Packet} {ps : List Packet}

/-! ## Frames -/

/-- A packet as it is in an aggregate: its header, its payload, and padding. -/
structure IsFrame (frame : List UInt8) (p : Packet) : Prop where
  length : p.payload.length = p.len
  parts : ∃ (puh : Puh) (padding : List UInt8), puh.Fits ∧ puh.eof = 0 ∧ puh.type = p.type ∧
    puh.subtype = p.subtype ∧ puh.len = p.len ∧
    p.len + padding.length = sdiohalAlign4Byte p.len ∧ frame = puh.toBytes ++ p.payload ++ padding

theorem le_sdiohalAlign4Byte (a : ℕ) : a ≤ sdiohalAlign4Byte a := by
  rw [sdiohalAlign4Byte]
  omega

@[simp] theorem Puh.length_toBytes (puh : Puh) : puh.toBytes.length = puhSize := rfl

theorem IsFrame.length_eq {frame : List UInt8} (h : IsFrame frame p) :
    frame.length = puhSize + sdiohalAlign4Byte p.len := by
  obtain ⟨hlen, puh, padding, -, -, -, -, -, hpad, rfl⟩ := h
  rw [List.length_append, List.length_append, Puh.length_toBytes, hlen, ← hpad, Nat.add_assoc]

/-- The walk takes a frame, and goes on behind it. -/
theorem walk_frame {frame : List UInt8} (h : IsFrame frame p) (rest : List UInt8) :
    walk (n + 1) (frame ++ rest) = (walk n rest).map (p :: ·) := by
  have hframe := h.length_eq
  obtain ⟨hlen, puh, padding, hfits, heof, htype, hsub, hpuh, hpad, heq⟩ := h
  have hheader : Puh.ofBytes (frame ++ rest) = puh := by
    rw [heq, List.append_assoc, List.append_assoc, Puh.ofBytes_toBytes hfits]
  have hpayload : ((frame ++ rest).drop puhSize).take p.len = p.payload := by
    rw [heq, List.append_assoc, List.append_assoc, ← puh.length_toBytes, List.drop_left,
      ← hlen, List.take_left]
  have hrest : (frame ++ rest).drop (puhSize + sdiohalAlign4Byte p.len) = rest := by
    rw [← hframe, List.drop_left]
  have hlong : puhSize + p.len ≤ (frame ++ rest).length := by
    have hle := le_sdiohalAlign4Byte p.len
    rw [List.length_append, hframe]
    omega
  rw [walk, hheader, if_neg (by omega), if_neg (by simp [heof]), hpuh, if_neg (by omega), hrest,
    hpayload, htype, hsub]

/-- The walk of frames, and the last header behind them. -/
theorem walk_frames {frames : List (List UInt8)} (h : List.Forall₂ IsFrame frames ps)
    (hn : ps.length < n) : walk n (frames.flatten ++ eofPuh.toBytes) = some ps := by
  induction h generalizing n with
  | nil =>
    obtain ⟨n, rfl⟩ := Nat.exists_eq_succ_of_ne_zero (Nat.ne_of_gt hn)
    rfl
  | cons hframe _ ih =>
    obtain ⟨n, rfl⟩ := Nat.exists_eq_succ_of_ne_zero (Nat.ne_zero_of_lt hn)
    rw [List.flatten_cons, List.append_assoc, walk_frame hframe,
      ih (Nat.lt_of_succ_lt_succ hn), Option.map_some]

/-- Every frame has a header, so that an aggregate is longer than it has packets. -/
theorem length_le_frames {frames : List (List UInt8)} (h : List.Forall₂ IsFrame frames ps) :
    ps.length ≤ frames.flatten.length := by
  induction h with
  | nil => exact le_rfl
  | cons hframe _ ih =>
    rw [List.flatten_cons, List.length_append, hframe.length_eq, List.length_cons, puhSize]
    omega

theorem packetsOf_frames {frames : List (List UInt8)} (h : List.Forall₂ IsFrame frames ps) :
    packetsOf (frames.flatten ++ eofPuh.toBytes) = some ps := by
  refine walk_frames h ?_
  have hle := length_le_frames h
  rw [List.length_append, Puh.length_toBytes, puhSize]
  omega

/-! ## Packets that are sent -/

/-- An mbuf that may be sent on the channel: its buffer has room for the header in front of the
    `len` bytes of the packet. -/
structure Accepted (channel : ℕ) (mbuf : Mbuf) : Prop where
  channel_lt : channel < sdioChnTxNum
  len_pos : 0 < mbuf.len
  len_le : mbuf.len ≤ maxMbufSize
  room : mbuf.len + puhSize ≤ mbuf.buf.length

/-- The packet in an mbuf that is sent on the channel. -/
def packetOf (channel : ℕ) (mbuf : Mbuf) : Packet :=
  ⟨(sdiohalChannelToHwtype true channel).1, (sdiohalChannelToHwtype true channel).2, mbuf.len,
    (mbuf.buf.drop puhSize).take mbuf.len⟩

/-- The mbuf `mbuf'` is `mbuf` with its header filled in, linked to other mbufs since then. -/
structure Filled (channel : ℕ) (mbuf mbuf' : Mbuf) : Prop where
  len : mbuf'.len = mbuf.len
  buf : mbuf'.buf = (mbuf.fillPuh (sdiohalChannelToHwtype true channel).1
    (sdiohalChannelToHwtype true channel).2).buf

variable {channel : ℕ} {mbuf mbuf' : Mbuf}

/-- What is copied of an mbuf is its header and its packet. -/
theorem take_filled (h : Accepted channel mbuf) (hfilled : Filled channel mbuf mbuf') :
    ∃ puh : Puh, puh.Fits ∧ puh.eof = 0 ∧ puh.type = (packetOf channel mbuf).type ∧
      puh.subtype = (packetOf channel mbuf).subtype ∧ puh.len = mbuf.len ∧
      mbuf'.buf.take (mbuf'.len + puhSize) = puh.toBytes ++ (packetOf channel mbuf).payload := by
  have hsub : channel % 2 ^ 4 = channel := Nat.mod_eq_of_lt (h.channel_lt.trans (by decide))
  have hlen : mbuf.len % 2 ^ 16 = mbuf.len :=
    Nat.mod_eq_of_lt (h.len_le.trans_lt (by decide))
  have hsum : (Puh.ofBytes mbuf.buf).checkSum < 2 := by
    rw [Puh.ofBytes]
    exact Nat.mod_lt _ two_pos
  refine ⟨⟨0, (Puh.ofBytes mbuf.buf).checkSum, mbuf.len, 0, channel, 0⟩,
    ⟨Nat.two_pow_pos 6, hsum, hlen ▸ Nat.mod_lt _ (by decide), two_pos,
      hsub ▸ Nat.mod_lt _ (by decide), Nat.two_pow_pos 4⟩, rfl, rfl, rfl, rfl, ?_⟩
  rw [hfilled.buf, hfilled.len, Mbuf.fillPuh, hlen, Nat.add_comm, List.take_append,
    Puh.length_toBytes, Nat.add_sub_cancel_left, packetOf, List.take_of_length_le (by simp)]
  simp only [sdiohalChannelToHwtype, if_true, hsub, Nat.zero_mod]

theorem length_packetOf (h : Accepted channel mbuf) :
    (packetOf channel mbuf).payload.length = mbuf.len := by
  have hroom := h.room
  rw [packetOf, List.length_take, List.length_drop]
  omega

theorem length_take_filled (h : Accepted channel mbuf) (hfilled : Filled channel mbuf mbuf') :
    (mbuf'.buf.take (mbuf'.len + puhSize)).length = puhSize + mbuf.len := by
  obtain ⟨puh, -, -, -, -, -, hcopied⟩ := take_filled h hfilled
  rw [hcopied, List.length_append, Puh.length_toBytes, length_packetOf h]

/-- What is copied of an mbuf is a frame, once padding is behind it. -/
theorem isFrame_filled (h : Accepted channel mbuf) (hfilled : Filled channel mbuf mbuf')
    {padding : List UInt8} (hpad : mbuf.len + padding.length = sdiohalAlign4Byte mbuf.len) :
    IsFrame (mbuf'.buf.take (mbuf'.len + puhSize) ++ padding) (packetOf channel mbuf) := by
  obtain ⟨puh, hfits, heof, htype, hsub, hlen, hcopied⟩ := take_filled h hfilled
  exact ⟨length_packetOf h, puh, padding, hfits, heof, htype, hsub, hlen, hpad,
    by rw [hcopied]⟩

/-! ## Packing -/

/-- Bytes that fit are written, and `k` bytes behind them are as they were. -/
theorem memcpy_spec (buf src : List UInt8) (offset : ℕ) (h : offset + src.length ≤ buf.length) :
    ∃ buf', memcpy buf offset src = some buf' ∧ buf'.length = buf.length ∧
      ∀ k, buf'.take (offset + src.length + k) =
        buf.take offset ++ src ++ (buf.drop (offset + src.length)).take k := by
  have hprefix : (buf.take offset ++ src).length = offset + src.length := by
    rw [List.length_append, List.length_take_of_le (Nat.le_of_add_right_le h)]
  refine ⟨_, if_pos h, ?_, fun k => ?_⟩
  · rw [List.length_append, hprefix, List.length_drop]
    omega
  · rw [List.take_append, hprefix, Nat.add_sub_cancel_left, List.take_of_length_le (by omega)]

theorem memcpy_eq_none (h : buf.length < offset + src.length) : memcpy buf offset src = none :=
  if_neg (Nat.not_le.2 h)

/-- The buffer has the packets `ps`, and the aggregates sent so far have the packets `sent`. -/
structure Sender.Holds (s : Sender) (sent : List (List Packet)) (ps : List Packet) : Prop where
  length_buf : s.sendBuf.buf.length = sdiohalTxSendbufLen
  sent : s.sent.map packetsOf = sent.map some
  frames : ∃ frames, List.Forall₂ IsFrame frames ps ∧
    s.sendBuf.buf.take s.sendBuf.usedLen = frames.flatten
  usedLen_le : s.sendBuf.usedLen ≤ sdiohalTxSendbufLen

variable {s : Sender} {sent : List (List Packet)}

/-- A packet for which there is room is put behind the others. -/
theorem sdiohalTxPacker_spec (h : s.Holds sent ps) (hmbuf : Accepted channel mbuf)
    (hfilled : Filled channel mbuf mbuf')
    (hroom : s.sendBuf.usedLen + puhSize + sdiohalAlign4Byte mbuf.len ≤ sdiohalTxSendbufLen) :
    ∃ sendBuf, sdiohalTxPacker s.sendBuf mbuf' = some sendBuf ∧
      Sender.Holds { s with sendBuf } sent (ps ++ [packetOf channel mbuf]) ∧
      sendBuf.usedLen = s.sendBuf.usedLen + puhSize + sdiohalAlign4Byte mbuf.len := by
  obtain ⟨hlength, hsent, ⟨frames, hframes, htake⟩, hused⟩ := h
  have hsrc := length_take_filled hmbuf hfilled
  have hread : mbuf'.len + puhSize ≤ mbuf'.buf.length := by
    rw [List.length_take, hfilled.len] at hsrc
    rw [hfilled.len]
    omega
  have hle := le_sdiohalAlign4Byte mbuf.len
  obtain ⟨buf', hbuf', hlength', htake'⟩ :=
    memcpy_spec s.sendBuf.buf (mbuf'.buf.take (mbuf'.len + puhSize)) s.sendBuf.usedLen (by omega)
  specialize htake' (sdiohalAlign4Byte mbuf.len - mbuf.len)
  -- The padding is what was in the buffer.
  set padding := (s.sendBuf.buf.drop
    (s.sendBuf.usedLen + (mbuf'.buf.take (mbuf'.len + puhSize)).length)).take
      (sdiohalAlign4Byte mbuf.len - mbuf.len) with hpadding
  have hpad : mbuf.len + padding.length = sdiohalAlign4Byte mbuf.len := by
    rw [hpadding, List.length_take, List.length_drop]
    omega
  have hused' : s.sendBuf.usedLen + puhSize + sdiohalAlign4Byte mbuf.len =
      s.sendBuf.usedLen + (mbuf'.buf.take (mbuf'.len + puhSize)).length +
        (sdiohalAlign4Byte mbuf.len - mbuf.len) := by
    omega
  rw [sdiohalTxPacker, if_neg (Nat.not_lt.2 hread), hbuf', hfilled.len]
  refine ⟨_, rfl, ⟨hlength'.trans hlength, hsent, ⟨_, List.rel_append hframes
    (.cons (isFrame_filled hmbuf hfilled hpad) .nil), ?_⟩, hroom⟩, rfl⟩
  rw [hused', htake', htake, List.flatten_append, List.flatten_singleton, List.append_assoc]

/-- The last header is put behind the packets, and the aggregate is sent. -/
theorem sendAggregate_spec (h : s.Holds sent ps)
    (hroom : s.sendBuf.usedLen + puhSize ≤ sdiohalTxSendbufLen) :
    ∃ s', sendAggregate s = some s' ∧ s'.Holds (sent ++ [ps]) [] ∧ s'.sendBuf.usedLen = 0 := by
  obtain ⟨hlength, hsent, ⟨frames, hframes, htake⟩, hused⟩ := h
  obtain ⟨buf', hbuf', hlength', htake'⟩ :=
    memcpy_spec s.sendBuf.buf eofPuh.toBytes s.sendBuf.usedLen
      (by rwa [Puh.length_toBytes, hlength])
  specialize htake' 0
  rw [Puh.length_toBytes, List.take_zero, List.append_nil, htake, Nat.add_zero] at htake'
  rw [sendAggregate, sdiohalTxSetEof, hbuf']
  refine ⟨_, rfl, ⟨hlength'.trans hlength, ?_, ⟨[], .nil, rfl⟩, Nat.zero_le _⟩, rfl⟩
  rw [List.map_append, List.map_append, hsent]
  refine congrArg (List.map some sent ++ ·) (congrArg (fun a => [a]) ?_)
  exact (congrArg packetsOf htake').trans (packetsOf_frames hframes)

/-- The last header is written behind the end of the buffer. -/
theorem sendAggregate_eq_none (h : s.Holds sent ps)
    (hfull : sdiohalTxSendbufLen < s.sendBuf.usedLen + puhSize) : sendAggregate s = none := by
  rw [sendAggregate, sdiohalTxSetEof,
    memcpy_eq_none (by rwa [Puh.length_toBytes, h.length_buf])]
  rfl

/-! ## The last header has to fit, too -/

/-- Whenever the buffer is sent, the last header still fits: `used` bytes are used, and packets
    with the lengths `lens` follow. -/
def Roomy : ℕ → List ℕ → Prop
  | used, [] => used + puhSize ≤ sdiohalTxSendbufLen
  | used, len :: lens =>
    if used + puhSize + sdiohalAlign4Byte len > sdiohalTxSendbufLen then
      used + puhSize ≤ sdiohalTxSendbufLen ∧ Roomy (puhSize + sdiohalAlign4Byte len) lens
    else Roomy (used + puhSize + sdiohalAlign4Byte len) lens

instance decidableRoomy : ∀ used lens, Decidable (Roomy used lens)
  | used, [] => inferInstanceAs (Decidable (used + puhSize ≤ sdiohalTxSendbufLen))
  | used, len :: lens =>
    have := decidableRoomy (puhSize + sdiohalAlign4Byte len) lens
    have := decidableRoomy (used + puhSize + sdiohalAlign4Byte len) lens
    inferInstanceAs (Decidable (
      if used + puhSize + sdiohalAlign4Byte len > sdiohalTxSendbufLen then
        used + puhSize ≤ sdiohalTxSendbufLen ∧ Roomy (puhSize + sdiohalAlign4Byte len) lens
      else Roomy (used + puhSize + sdiohalAlign4Byte len) lens))

variable {heap old : Heap} {chan : Addr → ℕ} {head : Option Addr} {l : List Addr}

/-- The mbufs are packets that are accepted, each for its channel, and filled in since. -/
def Ready (old heap : Heap) (chan : Addr → ℕ) (l : List Addr) : Prop :=
  ∀ a ∈ l, Accepted (chan a) (old a) ∧ Filled (chan a) (old a) (heap a)

/-- The batch is packed and sent, its packets behind those in the buffer, if the last header
    always fits; and written behind the end of the buffer if it does not. -/
theorem packMbufs_spec (hs : s.Holds sent ps) (hspells : Spells heap.next head l)
    (hready : Ready old heap chan l) :
    (Roomy s.sendBuf.usedLen (l.map fun a => (old a).len) →
      ∃ s' sent', (packMbufs heap l.length head s).bind sendAggregate = some s' ∧
        s'.Holds sent' [] ∧ s'.sendBuf.usedLen = 0 ∧
        sent'.flatten = sent.flatten ++ ps ++ l.map fun a => packetOf (chan a) (old a)) ∧
    (¬Roomy s.sendBuf.usedLen (l.map fun a => (old a).len) →
      (packMbufs heap l.length head s).bind sendAggregate = none) := by
  -- By induction on the mbufs that are left; what was packed so far is `ps`.
  induction l generalizing s sent ps head with
  | nil =>
    refine ⟨fun hroomy => ?_, fun hroomy => ?_⟩
    · obtain ⟨s', hs', hholds, hused⟩ := sendAggregate_spec hs hroomy
      exact ⟨s', _, hs', hholds, hused, by simp⟩
    · exact sendAggregate_eq_none hs (Nat.lt_of_not_le hroomy)
  | cons a l ih =>
    obtain ⟨rfl, hspells⟩ := hspells
    obtain ⟨⟨hmbuf, hfilled⟩, hready⟩ := List.forall_mem_cons.1 hready
    have hlen := hmbuf.len_le
    rw [List.map_cons, List.map_cons, Roomy, List.length_cons, packMbufs, hfilled.len]
    split_ifs with hover
    · -- The packets so far are sent before the next one.
      by_cases hroom : s.sendBuf.usedLen + puhSize ≤ sdiohalTxSendbufLen
      · obtain ⟨t, ht, hholds, hzero⟩ := sendAggregate_spec hs hroom
        obtain ⟨sendBuf, hpacker, hholds', hused⟩ := sdiohalTxPacker_spec hholds hmbuf hfilled (by
          rw [hzero, sdiohalAlign4Byte, puhSize, sdiohalTxSendbufLen]
          rw [maxMbufSize] at hlen ⊢
          omega)
        obtain ⟨hyes, hno⟩ := ih hholds' hspells hready
        rw [hzero, Nat.zero_add] at hused
        simp only [hused] at hyes hno
        simp only [ht, hpacker, Option.bind_eq_bind, Option.bind_some]
        refine ⟨fun hroomy => ?_, fun hroomy => hno fun h => hroomy ⟨hroom, h⟩⟩
        obtain ⟨s', sent', hs', hholds, hused, hflatten⟩ := hyes hroomy.2
        refine ⟨s', sent', hs', hholds, hused, ?_⟩
        rw [hflatten]
        simp
      · -- There is no room for the last header of what was packed so far.
        rw [sendAggregate_eq_none hs (Nat.lt_of_not_le hroom)]
        exact ⟨fun hroomy => absurd hroomy.1 hroom, fun _ => rfl⟩
    · -- It goes behind the ones before it.
      obtain ⟨sendBuf, hpacker, hholds, hused⟩ :=
        sdiohalTxPacker_spec hs hmbuf hfilled (Nat.le_of_not_lt hover)
      obtain ⟨hyes, hno⟩ := ih hholds hspells hready
      simp only [hused] at hyes hno
      simp only [hpacker, Option.bind_eq_bind, Option.bind_some]
      refine ⟨fun hroomy => ?_, hno⟩
      obtain ⟨s', sent', hs', hholds, hused, hflatten⟩ := hyes hroomy
      refine ⟨s', sent', hs', hholds, hused, ?_⟩
      rw [hflatten]
      simp

/-- A batch is packed into aggregates that have its packets in order, each with the type and
    subtype of its channel, its length and its payload, and nothing is written behind the end of
    the buffer, exactly if the last header always fits into the buffer. -/
theorem pack_walk_iff {dataList : SdiohalList} {buf : List UInt8}
    (hbuf : buf.length = sdiohalTxSendbufLen) (hlist : dataList.Holds heap l)
    (hready : Ready old heap chan l) :
    (∃ s', sdiohalTxDataListSend heap dataList ⟨⟨buf, 0⟩, []⟩ = some s' ∧
        ∃ packets : List (List Packet), s'.sent.map packetsOf = packets.map some ∧
          packets.flatten = l.map fun a => packetOf (chan a) (old a)) ↔
      Roomy 0 (l.map fun a => (old a).len) := by
  have hstart : Sender.Holds ⟨⟨buf, 0⟩, []⟩ [] [] :=
    ⟨hbuf, rfl, ⟨[], .nil, rfl⟩, Nat.zero_le _⟩
  obtain ⟨hyes, hno⟩ := packMbufs_spec hstart hlist.spells hready
  rw [← hlist.nodeNum] at hyes hno
  constructor
  · rintro ⟨s', hs', -⟩
    by_contra hroomy
    exact absurd (hs'.symm.trans (hno hroomy)) (by simp)
  · intro hroomy
    obtain ⟨s', packets, hs', hholds, -, hflatten⟩ := hyes hroomy
    exact ⟨s', hs', packets, hholds.sent, hflatten⟩

/-- A packet of five bytes for channel 3, and one of two bytes for channel 8. -/
theorem pack_walk_iff_fixture :
    let chan : Addr → ℕ := fun a => if a = 0 then 3 else 8
    let old : Heap := fun a =>
      if a = 0 then ⟨none, [0, 0, 0, 0, 1, 2, 3, 4, 5], 5⟩ else ⟨none, [0, 0, 0, 0, 6, 7], 2⟩
    let heap : Heap := fun a =>
      { (old a).fillPuh 0 (chan a) with next := if a = 0 then some 1 else none }
    (∃ s', sdiohalTxDataListSend heap ⟨some 0, some 1, 0, 0, 2⟩
          ⟨⟨List.replicate sdiohalTxSendbufLen 0, 0⟩, []⟩ = some s' ∧
        ∃ packets : List (List Packet), s'.sent.map packetsOf = packets.map some ∧
          packets.flatten = [0, 1].map fun a => packetOf (chan a) (old a)) ↔
      Roomy 0 [5, 2] := by
  intro chan old heap
  refine pack_walk_iff (List.length_replicate ..) ⟨by decide, by decide, rfl, rfl⟩ ?_
  intro a ha
  rcases List.mem_pair.1 ha with rfl | rfl
  · exact ⟨⟨by decide, by decide, by decide, by decide⟩, rfl, rfl⟩
  · exact ⟨⟨by decide, by decide, by decide, by decide⟩, rfl, rfl⟩

/-- A hundred packets of 2044 bytes fill the buffer, and the last header is written behind its
    end. -/
theorem not_pack_walk :
    let old : Heap := fun _ => ⟨none, List.replicate 2048 0, 2044⟩
    let heap : Heap := fun a =>
      { (old a).fillPuh 0 8 with next := if a < 99 then some (a + 1) else none }
    let dataList : SdiohalList := ⟨some 0, some 99, 0, 0, 100⟩
    dataList.Holds heap (List.range 100) ∧ Ready old heap (fun _ => 8) (List.range 100) ∧
      ¬∃ s', sdiohalTxDataListSend heap dataList
            ⟨⟨List.replicate sdiohalTxSendbufLen 0, 0⟩, []⟩ = some s' ∧
          ∃ packets : List (List Packet), s'.sent.map packetsOf = packets.map some ∧
            packets.flatten = (List.range 100).map fun a => packetOf 8 (old a) := by
  intro old heap dataList
  have hlist : dataList.Holds heap (List.range 100) :=
    ⟨by decide +kernel, List.nodup_range, rfl, rfl⟩
  have haccepted : Accepted 8 ⟨none, List.replicate 2048 0, 2044⟩ :=
    ⟨by decide, by decide, by decide, (List.length_replicate ..).ge⟩
  have hready : Ready old heap (fun _ => 8) (List.range 100) := fun _ _ =>
    ⟨haccepted, rfl, rfl⟩
  refine ⟨hlist, hready, ?_⟩
  rintro ⟨s', hs', -⟩
  have hstart : Sender.Holds ⟨⟨List.replicate sdiohalTxSendbufLen 0, 0⟩, []⟩ [] [] :=
    ⟨List.length_replicate .., rfl, ⟨[], .nil, rfl⟩, Nat.zero_le _⟩
  have hnone := (packMbufs_spec hstart hlist.spells hready).2 (by decide +kernel)
  exact absurd (hs'.symm.trans hnone) (by simp)

end W132d.Sdio
