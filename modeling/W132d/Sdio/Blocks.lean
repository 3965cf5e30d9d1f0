import W132d.Sdio.Packer

/-!
# Aggregates are sent in blocks

The bus takes a multiple of its block size of an aggregate (`sdiohal_send`), so that an aggregate,
with its last header, has to fit into the buffer when it is rounded up to blocks, too.

* `sdiohalAlignBlk`: a length rounded up to blocks;
* `fills`: how many bytes of the buffer the packets of each aggregate take;
* `packMbufs_fills`: the aggregates have these bytes and a header, if the headers fit;
* `blocks_fit_iff`: no aggregate is larger than the buffer exactly if the packets leave room for the
  header in its last whole block;
* `not_blocks_fit`: the packets fill the buffer.
-/

namespace W132d.Sdio

/-! ## Blocks -/

/-- `sdiohal_get_blk_size`, of the `blk_size` that was configured. -/
def sdiohalGetBlkSize (blkSize : Bool) : ℕ := if blkSize then 512 else 840

/-- `SDIOHAL_ALIGN_BLK`. -/
def sdiohalAlignBlk (blkSize : Bool) (a : ℕ) : ℕ :=
  if sdiohalGetBlkSize blkSize = 512 then (a + 511) / 512 * 512
  else if a % sdiohalGetBlkSize blkSize ≠ 0 then
    (a / sdiohalGetBlkSize blkSize + 1) * sdiohalGetBlkSize blkSize
  else a

/-- The bytes of the whole blocks of the buffer. -/
def wholeBlocks (blkSize : Bool) : ℕ :=
  sdiohalTxSendbufLen / sdiohalGetBlkSize blkSize * sdiohalGetBlkSize blkSize

variable {blkSize : Bool} {a used : ℕ} {lens : List ℕ}

/-- What fits in whole blocks fits when it is rounded up. -/
theorem sdiohalAlignBlk_le_iff :
    sdiohalAlignBlk blkSize a ≤ sdiohalTxSendbufLen ↔ a ≤ wholeBlocks blkSize := by
  rw [sdiohalAlignBlk, wholeBlocks, sdiohalGetBlkSize, sdiohalTxSendbufLen, maxMbufSize]
  cases blkSize
  · rw [if_neg (by decide), if_neg Bool.false_ne_true]
    split_ifs <;> omega
  · rw [if_pos rfl, if_pos rfl]
    omega

/-! ## What the packets take of the buffer -/

/-- How many bytes the packets of each aggregate take: `used` bytes are used, and packets with the
    lengths `lens` follow, the next one in a new aggregate if it does not fit. -/
def fills : ℕ → List ℕ → List ℕ
  | used, [] => [used]
  | used, len :: lens =>
    if used + puhSize + sdiohalAlign4Byte len > sdiohalTxSendbufLen then
      used :: fills (puhSize + sdiohalAlign4Byte len) lens
    else fills (used + puhSize + sdiohalAlign4Byte len) lens

/-- An mbuf whose packet is no longer than `MAX_MBUF_SIZE` less the header, and is in its buffer. -/
structure Fits (mbuf : Mbuf) : Prop where
  len_le : mbuf.len + puhSize ≤ maxMbufSize
  room : mbuf.len + puhSize ≤ mbuf.buf.length

variable {heap : Heap} {head : Option Addr} {l : List Addr} {s : Sender} {mbuf : Mbuf}

/-- A packet is put behind the others if there is room. -/
theorem sdiohalTxPacker_usedLen (hbuf : s.sendBuf.buf.length = sdiohalTxSendbufLen)
    (hmbuf : Fits mbuf)
    (hroom : s.sendBuf.usedLen + puhSize + sdiohalAlign4Byte mbuf.len ≤ sdiohalTxSendbufLen) :
    ∃ sendBuf, sdiohalTxPacker s.sendBuf mbuf = some sendBuf ∧
      sendBuf.buf.length = sdiohalTxSendbufLen ∧
      sendBuf.usedLen = s.sendBuf.usedLen + puhSize + sdiohalAlign4Byte mbuf.len := by
  have hle := le_sdiohalAlign4Byte mbuf.len
  have htake : (mbuf.buf.take (mbuf.len + puhSize)).length = mbuf.len + puhSize :=
    List.length_take_of_le hmbuf.room
  obtain ⟨buf', hcopy, hlength, -⟩ := memcpy_spec s.sendBuf.buf
    (mbuf.buf.take (mbuf.len + puhSize)) s.sendBuf.usedLen (by omega)
  rw [sdiohalTxPacker, if_neg (Nat.not_lt.2 hmbuf.room), hcopy]
  exact ⟨_, rfl, hlength.trans hbuf, rfl⟩

/-- The aggregate that is sent has its last header behind its packets, if there is room. -/
theorem sendAggregate_length (hbuf : s.sendBuf.buf.length = sdiohalTxSendbufLen)
    (hroom : s.sendBuf.usedLen + puhSize ≤ sdiohalTxSendbufLen) :
    ∃ s', sendAggregate s = some s' ∧ s'.sendBuf.buf.length = sdiohalTxSendbufLen ∧
      s'.sendBuf.usedLen = 0 ∧
      s'.sent.map List.length = s.sent.map List.length ++ [s.sendBuf.usedLen + puhSize] := by
  obtain ⟨buf', hcopy, hlength, -⟩ := memcpy_spec s.sendBuf.buf eofPuh.toBytes s.sendBuf.usedLen
    (by rwa [Puh.length_toBytes, hbuf])
  rw [sendAggregate, sdiohalTxSetEof, hcopy]
  refine ⟨_, rfl, hlength.trans hbuf, rfl, ?_⟩
  rw [List.map_append, List.map_singleton, List.length_take_of_le (by rwa [hlength, hbuf])]

/-- It is written behind the end of the buffer if there is none. -/
theorem sendAggregate_overrun (hbuf : s.sendBuf.buf.length = sdiohalTxSendbufLen)
    (hfull : ¬s.sendBuf.usedLen + puhSize ≤ sdiohalTxSendbufLen) : sendAggregate s = none := by
  rw [sendAggregate, sdiohalTxSetEof,
    memcpy_eq_none (by rw [Puh.length_toBytes, hbuf]; exact Nat.lt_of_not_le hfull)]
  rfl

/-- A batch is sent in aggregates that have, besides a header, what the packets take, as long as
    these headers fit; otherwise the end of the buffer is overrun. -/
theorem packMbufs_fills (hbuf : s.sendBuf.buf.length = sdiohalTxSendbufLen)
    (hspells : Spells heap.next head l) (hfits : ∀ a ∈ l, Fits (heap a)) :
    ((∀ u ∈ fills s.sendBuf.usedLen (l.map fun a => (heap a).len),
        u + puhSize ≤ sdiohalTxSendbufLen) →
      ∃ s', (packMbufs heap l.length head s).bind sendAggregate = some s' ∧
        s'.sent.map List.length = s.sent.map List.length ++
          (fills s.sendBuf.usedLen (l.map fun a => (heap a).len)).map (· + puhSize)) ∧
    ((¬∀ u ∈ fills s.sendBuf.usedLen (l.map fun a => (heap a).len),
        u + puhSize ≤ sdiohalTxSendbufLen) →
      (packMbufs heap l.length head s).bind sendAggregate = none) := by
  -- By induction on the mbufs that are left.
  induction l generalizing s head with
  | nil =>
    rw [List.map_nil, fills, List.forall_mem_singleton]
    refine ⟨fun hroom => ?_, fun hfull => ?_⟩
    · obtain ⟨s', hs', -, -, hsent⟩ := sendAggregate_length hbuf hroom
      exact ⟨s', hs', hsent⟩
    · exact sendAggregate_overrun hbuf hfull
  | cons a l ih =>
    obtain ⟨rfl, hspells⟩ := hspells
    obtain ⟨hmbuf, hfits⟩ := List.forall_mem_cons.1 hfits
    have hlen := hmbuf.len_le
    rw [List.map_cons, fills, List.length_cons, packMbufs]
    split_ifs with hover
    · -- The packets so far are sent before the next one.
      rw [List.forall_mem_cons, List.map_cons]
      by_cases hroom : s.sendBuf.usedLen + puhSize ≤ sdiohalTxSendbufLen
      · obtain ⟨t, ht, hbuf', hzero, hsent⟩ := sendAggregate_length hbuf hroom
        obtain ⟨sendBuf, hpacker, hbuf'', hused⟩ := sdiohalTxPacker_usedLen hbuf' hmbuf (by
          rw [hzero, sdiohalAlign4Byte, puhSize, sdiohalTxSendbufLen]
          rw [puhSize, maxMbufSize] at hlen
          rw [maxMbufSize]
          omega)
        obtain ⟨hyes, hno⟩ := @ih _ { t with sendBuf } hbuf'' hspells hfits
        rw [hzero, Nat.zero_add] at hused
        simp only [hused] at hyes hno
        simp only [ht, hpacker, Option.bind_eq_bind, Option.bind_some]
        refine ⟨fun hall => ?_, fun hall => hno fun h => hall ⟨hroom, h⟩⟩
        obtain ⟨s', hs', hlengths⟩ := hyes hall.2
        refine ⟨s', hs', ?_⟩
        rw [hlengths, hsent, List.append_assoc, List.singleton_append]
      · rw [sendAggregate_overrun hbuf hroom]
        exact ⟨fun hall => absurd hall.1 hroom, fun _ => rfl⟩
    · -- It goes behind the ones before it.
      obtain ⟨sendBuf, hpacker, hbuf', hused⟩ :=
        sdiohalTxPacker_usedLen hbuf hmbuf (Nat.le_of_not_lt hover)
      obtain ⟨hyes, hno⟩ := @ih _ { s with sendBuf } hbuf' hspells hfits
      simp only [hused] at hyes hno
      simp only [hpacker, Option.bind_eq_bind, Option.bind_some]
      exact ⟨hyes, hno⟩

/-! ## Every aggregate fits -/

/-- Nothing is written behind the end of the buffer, and every aggregate, with its last header and
    rounded up to blocks, is no larger than the buffer, exactly if the packets of each leave room
    for the header in the whole blocks of the buffer. -/
theorem blocks_fit_iff (blkSize : Bool) {dataList : SdiohalList} {buf : List UInt8}
    (hbuf : buf.length = sdiohalTxSendbufLen) (hlist : dataList.Holds heap l)
    (hfits : ∀ a ∈ l, Fits (heap a)) :
    (∃ s', sdiohalTxDataListSend heap dataList ⟨⟨buf, 0⟩, []⟩ = some s' ∧
        ∀ aggregate ∈ s'.sent, sdiohalAlignBlk blkSize aggregate.length ≤ sdiohalTxSendbufLen) ↔
      ∀ u ∈ fills 0 (l.map fun a => (heap a).len), u + puhSize ≤ wholeBlocks blkSize := by
  obtain ⟨hyes, hno⟩ := @packMbufs_fills heap dataList.mbufHead l ⟨⟨buf, 0⟩, []⟩ hbuf hlist.spells
    hfits
  rw [← hlist.nodeNum] at hyes hno
  -- The lengths that are sent are those of the fills, with a header each.
  have hblocks : ∀ s' : Sender, s'.sent.map List.length =
      (fills 0 (l.map fun a => (heap a).len)).map (· + puhSize) →
      ((∀ aggregate ∈ s'.sent, sdiohalAlignBlk blkSize aggregate.length ≤ sdiohalTxSendbufLen) ↔
        ∀ u ∈ fills 0 (l.map fun a => (heap a).len), u + puhSize ≤ wholeBlocks blkSize) := by
    intro s' hlengths
    have hall : (∀ n ∈ s'.sent.map List.length, n ≤ wholeBlocks blkSize) ↔
        ∀ n ∈ (fills 0 (l.map fun a => (heap a).len)).map (· + puhSize),
          n ≤ wholeBlocks blkSize := by rw [hlengths]
    rw [List.forall_mem_map, List.forall_mem_map] at hall
    simpa only [sdiohalAlignBlk_le_iff] using hall
  constructor
  · rintro ⟨s', hs', hsent⟩
    by_cases hroom : ∀ u ∈ fills 0 (l.map fun a => (heap a).len),
        u + puhSize ≤ sdiohalTxSendbufLen
    · -- The buffer had room for all of them, so that this is the state that was reached.
      obtain ⟨t, ht, hlengths⟩ := hyes hroom
      obtain rfl : t = s' := Option.some.inj (ht.symm.trans hs')
      exact (hblocks t hlengths).1 hsent
    · exact absurd (hs'.symm.trans (hno hroom)) (by simp)
  · intro hwhole
    -- Whole blocks are not more than the buffer has.
    have hroom : ∀ u ∈ fills 0 (l.map fun a => (heap a).len),
        u + puhSize ≤ sdiohalTxSendbufLen := fun u hu =>
      (hwhole u hu).trans (Nat.div_mul_le_self ..)
    obtain ⟨s', hs', hlengths⟩ := hyes hroom
    exact ⟨s', hs', (hblocks s' hlengths).2 hwhole⟩

/-- Two packets of five and of two bytes. -/
theorem blocks_fit_iff_fixture :
    let heap : Heap := fun a =>
      if a = 0 then ⟨some 1, List.replicate 9 0, 5⟩ else ⟨none, List.replicate 6 0, 2⟩
    (∃ s', sdiohalTxDataListSend heap ⟨some 0, some 1, 0, 0, 2⟩
          ⟨⟨List.replicate sdiohalTxSendbufLen 0, 0⟩, []⟩ = some s' ∧
        ∀ aggregate ∈ s'.sent, sdiohalAlignBlk false aggregate.length ≤ sdiohalTxSendbufLen) ↔
      ∀ u ∈ fills 0 ([0, 1].map fun a => (heap a).len), u + puhSize ≤ wholeBlocks false := by
  intro heap
  refine blocks_fit_iff false (List.length_replicate ..) ⟨by decide, by decide, rfl, rfl⟩ ?_
  intro a ha
  rcases List.mem_pair.1 ha with rfl | rfl
  · exact ⟨by decide, by decide⟩
  · exact ⟨by decide, by decide⟩

/-- A hundred packets of 2044 bytes, the most that an mbuf has room for, fill the buffer, so that
    the last header overruns its end. -/
theorem not_blocks_fit :
    let heap : Heap := fun a =>
      ⟨if a < 99 then some (a + 1) else none, List.replicate 2048 0, 2044⟩
    let dataList : SdiohalList := ⟨some 0, some 99, 0, 0, 100⟩
    dataList.Holds heap (List.range 100) ∧ (∀ a ∈ List.range 100, Fits (heap a)) ∧
      ¬∃ s', sdiohalTxDataListSend heap dataList
            ⟨⟨List.replicate sdiohalTxSendbufLen 0, 0⟩, []⟩ = some s' ∧
          ∀ aggregate ∈ s'.sent, sdiohalAlignBlk true aggregate.length ≤ sdiohalTxSendbufLen := by
  intro heap dataList
  have hlist : dataList.Holds heap (List.range 100) :=
    ⟨by decide +kernel, List.nodup_range, rfl, rfl⟩
  have hfits : ∀ a ∈ List.range 100, Fits (heap a) := fun _ _ =>
    ⟨(by decide : 2044 + puhSize ≤ maxMbufSize), (List.length_replicate ..).ge⟩
  refine ⟨hlist, hfits, ?_⟩
  rintro ⟨s', hs', -⟩
  have hnone := (@packMbufs_fills heap (some 0) (List.range 100)
    ⟨⟨List.replicate sdiohalTxSendbufLen 0, 0⟩, []⟩ (List.length_replicate ..) hlist.spells
    hfits).2 (by decide +kernel)
  exact absurd (hs'.symm.trans hnone) (by simp)

end W132d.Sdio
