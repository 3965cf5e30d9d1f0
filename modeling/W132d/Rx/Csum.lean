import W132d.Csum
import W132d.Loop
import W132d.Rx.Compound

/-!
# The checksum of a received frame

The hardware adds up the payload of a frame. For IPv6, the driver adds the pseudo-header, for which
it needs the protocol and the length of the payload. So `ipv6_csum` goes from one extension header
to the next until there is none, each of which says what kind the next one is and how long it is
itself. It does not look where the frame ends, and counts the offset in 16 bits.

* `Walk.turn`: a turn of the loop;
* `Ipv6Csum`, `FillSkbCsum`: the functions, where they return;
* `Chain`: from one header to where the payload starts;
* `Walk.Bounded`: the loop ends, within the frame, and there where the payload starts;
* `Within`: the extension headers are in the frame;
* `walk_bounded_iff`: the frames for which the loop is bounded;
* `fillSkbCsum_of_within`: what becomes of these;
* `not_returns_of_zeros`: headers of zeros, among which it does not end.
-/

namespace W132d.Rx

open Bytes OnesComplement

/-! ## The functions -/

/-- The memory, from the Ethernet header of the frame on that the descriptor at its start is for. -/
def Memory.eth (mem : Memory) : Memory := fun i => mem (mem.msduOffset 0 + i)

/-- `h_proto` is `ETH_P_IPV6`. -/
def IsIpv6 (eth : Memory) : Prop := eth 12 = 0x86 ∧ eth 13 = 0xdd

instance (eth : Memory) : Decidable (IsIpv6 eth) := inferInstanceAs (Decidable (_ ∧ _))

/-- `mh_ipv6_ext_hdr`: `NEXTHDR_HOP`, `NEXTHDR_ROUTING` or `NEXTHDR_DEST`. -/
def MhIpv6ExtHdr (nexthdr : UInt8) : Prop := nexthdr = 0 ∨ nexthdr = 43 ∨ nexthdr = 60

instance (nexthdr : UInt8) : Decidable (MhIpv6ExtHdr nexthdr) :=
  inferInstanceAs (Decidable (_ ∨ _))

/-- `ipv6_optlen`. -/
def ipv6Optlen (eth : Memory) (hp : ℕ) : ℕ := ((eth (hp + 1)).toNat + 1) <<< 3

/-- The variables of the loop. -/
structure Walk where
  dataoff : UInt16
  nexthdr : UInt8

/-- Before the first turn, behind the IPv6 header. -/
def Walk.start (eth : Memory) : Walk := ⟨14 + 40, eth (14 + 6)⟩

/-- The body of the loop. -/
def Walk.body (eth : Memory) (s : Walk) : Walk :=
  let hp := s.dataoff.toNat
  ⟨s.dataoff + .ofNat (ipv6Optlen eth hp), eth hp⟩

/-- A turn of the loop. -/
def Walk.turn (eth : Memory) (s : Walk) : Unit ⊕ Walk :=
  if MhIpv6ExtHdr s.nexthdr then .inr (s.body eth) else .inl ()

/-- The bytes that the body reads. -/
def Walk.reads (s : Walk) : List ℕ := [s.dataoff.toNat + 1, s.dataoff.toNat]

/-- The length of the payload. -/
def Walk.len (s : Walk) (msduLen : ℕ) : ℤ := msduLen - s.dataoff.toNat

/-- `csum_ipv6_magic`: the complement of the sum of the pseudo-header and `sum`. -/
def csumIpv6Magic (saddr daddr : List UInt8) (len : UInt32) (proto : UInt8) (sum : UInt32) : ℕ :=
  65535 - value 65535 (sum.toNat + wordSum saddr + wordSum daddr +
    wordSum [(len >>> 24).toUInt8, (len >>> 16).toUInt8, (len >>> 8).toUInt8, len.toUInt8] +
    wordSum [0, 0, 0, proto])

/-- What `ipv6_csum` returns once the loop has ended in the state `s`. -/
def ipv6Check (eth : Memory) (len : ℤ) (proto : UInt8) (csum : UInt32) : ℤ :=
  if csumIpv6Magic (eth.bytes 22 16) (eth.bytes 38 16) (.ofInt len) proto csum = 0 then 1 else -1

/-- `ipv6_csum` returns `ret`. -/
def Ipv6Csum (mem : Memory) (csum : UInt32) (ret : ℤ) : Prop :=
  if IsIpv6 mem.eth then
    ∃ t, Loop.Returns (Walk.turn mem.eth) (.start mem.eth) t () ∧
      ret = ipv6Check mem.eth (t.len (mem.msduLen 0)) t.nexthdr csum
  else ret = 0

/-- The checksum of an skb. -/
structure Summed where
  ipSummed : IpSummed
  csum : UInt32

/-- `fill_skb_csum` returns `ret`, and leaves `skb'` in the skb that had `skb`. -/
def FillSkbCsum (mem : Memory) (csum : UInt16) (skb skb' : Summed) (ret : ℤ) : Prop :=
  if csum ≠ 0 then
    Ipv6Csum mem csum.toUInt32 ret ∧
      skb' = if ret = 0 then ⟨.checksumComplete, csum.toUInt32⟩
        else if ret > 0 then { skb with ipSummed := .checksumUnnecessary }
        else skb
  else ret = 0 ∧ skb' = { skb with ipSummed := .checksumNone }

/-! ## Extension headers -/

section

variable (eth : Memory) (msduLen : ℕ)

/-- The payload behind the headers from offset `off` on, the first of which is of the kind
    `nexthdr`: its protocol and where it starts. -/
inductive Chain : UInt8 → ℕ → UInt8 → ℕ → Prop
  | payload {nexthdr : UInt8} {off : ℕ} : ¬MhIpv6ExtHdr nexthdr → Chain nexthdr off nexthdr off
  | header {nexthdr proto : UInt8} {off stop : ℕ} : MhIpv6ExtHdr nexthdr →
    Chain (eth off) (off + ipv6Optlen eth off) proto stop → Chain nexthdr off proto stop

/-- The headers from offset `off` on end within the frame. -/
inductive Within : UInt8 → ℕ → Prop
  | payload {nexthdr : UInt8} {off : ℕ} : ¬MhIpv6ExtHdr nexthdr → off ≤ msduLen → Within nexthdr off
  | header {nexthdr : UInt8} {off : ℕ} : MhIpv6ExtHdr nexthdr → off + ipv6Optlen eth off ≤ msduLen →
    Within (eth off) (off + ipv6Optlen eth off) → Within nexthdr off

/-- From the state `s`, the loop ends, reads only bytes of the frame, and comes to the length of the
    payload. -/
structure Walk.Bounded (s : Walk) : Prop where
  terminates : ∃ t, Loop.Returns (turn eth) s t ()
  inside : ∀ t, Loop.Reaches (turn eth) s t → MhIpv6ExtHdr t.nexthdr → ∀ i ∈ t.reads, i < msduLen
  payload : ∀ t, Loop.Returns (turn eth) s t () →
    ∃ stop, Chain eth s.nexthdr s.dataoff.toNat t.nexthdr stop ∧ stop ≤ msduLen ∧
      t.len msduLen = msduLen - stop

end

variable {eth mem : Memory} {msduLen off stop : ℕ} {nexthdr proto : UInt8} {s t : Walk}
  {csum : UInt16} {skb : Summed}

theorem ipv6Optlen_pos (eth : Memory) (hp : ℕ) : 8 ≤ ipv6Optlen eth hp := by
  rw [ipv6Optlen, Nat.shiftLeft_eq]
  omega

theorem Chain.le (h : Chain eth nexthdr off proto stop) : off ≤ stop := by
  induction h with
  | payload => exact le_rfl
  | header _ _ ih => omega

/-- Headers that end within the frame are all in it. -/
theorem Chain.within (h : Chain eth nexthdr off proto stop) (hstop : stop ≤ msduLen) :
    Within eth msduLen nexthdr off := by
  induction h with
  | payload hkind => exact .payload hkind hstop
  | header hkind hrest ih =>
    have hle := hrest.le
    exact .header hkind (by omega) (ih hstop)

theorem Within.chain (h : Within eth msduLen nexthdr off) :
    ∃ proto stop, Chain eth nexthdr off proto stop ∧ stop ≤ msduLen := by
  induction h with
  | payload hkind hle => exact ⟨_, _, .payload hkind, hle⟩
  | header hkind _ _ ih =>
    obtain ⟨proto, stop, hchain, hle⟩ := ih
    exact ⟨proto, stop, .header hkind hchain, hle⟩

/-! ## The loop -/

theorem turn_of_header (h : MhIpv6ExtHdr s.nexthdr) : s.turn eth = .inr (s.body eth) := if_pos h

theorem turn_of_payload (h : ¬MhIpv6ExtHdr s.nexthdr) : s.turn eth = .inl () := if_neg h

/-- The offset does not wrap around at the end of a header in the frame. -/
theorem body_dataoff (hlen : msduLen < 2 ^ 16)
    (h : s.dataoff.toNat + ipv6Optlen eth s.dataoff.toNat ≤ msduLen) :
    (s.body eth).dataoff.toNat = s.dataoff.toNat + ipv6Optlen eth s.dataoff.toNat := by
  rw [Walk.body, UInt16.toNat_add, UInt16.toNat_ofNat']
  omega

/-- Behind the last header. -/
theorem bounded_of_payload (h : ¬MhIpv6ExtHdr s.nexthdr) (hle : s.dataoff.toNat ≤ msduLen) :
    s.Bounded eth msduLen where
  terminates := ⟨s, (Loop.returns_iff_of_return (turn_of_payload h)).2 ⟨rfl, rfl⟩⟩
  inside t ht hkind := by
    rw [(Loop.reaches_iff_of_return (turn_of_payload h)).1 ht] at hkind
    exact absurd hkind h
  payload t ht := by
    obtain ⟨rfl, -⟩ := (Loop.returns_iff_of_return (turn_of_payload h)).1 ht
    exact ⟨t.dataoff.toNat, .payload h, hle, rfl⟩

/-- From one header to the next. -/
theorem bounded_of_header (h : MhIpv6ExtHdr s.nexthdr) (hlen : msduLen < 2 ^ 16)
    (hle : s.dataoff.toNat + ipv6Optlen eth s.dataoff.toNat ≤ msduLen)
    (hrest : (s.body eth).Bounded eth msduLen) : s.Bounded eth msduLen := by
  have hturn : s.turn eth = .inr (s.body eth) := turn_of_header h
  refine ⟨?_, fun t ht hkind => ?_, fun t ht => ?_⟩
  · obtain ⟨t, ht⟩ := hrest.terminates
    exact ⟨t, (Loop.returns_iff_of_next hturn).2 ht⟩
  · rcases (Loop.reaches_iff_of_next hturn).1 ht with rfl | ht'
    · have hpos := ipv6Optlen_pos eth t.dataoff.toNat
      simp only [Walk.reads, List.forall_mem_cons, List.not_mem_nil, false_imp_iff, implies_true,
        and_true]
      omega
    · exact hrest.inside t ht' hkind
  · obtain ⟨stop, hchain, hstop, hpayload⟩ :=
      hrest.payload t ((Loop.returns_iff_of_next hturn).1 ht)
    rw [body_dataoff hlen hle] at hchain
    exact ⟨stop, .header h hchain, hstop, hpayload⟩

/-- The loop is bounded from a header on exactly if the headers end within the frame. -/
theorem bounded_iff_within (hlen : msduLen < 2 ^ 16) :
    s.Bounded eth msduLen ↔ Within eth msduLen s.nexthdr s.dataoff.toNat := by
  constructor
  · intro hbounded
    obtain ⟨t, ht⟩ := hbounded.terminates
    obtain ⟨stop, hchain, hstop, -⟩ := hbounded.payload t ht
    exact hchain.within hstop
  · intro hwithin
    generalize hkind : s.nexthdr = nexthdr at hwithin
    generalize hoff : s.dataoff.toNat = off at hwithin
    induction hwithin generalizing s with
    | payload hlast hle =>
      subst hkind hoff
      exact bounded_of_payload hlast hle
    | header hext hle _ ih =>
      subst hkind hoff
      exact bounded_of_header hext hlen hle (ih rfl (body_dataoff hlen hle))

theorem msduLen_lt (mem : Memory) (pos : ℕ) : mem.msduLen pos < 2 ^ 16 := by
  have hlow := (mem (pos + 2)).toNat_lt
  have hhigh := (mem (pos + 3)).toNat_lt
  rw [Memory.msduLen]
  omega

/-! ## Received frames -/

/-- The loop is bounded if `fill_skb_csum` comes to it, for the frame of an skb with a checksum of
    the hardware. -/
def WalkBounded (mem : Memory) (csum : UInt16) : Prop :=
  csum ≠ 0 → IsIpv6 mem.eth → (Walk.start mem.eth).Bounded mem.eth (mem.msduLen 0)

/-- The IPv6 header and the extension headers of the frame end within it. -/
def HeadersWithin (mem : Memory) : Prop :=
  IsIpv6 mem.eth → Within mem.eth (mem.msduLen 0) (mem.eth 20) 54

/-- The loop is bounded exactly for the frames whose headers are in them. -/
theorem walk_bounded_iff (mem : Memory) (csum : UInt16) :
    WalkBounded mem csum ↔ (csum ≠ 0 → HeadersWithin mem) := by
  have hiff : (Walk.start mem.eth).Bounded mem.eth (mem.msduLen 0) ↔
      Within mem.eth (mem.msduLen 0) (mem.eth 20) 54 := bounded_iff_within (msduLen_lt mem 0)
  rw [WalkBounded, HeadersWithin, hiff]

/-- A frame of 54 bytes, whose IPv6 header announces options. -/
def truncated : Memory := fun i =>
  if i = 1 then 28 else if i = 2 then 54 else if i = 28 + 12 then 0x86
  else if i = 28 + 13 then 0xdd else 0

/-- The options are read behind its end. -/
theorem not_walk_bounded : ¬∀ mem csum, WalkBounded mem csum := by
  intro hbounded
  have hinside := (hbounded truncated 1 (by decide) (by decide)).inside (.start truncated.eth)
    Loop.reaches_refl (by decide) 55 (by decide)
  exact absurd hinside (by decide)

/-- Such a frame is judged by the checksum of its payload. -/
theorem fillSkbCsum_of_within (hcsum : csum ≠ 0) (hipv6 : IsIpv6 mem.eth)
    (h : Within mem.eth (mem.msduLen 0) (mem.eth 20) 54) :
    ∃ proto stop, Chain mem.eth (mem.eth 20) 54 proto stop ∧ stop ≤ mem.msduLen 0 ∧
      ∀ skb' ret, FillSkbCsum mem csum skb skb' ret ↔
        ret = ipv6Check mem.eth (mem.msduLen 0 - stop) proto csum.toUInt32 ∧
          skb' = if ret = 1 then { skb with ipSummed := .checksumUnnecessary } else skb := by
  have hbounded : (Walk.start mem.eth).Bounded mem.eth (mem.msduLen 0) :=
    (bounded_iff_within (msduLen_lt mem 0)).2 h
  obtain ⟨t, ht⟩ := hbounded.terminates
  obtain ⟨stop, hchain, hstop, hpayload⟩ := hbounded.payload t ht
  refine ⟨t.nexthdr, stop, hchain, hstop, fun skb' ret => ?_⟩
  have hret : Ipv6Csum mem csum.toUInt32 ret ↔
      ret = ipv6Check mem.eth (mem.msduLen 0 - stop) t.nexthdr csum.toUInt32 := by
    rw [Ipv6Csum, if_pos hipv6, ← hpayload]
    refine ⟨fun ⟨t', ht', hret⟩ => ?_, fun hret => ⟨t, ht, hret⟩⟩
    rw [hret, ht.unique ht']
  rw [FillSkbCsum, if_pos hcsum, hret]
  refine and_congr_right fun heq => ?_
  rw [heq, ipv6Check]
  split <;> rfl

/-- Among headers of zeros, which are options that are followed by options, the loop does not end.
    -/
theorem not_returns_of_zeros (hkind : eth 20 = 0) (h : ∀ i, i % 8 = 6 ∨ i % 8 = 7 → eth i = 0) :
    ¬Loop.Returns (Walk.turn eth) (.start eth) t () := by
  have hstart : (14 + 40 : UInt16).toNat % 8 = 6 := by decide
  refine Loop.not_returns_of_invariant (I := fun s => s.nexthdr = 0 ∧ s.dataoff.toNat % 8 = 6)
    ⟨hkind, hstart⟩ fun s ⟨hnexthdr, hoff⟩ => ?_
  have hsize : ipv6Optlen eth s.dataoff.toNat = 8 := by
    rw [ipv6Optlen, h _ (.inr (by omega))]
    rfl
  refine ⟨s.body eth, turn_of_header (.inl hnexthdr), h _ (.inl hoff), ?_⟩
  rw [Walk.body, UInt16.toNat_add, hsize]
  change (s.dataoff.toNat + 8) % 2 ^ 16 % 8 = 6
  omega

end W132d.Rx
