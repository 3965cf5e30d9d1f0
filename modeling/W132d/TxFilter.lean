import W132d.Csum

/-!
# Frames on the command path

Some frames go to the firmware with a command and not with the data: ARP, DHCP, the signalling of
VoWiFi, and multicast of an access point. The hardware does not see them, so where the stack has
left the checksum to it (`CHECKSUM_PARTIAL`), the driver fills it in: the stack has put the sum of
the pseudo-header into the check field, and the driver replaces it by the complement of the sum of
the datagram. If that sum is `0xffff`, its complement is zero, which says that there is no checksum.

* `txFilterIpPkt`, `mcPktChecksum`, `txFilterPacket`: the functions;
* `Handed`: a datagram as the stack hands it over, and `Valid`: as a receiver wants it;
* `fillCheck_valid_iff`, `checksum_valid_iff`: a checksum is valid exactly if the datagram does not
  add up to `0xffff`;
* `txFilterPacket_cmds`: and so is every datagram on the command path.
-/

namespace W132d.TxFilter

open Bytes OnesComplement

/-! ## Frames -/

/-- A frame: the address of its `data`, its bytes and those behind them in its buffer, and the
    offset of the network header. -/
structure Skb where
  addr : ℕ
  data : List UInt8
  tail : List UInt8
  networkHeader : ℕ
  ipSummed : IpSummed
  deriving DecidableEq

namespace Skb

/-- The byte at an offset from `data`. -/
def byte (skb : Skb) (n : ℕ) : UInt8 := (skb.data ++ skb.tail).getD n 0

/-- The two bytes at an offset, in network byte order. -/
def be16 (skb : Skb) (n : ℕ) : ℕ := 256 * (skb.byte n).toNat + (skb.byte (n + 1)).toNat

/-- Write the byte at an offset. -/
def set (skb : Skb) (n : ℕ) (value : UInt8) : Skb :=
  if n < skb.data.length then { skb with data := skb.data.set n value }
  else { skb with tail := skb.tail.set (n - skb.data.length) value }

/-- Write two bytes, the lower one first. -/
def set16 (skb : Skb) (n : ℕ) (value : UInt16) : Skb :=
  (skb.set n value.toUInt8).set (n + 1) (value >>> 8).toUInt8

/-- `h_proto`. -/
def hProto (skb : Skb) : ℕ := skb.be16 12

/-- `is_multicast_mac_addr`, of the destination. -/
def IsMulticast (skb : Skb) : Prop := skb.byte 0 ≠ 0xff ∧ skb.byte 0 &&& 1 ≠ 0

instance (skb : Skb) : Decidable skb.IsMulticast := inferInstanceAs (Decidable (_ ∧ _))

/-- `sprdwl_is_group`, of the destination. -/
def IsGroup (skb : Skb) : Prop := skb.byte 0 &&& 1 ≠ 0

instance (skb : Skb) : Decidable skb.IsGroup := inferInstanceAs (Decidable (_ ≠ _))

/-- `ip_hdrlen`. -/
def ipHdrlen (skb : Skb) : ℕ := (skb.byte skb.networkHeader &&& (0xf : UInt8)).toNat * 4

end Skb

def ethPIp : ℕ := 0x800

/-- `ETH_P_IPV6`. -/
def ethPIpv6 : ℕ := 0x86dd

def ethPArp : ℕ := 0x806

def ipprotoTcp : UInt8 := 6

def ipprotoUdp : UInt8 := 17

/-- `ETHER_HDR_LEN`. -/
def etherHdrLen : ℕ := 14

/-- `sizeof(struct ipv6hdr)`. -/
def sizeofIpv6hdr : ℕ := 40

/-! ## The functions -/

/-- The check field at `check`, of the datagram or segment at `off`, is filled in. -/
def fillCheck (skb : Skb) (off check : ℕ) : Skb :=
  let checksum := (doCsum (skb.addr + off) (skb.data.drop off)).toUInt16
  { skb.set16 (off + check) (~~~checksum) with ipSummed := .checksumNone }

/-- `sprdwl_mc_pkt_checksum`. -/
def mcPktChecksum (skb : Skb) : ℕ × Skb :=
  let off := etherHdrLen + sizeofIpv6hdr
  let nexthdr := skb.byte (etherHdrLen + 6)
  if skb.ipSummed = .checksumPartial then
    if nexthdr = ipprotoUdp then (0, fillCheck skb off 6)
    else if nexthdr = ipprotoTcp then (0, fillCheck skb off 16)
    else (1, skb)
  else (1, skb)

/-- `is_vowifi_pkt`: whether a packet of VoWiFi takes the command path. -/
def isVowifiPkt (skb : Skb) : Option Bool :=
  if skb.hProto ≠ ethPIp then none
  else if skb.byte (etherHdrLen + 9) ≠ ipprotoUdp then none
  else
    let dest := skb.be16 (etherHdrLen + skb.ipHdrlen + 2)
    let dscp := skb.byte (etherHdrLen + 1) >>> 2
    if dscp = 0x30 then -- `VOWIFI_IKE_DSCP`
      if dest = 4500 ∨ dest = 500 then some true else none
    else if dscp = 0x1a then -- `VOWIFI_SIP_DSCP`
      if dest = 4500 then some true else none
    else if dscp = 0x28 ∨ dscp = 0x36 then some false -- video and audio
    else none

/-- What the filter needs of the entry of a peer. -/
structure Peer where
  ipAcquired : UInt8
  baTxDoneMap : ℕ
  vowifiEnabled : UInt8
  vowifiPktCnt : UInt8

/-- `enum sprdwl_mode`. -/
inductive Mode
  | none
  | station
  | ap
  | p2pDevice
  | p2pClient
  | p2pGo
  | ibss
  deriving DecidableEq

/-- The state of the filter: the frame, the mode of the interface, the peer that the frame is for
    with its index, how often `sprdwl_vowifi_data_protection` was called, and the frames that were
    given to `sprdwl_xmit_data2cmd_wq`. -/
structure Tx where
  skb : Skb
  mode : Mode
  lutIndex : UInt8
  peer : Peer
  protections : ℕ
  cmds : List Skb

namespace Tx

/-- The frame takes the command path. -/
def xmitData2cmdWq (tx : Tx) : Tx := { tx with cmds := tx.cmds ++ [tx.skb] }

/-- `sprdwl_tx_mc_pkt`. -/
def txMcPkt (tx : Tx) : ℕ × Tx :=
  if tx.skb.IsMulticast ∧ tx.mode = .ap then
    (0, { tx with skb := (mcPktChecksum tx.skb).2 }.xmitData2cmdWq)
  else (1, tx)

/-- Packets of VoWiFi on the data path are counted. -/
def countVowifi (tx : Tx) : Tx :=
  if tx.peer.vowifiEnabled = 1 then
    let cnt := if tx.peer.vowifiPktCnt < 11 then tx.peer.vowifiPktCnt + 1 else tx.peer.vowifiPktCnt
    { tx with
      peer := { tx.peer with vowifiPktCnt := cnt }
      protections := if cnt = 10 then tx.protections + 1 else tx.protections }
  else tx

/-- A request or an acknowledgement of DHCP gives the peer its address. -/
def watchDhcp (tx : Tx) (off : ℕ) : Tx :=
  let dhcpdata := tx.skb.byte (off + 250)
  if dhcpdata = 3 then
    { tx with
      peer := { tx.peer with
        ipAcquired := 1
        baTxDoneMap := if tx.skb.IsGroup then 0 else tx.peer.baTxDoneMap } }
  else if dhcpdata = 5 then { tx with peer := { tx.peer with ipAcquired := 1 } }
  else tx

end Tx

/-- The offset of the UDP header. -/
def udphdr (skb : Skb) : Option ℕ :=
  if skb.hProto = ethPIpv6 then
    if skb.byte (etherHdrLen + 6) ≠ ipprotoUdp then none else some (etherHdrLen + sizeofIpv6hdr)
  else if skb.hProto = ethPIp then
    if skb.byte (etherHdrLen + 9) ≠ ipprotoUdp then none else some (etherHdrLen + skb.ipHdrlen)
  else none

/-- `is_ipv4_dhcp`. -/
def IsIpv4Dhcp (skb : Skb) (off : ℕ) : Prop :=
  skb.hProto = ethPIp ∧ (skb.be16 off = 0x43 ∨ skb.be16 off = 0x44)

instance (skb : Skb) (off : ℕ) : Decidable (IsIpv4Dhcp skb off) :=
  inferInstanceAs (Decidable (_ ∧ _))

/-- `is_ipv6_dhcp`. -/
def IsIpv6Dhcp (skb : Skb) (off : ℕ) : Prop :=
  skb.hProto = ethPIpv6 ∧ (skb.be16 off = 0x223 ∨ skb.be16 off = 0x222)

instance (skb : Skb) (off : ℕ) : Decidable (IsIpv6Dhcp skb off) :=
  inferInstanceAs (Decidable (_ ∧ _))

/-- `sprdwl_tx_filter_ip_pkt`. -/
def txFilterIpPkt (tx : Tx) : ℕ × Tx :=
  match udphdr tx.skb with
  | none => (1, tx)
  | some off =>
    let vowifi := isVowifiPkt tx.skb
    let tx := if vowifi = some false then tx.countVowifi else tx
    let tx := if IsIpv4Dhcp tx.skb off then tx.watchDhcp off else tx
    if IsIpv4Dhcp tx.skb off ∨ IsIpv6Dhcp tx.skb off ∨ vowifi = some true then
      let tx := if tx.skb.ipSummed = .checksumPartial then
          { tx with skb := fillCheck tx.skb off 6 }
        else tx
      (0, tx.xmitData2cmdWq)
    else (1, tx)

/-- `sprdwl_tx_filter_packet`. -/
def txFilterPacket (tx : Tx) : ℕ × Tx :=
  if tx.skb.hProto = ethPArp then (0, tx.xmitData2cmdWq)
  else if tx.skb.hProto = ethPIpv6 ∧ (tx.mode = .ap ∨ tx.mode = .p2pGo) ∧ tx.lutIndex ≠ 4 ∧
      tx.peer.ipAcquired = 0 then
    (0, tx) -- the frame is freed
  else if tx.skb.hProto = ethPIpv6 ∧ tx.txMcPkt.1 = 0 then (0, tx.txMcPkt.2)
  else if tx.skb.hProto = ethPIp ∨ tx.skb.hProto = ethPIpv6 then txFilterIpPkt tx
  else (1, tx)

/-! ## Datagrams -/

/-- The two bytes at an offset, as a word of the sum. -/
def Skb.word (skb : Skb) (n : ℕ) : ℕ := (skb.byte n).toNat + 256 * (skb.byte (n + 1)).toNat

/-- The frame holds a datagram: behind an IPv6 header, or behind an IPv4 header of at least 20
    bytes. -/
inductive UdpAt (skb : Skb) : ℕ → Prop
  | ipv6 : skb.hProto = ethPIpv6 → skb.byte 20 = ipprotoUdp → UdpAt skb 54
  | ipv4 {ihl : ℕ} : skb.hProto = ethPIp → skb.byte 23 = ipprotoUdp → skb.networkHeader = 14 →
    (skb.byte 14 &&& (0xf : UInt8)).toNat = ihl → 5 ≤ ihl → UdpAt skb (14 + ihl * 4)

/-- The pseudo-header of the datagram at `off`: its addresses, its length and the protocol. -/
def pseudo (skb : Skb) (off : ℕ) : List UInt8 :=
  let len := skb.data.length - off
  if skb.hProto = ethPIpv6 then
    (skb.data.take 54).drop 22 ++
      [.ofNat (len / 2 ^ 24), .ofNat (len / 2 ^ 16), .ofNat (len / 2 ^ 8), .ofNat len] ++
      [0, 0, 0, ipprotoUdp]
  else (skb.data.take 34).drop 26 ++ [0, ipprotoUdp] ++ [.ofNat (len / 2 ^ 8), .ofNat len]

/-- The sum of the pseudo-header and the datagram. -/
def total (skb : Skb) (off : ℕ) : ℕ := wordSum (pseudo skb off) + wordSum (skb.data.drop off)

/-- The sum without the check field. -/
def content (skb : Skb) (off : ℕ) : ℕ := total (skb.set16 (off + 6) 0) off

/-- A datagram whose checksum is to be filled in: the check field holds the folded sum of the
    pseudo-header. -/
structure Handed (skb : Skb) (off : ℕ) : Prop where
  udpAt : UdpAt skb off
  ipSummed : skb.ipSummed = .checksumPartial
  header : off + 8 ≤ skb.data.length
  check : skb.word (off + 6) = value 65535 (wordSum (pseudo skb off))

/-- A datagram whose checksum is right, and not the one that says that there is none. -/
structure Valid (skb : Skb) (off : ℕ) : Prop where
  sum : value 65535 (total skb off) = 65535
  check : skb.word (off + 6) ≠ 0

/-! ## Writing a word -/

variable {skb skb' : Skb} {n off : ℕ} {value' : UInt16} {tx : Tx}

/-- A number that is written in the packet replaces two bytes. -/
theorem set16_data (h : n + 2 ≤ skb.data.length) :
    skb.set16 n value' =
      { skb with data := (skb.data.set n value'.toUInt8).set (n + 1) (value' >>> 8).toUInt8 } := by
  have hlow : n < skb.data.length := by omega
  have hhigh : n + 1 < (skb.data.set n value'.toUInt8).length := by
    rw [List.length_set]
    omega
  have hset : skb.set n value'.toUInt8 = { skb with data := skb.data.set n value'.toUInt8 } :=
    if_pos hlow
  rw [Skb.set16, hset]
  exact if_pos hhigh

/-- A byte of the packet. -/
theorem byte_eq_getD (h : n < skb.data.length) : skb.byte n = skb.data.getD n 0 := by
  rw [Skb.byte, List.getD_eq_getElem?_getD, List.getElem?_append_left h,
    List.getD_eq_getElem?_getD]

/-- A number of two bytes. -/
theorem value_bytes (value' : UInt16) :
    value'.toUInt8.toNat + 256 * (value' >>> 8).toUInt8.toNat = value'.toNat := by
  have hvalue := value'.toNat_lt
  rw [UInt16.toNat_toUInt8, UInt16.toNat_toUInt8, UInt16.toNat_shiftRight]
  change _ + 256 * (value'.toNat >>> 8 % 2 ^ 8) = _
  rw [Nat.shiftRight_eq_div_pow]
  omega

/-- The bytes before a word. -/
theorem byte_set16 {i : ℕ} (h : n + 2 ≤ skb.data.length) (hi : i < n) :
    (skb.set16 n value').byte i = skb.byte i := by
  have hlt : i < skb.data.length := by omega
  have hne : n ≠ i := by omega
  have hne' : n + 1 ≠ i := by omega
  rw [set16_data h, byte_eq_getD hlt, byte_eq_getD (by simpa using hlt)]
  rw [List.getD_eq_getElem?_getD, List.getElem?_set_ne hne', List.getElem?_set_ne hne,
    List.getD_eq_getElem?_getD]

/-- The word. -/
theorem word_set16 (h : n + 2 ≤ skb.data.length) : (skb.set16 n value').word n = value'.toNat := by
  have hlow : n < skb.data.length := by omega
  have hhigh : n + 1 < skb.data.length := by omega
  rw [Skb.word, set16_data h, byte_eq_getD (by simpa using hlow),
    byte_eq_getD (by simpa using hhigh), ← value_bytes value']
  simp [List.getD_eq_getElem?_getD, hlow, hhigh]

/-- A datagram starts behind the addresses. -/
theorem UdpAt.addresses_le (h : UdpAt skb off) :
    34 ≤ off ∧ off % 2 = 0 ∧ (skb.hProto = ethPIpv6 → off = 54) := by
  cases h with
  | ipv6 => exact ⟨by decide, rfl, fun _ => rfl⟩
  | ipv4 hproto _ _ _ hihl =>
    refine ⟨by omega, by omega, fun hproto' => ?_⟩
    exact absurd (hproto.symm.trans hproto') (by decide)

/-- The pseudo-header does not depend on the check field. -/
theorem pseudo_set16 (h : UdpAt skb off) (hlen : off + 8 ≤ skb.data.length) :
    pseudo (skb.set16 (off + 6) value') off = pseudo skb off := by
  obtain ⟨hle, -, hipv6⟩ := h.addresses_le
  have hproto : (skb.set16 (off + 6) value').hProto = skb.hProto := by
    rw [Skb.hProto, Skb.hProto, Skb.be16, Skb.be16, byte_set16 (by omega) (by omega),
      byte_set16 (by omega) (by omega)]
  have htake (k : ℕ) (hk : k ≤ off + 6) :
      (skb.set16 (off + 6) value').data.take k = skb.data.take k := by
    rw [set16_data (by omega), List.take_set_of_le (by omega), List.take_set_of_le hk]
  have hlength : (skb.set16 (off + 6) value').data.length = skb.data.length := by
    rw [set16_data (by omega), List.length_set, List.length_set]
  rw [pseudo, pseudo, hproto, hlength]
  split
  · rename_i hproto'
    rw [htake 54 (by have hoff := hipv6 hproto'; omega)]
  · rw [htake 34 (by omega)]

/-- The sum, whatever is in the check field. -/
theorem total_set16 (value' : UInt16) (h : UdpAt skb off) (hlen : off + 8 ≤ skb.data.length) :
    total (skb.set16 (off + 6) value') off + skb.word (off + 6) =
      total skb off + value'.toNat := by
  have hset := wordSum_set (n := 6) (skb.data.drop off) rfl
    (by rw [List.length_drop]; omega) value'.toUInt8 (value' >>> 8).toUInt8
  have hword : ((skb.data.drop off).getD 6 0).toNat +
      256 * ((skb.data.drop off).getD (6 + 1) 0).toNat = skb.word (off + 6) := by
    rw [Skb.word, byte_eq_getD (by omega), byte_eq_getD (by omega)]
    simp [List.getD_eq_getElem?_getD, List.getElem?_drop, add_assoc]
  have hdrop : (skb.set16 (off + 6) value').data.drop off =
      ((skb.data.drop off).set 6 value'.toUInt8).set (6 + 1) (value' >>> 8).toUInt8 := by
    rw [set16_data (by omega), List.drop_set, List.drop_set, if_neg (by omega), if_neg (by omega)]
    congr 2 <;> omega
  rw [total, total, pseudo_set16 h hlen, hdrop]
  rw [hword, value_bytes] at hset
  omega

/-- The sum with a value in the check field. -/
theorem total_eq_content (h : UdpAt skb off) (hlen : off + 8 ≤ skb.data.length) :
    total (skb.set16 (off + 6) value') off = content skb off + value'.toNat := by
  have hvalue := total_set16 value' h hlen
  have hzero := total_set16 0 h hlen
  rw [content]
  change _ = _ + 0 at hzero
  omega

/-! ## Filling the checksum in -/

/-- What is written is the complement of the sum. -/
theorem fillCheck_spec (h : Handed skb off) :
    ∃ check : UInt16, fillCheck skb off 6 =
        { skb.set16 (off + 6) check with ipSummed := .checksumNone } ∧
      check.toNat = 65535 - value 65535 (content skb off) := by
  have hself : total skb off = content skb off + skb.word (off + 6) :=
    (total_set16 0 h.udpAt h.header).symm
  -- The check field stands for the pseudo-header, so the sum of the datagram is that of both.
  have hsame : Same 65535 (wordSum (skb.data.drop off)) (content skb off) := by
    have hpseudo := same_value 65535 (wordSum (pseudo skb off))
    rw [← h.check] at hpseudo
    have hcontent : content skb off = wordSum (pseudo skb off) +
        wordSum ((skb.set16 (off + 6) 0).data.drop off) := by
      rw [content, total, pseudo_set16 h.udpAt h.header]
    have hdatagram : wordSum (skb.data.drop off) = skb.word (off + 6) +
        wordSum ((skb.set16 (off + 6) 0).data.drop off) := by
      rw [hcontent, total] at hself
      omega
    rw [hcontent, hdatagram]
    exact hpseudo.add_right _
  obtain ⟨hsum, hlt⟩ := doCsum_same (skb.addr + off) (skb.data.drop off)
  refine ⟨_, rfl, ?_⟩
  have hchecksum : (doCsum (skb.addr + off) (skb.data.drop off)).toNat =
      value 65535 (content skb off) := (hsum.trans hsame).eq_value (by decide) (by omega)
  rw [UInt16.toNat_not, UInt32.toNat_toUInt16, hchecksum, Nat.mod_eq_of_lt (by omega)]
  rfl

/-- The sum is right, and the check field is not zero unless the rest adds up to `0xffff`. -/
theorem fillCheck_valid_iff (h : Handed skb off) :
    Valid (fillCheck skb off 6) off ↔ value 65535 (content skb off) ≠ 65535 := by
  obtain ⟨check, hfill, hcheck⟩ := fillCheck_spec h
  have hle := value_le (m := 65535) (by decide) (content skb off)
  have htotal : total (fillCheck skb off 6) off = content skb off + check.toNat := by
    rw [hfill]
    exact total_eq_content h.udpAt h.header
  have hword : (fillCheck skb off 6).word (off + 6) = check.toNat := by
    rw [hfill]
    exact word_set16 h.header
  have hsum : value 65535 (total (fillCheck skb off 6) off) = 65535 := by
    rw [htotal, hcheck]
    exact value_complement (by decide) (same_value 65535 _) hle
  refine ⟨fun hvalid heq => hvalid.check ?_, fun hne => ⟨hsum, ?_⟩⟩
  · rw [hword, hcheck, heq]
  · rw [hword, hcheck]
    omega

/-! ## The functions -/

/-- The UDP header is found where it is. -/
theorem UdpAt.udphdr_eq (h : UdpAt skb off) : udphdr skb = some off := by
  rw [udphdr]
  cases h with
  | ipv6 hproto hnexthdr =>
    rw [if_pos hproto]
    exact if_neg (not_not.2 hnexthdr)
  | ipv4 hproto hprotocol hheader hihl _ =>
    have hne : skb.hProto ≠ ethPIpv6 := by
      rw [hproto]
      decide
    rw [if_neg hne, if_pos hproto, Skb.ipHdrlen, hheader, hihl]
    exact if_neg (not_not.2 hprotocol)

/-- Counting packets leaves them. -/
theorem countVowifi_skb : tx.countVowifi.skb = tx.skb ∧ tx.countVowifi.cmds = tx.cmds := by
  rw [Tx.countVowifi]
  split <;> exact ⟨rfl, rfl⟩

theorem watchDhcp_skb : (tx.watchDhcp off).skb = tx.skb ∧ (tx.watchDhcp off).cmds = tx.cmds := by
  simp only [Tx.watchDhcp]
  split_ifs <;> exact ⟨rfl, rfl⟩

/-- A datagram stays as it is, or it is filled in and takes the command path. -/
theorem txFilterIpPkt_spec (h : Handed tx.skb off) :
    (txFilterIpPkt tx).1 = 1 ∧ (txFilterIpPkt tx).2.skb = tx.skb ∧
        (txFilterIpPkt tx).2.cmds = tx.cmds ∨
      (txFilterIpPkt tx).1 = 0 ∧ (txFilterIpPkt tx).2.skb = fillCheck tx.skb off 6 ∧
        (txFilterIpPkt tx).2.cmds = tx.cmds ++ [fillCheck tx.skb off 6] := by
  rw [txFilterIpPkt, h.udpAt.udphdr_eq]
  dsimp only
  generalize hcount : (if isVowifiPkt tx.skb = some false then tx.countVowifi else tx) = counted
  have hcounted : counted.skb = tx.skb ∧ counted.cmds = tx.cmds := by
    rw [← hcount]
    split
    · exact countVowifi_skb
    · exact ⟨rfl, rfl⟩
  generalize hwatch : (if IsIpv4Dhcp counted.skb off then counted.watchDhcp off else counted) =
    watched
  have hwatched : watched.skb = tx.skb ∧ watched.cmds = tx.cmds := by
    rw [← hwatch, ← hcounted.1, ← hcounted.2]
    split
    · exact watchDhcp_skb
    · exact ⟨rfl, rfl⟩
  rw [hwatched.1, if_pos h.ipSummed]
  split
  · refine .inr ⟨rfl, rfl, ?_⟩
    rw [← hwatched.2]
    rfl
  · exact .inl ⟨rfl, hwatched⟩

/-- Of an IPv6 frame, the datagram is filled in. -/
theorem mcPktChecksum_spec (h : Handed skb off) (hproto : skb.hProto = ethPIpv6) :
    mcPktChecksum skb = (0, fillCheck skb off 6) := by
  obtain ⟨hudp, hsummed, -, -⟩ := h
  cases hudp with
  | ipv6 _ hnexthdr =>
    rw [mcPktChecksum, if_pos hsummed]
    exact if_pos hnexthdr
  | ipv4 hproto' _ _ _ _ => exact absurd (hproto'.symm.trans hproto) (by decide)

/-- The checksum that either function fills in, for an IPv4 or IPv6 datagram that takes the command
    path and for an IPv6 multicast, is valid exactly if the pseudo-header and the rest of the
    datagram do not add up to `0xffff`. -/
theorem checksum_valid_iff (tx : Tx) (off : ℕ) (h : Handed tx.skb off) :
    ((txFilterIpPkt tx).1 = 0 →
      (Valid (txFilterIpPkt tx).2.skb off ↔ value 65535 (content tx.skb off) ≠ 65535)) ∧
    (tx.skb.hProto = ethPIpv6 → (mcPktChecksum tx.skb).1 = 0 ∧
      (Valid (mcPktChecksum tx.skb).2 off ↔ value 65535 (content tx.skb off) ≠ 65535)) := by
  constructor
  · intro hsent
    rcases txFilterIpPkt_spec h with ⟨hdata, -, -⟩ | ⟨-, hskb, -⟩
    · exact absurd (hsent.symm.trans hdata) Nat.zero_ne_one
    · rw [hskb]
      exact fillCheck_valid_iff h
  · intro hproto
    rw [mcPktChecksum_spec h hproto]
    exact ⟨rfl, fillCheck_valid_iff h⟩

/-- A station's solicitation of DHCPv6, with the last two bytes of its transaction. -/
def solicit (transaction : List UInt8) : Tx where
  skb :=
    { addr := 0x1002
      data := [0x33, 0x33, 0x00, 0x01, 0x00, 0x02] ++ [0x02, 0x00, 0x00, 0x00, 0x00, 0x01] ++
        [0x86, 0xdd] ++ [0x60, 0x00, 0x00, 0x00, 0x00, 0x0c, 0x11, 0x01] ++
        [0xfe, 0x80, 0, 0, 0, 0, 0, 0, 0, 0, 0, 0, 0, 0, 0, 1] ++
        [0xff, 0x02, 0, 0, 0, 0, 0, 0, 0, 0, 0, 0, 0, 1, 0, 2] ++
        [0x02, 0x22, 0x02, 0x23, 0x00, 0x0c, 0xfd, 0xa4] ++ [0x01, 0x00] ++ transaction
      tail := []
      networkHeader := 14
      ipSummed := .checksumPartial }
  mode := .station
  lutIndex := 0
  peer := ⟨0, 0, 0, 0⟩
  protections := 0
  cmds := []

/-- The header has all its bytes. -/
theorem solicit_handed : Handed (solicit [0x00, 0x00]).skb 54 where
  udpAt := .ipv6 (by decide) (by decide)
  ipSummed := rfl
  header := by decide
  check := by decide

/-- The checksum of a solicitation is valid. -/
theorem checksum_valid_solicit :
    (txFilterIpPkt (solicit [0x00, 0x00])).1 = 0 ∧
      Valid (txFilterIpPkt (solicit [0x00, 0x00])).2.skb 54 := by
  have hsent : (txFilterIpPkt (solicit [0x00, 0x00])).1 = 0 := by decide
  refine ⟨hsent, ?_⟩
  exact ((checksum_valid_iff (solicit [0x00, 0x00]) 54 solicit_handed).1 hsent).2 (by decide)

/-- That of a solicitation that adds up to `0xffff` is not: its check field is zero. -/
theorem not_checksum_valid :
    ¬∀ (tx : Tx) (off : ℕ), Handed tx.skb off → (txFilterIpPkt tx).1 = 0 →
      Valid (txFilterIpPkt tx).2.skb off := by
  intro hvalid
  have hhanded : Handed (solicit [0xfd, 0x09]).skb 54 :=
    ⟨.ipv6 (by decide) (by decide), rfl, by decide, by decide⟩
  have hcheck := (hvalid (solicit [0xfd, 0x09]) 54 hhanded (by decide)).check
  exact hcheck (by decide)

/-! ## The command path -/

/-- All that the filter does with a datagram: it goes on as it is, or it takes the command path,
    once and filled in; and there its checksum is valid unless it adds up to `0xffff`. -/
theorem txFilterPacket_cmds (h : Handed tx.skb off) :
    (txFilterPacket tx).2.cmds = tx.cmds ∧ (txFilterPacket tx).2.skb = tx.skb ∨
      ∃ skb, (txFilterPacket tx).1 = 0 ∧ (txFilterPacket tx).2.cmds = tx.cmds ++ [skb] ∧
        (Valid skb off ↔ value 65535 (content tx.skb off) ≠ 65535) := by
  have harp : tx.skb.hProto ≠ ethPArp := by
    cases h.udpAt with
    | ipv6 hproto => rw [hproto]; decide
    | ipv4 hproto => rw [hproto]; decide
  have hip : tx.skb.hProto = ethPIp ∨ tx.skb.hProto = ethPIpv6 := by
    cases h.udpAt with
    | ipv6 hproto => exact .inr hproto
    | ipv4 hproto => exact .inl hproto
  rw [txFilterPacket, if_neg harp]
  split_ifs with hfreed hmulticast
  · exact .inl ⟨rfl, rfl⟩
  · refine .inr ⟨fillCheck tx.skb off 6, rfl, ?_, fillCheck_valid_iff h⟩
    have hmc := hmulticast.2
    rw [Tx.txMcPkt] at hmc ⊢
    split_ifs at hmc ⊢
    rw [mcPktChecksum_spec h hmulticast.1]
    rfl
  · rcases txFilterIpPkt_spec h with ⟨-, hskb, hcmds⟩ | ⟨hret, -, hcmds⟩
    · exact .inl ⟨hcmds, hskb⟩
    · exact .inr ⟨_, hret, hcmds, fillCheck_valid_iff h⟩

end W132d.TxFilter
