import Mathlib.Tactic

/-!
# Frames for the chip

Data for the Bluetooth chip comes as a stream of bytes: packets, each with its type, its header and
its payload, of which the header has the length. `sitm_write` puts a piece of the stream into a
FIFO, and `parse_frame` takes it out again and puts packets together in a buffer of fixed size.
Commands and ACL data are filled up with zeros before they are handed on.

* `sitmWrite`: the function, and `parseFrame`: its loop. What would be written behind the end of the
  buffer is `none`;
* `feed`: what one byte does. Pieces do what their bytes do (`parseFrame_eq`), so that the way the
  stream is split does not matter;
* `Packet`, `Padded`: a packet, and what should be handed on of it;
* `Fits`: a stream whose ACL packets are not too long;
* `framed_iff`: where the function is right.

The parser is a machine that takes bytes, but for the payload, of which it takes as many bytes at
once as there are. So it is first shown to do what a machine does that takes one byte at a time
(`feed`), upon which the pieces of the stream do not matter any more (`sitmWrites_eq`).

How the theorem is proved: a stream begins with a byte that is no type, with a whole packet, or with
a part of one (`stream_cases`), and what is fed of each of these is computed (`feed_skip`,
`feed_packet`, `feed_part`). Nothing is written behind the buffer exactly if it has room for each
packet with its zeros, and only an ACL packet can be too long for it, as the length of the others
has one byte. A packet that is aligned already gets four zeros that it does not need
(`padded_frame_iff`), which is where the condition on lengths comes from.
-/

namespace W132d.Tty.Sitm

/-! ## The buffer -/

/-- `DATA_TYPE_COMMAND`. -/
def dataTypeCommand : UInt8 := 1

/-- `DATA_TYPE_ACL`. -/
def dataTypeAcl : UInt8 := 2

/-- `DATA_TYPE_EVENT`. -/
def dataTypeEvent : UInt8 := 4

/-- `preamble_sizes`, for a type of packets. -/
def preambleSize (type : UInt8) : ℕ := [3, 4, 3, 2].getD (type.toNat - 1) 0

/-- `BYTE_ALIGNMENT`. -/
def byteAlignment : ℕ := 4

/-- The size of the buffer: `HCI_HAL_SERIAL_BUFFER_SIZE + BYTE_ALIGNMENT`. -/
def bufferSize : ℕ := 1030

/-- The size of the FIFO: `HCI_HAL_SERIAL_BUFFER_SIZE`, which `kfifo_alloc` rounds up to a power
    of 2. -/
def fifoSize : ℕ := 2048

/-- `enum receive_state_t`, but for `IGNORE`, which nothing sets, and `FINISHED`, which no byte
    finds. -/
inductive ReceiveState
  | brandNew
  | preamble
  | body
  deriving DecidableEq

/-- `struct packet_receive_data_t`, with the frames that were handed on. Of the preamble and the
    buffer, what has come of a packet is here, as many bytes as `index` says. -/
structure PacketReceiveData where
  state : ReceiveState
  bytesRemaining : ℕ
  type : UInt8
  preamble : List UInt8
  buffer : List UInt8
  frames : List (List UInt8)
  deriving DecidableEq

/-- `sitm_ini`. -/
def sitmIni : PacketReceiveData := ⟨.brandNew, 0, 0, [], [], []⟩

/-- Data is written behind what the buffer has, unless there is no room for it. -/
def write (buffer data : List UInt8) : Option (List UInt8) :=
  if buffer.length + data.length ≤ bufferSize then some (buffer ++ data) else none

/-- `RETRIEVE_ACL_LENGTH`. -/
def retrieveAclLength (preamble : List UInt8) : ℕ :=
  (preamble.getD 4 0).toNat <<< 8 ||| (preamble.getD 3 0).toNat

/-- The length that the preamble has, its last byte but for ACL data. -/
def payloadLength (type : UInt8) (preamble : List UInt8) : ℕ :=
  if type = dataTypeAcl then retrieveAclLength preamble else (preamble.getLastD 0).toNat

/-- A packet whose frames are filled up. -/
def Aligned (type : UInt8) : Prop := type = dataTypeCommand ∨ type = dataTypeAcl

instance (type : UInt8) : Decidable (Aligned type) := inferInstanceAs (Decidable (_ ∨ _))

/-- How many zeros are written behind a packet of `index` bytes. -/
def tail (type : UInt8) (index : ℕ) : ℕ :=
  if Aligned type then byteAlignment - (index + byteAlignment) % byteAlignment else 0

/-- A packet is complete (`FINISHED`): it is filled up and handed on. -/
def finish (s : PacketReceiveData) : Option PacketReceiveData := do
  let buffer ← write s.buffer (List.replicate (tail s.type s.buffer.length) 0)
  some { s with state := .brandNew, buffer, frames := s.frames ++ [buffer] }

/-- A packet is complete if nothing remains of its payload. -/
def settle (s : PacketReceiveData) : Option PacketReceiveData :=
  if s.bytesRemaining = 0 then finish s else some { s with state := .body }

/-- A byte of the preamble. -/
def takePreamble (s : PacketReceiveData) (byte : UInt8) : Option PacketReceiveData :=
  let s := { s with preamble := s.preamble ++ [byte], bytesRemaining := s.bytesRemaining - 1 }
  if s.bytesRemaining = 0 then
    settle { s with bytesRemaining := payloadLength s.type s.preamble, buffer := s.preamble }
  else some s

/-- A byte that begins a packet, unless it is no type. -/
def begin (s : PacketReceiveData) (byte : UInt8) : Option PacketReceiveData :=
  if byte > dataTypeEvent ∨ byte < dataTypeCommand then some s
  else
    let s := { s with
      type := byte
      bytesRemaining := preambleSize byte + 1
      preamble := []
      state := .preamble }
    takePreamble s byte

/-- `parse_frame`, on what the FIFO has. -/
def parseFrame (s : PacketReceiveData) : List UInt8 → Option PacketReceiveData
  | [] => some s
  | byte :: fifo =>
    match s.state with
    | .brandNew => do
      let s ← begin s byte
      parseFrame s fifo
    | .preamble => do
      let s ← takePreamble s byte
      parseFrame s fifo
    | .body => do
      let buffer ← write s.buffer [byte]
      let bytesRemaining := s.bytesRemaining - 1
      let read := fifo.take bytesRemaining
      let buffer ← write buffer read
      let s ← settle { s with buffer, bytesRemaining := bytesRemaining - read.length }
      parseFrame s (fifo.drop bytesRemaining)
termination_by fifo => fifo.length

/-- `sitm_write`, with what it returns: as much is taken as the FIFO has room for, which
    `parse_frame` has emptied. -/
def sitmWrite (s : PacketReceiveData) (buf : List UInt8) : Option (ℕ × PacketReceiveData) := do
  let count := min buf.length fifoSize
  let s ← parseFrame s (buf.take count)
  some (count, s)

/-- Pieces of a stream, one after the other. -/
def sitmWrites (s : PacketReceiveData) (pieces : List (List UInt8)) : Option PacketReceiveData :=
  pieces.foldlM (fun s buf => (sitmWrite s buf).map Prod.snd) s

/-! ## Byte by byte -/

/-- What a byte does. -/
def feed (s : PacketReceiveData) (byte : UInt8) : Option PacketReceiveData :=
  match s.state with
  | .brandNew => begin s byte
  | .preamble => takePreamble s byte
  | .body => do
    let buffer ← write s.buffer [byte]
    settle { s with buffer, bytesRemaining := s.bytesRemaining - 1 }

variable {s : PacketReceiveData} {stream data buffer : List UInt8}
  {pieces : List (List UInt8)}

theorem write_of_le (h : buffer.length + data.length ≤ bufferSize) :
    write buffer data = some (buffer ++ data) := if_pos h

theorem write_of_lt (h : bufferSize < buffer.length + data.length) : write buffer data = none :=
  if_neg (not_le.2 h)

/-- Data may be written in two pieces. -/
theorem write_append (buffer data data' : List UInt8) :
    write buffer (data ++ data') = (write buffer data).bind fun buffer => write buffer data' := by
  by_cases hle : buffer.length + data.length ≤ bufferSize
  · rw [write_of_le hle, Option.bind_some, write, write, List.length_append, List.length_append,
      add_assoc, List.append_assoc]
  · rw [write_of_lt (not_le.1 hle), Option.bind_none]
    exact write_of_lt (by rw [List.length_append]; omega)

/-- A byte of a payload. -/
theorem feed_of_body (hstate : s.state = .body) (byte : UInt8) :
    feed s byte = (write s.buffer [byte]).bind fun buffer =>
      settle { s with buffer, bytesRemaining := s.bytesRemaining - 1 } := by
  rw [feed, hstate]
  rfl

/-- Bytes of a payload, up to its end. -/
theorem feed_body (hstate : s.state = .body) (byte : UInt8)
    (hlen : data.length ≤ s.bytesRemaining - 1) :
    (byte :: data).foldlM feed s = (write s.buffer (byte :: data)).bind fun buffer =>
      settle { s with buffer, bytesRemaining := s.bytesRemaining - 1 - data.length } := by
  induction data generalizing s byte with
  | nil =>
    rw [List.foldlM_cons, feed_of_body hstate]
    exact bind_pure _
  | cons next data ih =>
    rw [List.length_cons] at hlen
    have happend := write_append s.buffer [byte] (next :: data)
    rw [List.singleton_append] at happend
    rw [List.foldlM_cons, feed_of_body hstate, happend]
    cases write s.buffer [byte] with
    | none => rfl
    | some buffer =>
      -- More of the payload is to come, so the packet does not end here.
      have hsettle : settle { s with buffer, bytesRemaining := s.bytesRemaining - 1 } =
          some { s with state := .body, buffer, bytesRemaining := s.bytesRemaining - 1 } :=
        if_neg (by dsimp only; omega)
      rw [Option.bind_some, Option.bind_some, hsettle]
      refine (ih rfl next (by dsimp only; omega)).trans ?_
      have hleft : s.bytesRemaining - 1 - 1 - data.length =
          s.bytesRemaining - 1 - (next :: data).length := by
        rw [List.length_cons]
        omega
      rw [hstate]
      simp only [hleft]

/-- The loop does what the bytes do. -/
theorem parseFrame_eq (s : PacketReceiveData) (fifo : List UInt8) :
    parseFrame s fifo = fifo.foldlM feed s := by
  induction hlen : fifo.length using Nat.strong_induction_on generalizing s fifo with
  | _ len ih =>
    cases fifo with
    | nil => rw [parseFrame]; rfl
    | cons byte fifo =>
      rw [parseFrame]
      cases hstate : s.state with
      | brandNew =>
        rw [List.foldlM_cons, feed, hstate]
        refine bind_congr fun s => ih _ ?_ s fifo rfl
        rw [← hlen]
        exact Nat.lt_succ_self _
      | preamble =>
        rw [List.foldlM_cons, feed, hstate]
        refine bind_congr fun s => ih _ ?_ s fifo rfl
        rw [← hlen]
        exact Nat.lt_succ_self _
      | body =>
        -- The loop takes the byte, and then all that there is of the rest at once.
        have hread : (fifo.take (s.bytesRemaining - 1)).length ≤ s.bytesRemaining - 1 :=
          List.length_take_le _ _
        have hwrite := write_append s.buffer [byte] (fifo.take (s.bytesRemaining - 1))
        rw [List.singleton_append] at hwrite
        have hsplit : byte :: fifo =
            byte :: fifo.take (s.bytesRemaining - 1) ++ fifo.drop (s.bytesRemaining - 1) := by
          rw [List.cons_append, List.take_append_drop]
        rw [hsplit, List.foldlM_append, feed_body hstate byte hread, hwrite]
        cases write s.buffer [byte] with
        | none => rfl
        | some buffer =>
          rw [Option.bind_some]
          simp only [Option.bind_eq_bind, Option.bind_some]
          cases write buffer (fifo.take (s.bytesRemaining - 1)) with
          | none => rfl
          | some buffer =>
            rw [Option.bind_some, Option.bind_some]
            refine Option.bind_congr fun s' _ => ih _ ?_ s' _ rfl
            rw [← hlen, List.length_drop, List.length_cons]
            omega

/-- Pieces that fit into the FIFO do what their bytes do. -/
theorem sitmWrites_eq (h : ∀ piece ∈ pieces, piece.length ≤ fifoSize) :
    sitmWrites s pieces = pieces.flatten.foldlM feed s := by
  induction pieces generalizing s with
  | nil => rfl
  | cons piece pieces ih =>
    obtain ⟨hpiece, hpieces⟩ := List.forall_mem_cons.1 h
    have hwrite : (sitmWrite s piece).map Prod.snd = piece.foldlM feed s := by
      rw [sitmWrite, min_eq_left hpiece, List.take_length, parseFrame_eq]
      cases piece.foldlM feed s <;> rfl
    rw [List.flatten_cons, List.foldlM_append, ← hwrite]
    exact bind_congr fun s => ih hpieces

/-! ## Packets -/

/-- The length of the payload, where the header of a packet of this type has it. -/
def headerLength (type : UInt8) (header : List UInt8) : ℕ :=
  if type = dataTypeAcl then (header.getD 2 0).toNat + 256 * (header.getD 3 0).toNat
  else if type = dataTypeEvent then (header.getD 1 0).toNat
  else (header.getD 2 0).toNat

/-- A type of packets. -/
def IsType (type : UInt8) : Prop := dataTypeCommand ≤ type ∧ type ≤ dataTypeEvent

/-- A packet: its header and its payload are as long as they say. -/
structure Packet where
  type : UInt8
  header : List UInt8
  payload : List UInt8
  isType : IsType type
  header_length : header.length = preambleSize type
  payload_length : payload.length = headerLength type header

/-- The bytes of a packet. -/
def Packet.bytes (p : Packet) : List UInt8 := p.type :: p.header ++ p.payload

/-- What should be handed on of a packet: it, and as few zeros as fill it up. -/
def Padded (p : Packet) (frame : List UInt8) : Prop :=
  ∃ zeros, IsLeast {zeros | Aligned p.type → byteAlignment ∣ p.bytes.length + zeros} zeros ∧
    frame = p.bytes ++ List.replicate zeros 0

/-- What is handed on of a packet. -/
def Packet.frame (p : Packet) : List UInt8 :=
  p.bytes ++ List.replicate (tail p.type p.bytes.length) 0

variable {p : Packet} {type : UInt8} {header part rest : List UInt8}

theorem isType_iff : IsType type ↔ type = 1 ∨ type = 2 ∨ type = 3 ∨ type = 4 := by
  rw [IsType, dataTypeCommand, dataTypeEvent, UInt8.le_iff_toNat_le, UInt8.le_iff_toNat_le]
  simp only [← UInt8.toNat_inj]
  change 1 ≤ type.toNat ∧ type.toNat ≤ 4 ↔
    type.toNat = 1 ∨ type.toNat = 2 ∨ type.toNat = 3 ∨ type.toNat = 4
  omega

/-- The length is found where the header has it. -/
theorem payloadLength_eq (htype : IsType type) (hheader : header.length = preambleSize type) :
    payloadLength type (type :: header) = headerLength type header := by
  rcases isType_iff.1 htype with rfl | rfl | rfl | rfl
  · obtain ⟨a, b, c, rfl⟩ := List.length_eq_three.1 hheader
    rfl
  · cases header with
    | nil => exact absurd hheader (by decide)
    | cons a header =>
      obtain ⟨b, c, d, rfl⟩ := List.length_eq_three.1 (Nat.succ.inj hheader)
      have hlt := c.toNat_lt
      change d.toNat <<< 8 ||| c.toNat = c.toNat + 256 * d.toNat
      rw [← Nat.shiftLeft_add_eq_or_of_lt hlt, Nat.shiftLeft_eq]
      omega
  · obtain ⟨a, b, c, rfl⟩ := List.length_eq_three.1 hheader
    rfl
  · obtain ⟨a, b, rfl⟩ := List.length_eq_two.1 hheader
    rfl

/-- Bytes of a preamble that is not complete. -/
theorem feed_preamble (hstate : s.state = .preamble) (hlen : data.length < s.bytesRemaining) :
    data.foldlM feed s = some { s with
      preamble := s.preamble ++ data
      bytesRemaining := s.bytesRemaining - data.length } := by
  induction data generalizing s with
  | nil => simp
  | cons byte data ih =>
    rw [List.length_cons] at hlen
    set next := { s with
      preamble := s.preamble ++ [byte]
      bytesRemaining := s.bytesRemaining - 1 } with hnext
    have hfeed : feed s byte = some next := by
      have hmore : ¬s.bytesRemaining - 1 = 0 := by omega
      rw [feed, hstate]
      exact if_neg hmore
    have hlen' : data.length < s.bytesRemaining - 1 := by omega
    have hleft : s.bytesRemaining - 1 - data.length = s.bytesRemaining - (byte :: data).length := by
      rw [List.length_cons]
      omega
    rw [List.foldlM_cons, hfeed]
    refine (@ih next hstate hlen').trans ?_
    simp [hnext, hleft]

/-- A preamble. -/
theorem feed_preamble_all (hstate : s.state = .preamble) (hlen : data.length = s.bytesRemaining)
    (hne : data ≠ []) : data.foldlM feed s = settle { s with
      preamble := s.preamble ++ data
      bytesRemaining := payloadLength s.type (s.preamble ++ data)
      buffer := s.preamble ++ data } := by
  obtain ⟨init, last, rfl⟩ := (List.eq_nil_or_concat' data).resolve_left hne
  rw [List.length_append, List.length_singleton] at hlen
  have hone : s.bytesRemaining - init.length - 1 = 0 := by omega
  have hfeed : feed { s with
      preamble := s.preamble ++ init
      bytesRemaining := s.bytesRemaining - init.length } last = settle { s with
        preamble := s.preamble ++ init ++ [last]
        bytesRemaining := payloadLength s.type (s.preamble ++ init ++ [last])
        buffer := s.preamble ++ init ++ [last] } := by
    rw [feed, hstate]
    exact if_pos hone
  rw [List.foldlM_append, feed_preamble hstate (by omega), ← List.append_assoc, ← hfeed]
  exact bind_pure (feed _ last)

/-- Where a byte begins a packet. -/
def begun (s : PacketReceiveData) (type : UInt8) : PacketReceiveData :=
  { s with type, bytesRemaining := preambleSize type + 1, preamble := [], state := .preamble }

/-- A byte that begins a packet is the first one of its preamble. -/
theorem feed_begin (hstate : s.state = .brandNew) (htype : IsType type) (data : List UInt8) :
    (type :: data).foldlM feed s = (type :: data).foldlM feed (begun s type) := by
  have hbegin : feed s type = feed (begun s type) type := by
    rw [feed, hstate]
    exact if_neg (not_or.2 ⟨UInt8.not_lt.2 htype.2, UInt8.not_lt.2 htype.1⟩)
  rw [List.foldlM_cons, List.foldlM_cons, hbegin]

/-- The header of a packet. -/
theorem feed_header (hstate : s.state = .brandNew) (p : Packet) :
    (p.type :: p.header).foldlM feed s = settle { begun s p.type with
      preamble := p.type :: p.header
      bytesRemaining := p.payload.length
      buffer := p.type :: p.header } := by
  have hlen : (p.type :: p.header).length = (begun s p.type).bytesRemaining :=
    congrArg Nat.succ p.header_length
  rw [feed_begin hstate p.isType, feed_preamble_all rfl hlen (List.cons_ne_nil _ _),
    p.payload_length, ← payloadLength_eq p.isType p.header_length]
  rfl

theorem header_length_le (p : Packet) : p.header.length ≤ 4 := by
  rw [p.header_length]
  rcases isType_iff.1 p.isType with h | h | h | h <;> rw [h] <;> decide

/-- What comes of a payload. -/
theorem feed_payload (hstate : s.state = .brandNew) (p : Packet)
    (hpart : p.payload = part ++ rest) (hne : part ≠ []) :
    (p.type :: p.header ++ part).foldlM feed s =
      (write (p.type :: p.header) part).bind fun buffer => settle { begun s p.type with
        state := .body
        preamble := p.type :: p.header
        bytesRemaining := rest.length
        buffer } := by
  cases part with
  | nil => exact absurd rfl hne
  | cons byte data =>
    have hlen : p.payload.length = data.length + 1 + rest.length := by
      rw [hpart, List.length_append, List.length_cons]
    have hmore : ¬p.payload.length = 0 := by omega
    have hsettle : settle { begun s p.type with
        preamble := p.type :: p.header
        bytesRemaining := p.payload.length
        buffer := p.type :: p.header } = some { begun s p.type with
          state := .body
          preamble := p.type :: p.header
          bytesRemaining := p.payload.length
          buffer := p.type :: p.header } := if_neg hmore
    have hleft : p.payload.length - 1 - data.length = rest.length := by omega
    have hdata : data.length ≤ p.payload.length - 1 := by omega
    rw [List.foldlM_append, feed_header hstate, hsettle]
    refine (feed_body rfl byte hdata).trans ?_
    simp only [hleft]

/-- A packet is handed on if there is room for it and for the zeros. -/
theorem feed_packet (hstate : s.state = .brandNew) (p : Packet) :
    p.bytes.foldlM feed s = if p.frame.length ≤ bufferSize then
      some ⟨.brandNew, 0, p.type, p.type :: p.header, p.frame, s.frames ++ [p.frame]⟩
    else none := by
  have hlen : p.frame.length = p.bytes.length + tail p.type p.bytes.length := by
    rw [Packet.frame, List.length_append, List.length_replicate]
  have hbytes : p.bytes.length = (p.type :: p.header).length + p.payload.length :=
    List.length_append
  -- With no payload, the packet ends with its header.
  have hfinish : p.bytes.foldlM feed s =
      (write (p.type :: p.header) p.payload).bind fun buffer => settle { begun s p.type with
        state := .body
        preamble := p.type :: p.header
        bytesRemaining := 0
        buffer } := by
    by_cases hne : p.payload = []
    · have hheader := header_length_le p
      rw [Packet.bytes, hne, List.append_nil, feed_header hstate, hne,
        write_of_le (by rw [List.length_cons, bufferSize, List.length_nil]; omega)]
      rw [List.append_nil]
      rfl
    · exact feed_payload hstate p (List.append_nil _).symm hne
  rw [hfinish]
  by_cases hle : (p.type :: p.header).length + p.payload.length ≤ bufferSize
  · rw [write_of_le hle, Option.bind_some]
    change (write p.bytes (List.replicate (tail p.type p.bytes.length) 0)).bind _ = _
    rw [write, List.length_replicate, ← hlen]
    split_ifs <;> rfl
  · rw [write_of_lt (not_le.1 hle), Option.bind_none, if_neg (by omega)]

/-- A header that comes before a payload fits. -/
theorem feed_header_isSome (hstate : s.state = .brandNew) (p : Packet) (hne : p.payload ≠ []) :
    ((p.type :: p.header).foldlM feed s).isSome := by
  have hmore : ¬p.payload.length = 0 := mt List.length_eq_zero_iff.1 hne
  rw [feed_header hstate, settle, if_neg hmore]
  rfl

/-- A packet that is not complete waits for the rest, if there is room for what has come. -/
theorem feed_part (hstate : s.state = .brandNew) (p : Packet) (hpart : p.bytes = part ++ rest)
    (hrest : rest ≠ []) : (part.foldlM feed s).isSome ↔ part.length ≤ bufferSize := by
  have hheader := header_length_le p
  have hlen : (p.type :: p.header).length ≤ 5 := Nat.succ_le_succ hheader
  rcases List.append_eq_append_iff.1 hpart with ⟨data, rfl, hpayload⟩ | ⟨data, hdata, rfl⟩
  · -- The header is complete.
    by_cases hne : data = []
    · rw [hne, List.append_nil]
      have hpayload' : p.payload ≠ [] := by rwa [hpayload, hne]
      exact iff_of_true (feed_header_isSome hstate p hpayload') (by rw [bufferSize]; omega)
    · have hmore : ¬rest.length = 0 := mt List.length_eq_zero_iff.1 hrest
      rw [feed_payload hstate p hpayload hne, List.length_append, write]
      split_ifs with hle
      · rw [Option.bind_some, settle, if_neg hmore]
        exact iff_of_true rfl hle
      · exact iff_of_false Bool.false_ne_true hle
  · -- The header is not complete, or nothing comes behind it.
    by_cases hne : data = []
    · rw [hne, List.append_nil] at hdata
      rw [hne, List.nil_append] at hrest
      rw [← hdata]
      exact iff_of_true (feed_header_isSome hstate p hrest) (by rw [bufferSize]; omega)
    · have hpos := List.length_pos_iff.2 hne
      have hlt : part.length < (p.type :: p.header).length := by
        rw [hdata, List.length_append]
        omega
      refine iff_of_true ?_ (by rw [bufferSize]; omega)
      cases part with
      | nil => rfl
      | cons type part =>
        have htype : type = p.type := (List.cons.inj hdata).1.symm
        have hlt' : (type :: part).length < (begun s type).bytesRemaining := by
          rw [htype] at hlt ⊢
          exact lt_of_lt_of_eq hlt (congrArg Nat.succ p.header_length)
        rw [feed_begin hstate (htype ▸ p.isType), feed_preamble rfl hlt']
        rfl

/-! ## Streams -/

/-- A stream whose ACL packets are shorter than 1028 bytes, and of whose last packet, if it is not
    complete, there are no more bytes than the buffer has. Bytes between packets that are no type
    are skipped. -/
inductive Fits : List UInt8 → Prop
  | nil : Fits []
  | skip {byte : UInt8} {stream : List UInt8} : ¬IsType byte → Fits stream → Fits (byte :: stream)
  | packet {p : Packet} {stream : List UInt8} :
    (p.type = dataTypeAcl → p.bytes.length < 1028) → Fits stream → Fits (p.bytes ++ stream)
  | part {p : Packet} {part rest : List UInt8} :
    p.bytes = part ++ rest → rest ≠ [] → part.length ≤ bufferSize → Fits part

/-- Only an ACL packet can be too long. -/
theorem frame_length_le_iff (p : Packet) : p.frame.length ≤ bufferSize ↔
    (p.type = dataTypeAcl → p.bytes.length < 1028) := by
  have hlen : p.frame.length = p.bytes.length + tail p.type p.bytes.length := by
    rw [Packet.frame, List.length_append, List.length_replicate]
  rw [hlen, tail, byteAlignment, bufferSize]
  by_cases hacl : p.type = dataTypeAcl
  · rw [if_pos (.inr hacl), imp_iff_right hacl]
    omega
  · have hpayload : p.payload.length < 2 ^ 8 := by
      rw [p.payload_length, headerLength, if_neg hacl]
      split <;> exact UInt8.toNat_lt _
    have hheader := header_length_le p
    have hbytes : p.bytes.length = p.header.length + 1 + p.payload.length := List.length_append
    refine iff_of_true ?_ fun h => absurd h hacl
    split_ifs <;> omega

/-- What the stream begins with. -/
theorem stream_cases (stream : List UInt8) : stream = [] ∨
    (∃ byte rest, ¬IsType byte ∧ stream = byte :: rest) ∨
    (∃ (p : Packet) (rest : _), stream = p.bytes ++ rest) ∨
    ∃ (p : Packet) (rest : _), rest ≠ [] ∧ p.bytes = stream ++ rest := by
  cases stream with
  | nil => exact .inl rfl
  | cons type stream =>
    right
    by_cases htype : IsType type
    swap
    · exact .inl ⟨type, stream, htype, rfl⟩
    right
    by_cases hheader : stream.length < preambleSize type
    · -- A packet whose header goes on with zeros.
      set more := List.replicate (preambleSize type - stream.length) (0 : UInt8) with hmore
      have hlen : (stream ++ more).length = preambleSize type := by
        rw [List.length_append, hmore, List.length_replicate]
        omega
      have hne : more ≠ [] := List.length_pos_iff.1 (by rw [hmore, List.length_replicate]; omega)
      set payload := List.replicate (headerLength type (stream ++ more)) (0 : UInt8)
      refine .inr ⟨⟨type, stream ++ more, payload, htype, hlen, List.length_replicate⟩,
        more ++ payload, ?_, ?_⟩
      · exact List.append_ne_nil_of_left_ne_nil hne _
      · rw [Packet.bytes, List.cons_append, List.cons_append, List.append_assoc]
    · have hlen : (stream.take (preambleSize type)).length = preambleSize type :=
        List.length_take_of_le (not_lt.1 hheader)
      set header := stream.take (preambleSize type) with hheader'
      set payload := stream.drop (preambleSize type) with hpayload'
      have hstream : type :: stream = type :: header ++ payload := by
        rw [List.cons_append, hheader', hpayload', List.take_append_drop]
      by_cases hpayload : headerLength type header ≤ payload.length
      · refine .inl ⟨⟨type, header, payload.take (headerLength type header), htype, hlen,
          List.length_take_of_le hpayload⟩, payload.drop (headerLength type header), ?_⟩
        rw [hstream, Packet.bytes, List.append_assoc, List.take_append_drop]
      · -- A packet whose payload goes on with zeros.
        set more :=
          List.replicate (headerLength type header - payload.length) (0 : UInt8) with hmore
        have hlen' : (payload ++ more).length = headerLength type header := by
          rw [List.length_append, hmore, List.length_replicate]
          omega
        have hne : more ≠ [] :=
          List.length_pos_iff.1 (by rw [hmore, List.length_replicate]; omega)
        refine .inr ⟨⟨type, header, payload ++ more, htype, hlen, hlen'⟩, more, hne, ?_⟩
        rw [hstream, Packet.bytes, List.append_assoc]

/-- A byte that is no type is skipped. -/
theorem feed_skip (hstate : s.state = .brandNew) (htype : ¬IsType type) :
    feed s type = some s := by
  rw [feed, hstate]
  refine if_pos ?_
  rw [IsType, not_and_or, UInt8.not_le, UInt8.not_le] at htype
  exact htype.symm

/-- Nothing is written behind the end of the buffer if the packets are not too long. -/
theorem feed_isSome_iff (hstate : s.state = .brandNew) :
    (stream.foldlM feed s).isSome ↔ Fits stream := by
  constructor
  · -- By the length of what is left, which each packet and each byte that is skipped shorten.
    induction hlen : stream.length using Nat.strong_induction_on generalizing stream s with
    | _ len ih =>
      intro h
      rcases stream_cases stream with rfl | ⟨byte, rest, htype, rfl⟩ | ⟨p, rest, rfl⟩ |
        ⟨p, rest, hrest, hpart⟩
      · exact .nil
      · rw [List.foldlM_cons, feed_skip hstate htype] at h
        exact .skip htype (ih _ (by rw [← hlen]; exact Nat.lt_succ_self _) hstate rfl h)
      · rw [List.foldlM_append, feed_packet hstate] at h
        split_ifs at h with hle
        · refine .packet ((frame_length_le_iff p).1 hle) (ih _ ?_ rfl rfl h)
          rw [← hlen, List.length_append, Packet.bytes, List.cons_append, List.length_cons]
          omega
        · exact absurd h Bool.false_ne_true
      · exact .part hpart hrest ((feed_part hstate p hpart hrest).1 h)
  · intro h
    induction h generalizing s with
    | nil => rfl
    | skip htype _ ih =>
      rw [List.foldlM_cons, feed_skip hstate htype]
      exact ih hstate
    | @packet p stream hacl _ ih =>
      rw [List.foldlM_append, feed_packet hstate, if_pos ((frame_length_le_iff p).2 hacl)]
      exact ih rfl
    | @part p part rest hpart hrest hle => exact (feed_part hstate p hpart hrest).2 hle

/-- The packets of a stream are handed on. -/
theorem frames_of_packets {packets : List Packet} {s' : PacketReceiveData}
    (hstate : s.state = .brandNew)
    (h : (packets.map Packet.bytes).flatten.foldlM feed s = some s') :
    s'.frames = s.frames ++ packets.map Packet.frame := by
  induction packets generalizing s with
  | nil =>
    rw [← Option.some.inj h, List.map_nil, List.append_nil]
  | cons p packets ih =>
    rw [List.map_cons, List.flatten_cons, List.foldlM_append, feed_packet hstate] at h
    split_ifs at h with hle
    · rw [ih rfl h, List.map_cons, List.append_assoc, List.singleton_append]
    · exact absurd h (Option.some_ne_none _).symm

/-- The zeros are as few as possible unless the packet is filled up already. -/
theorem padded_frame_iff (p : Packet) :
    Padded p p.frame ↔ (Aligned p.type → ¬byteAlignment ∣ p.bytes.length) := by
  constructor
  · rintro ⟨zeros, hleast, hframe⟩ haligned hdvd
    have hzero : zeros = 0 := Nat.le_zero.1 (hleast.2 fun _ => hdvd)
    have hlen := congrArg List.length (List.append_cancel_left hframe)
    rw [List.length_replicate, List.length_replicate, tail, if_pos haligned, hzero,
      byteAlignment] at hlen
    omega
  · intro h
    refine ⟨tail p.type p.bytes.length, ⟨fun haligned => ?_, fun zeros hzeros => ?_⟩, rfl⟩
    · rw [tail, if_pos haligned, byteAlignment]
      omega
    · rw [tail]
      split_ifs with haligned
      · have hnot := h haligned
        have hdvd := hzeros haligned
        rw [byteAlignment] at hnot hdvd ⊢
        omega
      · exact Nat.zero_le _

theorem padded_frames_iff {packets : List Packet} :
    List.Forall₂ Padded packets (sitmIni.frames ++ packets.map Packet.frame) ↔
      ∀ p ∈ packets, Aligned p.type → ¬byteAlignment ∣ p.bytes.length := by
  rw [sitmIni, List.nil_append, List.forall₂_map_right_iff, List.forall₂_same]
  exact forall₂_congr fun p _ => padded_frame_iff p

/-- For a stream, however it is split into pieces that fit into the FIFO, nothing is written behind
    the end of the buffer, and of a stream of packets these are handed on, filled up. -/
def Framed (stream : List UInt8) : Prop :=
  ∀ pieces, (∀ piece ∈ pieces, piece.length ≤ fifoSize) → pieces.flatten = stream →
    ∃ s, sitmWrites sitmIni pieces = some s ∧
      ∀ packets : List Packet, stream = (packets.map Packet.bytes).flatten →
        List.Forall₂ Padded packets s.frames

/-- A stream is framed exactly if no ACL packet of it is too long, and, if it is one of packets, no
    command and no ACL packet has a length that is a multiple of 4. -/
theorem framed_iff (stream : List UInt8) : Framed stream ↔ Fits stream ∧
    ∀ packets : List Packet, stream = (packets.map Packet.bytes).flatten →
      ∀ p ∈ packets, Aligned p.type → ¬byteAlignment ∣ p.bytes.length := by
  have hini : sitmIni.state = .brandNew := rfl
  constructor
  · intro h
    have hpieces : ∀ piece ∈ stream.map fun byte => [byte], piece.length ≤ fifoSize := by
      intro piece hpiece
      obtain ⟨byte, -, rfl⟩ := List.mem_map.1 hpiece
      exact (by decide : 1 ≤ fifoSize)
    have hflatten : (stream.map fun byte => [byte]).flatten = stream := by
      rw [← List.flatMap_def, List.flatMap_singleton']
    obtain ⟨s, hs, hframes⟩ := h _ hpieces hflatten
    rw [sitmWrites_eq hpieces, hflatten] at hs
    refine ⟨(feed_isSome_iff hini).1 (hs ▸ rfl), ?_⟩
    rintro packets rfl
    exact padded_frames_iff.1 (frames_of_packets hini hs ▸ hframes packets rfl)
  · rintro ⟨hfits, haligned⟩ pieces hpieces rfl
    obtain ⟨s, hs⟩ := Option.isSome_iff_exists.1 ((feed_isSome_iff hini).2 hfits)
    refine ⟨s, (sitmWrites_eq hpieces).trans hs, fun packets hpackets => ?_⟩
    rw [hpackets] at hs
    rw [frames_of_packets hini hs]
    exact padded_frames_iff.2 (haligned packets hpackets)

/-- A reset of the chip. -/
def reset : Packet := ⟨1, [3, 0x0c, 0], [], isType_iff.2 (.inl rfl), rfl, rfl⟩

/-- The length of a reset is 4: four zeros are written behind it. -/
theorem not_framed : ¬∀ stream, Framed stream := by
  intro h
  obtain ⟨s, hs, hframes⟩ := h reset.bytes [reset.bytes] (by decide) rfl
  rw [sitmWrites_eq (by decide)] at hs
  have hpadded := @frames_of_packets sitmIni [reset] s rfl hs ▸ hframes [reset] rfl
  exact padded_frames_iff.1 hpadded reset (List.mem_singleton_self _) (.inl rfl) ⟨1, rfl⟩

end W132d.Tty.Sitm
