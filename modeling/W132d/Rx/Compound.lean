import Mathlib.Tactic

/-!
# Compound buffers

Short packets come several at a time, in one buffer that the first descriptor counts them for. Each
has a descriptor of its own, which says how long the packet is, itself included; behind it comes a
descriptor of the hardware, and the next packet starts at a multiple of eight bytes from there.
`mm_compound_data_process` copies one after the other, and stops at the first that does not fit. But
it adds up the lengths without the descriptors of the hardware, and reads a descriptor before it
knows that the buffer has one.

* `turns`, `mmCompoundDataProcess`: what the function does with the memory;
* `Bounded`: it reads and copies only what is in the buffer;
* `mem_turns_iff`: what it reads and copies;
* `Fits`: the last descriptor that it looks at is in the buffer, with its packet;
* `Packed`: the buffer holds packets, and `passed_turns`: these are passed on;
* `compound_bounded_iff`: the buffers that are split within bounds.
-/

namespace W132d.Rx

/-! ## Memory -/

/-- The memory, from an address on. -/
abbrev Memory := ℕ → UInt8

namespace Memory

/-- `msdu_offset` of the `rx_msdu_desc` at `pos`. -/
def msduOffset (mem : Memory) (pos : ℕ) : ℕ := (mem (pos + 1)).toNat

/-- `msdu_len`. -/
def msduLen (mem : Memory) (pos : ℕ) : ℕ := (mem (pos + 2)).toNat + 256 * (mem (pos + 3)).toNat

/-- `short_pkt_num`. -/
def shortPktNum (mem : Memory) (pos : ℕ) : ℕ := (mem (pos + 8)).toNat

/-- `msdu_total_len`. -/
def msduTotalLen (mem : Memory) (pos : ℕ) : ℕ := mem.msduOffset pos + mem.msduLen pos

/-- The `len` bytes at `pos`. -/
def bytes (mem : Memory) (pos len : ℕ) : List UInt8 := (List.range len).map fun i => mem (pos + i)

end Memory

/-- `sizeof(struct rx_msdu_desc)`. -/
def sizeofRxMsduDesc : ℕ := 28

/-- `sizeof(struct rx_mh_desc)`. -/
def sizeofRxMhDesc : ℕ := 28

/-- `ALIGN_8BYTE`. -/
def align8byte (a : ℕ) : ℕ := (a + 7) / 8 * 8

/-! ## The function -/

/-- What the function does: it looks at the descriptor at `pos`, copies bytes into an skb, passes an
    skb on, and frees the buffer. -/
inductive Event
  | read (pos : ℕ)
  | copy (pos len : ℕ)
  | pass (skb : List UInt8)
  | free
  deriving DecidableEq

/-- Where the next packet starts. -/
def next (mem : Memory) (pos : ℕ) : ℕ := pos + align8byte (mem.msduTotalLen pos + sizeofRxMhDesc)

/-- The loop, with `num` packets left, `pos_data` and `len`. There is memory for an skb if `alloc`
    says so, given how many packets are left behind it. -/
def turns (mem : Memory) (totalLen : ℤ) (alloc : ℕ → Bool) : ℕ → ℕ → ℤ → List Event
  | 0, _, _ => []
  | num + 1, pos, len =>
    let msduLen := mem.msduTotalLen pos
    let len := len + align8byte msduLen
    .read pos ::
      if len > totalLen then []
      else if alloc num = false then []
      else .copy pos msduLen :: .pass (mem.bytes pos msduLen) ::
        turns mem totalLen alloc num (next mem pos) len

/-- `mm_compound_data_process`. -/
def mmCompoundDataProcess (mem : Memory) (hifOffset : ℕ) (totalLen : ℤ) (alloc : ℕ → Bool) :
    List Event :=
  .read hifOffset ::
    turns mem (totalLen - hifOffset) alloc (mem.shortPktNum hifOffset) hifOffset 0 ++ [.free]

/-- The packets that are passed on. -/
def passed (events : List Event) : List (List UInt8) :=
  events.filterMap fun
    | .pass skb => some skb
    | _ => none

/-- What is read or copied is within the first bytes of the buffer. -/
def Event.Inside (totalLen : ℤ) : Event → Prop
  | .read pos => pos + sizeofRxMsduDesc ≤ totalLen
  | .copy pos len => pos + len ≤ totalLen
  | .pass _ => True
  | .free => True

/-- The function stays within the buffer. -/
def Bounded (mem : Memory) (hifOffset : ℕ) (totalLen : ℤ) (alloc : ℕ → Bool) : Prop :=
  ∀ event ∈ mmCompoundDataProcess mem hifOffset totalLen alloc, event.Inside totalLen

/-! ## The packets -/

section

variable (mem : Memory) (totalLen : ℤ) (alloc : ℕ → Bool)

/-- The room that the first packets need, each aligned to eight bytes. -/
def room (pos i : ℕ) : ℕ :=
  ∑ j ∈ Finset.range i, align8byte (mem.msduTotalLen ((next mem)^[j] pos))

/-- Of the `num` packets from `pos` on, there is room for one behind those before it, and an skb. -/
def Accepted (num pos : ℕ) (len : ℤ) (i : ℕ) : Prop :=
  len + room mem pos (i + 1) ≤ totalLen ∧ alloc (num - (i + 1)) = true

/-- The function looks at a descriptor: at the first one, and at those that are announced until a
    packet is not accepted. -/
def Looked (hifOffset i : ℕ) : Prop :=
  (i = 0 ∨ i < mem.shortPktNum hifOffset) ∧ ∀ j < i,
    Accepted mem (totalLen - hifOffset) alloc (mem.shortPktNum hifOffset) hifOffset 0 j

/-- The last descriptor that the function looks at is within the buffer, and so is its packet if it
    is accepted. -/
def Fits (hifOffset : ℕ) : Prop :=
  ∃ i, Looked mem totalLen alloc hifOffset i ∧ ¬Looked mem totalLen alloc hifOffset (i + 1) ∧
    (next mem)^[i] hifOffset + sizeofRxMsduDesc ≤ totalLen ∧
    (i < mem.shortPktNum hifOffset →
      Accepted mem (totalLen - hifOffset) alloc (mem.shortPktNum hifOffset) hifOffset 0 i →
      (next mem)^[i] hifOffset + mem.msduTotalLen ((next mem)^[i] hifOffset) ≤ totalLen)

/-- From `pos` on, the memory holds packets at the distance that the function expects, each aligned
    to eight bytes within the buffer. -/
inductive Packed : ℕ → List (List UInt8) → Prop
  | nil {pos : ℕ} : Packed pos []
  | cons {pos : ℕ} {packet : List UInt8} {packets : List (List UInt8)} :
    mem.msduTotalLen pos = packet.length → mem.bytes pos packet.length = packet →
      (pos + align8byte packet.length : ℤ) ≤ totalLen →
      Packed (pos + align8byte (packet.length + sizeofRxMhDesc)) packets →
      Packed pos (packet :: packets)

/-- The packets up to the first one that gets no skb. -/
def granted : List (List UInt8) → List (List UInt8)
  | [] => []
  | packet :: packets => if alloc packets.length then packet :: granted packets else []

end

variable {mem : Memory} {totalLen len : ℤ} {alloc : ℕ → Bool} {event : Event} {num pos i j : ℕ}

/-! ## Turns -/

theorem le_align8byte (a : ℕ) : a ≤ align8byte a ∧ align8byte a ≤ a + 7 := by
  rw [align8byte]
  omega

theorem room_succ : room mem pos (i + 1) =
    align8byte (mem.msduTotalLen pos) + room mem (next mem pos) i := by
  rw [room, Finset.sum_range_succ', add_comm]
  rfl

/-- The first packet. -/
theorem accepted_zero : Accepted mem totalLen alloc (num + 1) pos len 0 ↔
    len + align8byte (mem.msduTotalLen pos) ≤ totalLen ∧ alloc num = true := by
  rw [Accepted, room_succ]
  rfl

/-- The packets behind it. -/
theorem accepted_succ : Accepted mem totalLen alloc (num + 1) pos len (i + 1) ↔
    Accepted mem totalLen alloc num (next mem pos)
      (len + align8byte (mem.msduTotalLen pos)) i := by
  rw [Accepted, Accepted, room_succ, Nat.cast_add, ← add_assoc len, Nat.add_sub_add_right]

/-- What a turn does. -/
theorem mem_turns_succ : event ∈ turns mem totalLen alloc (num + 1) pos len ↔
    event = .read pos ∨ Accepted mem totalLen alloc (num + 1) pos len 0 ∧
      ((event = .copy pos (mem.msduTotalLen pos) ∨
          event = .pass (mem.bytes pos (mem.msduTotalLen pos))) ∨
        event ∈ turns mem totalLen alloc num (next mem pos)
          (len + align8byte (mem.msduTotalLen pos))) := by
  rw [accepted_zero, turns, List.mem_cons]
  split_ifs with hroom halloc
  · simp [not_le.2 hroom]
  · simp [halloc]
  · simp [not_lt.1 hroom, halloc, or_assoc]

/-- What the loop does: it looks at packets until one is not accepted, and copies and passes on
    those that are. -/
theorem mem_turns_iff : event ∈ turns mem totalLen alloc num pos len ↔
    ∃ i < num, (∀ j < i, Accepted mem totalLen alloc num pos len j) ∧
      (event = .read ((next mem)^[i] pos) ∨ Accepted mem totalLen alloc num pos len i ∧
        (event = .copy ((next mem)^[i] pos) (mem.msduTotalLen ((next mem)^[i] pos)) ∨
          event = .pass (mem.bytes ((next mem)^[i] pos)
            (mem.msduTotalLen ((next mem)^[i] pos))))) := by
  induction num generalizing pos len with
  | zero => simp [turns]
  | succ num ih =>
    rw [mem_turns_succ, ih, Nat.exists_lt_succ_left]
    simp only [Nat.forall_lt_succ_left, accepted_succ, Function.iterate_succ_apply,
      Function.iterate_zero, id_eq, Nat.not_lt_zero, false_imp_iff, implies_true, true_and]
    constructor
    · rintro (hread | ⟨hfirst, hcopy | ⟨i, hi, hbefore, hevent⟩⟩)
      · exact .inl (.inl hread)
      · exact .inl (.inr ⟨hfirst, hcopy⟩)
      · exact .inr ⟨i, hi, ⟨hfirst, hbefore⟩, hevent⟩
    · rintro ((hread | ⟨hfirst, hcopy⟩) | ⟨i, hi, ⟨hfirst, hbefore⟩, hevent⟩)
      · exact .inl hread
      · exact .inr ⟨hfirst, .inl hcopy⟩
      · exact .inr ⟨hfirst, .inr ⟨i, hi, hbefore, hevent⟩⟩

/-! ## Positions -/

/-- A packet ends before the next one starts, and so does a descriptor. -/
theorem le_next (mem : Memory) (pos : ℕ) :
    pos + mem.msduTotalLen pos ≤ next mem pos ∧ pos + sizeofRxMsduDesc ≤ next mem pos := by
  have hle := (le_align8byte (mem.msduTotalLen pos + sizeofRxMhDesc)).1
  rw [next]
  change mem.msduTotalLen pos + 28 ≤ _ at hle
  exact ⟨by omega, by change pos + 28 ≤ _; omega⟩

theorem next_mono (mem : Memory) (pos : ℕ) (h : i ≤ j) :
    (next mem)^[i] pos ≤ (next mem)^[j] pos := by
  induction j, h using Nat.le_induction with
  | base => exact le_rfl
  | succ j _ ih =>
    rw [Function.iterate_succ_apply']
    have hnext := (le_next mem ((next mem)^[j] pos)).2
    omega

/-! ## The last descriptor -/

section

variable {hifOffset : ℕ}

theorem looked_of_le (h : Looked mem totalLen alloc hifOffset j) (hle : i ≤ j) :
    Looked mem totalLen alloc hifOffset i :=
  ⟨h.1.imp (by omega) (by omega), fun k hk => h.2 k (by omega)⟩

theorem exists_last (mem : Memory) (totalLen : ℤ) (alloc : ℕ → Bool) (hifOffset : ℕ) :
    ∃ i, Looked mem totalLen alloc hifOffset i ∧ ¬Looked mem totalLen alloc hifOffset (i + 1) := by
  by_contra hlast
  push Not at hlast
  have hall (i : ℕ) : Looked mem totalLen alloc hifOffset i := by
    induction i with
    | zero => exact ⟨.inl rfl, nofun⟩
    | succ i ih => exact hlast i ih
  have hbeyond := (hall (mem.shortPktNum hifOffset + 1)).1
  omega

theorem le_last (hlast : ¬Looked mem totalLen alloc hifOffset (i + 1))
    (h : Looked mem totalLen alloc hifOffset j) : j ≤ i := by
  by_contra hlt
  exact hlast (looked_of_le h (by omega))

/-- The function looks at the descriptors as it should, and copies the packets that are accepted. -/
theorem mem_compound_iff :
    event ∈ mmCompoundDataProcess mem hifOffset totalLen alloc ↔
      event = .free ∨ ∃ i, Looked mem totalLen alloc hifOffset i ∧
        (event = .read ((next mem)^[i] hifOffset) ∨ i < mem.shortPktNum hifOffset ∧
          Accepted mem (totalLen - hifOffset) alloc (mem.shortPktNum hifOffset) hifOffset 0 i ∧
          (event = .copy ((next mem)^[i] hifOffset) (mem.msduTotalLen ((next mem)^[i] hifOffset)) ∨
            event = .pass (mem.bytes ((next mem)^[i] hifOffset)
              (mem.msduTotalLen ((next mem)^[i] hifOffset))))) := by
  rw [mmCompoundDataProcess, List.cons_append, List.mem_cons, List.mem_append, List.mem_singleton,
    mem_turns_iff]
  constructor
  · rintro (hread | ⟨i, hi, hbefore, hread | hcopy⟩ | hfree)
    · exact .inr ⟨0, ⟨.inl rfl, nofun⟩, .inl hread⟩
    · exact .inr ⟨i, ⟨.inr hi, hbefore⟩, .inl hread⟩
    · exact .inr ⟨i, ⟨.inr hi, hbefore⟩, .inr ⟨hi, hcopy⟩⟩
    · exact .inl hfree
  · rintro (hfree | ⟨i, ⟨hannounced, hbefore⟩, hread | ⟨hi, hcopy⟩⟩)
    · exact .inr (.inr hfree)
    · rcases hannounced with rfl | hi
      · exact .inl hread
      · exact .inr (.inl ⟨i, hi, hbefore, .inl hread⟩)
    · exact .inr (.inl ⟨i, hi, hbefore, .inr hcopy⟩)

/-- All that the function looks at and copies is in the buffer if the last descriptor is, and its
    packet. -/
theorem bounded_iff : Bounded mem hifOffset totalLen alloc ↔ Fits mem totalLen alloc hifOffset := by
  constructor
  · intro hbounded
    obtain ⟨i, hlooked, hlast⟩ := exists_last mem totalLen alloc hifOffset
    refine ⟨i, hlooked, hlast, ?_, fun hi haccepted => ?_⟩
    · exact hbounded (.read _) (mem_compound_iff.2 (.inr ⟨i, hlooked, .inl rfl⟩))
    · exact hbounded (.copy _ _)
        (mem_compound_iff.2 (.inr ⟨i, hlooked, .inr ⟨hi, haccepted, .inl rfl⟩⟩))
  · rintro ⟨k, hk, hlast, hread, hcopy⟩ event hevent
    have hbefore {j : ℕ} (hj : j ≤ k) :
        ((next mem)^[j] hifOffset + sizeofRxMsduDesc : ℤ) ≤ totalLen := by
      have hmono := next_mono mem hifOffset hj
      omega
    rcases mem_compound_iff.1 hevent with rfl | ⟨i, hlooked, rfl | ⟨hi, haccepted, rfl | rfl⟩⟩
    · trivial
    · exact hbefore (le_last hlast hlooked)
    · -- The packet ends before the next one, or is the last.
      by_cases hnext : Looked mem totalLen alloc hifOffset (i + 1)
      · have hend := (le_next mem ((next mem)^[i] hifOffset)).1
        have hinside := hbefore (le_last hlast hnext)
        rw [Function.iterate_succ_apply'] at hinside
        rw [Event.Inside]
        omega
      · obtain rfl := (le_last hlast hlooked).antisymm (le_last hnext hk)
        exact hcopy hi haccepted
    · trivial

end

/-! ## Packed packets -/

section

variable {packets : List (List UInt8)} {hifOffset : ℕ}

theorem passed_cons_read {events : List Event} :
    passed (.read pos :: events) = passed events := rfl

/-- The packets are passed on that get an skb: the check counts less than what was passed by. -/
theorem passed_turns (h : Packed mem totalLen pos packets) (hlen : len ≤ pos - hifOffset) :
    passed (turns mem (totalLen - hifOffset) alloc packets.length pos len) =
      granted alloc packets := by
  induction h generalizing len with
  | nil => rfl
  | @cons pos packet packets htotal hbytes hroom _ ih =>
    have halign : align8byte packet.length ≤ align8byte (packet.length + sizeofRxMhDesc) := by
      rw [align8byte, align8byte]
      omega
    have hfits : ¬(totalLen - hifOffset < len + align8byte packet.length) := by omega
    rw [List.length_cons, turns, passed_cons_read, granted, htotal, hbytes, if_neg hfits]
    cases halloc : alloc packets.length with
    | false => rfl
    | true =>
      rw [if_neg nofun, if_pos rfl, next, htotal]
      exact congrArg (packet :: ·) (ih (by omega))

/-- Packets with their descriptors are read and copied within the buffer. -/
theorem Packed.inside (h : Packed mem totalLen pos packets)
    (hdesc : ∀ packet ∈ packets, sizeofRxMsduDesc ≤ packet.length) {limit : ℤ} :
    ∀ event ∈ turns mem limit alloc packets.length pos len, event.Inside totalLen := by
  induction h generalizing len with
  | nil => exact nofun
  | @cons pos packet packets htotal _ hroom _ ih =>
    intro event hevent
    rw [List.forall_mem_cons] at hdesc
    have hle := (le_align8byte packet.length).1
    rw [List.length_cons, mem_turns_succ, htotal, next, htotal] at hevent
    rcases hevent with rfl | ⟨-, (rfl | rfl) | hevent⟩
    · rw [Event.Inside]
      omega
    · rw [Event.Inside]
      omega
    · trivial
    · exact ih hdesc.2 event hevent

/-- So a buffer of packed packets is split within its bounds. -/
theorem Packed.bounded (hnum : mem.shortPktNum hifOffset = packets.length) (hne : packets ≠ [])
    (h : Packed mem totalLen hifOffset packets)
    (hdesc : ∀ packet ∈ packets, sizeofRxMsduDesc ≤ packet.length) :
    Bounded mem hifOffset totalLen alloc := by
  have hinside : ∀ event ∈ turns mem (totalLen - hifOffset) alloc packets.length hifOffset 0,
      event.Inside totalLen := h.inside hdesc
  rw [← hnum] at hinside
  have hfirst : (Event.read hifOffset).Inside totalLen := by
    cases h with
    | nil => exact absurd rfl hne
    | @cons _ packet _ _ _ hroom _ =>
      have hlen := hdesc packet List.mem_cons_self
      have hle := (le_align8byte packet.length).1
      rw [Event.Inside]
      omega
  intro event hevent
  rw [mmCompoundDataProcess, List.cons_append, List.mem_cons, List.mem_append,
    List.mem_singleton] at hevent
  rcases hevent with rfl | hevent | rfl
  · exact hfirst
  · exact hinside event hevent
  · trivial

end

/-- What the function reads and copies is within the first `totalLen` bytes of the buffer exactly
    if the last descriptor that it looks at is, and the packet of it unless that is not accepted.
    And of packets that are packed as the function expects, exactly those are passed on, in order,
    that come before the first one without an skb. -/
theorem compound_bounded_iff (mem : Memory) (hifOffset : ℕ) (totalLen : ℤ) (alloc : ℕ → Bool) :
    (Bounded mem hifOffset totalLen alloc ↔ Fits mem totalLen alloc hifOffset) ∧
      ∀ packets, mem.shortPktNum hifOffset = packets.length →
        Packed mem totalLen hifOffset packets →
        passed (mmCompoundDataProcess mem hifOffset totalLen alloc) = granted alloc packets := by
  refine ⟨bounded_iff, fun packets hnum hpacked => ?_⟩
  have hpassed : passed (turns mem (totalLen - hifOffset) alloc packets.length hifOffset 0) =
      granted alloc packets := passed_turns hpacked (by omega)
  rw [mmCompoundDataProcess, List.cons_append, passed_cons_read, hnum, passed,
    List.filterMap_append]
  rw [← hpassed]
  exact List.append_nil _

/-- Packets of 32 bytes, every 64 bytes. The first descriptor, like all others, announces two. -/
def shorts : Memory := fun i => [0x03, 28, 4, 0, 0, 0, 0, 0, 2].getD (i % 64) 0

/-- Both are passed on. -/
theorem compound_bounded_two :
    passed (mmCompoundDataProcess shorts 0 128 fun _ => true) =
      [shorts.bytes 0 32, shorts.bytes 64 32] :=
  (compound_bounded_iff shorts 0 128 fun _ => true).2 [shorts.bytes 0 32, shorts.bytes 64 32] rfl
    (.cons rfl (by decide) (by decide) (.cons rfl (by decide) (by decide) .nil))

/-- Where the buffer ends before the second one, it is copied nevertheless. -/
theorem not_compound_bounded : ¬∀ mem hifOffset totalLen alloc,
    Bounded mem hifOffset totalLen alloc := by
  intro hbounded
  have hcopy : Event.copy 64 32 ∈ mmCompoundDataProcess shorts 0 64 fun _ => true := by decide
  have hinside := hbounded shorts 0 64 (fun _ => true) _ hcopy
  rw [Event.Inside] at hinside
  exact absurd hinside (by decide)

end W132d.Rx
