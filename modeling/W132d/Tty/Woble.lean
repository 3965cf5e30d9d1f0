import W132d.Loop
import W132d.Peek
import W132d.Tty.Receive

/-!
# Commands that wait for their event

A command of the driver itself waits until the chip has answered it. Every block that is received
for Bluetooth is scanned for the answer before it is passed on (`woble_data_recv` in `woble.c`). The
scan goes from event to event by the lengths that these have, to where exactly nothing is left, and
keeps the opcode of each, wherever it has one.

* `turn`, `finish`: the function, a turn of its loop and what comes behind it;
* `Bounded`: the loop returns and reads the block only, and `mttyRxCb_bounded_iff`: of which blocks
  this is true;
* `Own`: the command is completed by its own event only, and `own_iff`: of which blocks of events
  this is true.
-/

namespace W132d.Tty.Woble

open Sdio Peek

/-! ## The function -/

/-- `HCI_EVT`. -/
def hciEvt : UInt8 := 0x04

/-- `EVT_HEADER_EVENT`. -/
def evtHeaderEvent : ℕ := 1

/-- `EVT_HEADER_SIZE`. -/
def evtHeaderSize : ℕ := 2

/-- `BT_HCI_EVT_CMD_COMPLETE`. -/
def btHciEvtCmdComplete : UInt8 := 0x0e

/-- `BT_HCI_EVT_CMD_STATUS`. -/
def btHciEvtCmdStatus : UInt8 := 0x0f

/-- The variables of the loop, with positions in the block. -/
structure Recv where
  opcode : ℕ
  status : UInt8
  rxmsg : ℕ
  leftLength : ℤ

/-- What the loop does before it looks whether something is left. -/
def body (count : ℕ) (s : Recv) : Peek Recv := do
  let rxmsg := (count - s.leftLength).toNat
  if (← byte rxmsg) = hciEvt then
    -- That too little is left is an error, but the loop goes on.
    let packLength := (← byte (rxmsg + evtHeaderSize)).toNat + 3
    let leftLength := s.leftLength - packLength
    if (← byte (rxmsg + evtHeaderEvent)) = btHciEvtCmdStatus then
      let opcode ← num (rxmsg + 5) 2
      let status ← byte (rxmsg + 3)
      return { opcode, status, rxmsg, leftLength }
    else
      -- Events that have no opcode, too.
      let opcode ← num (rxmsg + 4) 2
      let status ← byte (rxmsg + 6)
      return { opcode, status, rxmsg, leftLength }
  else return { s with rxmsg, leftLength := 0 }

/-- A turn of the loop. -/
def turn (mem : ℕ → UInt8) (count : ℕ) (s : Recv) : Recv ⊕ Recv :=
  let s := (body count s).value mem
  if s.leftLength = 0 then .inl s else .inr s

/-- The variables in front of the loop. -/
def start (count : ℕ) : Recv := ⟨0, 0, 0, count⟩

/-- `struct hci_cmd_t`. There is no command without an opcode. -/
structure HciCmd where
  opcode : ℕ
  wait : ℕ
  deriving DecidableEq

/-- What `woble_data_recv` does behind the loop, and what it returns. -/
def finish (cmd : HciCmd) (s : Recv) : HciCmd × ℤ :=
  if cmd.opcode = s.opcode ∧ cmd.opcode ≠ 0 then ({ cmd with wait := cmd.wait + 1 }, 0)
  else (cmd, -1)

/-! ## A turn -/

variable {mem : ℕ → UInt8} {count pos : ℕ} {s t r : Recv}

/-- How long the event at a position is. -/
def packLength (mem : ℕ → UInt8) (pos : ℕ) : ℕ := (mem (pos + evtHeaderSize)).toNat + 3

/-- Where an event has its opcode. -/
def opcodePos (code : UInt8) : ℕ := if code = btHciEvtCmdStatus then 5 else 4

/-- What the event at a position has where an opcode is. -/
def opcodeAt (mem : ℕ → UInt8) (pos : ℕ) : ℕ :=
  numAt mem (pos + opcodePos (mem (pos + evtHeaderEvent))) 2

/-- The loop is at a position of the block, or behind it. -/
def At (count pos : ℕ) (s : Recv) : Prop := s.leftLength = (count : ℤ) - pos

/-- The loop begins with the first byte. -/
theorem at_start (count : ℕ) : At count 0 (start count) := by simp [At, start]

/-- What is left tells where it is. -/
theorem rxmsg_eq (h : At count pos s) : ((count : ℤ) - s.leftLength).toNat = pos := by
  rw [h]
  omega

/-- The event at the position is taken. -/
theorem body_event (h : At count pos s) (htype : mem pos = hciEvt) :
    let s' := (body count s).value mem
    s'.opcode = opcodeAt mem pos ∧ s'.rxmsg = pos ∧ At count (pos + packLength mem pos) s' := by
  have hleft : s.leftLength = (count : ℤ) - pos := h
  simp only [body, rxmsg_eq h, value_byte_bind, value_ite, value_num_bind, value_pure]
  rw [if_pos htype, opcodeAt, opcodePos]
  split <;> refine ⟨rfl, rfl, ?_⟩ <;> simp only [At, packLength] <;> push_cast <;> omega

/-- A block that is not an event ends the loop. -/
theorem body_other (h : At count pos s) (htype : mem pos ≠ hciEvt) :
    (body count s).value mem = { s with rxmsg := pos, leftLength := 0 } := by
  simp only [body, rxmsg_eq h, value_byte_bind, value_ite, value_num_bind, value_pure]
  rw [if_neg htype]

/-- What a turn reads. -/
theorem inside_body (h : At count pos s) :
    Inside count mem (body count s) ↔ pos < count ∧ (mem pos = hciEvt → pos + 7 ≤ count) := by
  simp only [body, rxmsg_eq h, only_byte_bind, only_ite, only_num_bind, only_pure, forall_add_lt,
    evtHeaderSize, evtHeaderEvent]
  by_cases htype : mem pos = hciEvt
  · simp only [htype, if_true, and_true, true_implies]
    split <;> omega
  · simp only [htype, if_false, false_implies]

/-! ## Blocks -/

/-- The loop returns, and every turn of it reads the block only. -/
def Bounded (mem : ℕ → UInt8) (count : ℕ) : Prop :=
  (∃ t r, Loop.Returns (turn mem count) (start count) t r) ∧
    ∀ t, Loop.Reaches (turn mem count) (start count) t → Inside count mem (body count t)

/-- From a position on, there are events of at least seven bytes up to the end of the block, or to
    a packet that is no event. -/
inductive Fits (mem : ℕ → UInt8) (count : ℕ) : ℕ → Prop
  | other {pos : ℕ} (hpos : pos < count) (htype : mem pos ≠ hciEvt) : Fits mem count pos
  | last {pos : ℕ} (htype : mem pos = hciEvt) (hopcode : pos + 7 ≤ count)
      (hend : pos + packLength mem pos = count) : Fits mem count pos
  | next {pos : ℕ} (htype : mem pos = hciEvt) (hopcode : pos + 7 ≤ count)
      (hrest : Fits mem count (pos + packLength mem pos)) : Fits mem count pos

theorem turn_of_left (h : At count pos ((body count s).value mem)) :
    turn mem count s =
      if pos = count then .inl ((body count s).value mem) else .inr ((body count s).value mem) := by
  have hleft : ((body count s).value mem).leftLength = (count : ℤ) - pos := h
  rw [turn]
  by_cases hpos : pos = count
  · rw [if_pos hpos, if_pos (by omega)]
  · rw [if_neg hpos, if_neg (by omega)]

theorem turn_other (h : At count pos s) (htype : mem pos ≠ hciEvt) :
    turn mem count s = .inl { s with rxmsg := pos, leftLength := 0 } := by
  rw [turn, body_other h htype]
  rfl

/-- A loop that returns has read events up to where it ends. -/
theorem fits_of_returns (h : Loop.Returns (turn mem count) s t r)
    (hinside : ∀ t, Loop.Reaches (turn mem count) s t → Inside count mem (body count t))
    (hat : At count pos s) : Fits mem count pos := by
  revert pos
  refine h.induction (motive := fun s =>
    (∀ t, Loop.Reaches (turn mem count) s t → Inside count mem (body count t)) →
      ∀ {pos}, At count pos s → Fits mem count pos) ?_ ?_ hinside
  · intro hreturn hinside pos hat
    obtain ⟨hpos, hopcode⟩ := (inside_body hat).1 (hinside t Loop.reaches_refl)
    by_cases htype : mem pos = hciEvt
    · refine .last htype (hopcode htype) ?_
      by_contra hend
      rw [turn_of_left (body_event hat htype).2.2, if_neg hend] at hreturn
      exact Sum.inr_ne_inl hreturn
    · exact .other hpos htype
  · intro s s' hturn _ ih hinside pos hat
    obtain ⟨-, hopcode⟩ := (inside_body hat).1 (hinside s Loop.reaches_refl)
    have hreaches := fun t => Loop.reaches_iff_of_next (t := t) hturn
    by_cases htype : mem pos = hciEvt
    · have hat' := (body_event hat htype).2.2
      rw [turn_of_left hat'] at hturn
      split at hturn
      · exact absurd hturn Sum.inl_ne_inr
      · obtain rfl := Sum.inr.inj hturn
        exact .next htype (hopcode htype)
          (ih (fun t ht => hinside t ((hreaches t).2 (.inr ht))) hat')
    · rw [turn_other hat htype] at hturn
      exact absurd hturn Sum.inl_ne_inr

/-- Where there are events up to the end, the loop returns. -/
theorem returns_of_fits (h : Fits mem count pos) (hat : At count pos s) :
    (∃ t r, Loop.Returns (turn mem count) s t r) ∧
      ∀ t, Loop.Reaches (turn mem count) s t → Inside count mem (body count t) := by
  induction h generalizing s with
  | other hpos htype =>
    have hturn := turn_other hat htype
    refine ⟨⟨s, _, Loop.reaches_refl, hturn⟩, fun t ht => ?_⟩
    rw [(Loop.reaches_iff_of_return hturn).1 ht, inside_body hat]
    exact ⟨hpos, fun htype' => absurd htype' htype⟩
  | last htype hopcode hend =>
    have hturn := turn_of_left (body_event hat htype).2.2
    rw [if_pos hend] at hturn
    refine ⟨⟨s, _, Loop.reaches_refl, hturn⟩, fun t ht => ?_⟩
    rw [(Loop.reaches_iff_of_return hturn).1 ht, inside_body hat]
    exact ⟨by omega, fun _ => hopcode⟩
  | next htype hopcode hrest ih =>
    rename_i pos
    have hat' := (body_event hat htype).2.2
    have hturn := turn_of_left hat'
    by_cases hend : pos + packLength mem pos = count
    · rw [if_pos hend] at hturn
      refine ⟨⟨s, _, Loop.reaches_refl, hturn⟩, fun t ht => ?_⟩
      rw [(Loop.reaches_iff_of_return hturn).1 ht, inside_body hat]
      exact ⟨by omega, fun _ => hopcode⟩
    · rw [if_neg hend] at hturn
      obtain ⟨⟨t, r, hreturns⟩, hinside⟩ := ih hat'
      refine ⟨⟨t, r, (Loop.returns_iff_of_next hturn).2 hreturns⟩, fun t ht => ?_⟩
      rcases (Loop.reaches_iff_of_next hturn).1 ht with rfl | ht
      · exact (inside_body hat).2 ⟨by omega, fun _ => hopcode⟩
      · exact hinside t ht

/-- The block of the buffer that `mtty_rx_cb` gets: it is behind the public header, which says how
    long it is. -/
def block (buf : ℕ → UInt8) (pos : ℕ) : UInt8 := buf (puhSize + pos)

/-- The scan of a block that is received is bounded exactly if the block has events of at least
    seven bytes up to its end, or to a packet that is no event. -/
theorem mttyRxCb_bounded_iff (buf : ℕ → UInt8) :
    Bounded (block buf) (blockSize (bytesAt buf 0 3)) ↔
      Fits (block buf) (blockSize (bytesAt buf 0 3)) 0 :=
  ⟨fun h => by
    obtain ⟨⟨t, r, hreturns⟩, hinside⟩ := h
    exact fits_of_returns hreturns hinside (at_start _),
  fun h => returns_of_fits h (at_start _)⟩

/-- The public header, and an event that ends two bytes behind the block. -/
def cut : List UInt8 := [0x80, 3, 0, 0, 0x04, 0x0e, 6, 1, 0x09, 0xfd, 0]

/-- The lengths in a block are not checked. -/
theorem not_bounded : ¬∀ buf : ℕ → UInt8, Bounded (block buf) (blockSize (bytesAt buf 0 3)) := by
  intro h
  obtain ⟨⟨t, r, hreturns⟩, hinside⟩ := h fun pos => cut.getD pos 0
  have hfits := fits_of_returns hreturns hinside (at_start _)
  rcases hfits with ⟨-, htype⟩ | ⟨-, -, hend⟩ | ⟨-, -, hrest⟩
  · exact htype (by decide)
  · exact absurd hend (by decide)
  · rcases hrest with ⟨hpos, -⟩ | ⟨-, hpos, -⟩ | ⟨-, hpos, -⟩
    · exact absurd hpos (by decide)
    · exact absurd hpos (by decide)
    · exact absurd hpos (by decide)

/-! ## Events -/

/-- An HCI event. -/
structure Event where
  code : UInt8
  params : List UInt8
  length_lt : params.length < 256

namespace Event

/-- The bytes of an event. -/
def bytes (e : Event) : List UInt8 :=
  hciEvt :: e.code :: UInt8.ofNat e.params.length :: e.params

/-- The opcode that an event answers. -/
def reply (e : Event) : Option ℕ :=
  if e.code = btHciEvtCmdComplete ∧ 3 ≤ e.params.length then
    some (Bytes.le ((e.params.drop 1).take 2))
  else if e.code = btHciEvtCmdStatus ∧ 4 ≤ e.params.length then
    some (Bytes.le ((e.params.drop 2).take 2))
  else none

end Event

/-- The memory of a block of events, with what is behind it. -/
def memory (evs : List Event) (behind : ℕ → UInt8) (pos : ℕ) : UInt8 :=
  (evs.flatMap Event.bytes).getD pos (behind pos)

/-- The command is completed. -/
def Completed (cmd : HciCmd) (t : Recv) : Prop :=
  finish cmd t = ({ cmd with wait := cmd.wait + 1 }, 0)

/-- The scan ends, the command is completed exactly if one of the events answers it, and the opcode
    that it is completed for is taken from such an event. -/
def Own (cmd : HciCmd) (evs : List Event) (behind : ℕ → UInt8) : Prop :=
  let count := (evs.flatMap Event.bytes).length
  ∃ s t, Loop.Returns (turn (memory evs behind) count) (start count) s t ∧
    (Completed cmd t ↔ ∃ e ∈ evs, e.reply = some cmd.opcode) ∧
    (Completed cmd t → ∃ before e after, evs = before ++ e :: after ∧
      t.rxmsg = (before.flatMap Event.bytes).length ∧ e.reply = some cmd.opcode)

/-- The last event answers the command, or none does and the last one does not look so. -/
def Last (cmd : HciCmd) (evs : List Event) (behind : ℕ → UInt8) : Prop :=
  ∃ before e, evs = before ++ [e] ∧ (e.reply = some cmd.opcode ∨
    opcodeAt (memory evs behind) (before.flatMap Event.bytes).length ≠ cmd.opcode ∧
      ∀ e ∈ evs, e.reply ≠ some cmd.opcode)

section Events

variable {evs before after : List Event} {e : Event} {behind : ℕ → UInt8} {cmd : HciCmd}

/-- An event has three bytes before its parameters. -/
theorem Event.length_bytes (e : Event) : e.bytes.length = e.params.length + 3 := rfl

/-- The bytes of an event are where it is. -/
theorem memory_eq {i : ℕ} (h : evs = before ++ e :: after) (hi : i < e.bytes.length) :
    memory evs behind ((before.flatMap Event.bytes).length + i) = e.bytes.getD i 0 := by
  subst h
  rw [memory, List.flatMap_append, List.flatMap_cons, List.getD_eq_getElem?_getD,
    List.getElem?_append_right (Nat.le_add_right _ _), Nat.add_sub_cancel_left,
    List.getElem?_append_left hi, List.getD_eq_getElem?_getD, List.getElem?_eq_getElem hi]
  rfl

/-- The length of an event is read from its own bytes. -/
theorem packLength_eq (h : evs = before ++ e :: after) :
    packLength (memory evs behind) (before.flatMap Event.bytes).length = e.bytes.length := by
  have hsize : memory evs behind ((before.flatMap Event.bytes).length + evtHeaderSize) =
      UInt8.ofNat e.params.length :=
    memory_eq h (show 2 < e.params.length + 3 by omega)
  rw [packLength, hsize, UInt8.toNat_ofNat', Nat.mod_eq_of_lt e.length_lt, e.length_bytes]

/-- The loop takes an event, and ends behind the last one. -/
theorem turn_memory (behind : ℕ → UInt8) (h : evs = before ++ e :: after)
    (hs : At (evs.flatMap Event.bytes).length (before.flatMap Event.bytes).length s) :
    ∃ s', At (evs.flatMap Event.bytes).length ((before ++ [e]).flatMap Event.bytes).length s' ∧
      s'.rxmsg = (before.flatMap Event.bytes).length ∧
      s'.opcode = opcodeAt (memory evs behind) (before.flatMap Event.bytes).length ∧
      turn (memory evs behind) (evs.flatMap Event.bytes).length s =
        if after = [] then .inl s' else .inr s' := by
  -- At the start of an event, the first byte says so, and its length leads to the next one.
  have htype : memory evs behind (before.flatMap Event.bytes).length = hciEvt :=
    memory_eq (i := 0) h (by rw [e.length_bytes]; omega)
  obtain ⟨hopcode, hrxmsg, hat⟩ := body_event hs htype
  have hnext : (before.flatMap Event.bytes).length +
      packLength (memory evs behind) (before.flatMap Event.bytes).length =
        ((before ++ [e]).flatMap Event.bytes).length := by
    rw [packLength_eq h, List.flatMap_append, List.length_append, List.flatMap_singleton]
  rw [hnext] at hat
  refine ⟨_, hat, hrxmsg, hopcode, ?_⟩
  rw [turn_of_left hat]
  have hlength : (evs.flatMap Event.bytes).length =
      ((before ++ [e]).flatMap Event.bytes).length + (after.flatMap Event.bytes).length := by
    rw [h, List.append_cons, List.flatMap_append, List.length_append]
  have hend : ((before ++ [e]).flatMap Event.bytes).length = (evs.flatMap Event.bytes).length ↔
      after = [] := by
    -- The loop is at the end exactly if there is no other event.
    rw [hlength]
    constructor
    · intro heq
      cases after with
      | nil => rfl
      | cons e' after =>
        rw [List.flatMap_cons, List.length_append, e'.length_bytes] at heq
        omega
    · rintro rfl
      rfl
  simp only [hend]

/-- The scan ends with the last event. -/
theorem returns_memory (behind : ℕ → UInt8) (h : evs = before ++ after) (hne : after ≠ [])
    (hs : At (evs.flatMap Event.bytes).length (before.flatMap Event.bytes).length s) :
    ∃ u t init e, evs = init ++ [e] ∧
      Loop.Returns (turn (memory evs behind) (evs.flatMap Event.bytes).length) s u t ∧
      t.rxmsg = (init.flatMap Event.bytes).length ∧
      t.opcode = opcodeAt (memory evs behind) (init.flatMap Event.bytes).length := by
  induction after generalizing before s with
  | nil => exact absurd rfl hne
  | cons e after ih =>
    obtain ⟨s', hat, hrxmsg, hopcode, hturn⟩ := turn_memory behind h hs
    cases after with
    | nil =>
      rw [if_pos rfl] at hturn
      exact ⟨s, s', before, e, h, ⟨Loop.reaches_refl, hturn⟩, hrxmsg, hopcode⟩
    | cons e' after =>
      rw [if_neg (List.cons_ne_nil _ _)] at hturn
      obtain ⟨u, t, init, last, heq, hreturns, ht⟩ :=
        ih (h.trans (List.append_cons _ _ _)) (List.cons_ne_nil _ _) hat
      exact ⟨u, t, init, last, heq, (Loop.returns_iff_of_next hturn).2 hreturns, ht⟩

/-- The bytes of an event, from one of them on. -/
theorem bytesAt_memory {i len : ℕ} (h : evs = before ++ e :: after)
    (hi : i + len ≤ e.bytes.length) :
    bytesAt (memory evs behind) ((before.flatMap Event.bytes).length + i) len =
      (e.bytes.drop i).take len := by
  rw [bytesAt]
  refine List.ext_getElem (by simp; omega) fun j hj hj' => ?_
  rw [List.length_map, List.length_range'] at hj
  rw [List.getElem_map, List.getElem_range', Nat.one_mul, Nat.add_assoc,
    memory_eq h (show i + j < e.bytes.length by omega), List.getElem_take, List.getElem_drop,
    List.getD_eq_getElem?_getD, List.getElem?_eq_getElem (show i + j < e.bytes.length by omega)]
  rfl

/-- The opcode of an answer is where the loop looks for it. -/
theorem opcodeAt_of_reply {opcode : ℕ} (behind : ℕ → UInt8) (h : evs = before ++ e :: after)
    (hreply : e.reply = some opcode) :
    opcodeAt (memory evs behind) (before.flatMap Event.bytes).length = opcode := by
  have hlength := e.length_bytes
  have hcode : memory evs behind ((before.flatMap Event.bytes).length + evtHeaderEvent) = e.code :=
    memory_eq h (show 1 < e.bytes.length by omega)
  rw [opcodeAt, hcode, opcodePos, numAt]
  rw [Event.reply] at hreply
  split at hreply
  · rename_i hcomplete
    have hne : e.code ≠ btHciEvtCmdStatus := by
      rw [hcomplete.1]
      decide
    rw [if_neg hne, bytesAt_memory h (by omega)]
    exact Option.some.inj hreply
  · split at hreply
    · rename_i hstatus
      rw [if_pos hstatus.1, bytesAt_memory h (by omega)]
      exact Option.some.inj hreply
    · exact absurd hreply (by simp)

/-- A command is completed by an event with its opcode. -/
theorem completed_iff (hcmd : cmd.opcode ≠ 0) : Completed cmd t ↔ t.opcode = cmd.opcode := by
  rw [Completed, finish]
  constructor
  · intro h
    by_contra hne
    rw [if_neg fun hc => hne hc.1.symm] at h
    exact absurd (Prod.mk.inj h).2 (by decide)
  · exact fun h => if_pos ⟨h.symm, hcmd⟩

/-- Events have different positions. -/
theorem eq_of_position {init : List Event} {last : Event}
    (h : init ++ [last] = before ++ e :: after)
    (hlength : (init.flatMap Event.bytes).length = (before.flatMap Event.bytes).length) :
    e = last := by
  rcases List.append_eq_append_iff.1 h with ⟨rest, rfl, hrest⟩ | ⟨rest, rfl, hrest⟩
  · cases rest with
    | nil => exact (List.cons.inj hrest).1.symm
    | cons e' rest =>
      have hlen := e'.length_bytes
      rw [List.flatMap_append, List.length_append, List.flatMap_cons, List.length_append] at hlength
      omega
  · cases rest with
    | nil => exact (List.cons.inj hrest).1
    | cons e' rest =>
      have hlen := e'.length_bytes
      rw [List.flatMap_append, List.length_append, List.flatMap_cons, List.length_append] at hlength
      omega

/-- If the answer is the command's own, it is in the last event. -/
theorem last_of_own (hcmd : cmd.opcode ≠ 0) (hevs : evs ≠ []) (h : Own cmd evs behind) :
    Last cmd evs behind := by
  obtain ⟨u, t, init, e, heq, hreturns, hrxmsg, hopcode⟩ :=
    returns_memory behind (List.nil_append evs).symm hevs (at_start _)
  obtain ⟨u', t', hreturns', hiff, hown⟩ := h
  obtain rfl := hreturns.unique hreturns'
  obtain rfl := Sum.inl.inj (hreturns.2.symm.trans hreturns'.2)
  refine ⟨init, e, heq, ?_⟩
  by_cases hcompleted : Completed cmd t
  · obtain ⟨before, e', after, heq', hrxmsg', hreply⟩ := hown hcompleted
    obtain rfl := eq_of_position (heq ▸ heq') (hrxmsg ▸ hrxmsg')
    exact .inl hreply
  · refine .inr ⟨fun hne => hcompleted ((completed_iff hcmd).2 (hopcode.trans hne)), ?_⟩
    exact fun e he hreply => hcompleted (hiff.2 ⟨e, he, hreply⟩)

theorem own_of_last (hcmd : cmd.opcode ≠ 0) (hevs : evs ≠ []) (h : Last cmd evs behind) :
    Own cmd evs behind := by
  obtain ⟨u, t, init, e, heq, hreturns, hrxmsg, hopcode⟩ :=
    returns_memory behind (List.nil_append evs).symm hevs (at_start _)
  obtain ⟨init', e', heq', hlast⟩ := h
  obtain ⟨rfl, he⟩ := List.append_inj' (heq.symm.trans heq') rfl
  obtain rfl := List.singleton_inj.1 he
  refine ⟨u, t, hreturns, ?_⟩
  rw [completed_iff hcmd, hopcode]
  rcases hlast with hreply | ⟨hne, hnone⟩
  · have hmem : e ∈ evs := by
      rw [heq]
      exact List.mem_append_right _ (List.mem_singleton_self e)
    have hlooked := opcodeAt_of_reply behind heq hreply
    exact ⟨⟨fun _ => ⟨e, hmem, hreply⟩, fun _ => hlooked⟩,
      fun _ => ⟨init, e, [], heq, hrxmsg, hreply⟩⟩
  · refine ⟨⟨fun h => absurd h hne, ?_⟩, fun h => absurd h hne⟩
    rintro ⟨e', he', hreply⟩
    exact absurd hreply (hnone e' he')

/-- A command is completed by its own event only exactly if the last event of the block answers it,
    or no event does and the last one has not the opcode where it would be. -/
theorem own_iff (cmd : HciCmd) (evs : List Event) (behind : ℕ → UInt8) (hcmd : cmd.opcode ≠ 0)
    (hevs : evs ≠ []) : Own cmd evs behind ↔ Last cmd evs behind :=
  ⟨last_of_own hcmd hevs, own_of_last hcmd hevs⟩

/-- The answer to `BT_HCI_OP_SET_SLEEPMODE`. -/
def answer : Event := ⟨btHciEvtCmdComplete, [1, 0x09, 0xfd, 0], by decide⟩

/-- The chip has sent packets of a connection. -/
def completedPackets : Event := ⟨0x13, [1, 0x20, 0, 1, 0], by decide⟩

/-- The answer of the command is in the last event here. -/
theorem own_answer : Own ⟨0xfd09, 0⟩ [completedPackets, answer] fun _ => 0 :=
  (own_iff _ _ _ (by decide) (List.cons_ne_nil _ _)).2
    ⟨[completedPackets], answer, rfl, .inl (by decide)⟩

/-- If another event follows, that one is taken for the answer. -/
theorem not_own :
    ¬∀ cmd evs behind, cmd.opcode ≠ 0 → evs ≠ [] → Own cmd evs behind := by
  intro h
  have hown := h ⟨0xfd09, 0⟩ [answer, completedPackets] (fun _ => 0) (by decide)
    (List.cons_ne_nil _ _)
  obtain ⟨init, e, heq, hlast⟩ := last_of_own (by decide) (List.cons_ne_nil _ _) hown
  have heq' : [answer] ++ [completedPackets] = init ++ [e] := heq
  obtain ⟨-, he⟩ := List.append_inj' heq' rfl
  obtain rfl := List.singleton_inj.1 he
  rcases hlast with hreply | ⟨-, hnone⟩
  · exact absurd hreply (by decide)
  · exact hnone answer List.mem_cons_self (by decide)

end Events

end W132d.Tty.Woble
