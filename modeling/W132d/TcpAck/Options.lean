import W132d.Loop
import W132d.TcpAck.Packet

/-!
# The options of a TCP header

`is_drop_tcp_ack` scans the options of an acknowledgement. At the end marker and at a malformed
option, it leaves the `switch` but not the loop, which goes on behind the bytes it has read, with
as many bytes left as before.

* `Scan.turn`: a turn of the loop, which is the one of the filter (`returns_of_optionLoop`);
* `options`: the options up to the end marker or the first malformed one;
* `Scanned`: the loop ends, within the header and where the options do, and reports what they are;
* `Splits`: the bytes are split into options, and a window scale has its shift;
* `scanned_iff`: that the scan is right exactly for these.

How the theorem is proved: the loop is followed from one turn to the next. A turn at an option that
is neither an end marker nor malformed takes off the bytes of it, and from there on the scan is
right exactly if it is from here on, with the bytes of this one inside (`right_iff_of_next`). A turn
at an end marker takes off no bytes, so that the loop goes on although the options have ended
(`not_stops`). By induction on the bytes that are left, the scan is right exactly if these are
options to the last one.
-/

namespace W132d.TcpAck

/-- The memory, from the options of a header on. -/
abbrev Memory := ℕ → UInt8

/-! ## Options in memory -/

section

variable (mem : Memory)

/-- The option at `ptr` has a size below 2 or beyond the `len` bytes that are left. -/
def Malformed (ptr len : ℕ) : Prop :=
  (mem (ptr + 1)).toNat < 2 ∨ len < (mem (ptr + 1)).toNat

instance (ptr len : ℕ) : Decidable (Malformed mem ptr len) := inferInstanceAs (Decidable (_ ∨ _))

/-- The options end at `ptr`: with `TCPOPT_EOL`, or an option that is malformed. -/
def Ends (ptr len : ℕ) : Prop := mem ptr = 0 ∨ mem ptr ≠ 1 ∧ Malformed mem ptr len

instance (ptr len : ℕ) : Decidable (Ends mem ptr len) := inferInstanceAs (Decidable (_ ∨ _))

/-- The number of bytes of an option, which is 1 for `TCPOPT_NOP`. -/
def size (ptr : ℕ) : ℕ := if mem ptr = 1 then 1 else (mem (ptr + 1)).toNat

variable {mem} in
theorem not_ends_iff {ptr len : ℕ} :
    ¬Ends mem ptr len ↔ mem ptr ≠ 0 ∧
      (mem ptr ≠ 1 → 2 ≤ (mem (ptr + 1)).toNat ∧ (mem (ptr + 1)).toNat ≤ len) := by
  rw [Ends, Malformed, not_or, not_and, not_or, not_lt, not_lt]

variable {mem} in
theorem size_pos {ptr len : ℕ} (h : ¬Ends mem ptr len) : 0 < size mem ptr := by
  rw [size]
  split_ifs with hnop
  · exact Nat.one_pos
  · exact Nat.lt_of_lt_of_le Nat.two_pos ((not_ends_iff.1 h).2 hnop).1

variable {mem} in
theorem size_le {ptr len : ℕ} (hpos : 0 < len) (h : ¬Ends mem ptr len) : size mem ptr ≤ len := by
  rw [size]
  split_ifs with hnop
  · exact hpos
  · exact ((not_ends_iff.1 h).2 hnop).2

/-- The kinds of the options in the `len` bytes at `ptr`, up to where they end. -/
def options (ptr len : ℕ) : List UInt8 :=
  if len = 0 then []
  else if Ends mem ptr len then []
  else mem ptr :: options (ptr + size mem ptr) (len - size mem ptr)
termination_by len
decreasing_by
  rename_i h
  have hpos := size_pos h
  omega

/-- `TCPOPT_NOP`, `TCPOPT_TIMESTAMP` or `TCPOPT_WINDOW`. -/
def Plain (opcode : UInt8) : Prop := opcode = 1 ∨ opcode = 8 ∨ opcode = 3

/-- The `len` bytes at `ptr` are options to the last one, without an end marker, and a window scale
    at the end of them has more than its size. -/
inductive Splits : ℕ → ℕ → Prop
  | nil {ptr : ℕ} : Splits ptr 0
  | cons {ptr len : ℕ} : 0 < len → ¬Ends mem ptr len → (mem ptr = 3 → 2 < len) →
      Splits (ptr + size mem ptr) (len - size mem ptr) → Splits ptr len

variable {mem} in
theorem splits_iff_of_pos {ptr len : ℕ} (hpos : 0 < len) :
    Splits mem ptr len ↔ ¬Ends mem ptr len ∧ (mem ptr = 3 → 2 < len) ∧
      Splits mem (ptr + size mem ptr) (len - size mem ptr) := by
  refine ⟨fun h => ?_, fun ⟨hends, hwindow, hrest⟩ => .cons hpos hends hwindow hrest⟩
  cases h with
  | nil => exact absurd hpos (lt_irrefl 0)
  | cons _ hends hwindow hrest => exact ⟨hends, hwindow, hrest⟩

end

/-! ## The loop -/

/-- The variables of the loop. -/
structure Scan where
  ptr : ℕ
  len : ℕ
  drop : AckType
  winScale : UInt16

namespace Scan

variable (mem : Memory)

/-- Before the first turn. A header that is too short leaves no bytes for options, too. -/
def start (doff : ℕ) : Scan := ⟨0, doff * 4 - 20, .canDrop, 0⟩

/-- What an option changes. -/
def option (s : Scan) : Scan :=
  if mem s.ptr = 8 then s -- `TCPOPT_TIMESTAMP`
  else if mem s.ptr = 3 then -- `TCPOPT_WINDOW`
    if mem (s.ptr + 2) < 15 then { s with winScale := 1 <<< (mem (s.ptr + 2)).toUInt16 } else s
  else { s with drop := .moreInfo }

/-- The body of the loop. -/
def body (s : Scan) : Scan :=
  if mem s.ptr = 0 then { s with ptr := s.ptr + 1 } -- `TCPOPT_EOL`
  else if mem s.ptr = 1 then { s with ptr := s.ptr + 1, len := s.len - 1 } -- `TCPOPT_NOP`
  else if Malformed mem s.ptr s.len then { s with ptr := s.ptr + 2 }
  else
    { s.option mem with
      ptr := s.ptr + 2 + ((mem (s.ptr + 1)).toNat - 2)
      len := s.len - (mem (s.ptr + 1)).toNat }

/-- The bytes that the body reads. -/
def reads (s : Scan) : List ℕ :=
  if mem s.ptr = 0 ∨ mem s.ptr = 1 then [s.ptr]
  else if mem s.ptr = 3 ∧ ¬Malformed mem s.ptr s.len then [s.ptr, s.ptr + 1, s.ptr + 2]
  else [s.ptr, s.ptr + 1]

/-- A turn of the loop of `is_drop_tcp_ack`. -/
def turn (s : Scan) : (AckType × UInt16) ⊕ Scan :=
  if 0 < s.len then .inr (s.body mem) else .inl (s.drop, s.winScale)

/-- From the state `s`, the loop ends, reads only what is before `stop`, stops where the options
    end, and reports whether all of them are plain. -/
structure Right (stop : ℕ) (s : Scan) : Prop where
  terminates : ∃ t r, Loop.Returns (turn mem) s t r
  inside : ∀ t, Loop.Reaches (turn mem) s t → 0 < t.len → ∀ i ∈ t.reads mem, i < stop
  stops : ∀ t, Loop.Reaches (turn mem) s t → 0 < t.len → Ends mem t.ptr t.len →
    ∃ r, turn mem (t.body mem) = .inl r
  reports : ∀ t r, Loop.Returns (turn mem) s t r →
    (r.1 = .canDrop ↔ s.drop = .canDrop ∧ ∀ opcode ∈ options mem s.ptr s.len, Plain opcode)

end Scan

/-- The scan of the options of a header with data offset `doff`: it ends; reads only bytes of the
    header; stops at the end marker and at the first malformed option; and reports 1 exactly if all
    options before that are plain. -/
structure Scanned (mem : Memory) (doff : ℕ) : Prop where
  terminates : ∃ t r, Loop.Returns (Scan.turn mem) (.start doff) t r
  inside : ∀ t, Loop.Reaches (Scan.turn mem) (.start doff) t → 0 < t.len →
    ∀ i ∈ t.reads mem, 20 + i < doff * 4
  stops : ∀ t, Loop.Reaches (Scan.turn mem) (.start doff) t → 0 < t.len →
    Ends mem t.ptr t.len → ∃ r, Scan.turn mem (t.body mem) = .inl r
  reports : ∀ t r, Loop.Returns (Scan.turn mem) (.start doff) t r →
    (r.1 = .canDrop ↔ ∀ opcode ∈ options mem 0 (doff * 4 - 20), Plain opcode)

namespace Scan

variable {mem : Memory} {s t : Scan} {r : AckType × UInt16} {stop doff : ℕ}

/-! ## Turns -/

theorem turn_of_pos (h : 0 < s.len) : s.turn mem = .inr (s.body mem) := if_pos h

theorem turn_of_zero (h : s.len = 0) : s.turn mem = .inl (s.drop, s.winScale) :=
  if_neg (by omega)

/-- At the end marker or a malformed option, no bytes are taken off. -/
theorem body_len_of_ends (h : Ends mem s.ptr s.len) : (s.body mem).len = s.len := by
  rw [body]
  rcases h with heol | ⟨hnop, hsize⟩
  · rw [if_pos heol]
  · rw [if_neg hnop, if_pos hsize]
    split_ifs <;> rfl

/-- So the loop goes on. -/
theorem not_stops (hpos : 0 < s.len) (h : Ends mem s.ptr s.len) :
    ¬∃ r, turn mem (s.body mem) = .inl r := by
  rintro ⟨r, hr⟩
  rw [turn_of_pos (by rwa [body_len_of_ends h])] at hr
  exact Sum.inr_ne_inl hr

/-- Any other option is skipped. -/
theorem body_of_not_ends (h : ¬Ends mem s.ptr s.len) :
    (s.body mem).ptr = s.ptr + size mem s.ptr ∧ (s.body mem).len = s.len - size mem s.ptr ∧
      ((s.body mem).drop = .canDrop ↔ s.drop = .canDrop ∧ Plain (mem s.ptr)) := by
  obtain ⟨heol, hsize⟩ := not_ends_iff.1 h
  rw [body, size, Plain, if_neg heol]
  by_cases hnop : mem s.ptr = 1
  · simp [hnop]
  · have hopsize := hsize hnop
    have hformed : ¬Malformed mem s.ptr s.len := fun hmal => h (.inr ⟨hnop, hmal⟩)
    rw [if_neg hnop, if_neg hformed, if_neg hnop]
    refine ⟨by dsimp only; omega, rfl, ?_⟩
    dsimp only
    rw [option]
    split_ifs with htime hwindow hshift <;> simp [*]

/-- The bytes that are read of such an option are before the end of the header, unless it is a
    window scale without its shift. -/
theorem reads_lt_iff (hpos : 0 < s.len) (h : ¬Ends mem s.ptr s.len)
    (hstop : s.ptr + s.len = stop) :
    (∀ i ∈ s.reads mem, i < stop) ↔ (mem s.ptr = 3 → 2 < s.len) := by
  obtain ⟨heol, hsize⟩ := not_ends_iff.1 h
  rw [reads]
  by_cases hnop : mem s.ptr = 1
  · rw [if_pos (.inr hnop), List.forall_mem_singleton, hnop]
    exact iff_of_true (by omega) fun h3 => absurd h3 (by decide)
  · have hopsize := hsize hnop
    have hformed : ¬Malformed mem s.ptr s.len := fun hmal => h (.inr ⟨hnop, hmal⟩)
    rw [if_neg (not_or.2 ⟨heol, hnop⟩)]
    split_ifs with hwindow
    · simp only [List.forall_mem_cons, List.not_mem_nil, false_imp_iff, implies_true, and_true,
        hwindow.1, true_imp_iff]
      omega
    · simp only [List.forall_mem_cons, List.not_mem_nil, false_imp_iff, implies_true, and_true]
      exact iff_of_true (by omega) fun h3 => absurd ⟨h3, hformed⟩ hwindow

/-! ## From one turn to the next -/

/-- A scan that goes on is right exactly if the bytes that are read are inside and the rest of the
    scan is right. -/
theorem right_iff_of_next (hpos : 0 < s.len) (h : ¬Ends mem s.ptr s.len) :
    s.Right mem stop ↔ (∀ i ∈ s.reads mem, i < stop) ∧ (s.body mem).Right mem stop := by
  have hturn : s.turn mem = .inr (s.body mem) := turn_of_pos hpos
  obtain ⟨hptr, hlen, hdrop⟩ := body_of_not_ends h
  have hreports (drop : AckType) : (drop = .canDrop ↔ s.drop = .canDrop ∧
      ∀ opcode ∈ options mem s.ptr s.len, Plain opcode) ↔
      (drop = .canDrop ↔ (s.body mem).drop = .canDrop ∧
        ∀ opcode ∈ options mem (s.body mem).ptr (s.body mem).len, Plain opcode) := by
    rw [hdrop, hptr, hlen, and_assoc, options.eq_1 mem s.ptr, if_neg hpos.ne', if_neg h,
      List.forall_mem_cons]
  refine ⟨fun hright => ⟨hright.inside s Loop.reaches_refl hpos, ?_⟩, fun ⟨hreads, hright⟩ => ?_⟩
  · obtain ⟨t, r, ht⟩ := hright.terminates
    refine ⟨⟨t, r, (Loop.returns_iff_of_next hturn).1 ht⟩, fun t ht => ?_, fun t ht => ?_,
      fun t r ht => ?_⟩
    · exact hright.inside t ((Loop.reaches_iff_of_next hturn).2 (.inr ht))
    · exact hright.stops t ((Loop.reaches_iff_of_next hturn).2 (.inr ht))
    · exact (hreports r.1).1 (hright.reports t r ((Loop.returns_iff_of_next hturn).2 ht))
  · obtain ⟨t, r, ht⟩ := hright.terminates
    refine ⟨⟨t, r, (Loop.returns_iff_of_next hturn).2 ht⟩, fun t ht hlt => ?_,
      fun t ht hlt hends => ?_, fun t r ht => ?_⟩
    · rcases (Loop.reaches_iff_of_next hturn).1 ht with rfl | ht
      · exact hreads
      · exact hright.inside t ht hlt
    · rcases (Loop.reaches_iff_of_next hturn).1 ht with rfl | ht
      · exact absurd hends h
      · exact hright.stops t ht hlt hends
    · exact (hreports r.1).2 (hright.reports t r ((Loop.returns_iff_of_next hturn).1 ht))

/-- Without bytes, the scan is right. -/
theorem right_of_zero (h : s.len = 0) : s.Right mem stop := by
  have hturn : s.turn mem = .inl (s.drop, s.winScale) := turn_of_zero h
  refine ⟨⟨s, _, (Loop.returns_iff_of_return hturn).2 ⟨rfl, rfl⟩⟩, fun t ht hlt => ?_,
    fun t ht hlt => ?_, fun t r ht => ?_⟩
  · obtain rfl := (Loop.reaches_iff_of_return hturn).1 ht
    omega
  · obtain rfl := (Loop.reaches_iff_of_return hturn).1 ht
    omega
  · obtain ⟨-, rfl⟩ := (Loop.returns_iff_of_return hturn).1 ht
    rw [options, if_pos h]
    exact (and_iff_left fun _ h => absurd h List.not_mem_nil).symm

/-- The scan is right exactly if the bytes split into options. -/
theorem right_iff_splits (hstop : s.ptr + s.len = stop) :
    s.Right mem stop ↔ Splits mem s.ptr s.len := by
  induction hn : s.len using Nat.strong_induction_on generalizing s with
  | _ n ih =>
  rw [← hn]
  subst hn
  rcases Nat.eq_zero_or_pos s.len with hzero | hpos
  · rw [hzero]
    exact iff_of_true (right_of_zero hzero) .nil
  rw [splits_iff_of_pos hpos]
  by_cases h : Ends mem s.ptr s.len
  · -- The loop does not stop where the options end.
    refine iff_of_false (fun hright => ?_) fun hsplits => hsplits.1 h
    exact not_stops hpos h (hright.stops s Loop.reaches_refl hpos h)
  · obtain ⟨hptr, hlen, -⟩ := body_of_not_ends h
    have hsize := size_pos h
    have hle := size_le hpos h
    rw [right_iff_of_next hpos h, reads_lt_iff hpos h hstop, ← hptr, ← hlen,
      ih (s.body mem).len (by omega) (by omega) rfl]
    exact (and_iff_right h).symm

end Scan

/-! ## The loop of the filter -/

/-- Memory that begins with these bytes. -/
def memoryOf (buf : List UInt8) : Memory := fun i => buf.getD i 0

section

variable {buf ptr : List UInt8} {fuel len p : ℕ} {drop : AckType} {winScale : UInt16}
  {r : AckType × UInt16}

/-- A byte of the memory, and those behind it. -/
theorem memoryOf_eq {a : UInt8} (h : a :: ptr = buf.drop p) :
    memoryOf buf p = a ∧ ptr = buf.drop (p + 1) := by
  have hget : buf[p]? = some a := by
    rw [← List.head?_drop, ← h, List.head?_cons]
  refine ⟨by rw [memoryOf, List.getD_eq_getElem?_getD, hget, Option.getD_some], ?_⟩
  rw [← List.tail_drop, ← h, List.tail_cons]

/-- The loop goes on as it does after the first turn. -/
theorem returns_of_body {mem : Memory} {s s' : Scan} (hpos : 0 < s.len) (hbody : s.body mem = s')
    (h : ∃ t, Loop.Returns (Scan.turn mem) s' t r) : ∃ t, Loop.Returns (Scan.turn mem) s t r := by
  obtain ⟨t, ht⟩ := h
  exact ⟨t, (Loop.returns_iff_of_next ((Scan.turn_of_pos hpos).trans (hbody ▸ rfl))).2 ht⟩

theorem not_malformed {mem : Memory} {opsize : UInt8} (hopsize : mem (p + 1) = opsize)
    (hsize : ¬opsize < 2) (hlen : ¬opsize.toNat > len) : ¬Malformed mem p len := by
  rw [Malformed, hopsize]
  exact not_or.2 ⟨hsize, hlen⟩

/-- The bytes behind an option. -/
theorem drop_option {n : ℕ} (h : ptr = buf.drop (p + 1 + 1)) :
    ptr.drop n = buf.drop (p + 2 + n) := by
  rw [h, List.drop_drop]

/-- What the loop of the filter returns, the one here does. -/
theorem returns_of_optionLoop (hptr : ptr = buf.drop p)
    (h : optionLoop fuel len drop winScale ptr = some r) :
    ∃ t, Loop.Returns (Scan.turn (memoryOf buf)) ⟨p, len, drop, winScale⟩ t r := by
  -- The cases are the branches of the filter; each turn here takes the same one.
  fun_induction optionLoop fuel len drop winScale ptr generalizing p with
  | case1 fuel drop winScale ptr =>
    obtain rfl := Option.some.inj h
    exact ⟨_, (Loop.returns_iff_of_return (Scan.turn_of_zero rfl)).2 ⟨rfl, rfl⟩⟩
  | case2 | case3 | case6 | case10 => cases h
  | case4 fuel len drop winScale ptr ih =>
    obtain ⟨hopcode, hptr⟩ := memoryOf_eq hptr
    exact returns_of_body (Nat.succ_pos _) (by simp [Scan.body, hopcode]) (ih hptr h)
  | case5 fuel len drop winScale ptr hnop ih =>
    obtain ⟨hopcode, hptr⟩ := memoryOf_eq hptr
    exact returns_of_body (Nat.succ_pos _) (by simp [Scan.body, hopcode]) (ih hptr h)
  | case7 fuel len drop winScale opcode heol hnop opsize ptr hsize ih =>
    obtain ⟨hopcode, hptr⟩ := memoryOf_eq hptr
    obtain ⟨hopsize, hptr⟩ := memoryOf_eq hptr
    have hmal : Malformed (memoryOf buf) p (len + 1) := .inl (by rw [hopsize]; exact hsize)
    exact returns_of_body (Nat.succ_pos _) (by simp [Scan.body, hopcode, heol, hnop, hmal])
      (ih hptr h)
  | case8 fuel len drop winScale opcode heol hnop opsize ptr hsize hlen ih =>
    obtain ⟨hopcode, hptr⟩ := memoryOf_eq hptr
    obtain ⟨hopsize, hptr⟩ := memoryOf_eq hptr
    have hmal : Malformed (memoryOf buf) p (len + 1) := .inr (by rw [hopsize]; exact hlen)
    exact returns_of_body (Nat.succ_pos _) (by simp [Scan.body, hopcode, heol, hnop, hmal])
      (ih hptr h)
  | case9 fuel len drop winScale opsize ptr hsize hlen =>
    rename_i ih
    obtain ⟨hopcode, hptr⟩ := memoryOf_eq hptr
    obtain ⟨hopsize, hptr⟩ := memoryOf_eq hptr
    have hformed := not_malformed hopsize hsize hlen
    have hbody : Scan.body (memoryOf buf) ⟨p, len + 1, drop, winScale⟩ =
        ⟨p + 2 + (opsize.toNat - 2), len + 1 - opsize.toNat, drop, winScale⟩ := by
      simp [Scan.body, Scan.option, hopcode, hopsize, hformed]
    exact returns_of_body (Nat.succ_pos _) hbody (ih (drop_option hptr) h)
  | case11 fuel len drop winScale opsize hsize hlen len' shift ptr winScale' =>
    rename_i ih
    obtain ⟨hopcode, hptr⟩ := memoryOf_eq hptr
    obtain ⟨hopsize, hptr⟩ := memoryOf_eq hptr
    obtain ⟨hshift, -⟩ := memoryOf_eq hptr
    have hformed := not_malformed hopsize hsize hlen
    have hbody : Scan.body (memoryOf buf) ⟨p, len + 1, drop, winScale⟩ =
        ⟨p + 2 + (opsize.toNat - 2), len + 1 - opsize.toNat, drop, winScale'⟩ := by
      have hshift' : memoryOf buf (p + 2) = shift := hshift
      rw [Scan.body, Scan.option]
      simp only [hopcode, hopsize, hformed, hshift']
      dsimp only [winScale']
      split_ifs <;> first | rfl | contradiction
    exact returns_of_body (Nat.succ_pos _) hbody (ih (drop_option hptr) h)
  | case12 fuel len drop winScale opcode heol hnop opsize ptr hsize hlen len' next htime hwindow =>
    rename_i ih
    obtain ⟨hopcode, hptr⟩ := memoryOf_eq hptr
    obtain ⟨hopsize, hptr⟩ := memoryOf_eq hptr
    have hformed := not_malformed hopsize hsize hlen
    have hbody : Scan.body (memoryOf buf) ⟨p, len + 1, drop, winScale⟩ =
        ⟨p + 2 + (opsize.toNat - 2), len + 1 - opsize.toNat, .moreInfo, winScale⟩ := by
      simp [Scan.body, Scan.option, hopcode, hopsize, hformed, heol, hnop, htime, hwindow]
    exact returns_of_body (Nat.succ_pos _) hbody (ih (drop_option hptr) h)

/-- What the filter reports of a header that no data follows, the scan returns. -/
theorem returns_of_isDropTcpAck {doff : ℕ} {tcpTotLen : ℤ} {report : Option (AckType × UInt16)}
    (htot : tcpTotLen ≤ doff * 4) (h : isDropTcpAck doff tcpTotLen buf = some report) :
    ∃ t r, report = some r ∧ Loop.Returns (Scan.turn (memoryOf buf)) (.start doff) t r := by
  rw [isDropTcpAck, if_neg (not_lt.2 htot)] at h
  obtain ⟨r, hr, rfl⟩ := Option.map_eq_some_iff.1 h
  obtain ⟨t, ht⟩ := returns_of_optionLoop (p := 0) List.drop_zero.symm hr
  exact ⟨t, r, rfl, ht⟩

end

/-- The scan of the options of a header is right exactly if they are options to the last byte. -/
theorem scanned_iff (mem : Memory) (doff : ℕ) :
    Scanned mem doff ↔ Splits mem 0 (doff * 4 - 20) := by
  have hright : (Scan.start doff).Right mem (doff * 4 - 20) ↔ Splits mem 0 (doff * 4 - 20) :=
    Scan.right_iff_splits (Nat.zero_add _)
  refine ⟨fun h => hright.1 ⟨h.terminates, fun t ht hlt i hi => ?_, h.stops, fun t r ht => ?_⟩,
    fun h => ⟨(hright.2 h).terminates, fun t ht hlt i hi => ?_, (hright.2 h).stops,
      fun t r ht => ?_⟩⟩
  · have hlt := h.inside t ht hlt i hi
    omega
  · exact (h.reports t r ht).trans (and_iff_right rfl).symm
  · have hlt := (hright.2 h).inside t ht hlt i hi
    omega
  · exact ((hright.2 h).reports t r ht).trans (and_iff_right rfl)

/-- The header of an acknowledgement with a window scale, which the end marker fills up. -/
def windowEol : Memory
  | 0 => 3
  | 1 => 3
  | 2 => 7
  | _ => 0

/-- The loop does not stop at the end marker. -/
theorem not_scanned : ¬∀ (mem : Memory) (doff : ℕ), doff < 16 → Scanned mem doff := by
  intro h
  have hstops := (h windowEol 6 (by decide)).stops ((Scan.start 6).body windowEol)
  have hreaches : Loop.Reaches (Scan.turn windowEol) (.start 6) ((Scan.start 6).body windowEol) :=
    Relation.ReflTransGen.single rfl
  have hpos : 0 < ((Scan.start 6).body windowEol).len := by decide
  have hends : Ends windowEol ((Scan.start 6).body windowEol).ptr
    ((Scan.start 6).body windowEol).len := by decide
  exact Scan.not_stops hpos hends (hstops hreaches hpos hends)

end W132d.TcpAck
