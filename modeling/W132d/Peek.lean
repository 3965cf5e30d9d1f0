import W132d.Bytes

/-!
# Programs that read memory

A program reads bytes of a memory, and what it reads next may depend on what it has read.

* `Peek`: such a program, and `Peek.reads`, `Peek.value`: the positions that it reads in a memory,
  and what it yields;
* `Peek.byte`, `Peek.bytes`, `Peek.num`: a byte, bytes one after the other, and the number in them;
* `Peek.Only`: it reads only at positions that have a property. There is a rule for each way to
  build a program;
* `Peek.Inside`: it reads only the first `n` bytes;
* `Peek.Holds`: a memory has bytes at a position, and `Peek.put`: bytes are written there.
-/

namespace W132d

/-- A program that reads memory. -/
def Peek (α : Type) := (ℕ → UInt8) → List ℕ × α

namespace Peek

variable {α β : Type} {m : Peek α} {f : α → Peek β} {mem : ℕ → UInt8} {P : ℕ → Prop}
  {n pos len : ℕ}

/-- The positions that a program reads. -/
def reads (m : Peek α) (mem : ℕ → UInt8) : List ℕ := (m mem).1

/-- What a program yields. -/
def value (m : Peek α) (mem : ℕ → UInt8) : α := (m mem).2

instance : Monad Peek where
  pure a := fun _ => ([], a)
  bind m f := fun mem => (m.reads mem ++ (f (m.value mem)).reads mem, (f (m.value mem)).value mem)

/-- The bytes that a memory has from a position on. -/
def bytesAt (mem : ℕ → UInt8) (pos len : ℕ) : List UInt8 := (List.range' pos len).map mem

/-- The number that a memory has at a position, its lowest byte first. -/
def numAt (mem : ℕ → UInt8) (pos len : ℕ) : ℕ := Bytes.le (bytesAt mem pos len)

/-- Read a byte. -/
def byte (pos : ℕ) : Peek UInt8 := fun mem => ([pos], mem pos)

/-- Read bytes. -/
def bytes (pos len : ℕ) : Peek (List UInt8) := fun mem => (List.range' pos len, bytesAt mem pos len)

/-- Read a number. -/
def num (pos len : ℕ) : Peek ℕ := fun mem => (List.range' pos len, numAt mem pos len)

/-- A number of some bytes is less than what they have room for. -/
theorem numAt_lt (mem : ℕ → UInt8) (pos len : ℕ) : numAt mem pos len < 256 ^ len := by
  rw [numAt]
  refine Bytes.le_lt (le_of_eq ?_)
  rw [bytesAt, List.length_map, List.length_range']

/-- A number is the same in memories that have the same bytes there. -/
theorem numAt_congr {mem' : ℕ → UInt8} (h : ∀ i < len, mem (pos + i) = mem' (pos + i)) :
    numAt mem pos len = numAt mem' pos len := by
  rw [numAt, numAt, bytesAt, bytesAt]
  congr 1
  refine List.map_congr_left fun i hi => ?_
  obtain ⟨hle, hlt⟩ := List.mem_range'_1.1 hi
  have hi := h (i - pos) (by omega)
  rwa [Nat.add_sub_cancel' hle] at hi

/-! ## Values -/

/-- The value of a read of nothing. -/
@[simp] theorem value_pure (a : α) : (pure a : Peek α).value mem = a := rfl

@[simp] theorem value_byte : (byte pos).value mem = mem pos := rfl

theorem value_bind : (m >>= f).value mem = (f (m.value mem)).value mem := rfl

/-- The value of a read that goes on after a byte. -/
@[simp] theorem value_byte_bind {f : UInt8 → Peek β} :
    (byte pos >>= f).value mem = (f (mem pos)).value mem := rfl

/-- The value of a read that goes on after some bytes. -/
@[simp] theorem value_bytes_bind {f : List UInt8 → Peek β} :
    (bytes pos len >>= f).value mem = (f (bytesAt mem pos len)).value mem := rfl

/-- The value of a read that goes on after a number. -/
@[simp] theorem value_num_bind {f : ℕ → Peek β} :
    (num pos len >>= f).value mem = (f (numAt mem pos len)).value mem := rfl

/-- The value of one read or the other. -/
@[simp] theorem value_ite {c : Prop} [Decidable c] {m' : Peek α} :
    (if c then m else m').value mem = if c then m.value mem else m'.value mem := by
  split <;> rfl

/-! ## Reads -/

/-- A program reads only at positions that have a property. -/
def Only (P : ℕ → Prop) (mem : ℕ → UInt8) (m : Peek α) : Prop := ∀ pos ∈ m.reads mem, P pos

/-- A program reads only the first `n` bytes. -/
abbrev Inside (n : ℕ) (mem : ℕ → UInt8) (m : Peek α) : Prop := Only (· < n) mem m

/-- A read of nothing is inside of every part of the memory. -/
@[simp] theorem only_pure (a : α) : Only P mem (pure a) := fun _ h => absurd h List.not_mem_nil

/-- Two reads are inside if both are, the second one as it is in this memory. -/
theorem only_bind : Only P mem (m >>= f) ↔ Only P mem m ∧ Only P mem (f (m.value mem)) :=
  List.forall_mem_append

/-- A read of a byte is inside if its position is. -/
@[simp] theorem only_byte : Only P mem (byte pos) ↔ P pos := List.forall_mem_singleton

/-- A read that goes on after a byte is inside if the byte and the rest are. -/
@[simp] theorem only_byte_bind {f : UInt8 → Peek β} :
    Only P mem (byte pos >>= f) ↔ P pos ∧ Only P mem (f (mem pos)) :=
  List.forall_mem_cons

theorem forall_mem_range' : (∀ i ∈ List.range' pos len, P i) ↔ ∀ i < len, P (pos + i) := by
  constructor
  · exact fun h i hi => h (pos + i) (List.mem_range'_1.2 ⟨Nat.le_add_right _ _, by omega⟩)
  · intro h i hi
    obtain ⟨hle, hlt⟩ := List.mem_range'_1.1 hi
    have hi := h (i - pos) (by omega)
    rwa [Nat.add_sub_cancel' hle] at hi

@[simp] theorem only_bytes_bind {f : List UInt8 → Peek β} :
    Only P mem (bytes pos len >>= f) ↔
      (∀ i < len, P (pos + i)) ∧ Only P mem (f (bytesAt mem pos len)) := by
  rw [← forall_mem_range']
  exact List.forall_mem_append

@[simp] theorem only_num_bind {f : ℕ → Peek β} :
    Only P mem (num pos len >>= f) ↔
      (∀ i < len, P (pos + i)) ∧ Only P mem (f (numAt mem pos len)) := by
  rw [← forall_mem_range']
  exact List.forall_mem_append

/-- One read or the other is inside. -/
@[simp] theorem only_ite {c : Prop} [Decidable c] {m' : Peek α} :
    Only P mem (if c then m else m') ↔ if c then Only P mem m else Only P mem m' := by
  split <;> rfl

/-- Bytes are within the first `n` if the last of them is. -/
theorem forall_add_lt : (∀ i < len, pos + i < n) ↔ len = 0 ∨ pos + len ≤ n := by
  constructor
  · intro h
    rcases Nat.eq_zero_or_pos len with hlen | hlen
    · exact .inl hlen
    · have hlast := h (len - 1) (by omega)
      exact .inr (by omega)
  · intro h i hi
    omega

/-! ## Bytes in memory -/

variable {out : ℕ → UInt8} {bs cs : List UInt8} {b : UInt8} {k : ℕ}

/-- As many bytes are read as asked for. -/
@[simp] theorem length_bytesAt : (bytesAt mem pos len).length = len := by
  rw [bytesAt, List.length_map, List.length_range']

theorem getElem_bytesAt (h : k < (bytesAt mem pos len).length) :
    (bytesAt mem pos len)[k] = mem (pos + k) := by
  simp only [bytesAt, List.getElem_map, List.getElem_range', Nat.one_mul]

/-- The first byte, and the rest. -/
theorem bytesAt_succ : bytesAt mem pos (len + 1) = mem pos :: bytesAt mem (pos + 1) len := rfl

theorem bytesAt_add :
    bytesAt mem pos (k + len) = bytesAt mem pos k ++ bytesAt mem (pos + k) len := by
  have happend : List.range' pos k ++ List.range' (pos + k) len = List.range' pos (k + len) := by
    rw [← List.range'_append, Nat.one_mul]
  rw [bytesAt, bytesAt, bytesAt, ← List.map_append, happend]

/-- A memory has bytes at a position. -/
def Holds (mem : ℕ → UInt8) (pos : ℕ) (bs : List UInt8) : Prop := bytesAt mem pos bs.length = bs

/-- The memory has a list of bytes if it has the first one and the rest. -/
theorem holds_cons : Holds mem pos (b :: bs) ↔ mem pos = b ∧ Holds mem (pos + 1) bs := by
  rw [Holds, List.length_cons, bytesAt_succ, List.cons.injEq, Holds]

theorem holds_append :
    Holds mem pos (bs ++ cs) ↔ Holds mem pos bs ∧ Holds mem (pos + bs.length) cs := by
  rw [Holds, List.length_append, bytesAt_add]
  constructor
  · exact fun h => List.append_inj h length_bytesAt
  · rintro ⟨hbs, hcs⟩
    rw [hbs, hcs]

/-- Write bytes. -/
def put (out : ℕ → UInt8) (pos : ℕ) (bs : List UInt8) (p : ℕ) : UInt8 :=
  if pos ≤ p then bs.getD (p - pos) (out p) else out p

/-- Bytes that are written behind others. -/
theorem bytesAt_put (out : ℕ → UInt8) (bs : List UInt8) (h : k ≤ pos) :
    bytesAt (put out pos bs) k (pos - k + bs.length) = bytesAt out k (pos - k) ++ bs := by
  rw [bytesAt_add, Nat.add_sub_cancel' h]
  congr 1
  · refine List.ext_getElem (by simp) fun i hi _ => ?_
    rw [length_bytesAt] at hi
    rw [getElem_bytesAt, getElem_bytesAt, put, if_neg (by omega)]
  · refine List.ext_getElem (by simp) fun i hi hi' => ?_
    rw [getElem_bytesAt, put, if_pos (Nat.le_add_right _ _), Nat.add_sub_cancel_left,
      List.getD_eq_getElem?_getD, List.getElem?_eq_getElem hi', Option.getD_some]

/-- The memory holds what was put there. -/
theorem holds_put (out : ℕ → UInt8) (bs : List UInt8) : Holds (put out 0 bs) 0 bs := by
  have h := bytesAt_put out bs (le_refl 0)
  rwa [Nat.sub_zero, Nat.zero_add] at h

/-- A byte that is written over another one, or behind the bytes that are looked at. -/
theorem bytesAt_put_singleton (out : ℕ → UInt8) (pos k len : ℕ) (b : UInt8) :
    bytesAt (put out (pos + k) [b]) pos len = (bytesAt out pos len).set k b := by
  refine List.ext_getElem (by simp) fun i hi _ => ?_
  rw [getElem_bytesAt, List.getElem_set, put]
  by_cases hik : k = i
  · subst hik
    simp
  · rw [if_neg hik, getElem_bytesAt]
    split
    · have hout : [b].length ≤ pos + i - (pos + k) := by
        rw [List.length_singleton]
        omega
      rw [List.getD_eq_getElem?_getD, List.getElem?_eq_none hout, Option.getD_none]
    · rfl

end Peek

end W132d
