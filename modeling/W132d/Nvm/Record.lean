import W132d.Nvm.Parse

/-!
# The elements of the record

What is written for a line are elements of members (`Elem`). An element has a sign or not, and a
number fits if it is in the range of its type.

* `Member.get`: the number that an element is;
* `numAt_store_of_mem`, `get_store_of_forall_ne`: the elements after some were written;
* `get_of_numAt_eq`: a number that fits is read as it was written.
-/

namespace W132d.Nvm

open Peek

/-- The number that an element is. -/
def Member.get (conf : ℕ → UInt8) (m : Member) (i : ℕ) : ℤ :=
  let n := numAt conf (m.offset + i * m.width) m.width
  if m.signed i ∧ 256 ^ m.width ≤ 2 * n then n - 256 ^ m.width else n

/-- A number is in the range of an element. -/
def Member.InRange (m : Member) (i : ℕ) (n : ℤ) : Prop :=
  if m.signed i then -256 ^ m.width ≤ 2 * n ∧ 2 * n < 256 ^ m.width else 0 ≤ n ∧ n < 256 ^ m.width

/-- An element that is written. -/
structure Elem where
  member : Member
  index : ℕ
  number : ℕ
  deriving DecidableEq

def Elem.write (x : Elem) : Write :=
  ⟨x.member.offset + x.index * x.member.width, Layout.leBytes x.member.width x.number⟩

variable {m m' : Member} {i i' n : ℕ} {x y : Elem} {xs : List Elem} {conf conf' : ℕ → UInt8}
  {ws : List Write} {w : Write} {val : ℤ}

theorem store_append_singleton (conf : ℕ → UInt8) (ws : List Write) (w : Write) :
    store conf (ws ++ [w]) = put (store conf ws) w.pos w.bytes := by
  rw [store, List.foldl_append]
  rfl

/-- Different elements have no byte in common. -/
theorem disjoint_elem (hi : i < m.count) (hi' : i' < m'.count) (h : ¬(m = m' ∧ i = i')) :
    m.offset + i * m.width + m.width ≤ m'.offset + i' * m'.width ∨
      m'.offset + i' * m'.width + m'.width ≤ m.offset + i * m.width := by
  by_cases hm : m = m'
  · subst hm
    rcases Nat.lt_or_gt_of_ne fun hi => h ⟨rfl, hi⟩ with hlt | hlt
    · have hmul := Nat.mul_le_mul_right m.width hlt
      rw [Nat.succ_mul] at hmul
      exact .inl (by omega)
    · have hmul := Nat.mul_le_mul_right m.width hlt
      rw [Nat.succ_mul] at hmul
      exact .inr (by omega)
  · have hmul := Nat.mul_le_mul_right m.width hi
    have hmul' := Nat.mul_le_mul_right m'.width hi'
    rw [Nat.succ_mul] at hmul hmul'
    rcases disjoint hm with hle | hle
    · rw [Member.size] at hle
      exact .inl (by omega)
    · rw [Member.size] at hle
      exact .inr (by omega)

/-- An element that is not written is as before. -/
theorem numAt_store_of_forall_ne (hi : i < m.count) (hxs : ∀ x ∈ xs, x.index < x.member.count)
    (h : ∀ x ∈ xs, ¬(x.member = m ∧ x.index = i)) :
    numAt (store conf (xs.map Elem.write)) (m.offset + i * m.width) m.width =
      numAt conf (m.offset + i * m.width) m.width := by
  induction xs using List.reverseRecOn with
  | nil => rfl
  | append_singleton xs x ih =>
    rw [List.forall_mem_append, List.forall_mem_singleton] at hxs h
    rw [List.map_append, List.map_singleton, store_append_singleton,
      Layout.numAt_put_of_disjoint, ih hxs.1 h.1]
    rw [Elem.write, Layout.length_leBytes]
    exact disjoint_elem hi hxs.2 fun heq => h.2 ⟨heq.1.symm, heq.2.symm⟩

/-- An element that is written, always with the same number, has this number. -/
theorem numAt_store_of_mem (hxs : ∀ x ∈ xs, x.index < x.member.count) (hx : x ∈ xs)
    (h : ∀ y ∈ xs, y.member = x.member → y.index = x.index → y.number = x.number) :
    numAt (store conf (xs.map Elem.write)) (x.member.offset + x.index * x.member.width)
      x.member.width = x.number % 256 ^ x.member.width := by
  induction xs using List.reverseRecOn with
  | nil => exact absurd hx List.not_mem_nil
  | append_singleton xs y ih =>
    have hi := hxs x hx
    rw [List.forall_mem_append, List.forall_mem_singleton] at hxs h
    rw [List.map_append, List.map_singleton, store_append_singleton]
    by_cases heq : x.member = y.member ∧ x.index = y.index
    · rw [Elem.write, heq.1, heq.2, Layout.numAt_put, h.2 heq.1.symm heq.2.symm]
    · have hx' : x ∈ xs := by
        rcases List.mem_append.1 hx with hx | hx
        · exact hx
        · rw [List.mem_singleton.1 hx] at heq
          exact absurd ⟨rfl, rfl⟩ heq
      rw [Layout.numAt_put_of_disjoint, ih hxs.1 hx' h.1]
      rw [Elem.write, Layout.length_leBytes]
      exact disjoint_elem hi hxs.2 heq

theorem get_store_of_forall_ne (hi : i < m.count) (hxs : ∀ x ∈ xs, x.index < x.member.count)
    (h : ∀ x ∈ xs, ¬(x.member = m ∧ x.index = i)) :
    m.get (store conf (xs.map Elem.write)) i = m.get conf i := by
  rw [Member.get, Member.get, numAt_store_of_forall_ne hi hxs h]

theorem width_mem (m : Member) : m.width = 1 ∨ m.width = 2 ∨ m.width = 4 := by
  cases m <;> simp [Member.width]

/-- A number in the range of its element is read as it was written. -/
theorem get_of_numAt_eq (hval : m.InRange i val)
    (h : numAt conf (m.offset + i * m.width) m.width = (val % 2 ^ 32).toNat % 256 ^ m.width) :
    m.get conf i = val := by
  rw [Member.InRange] at hval
  rw [Member.get, h]
  cases hsigned : m.signed i with
  | true =>
    rw [if_pos hsigned] at hval
    simp only [true_and]
    rcases width_mem m with hw | hw | hw <;> rw [hw] at hval ⊢ <;> split_ifs <;> omega
  | false =>
    rw [if_neg (by rw [hsigned]; decide)] at hval
    rw [if_neg fun h => absurd h.1 (by decide)]
    rcases width_mem m with hw | hw | hw <;> rw [hw] at hval ⊢ <;> omega

end W132d.Nvm
