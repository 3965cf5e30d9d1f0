import Mathlib.Algebra.BigOperators.Group.Finset.Basic
import Mathlib.Data.Finset.Card
import Mathlib.Tactic

/-!
# Windows of a cyclic sequence space

Sequence numbers live in a space of `N` numbers that wraps around, and a *ring*
of `M` slots, `M` a divisor of `N`, keeps what is known about the number `s` in
its slot `s % M`. A *window* is the numbers at the offsets `lo ≤ o < hi` from a
base `w`; as long as it is no longer than the ring, no two of its numbers share
a slot.

* `Cyclic.Within`: the occupied slots of the ring hold numbers of a window;
* `Within.offset_eq`: the slot of an offset holds, if anything, that offset;
* `Within.succ`, `Within.shift`: a window moves on past an empty slot, and is seen
  from a later base;
* `card_filter_erase`, `card_filter_insert`: the number of the occupied slots
  when one is freed or filled;
* `sum_update`: a sum over the slots when one of them is overwritten.
-/

namespace W132d.Cyclic

/-- Two offsets within the ring from the same base have different slots. -/
theorem offset_inj {M w o o' : ℕ} (ho : o < M) (ho' : o' < M)
    (h : (w + o) % M = (w + o') % M) : o = o' := by
  have h' : o ≡ o' [MOD M] := Nat.ModEq.add_left_cancel' w h
  rwa [Nat.ModEq, Nat.mod_eq_of_lt ho, Nat.mod_eq_of_lt ho'] at h'

/-- The slot of a number of the space is found without reducing it first. -/
theorem mod_mod_add {N M w o : ℕ} (hMN : M ∣ N) : (w % N + o) % M = (w + o) % M := by
  rw [Nat.add_mod, Nat.mod_mod_of_dvd _ hMN, ← Nat.add_mod]

/-- The occupied slots of a ring of `M` slots hold the numbers `seq` at offsets
    `lo ≤ o < hi` from `w`, each in its own slot. -/
def Within (N M w lo hi : ℕ) (occ : ℕ → Prop) (seq : ℕ → ℕ) : Prop :=
  ∀ i < M, occ i → ∃ o, lo ≤ o ∧ o < hi ∧ i = (w + o) % M ∧ seq i = (w + o) % N

namespace Within

variable {N M w lo hi : ℕ} {occ : ℕ → Prop} {seq : ℕ → ℕ}

/-- The slot of an offset holds, if anything, the number at that offset. -/
theorem offset_eq (h : Within N M w lo hi occ seq) (hhi : hi ≤ M) {o : ℕ} (ho : o < M)
    (hocc : occ ((w + o) % M)) : lo ≤ o ∧ o < hi ∧ seq ((w + o) % M) = (w + o) % N := by
  obtain ⟨o', hlo, hlt, hslot, hseq⟩ := h _ (Nat.mod_lt _ (by omega)) hocc
  obtain rfl : o = o' := offset_inj ho (by omega) hslot
  exact ⟨hlo, hlt, hseq⟩

/-- An empty window leaves the ring empty. -/
theorem not_occ (h : Within N M w lo hi occ seq) (hle : hi ≤ lo) {i : ℕ} (hi' : i < M) :
    ¬occ i := fun hocc => by
  obtain ⟨o, _, _, _, _⟩ := h i hi' hocc
  omega

/-- The window moves on past an empty slot. -/
theorem succ (h : Within N M w lo hi occ seq) (hempty : ¬occ ((w + lo) % M)) :
    Within N M w (lo + 1) hi occ seq := fun i hi' hocc => by
  obtain ⟨o, hlo, hlt, hslot, hseq⟩ := h i hi' hocc
  refine ⟨o, ?_, hlt, hslot, hseq⟩
  rcases Nat.lt_or_ge lo o with hlt' | hge
  · exact hlt'
  · obtain rfl : o = lo := le_antisymm hge hlo
    exact absurd (hslot ▸ hocc) hempty

/-- The window seen from a later base. -/
theorem shift (h : Within N M w lo hi occ seq) (hMN : M ∣ N) {k : ℕ} (hk : k ≤ lo) :
    Within N M ((w + k) % N) (lo - k) (hi - k) occ seq := fun i hi' hocc => by
  obtain ⟨o, hlo, hlt, hslot, hseq⟩ := h i hi' hocc
  refine ⟨o - k, by omega, by omega, ?_, ?_⟩
  · rw [mod_mod_add hMN, hslot]
    congr 1
    omega
  · rw [hseq, Nat.mod_add_mod]
    congr 1
    omega

/-- The window extended at its end. -/
theorem extend (h : Within N M w lo hi occ seq) {hi' : ℕ} (hle : hi ≤ hi') :
    Within N M w lo hi' occ seq := fun i hi hocc => by
  obtain ⟨o, hlo, hlt, hslot, hseq⟩ := h i hi hocc
  exact ⟨o, hlo, by omega, hslot, hseq⟩

end Within

/-! ## Counting the occupied slots -/

variable {M i : ℕ} {occ occ' : ℕ → Prop} [DecidablePred occ] [DecidablePred occ']

/-- Freeing an occupied slot leaves one less. -/
theorem card_filter_erase (hi : i < M) (hocc : occ i)
    (hocc' : ∀ j < M, occ' j ↔ j ≠ i ∧ occ j) :
    ((Finset.range M).filter occ').card + 1 = ((Finset.range M).filter occ).card := by
  have hset : (Finset.range M).filter occ' = ((Finset.range M).filter occ).erase i := by
    ext j
    simp only [Finset.mem_filter, Finset.mem_range, Finset.mem_erase]
    constructor
    · rintro ⟨hj, h⟩
      exact ⟨((hocc' j hj).1 h).1, hj, ((hocc' j hj).1 h).2⟩
    · rintro ⟨hne, hj, h⟩
      exact ⟨hj, (hocc' j hj).2 ⟨hne, h⟩⟩
  rw [hset, Finset.card_erase_add_one (by simp [hi, hocc])]

/-- Filling an empty slot leaves one more. -/
theorem card_filter_insert (hi : i < M) (hocc : ¬occ i)
    (hocc' : ∀ j < M, occ' j ↔ j = i ∨ occ j) :
    ((Finset.range M).filter occ').card = ((Finset.range M).filter occ).card + 1 := by
  refine (card_filter_erase hi ((hocc' i hi).2 (.inl rfl)) fun j hj => ?_).symm
  rw [hocc' j hj]
  constructor
  · exact fun h => ⟨fun hji => hocc (hji ▸ h), .inr h⟩
  · rintro ⟨hne, rfl | h⟩
    · exact absurd rfl hne
    · exact h

/-- Overwriting a slot exchanges its summand. -/
theorem sum_update {ι α A : Type*} [DecidableEq ι] [AddCommMonoid A] (f : α → A) (g : ι → α)
    {s : Finset ι} {i : ι} (hi : i ∈ s) (a : α) :
    ∑ j ∈ s, f (Function.update g i a j) + f (g i) = ∑ j ∈ s, f (g j) + f a := by
  have hrest : ∑ j ∈ s.erase i, f (Function.update g i a j) = ∑ j ∈ s.erase i, f (g j) :=
    Finset.sum_congr rfl fun j hj => by rw [Function.update_of_ne (Finset.ne_of_mem_erase hj)]
  rw [← Finset.add_sum_erase _ _ hi, ← Finset.add_sum_erase _ (fun j => f (g j)) hi,
    Function.update_self, hrest]
  abel

end W132d.Cyclic
