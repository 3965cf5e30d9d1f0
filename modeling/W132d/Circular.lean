import Mathlib.Tactic

/-!
# Circular buffers

A memory is read and written in pieces that are contiguous, while a circular buffer of `n` cells
goes on with the first cell behind the last one.

* `Circular.slice`, `Circular.blit`: a contiguous piece of a memory is read, or overwritten;
* `Circular.segment`: a piece of a circular buffer, which is one or two slices of it
  (`segment_eq_slice`, `segment_eq_slice_append`);
* `Circular.Stored`: a piece of a circular buffer is overwritten, by one or two contiguous ones
  (`stored_blit`, `stored_blit_blit`);
* `Stored.segment_of_le`: what is stored behind a segment leaves it as it is.
-/

namespace W132d.Circular

variable {α : Type*} {n r w a b len used : ℕ} {mem mem' : ℕ → α} {data : List α}

/-! ## Contiguous pieces -/

/-- The `len` cells from `start` on. -/
def slice (mem : ℕ → α) (start len : ℕ) : List α := (List.range len).map fun i => mem (start + i)

/-- The memory with `data` written to the cells from `start` on. -/
def blit (mem : ℕ → α) (start : ℕ) (data : List α) : ℕ → α := fun j =>
  if start ≤ j then data[j - start]?.getD (mem j) else mem j

theorem blit_apply {i : ℕ} (hi : i < data.length) : blit mem w data (w + i) = data[i] := by
  rw [blit, if_pos (Nat.le_add_right w i), Nat.add_sub_cancel_left, List.getElem?_eq_getElem hi,
    Option.getD_some]

/-- Writing leaves the other cells as they are. -/
theorem blit_of_not {j : ℕ} (hj : j < w ∨ w + data.length ≤ j) : blit mem w data j = mem j := by
  rw [blit]
  split_ifs with hle
  · rw [List.getElem?_eq_none (by omega), Option.getD_none]
  · rfl

/-! ## Pieces of a circular buffer -/

/-- The `len` cells of a buffer of `n` cells from `start` on. -/
def segment (n : ℕ) (mem : ℕ → α) (start len : ℕ) : List α :=
  (List.range len).map fun i => mem ((start + i) % n)

@[simp] theorem length_segment (n : ℕ) (mem : ℕ → α) (start len : ℕ) :
    (segment n mem start len).length = len := by
  rw [segment, List.length_map, List.length_range]

/-- A segment is one segment behind another. -/
theorem segment_add (n : ℕ) (mem : ℕ → α) (r a b : ℕ) :
    segment n mem r (a + b) = segment n mem r a ++ segment n mem ((r + a) % n) b := by
  rw [segment, List.range_add, List.map_append, List.map_map, segment, segment]
  congr 1
  refine List.map_congr_left fun i _ => ?_
  rw [Function.comp_apply, Nat.mod_add_mod, Nat.add_assoc]

theorem segment_congr (h : ∀ i < len, mem ((r + i) % n) = mem' ((r + i) % n)) :
    segment n mem r len = segment n mem' r len :=
  List.map_congr_left fun i hi => h i (List.mem_range.1 hi)

/-- A segment that does not reach the end is a slice. -/
theorem segment_eq_slice (h : r + len ≤ n) : segment n mem r len = slice mem r len :=
  List.map_congr_left fun i hi => by
    rw [Nat.mod_eq_of_lt (Nat.lt_of_lt_of_le (Nat.add_lt_add_left (List.mem_range.1 hi) r) h)]

/-- A segment that does is one slice up to the end, and another one from the first cell on. -/
theorem segment_eq_slice_append (hr : r ≤ n) (h : n ≤ r + len) (hlen : len ≤ n) :
    segment n mem r len = slice mem r (n - r) ++ slice mem 0 (len - (n - r)) := by
  have hsplit : len = n - r + (len - (n - r)) := by omega
  conv_lhs => rw [hsplit]
  rw [segment_add, Nat.add_sub_cancel' hr, Nat.mod_self, segment_eq_slice (by omega),
    segment_eq_slice (by omega)]

/-! ## Writing to a circular buffer -/

/-- The memory `mem'` is `mem` with `data` written to the cells of the buffer from `w` on. -/
structure Stored (n : ℕ) (mem : ℕ → α) (w : ℕ) (data : List α) (mem' : ℕ → α) : Prop where
  new : ∀ i (h : i < data.length), mem' ((w + i) % n) = data[i]
  old : ∀ j < n, (∀ i < data.length, j ≠ (w + i) % n) → mem' j = mem j

/-- What was written is read. -/
theorem Stored.segment_eq (h : Stored n mem w data mem') :
    segment n mem' w data.length = data := by
  refine List.ext_getElem (length_segment ..) fun i hi hi' => ?_
  simp only [segment, List.getElem_map, List.getElem_range]
  exact h.new i hi'

/-- What is written behind a segment leaves it as it is, as long as it does not reach its
    beginning. -/
theorem Stored.segment_of_le (h : Stored n mem ((r + used) % n) data mem')
    (hn : used + data.length ≤ n) (hlen : len ≤ used) :
    segment n mem' r len = segment n mem r len := by
  refine segment_congr fun i hi => h.old _ (Nat.mod_lt _ (by omega)) fun k hk heq => ?_
  -- Two offsets of less than `n` from `r` are different cells.
  rw [Nat.mod_add_mod, Nat.add_assoc] at heq
  have hmod : i ≡ used + k [MOD n] := Nat.ModEq.add_left_cancel' r heq
  rw [Nat.ModEq, Nat.mod_eq_of_lt (by omega), Nat.mod_eq_of_lt (by omega)] at hmod
  omega

/-- Data that does not reach the end is written at once. -/
theorem stored_blit (h : w + data.length ≤ n) : Stored n mem w data (blit mem w data) := by
  have hmod : ∀ i < data.length, (w + i) % n = w + i := fun i hi => Nat.mod_eq_of_lt (by omega)
  refine ⟨fun i hi => ?_, fun j hj hne => ?_⟩
  · rw [hmod i hi, blit_apply hi]
  · refine blit_of_not ?_
    by_contra hcell
    have hlt : j - w < data.length := by omega
    exact hne (j - w) hlt (by rw [hmod _ hlt]; omega)

/-- Data that does is written up to the end, and the rest of it from the first cell on. -/
theorem stored_blit_blit (hw : w < n) (h : n ≤ w + data.length) (hlen : data.length ≤ n) :
    Stored n mem w data (blit (blit mem w (data.take (n - w))) 0 (data.drop (n - w))) := by
  have htake : (data.take (n - w)).length = n - w := by
    rw [List.length_take]
    omega
  have hdrop : (data.drop (n - w)).length = data.length - (n - w) := List.length_drop
  have hlow : ∀ i < n - w, (w + i) % n = w + i := fun i hi => Nat.mod_eq_of_lt (by omega)
  have hhigh : ∀ i < data.length, n - w ≤ i → (w + i) % n = i - (n - w) := by
    intro i hi hle
    have heq : w + i = i - (n - w) + n := by omega
    rw [heq, Nat.add_mod_right, Nat.mod_eq_of_lt (by omega)]
  refine ⟨fun i hi => ?_, fun j hj hne => ?_⟩
  · rcases Nat.lt_or_ge i (n - w) with hlt | hge
    · rw [hlow i hlt, blit_of_not (.inr (by omega)), blit_apply (by omega), List.getElem_take]
    · have hlt : i - (n - w) < (data.drop (n - w)).length := by omega
      have hcell : blit (blit mem w (data.take (n - w))) 0 (data.drop (n - w))
          (0 + (i - (n - w))) = (data.drop (n - w))[i - (n - w)] := blit_apply hlt
      rw [Nat.zero_add] at hcell
      rw [hhigh i hi hge, hcell, List.getElem_drop]
      congr 1
      omega
  · have hup : ¬(w ≤ j) := fun hle =>
      hne (j - w) (by omega) (by rw [hlow _ (by omega)]; omega)
    have hdown : ¬(j < data.length - (n - w)) := fun hlt =>
      hne (j + (n - w)) (by omega) (by rw [hhigh _ (by omega) (by omega)]; omega)
    rw [blit_of_not (.inr (by omega)), blit_of_not (.inl (by omega))]

end W132d.Circular
