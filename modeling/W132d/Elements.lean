import Mathlib.Tactic

/-!
# Elements

Elements lie one behind the other. Each is a head of `head` bytes and a body, of which the head at
its position `pos` says how long it is (`len pos`).

* `walk`: the positions of the elements that end within the first `n` bytes, and `stop`: where they
  end;
* `walk_of_le`, `walk_of_lt`: the first of them;
* `walk_congr`, `stop_congr`: only heads within the first `n` bytes matter.
-/

namespace W132d.Elements

variable (head : ℕ) (len : ℕ → ℕ) (n : ℕ)

/-- The elements from a position on that end within the first `n` bytes, until one does not. -/
def walk [NeZero head] (pos : ℕ) : List ℕ :=
  if pos + head + len pos ≤ n then pos :: walk (pos + head + len pos) else []
termination_by n - pos
decreasing_by
  have hpos := NeZero.pos head
  omega

/-- Where the elements from a position on end. -/
def stop [NeZero head] (pos : ℕ) : ℕ :=
  if pos + head + len pos ≤ n then stop (pos + head + len pos) else pos
termination_by n - pos
decreasing_by
  have hpos := NeZero.pos head
  omega

variable {head len n} [NeZero head] {len' : ℕ → ℕ} {pos : ℕ}

theorem walk_of_le (h : pos + head + len pos ≤ n) :
    walk head len n pos = pos :: walk head len n (pos + head + len pos) := by
  rw [walk, if_pos h]

theorem walk_of_lt (h : n < pos + head + len pos) : walk head len n pos = [] := by
  rw [walk, if_neg (by omega)]

theorem stop_of_le (h : pos + head + len pos ≤ n) :
    stop head len n pos = stop head len n (pos + head + len pos) := by
  rw [stop, if_pos h]

theorem stop_of_lt (h : n < pos + head + len pos) : stop head len n pos = pos := by
  rw [stop, if_neg (by omega)]

/-- The elements end behind where they begin. -/
theorem le_stop (pos : ℕ) : pos ≤ stop head len n pos := by
  induction pos using stop.induct head len n with
  | case1 pos hle ih =>
    rw [stop_of_le hle]
    omega
  | case2 pos hlt => rw [stop_of_lt (by omega)]

section

variable (h : ∀ pos, pos + head ≤ n → len pos = len' pos)
include h

/-- Only heads within the first `n` bytes say which elements there are. -/
theorem walk_congr : walk head len n pos = walk head len' n pos := by
  induction pos using walk.induct head len n with
  | case1 pos hle ih =>
    have heq := h pos (by omega)
    have hle' : pos + head + len' pos ≤ n := by omega
    rw [walk_of_le hle, ih, heq, walk_of_le hle']
  | case2 pos hlt =>
    rw [walk_of_lt (by omega), walk_of_lt]
    by_contra hle
    exact hlt (h pos (by omega) ▸ not_lt.1 hle)

/-- Only heads within the first `n` bytes say where the elements end. -/
theorem stop_congr : stop head len n pos = stop head len' n pos := by
  induction pos using stop.induct head len n with
  | case1 pos hle ih =>
    have heq := h pos (by omega)
    have hle' : pos + head + len' pos ≤ n := by omega
    rw [stop_of_le hle, ih, heq, stop_of_le hle']
  | case2 pos hlt =>
    rw [stop_of_lt (by omega), stop_of_lt]
    by_contra hle
    exact hlt (h pos (by omega) ▸ not_lt.1 hle)

end

end W132d.Elements
