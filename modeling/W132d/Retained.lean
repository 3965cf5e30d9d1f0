import Mathlib.Tactic

/-!
# Retained histories

A history, newest first, of which only the newest `n` entries are kept: an entry is put in
front, and what exceeds `n` is dropped. An entry is put there if it succeeds the newest one,
by a transitive relation `R`.

* `Retains`: what is kept later is the front of a history that goes on from what is kept now;
* `Retains.push`: it still is after one more entry;
* `Retains.related`: so an entry that is kept later is the same as one that is kept now, or
  one succeeds the other, even if everything in between has been dropped.
-/

namespace W132d

variable {α : Type*} {R : α → α → Prop} {n : ℕ} {s s' : List α} {x y z : α}

/-- What is kept is `s`, and later `s'`, in a history in which every entry succeeds every
    older one. -/
def Retains (R : α → α → Prop) (n : ℕ) (s s' : List α) : Prop :=
  ∃ news, s' = (news ++ s).take n ∧ (news ++ s).Pairwise R

namespace Retains

theorem refl (hlen : s.length ≤ n) (hs : s.Pairwise R) : Retains R n s s :=
  ⟨[], (List.take_of_length_le hlen).symm, hs⟩

theorem length_le (h : Retains R n s s') : s'.length ≤ n := by
  obtain ⟨news, rfl, _⟩ := h
  exact List.length_take_le ..

theorem pairwise (h : Retains R n s s') : s'.Pairwise R := by
  obtain ⟨news, rfl, hR⟩ := h
  exact hR.sublist (List.take_sublist ..)

/-- What succeeds the newest entry of a history succeeds all of them. -/
theorem forall_of_head (htrans : ∀ x y z, R x y → R y z → R x z) {l : List α}
    (hl : l.Pairwise R) (hx : ∀ y ∈ l.head?, R x y) : ∀ y ∈ l, R x y := by
  cases l with
  | nil => exact fun _ hy => absurd hy List.not_mem_nil
  | cons a l =>
    have hxa : R x a := hx a rfl
    intro y hy
    rcases List.mem_cons.1 hy with rfl | hy
    · exact hxa
    · exact htrans x a y hxa (List.rel_of_pairwise_cons hl hy)

/-- An entry that succeeds the newest one is put in front. -/
theorem push (htrans : ∀ x y z, R x y → R y z → R x z) (hn : 0 < n) (h : Retains R n s s')
    (hx : ∀ y ∈ s'.head?, R x y) : Retains R n s ((x :: s').take n) := by
  obtain ⟨news, rfl, hR⟩ := h
  -- The newest entry of the whole history is kept.
  rw [List.head?_take, if_neg hn.ne'] at hx
  have hall : ∀ y ∈ news ++ s, R x y := forall_of_head htrans hR hx
  refine ⟨x :: news, ?_, List.pairwise_cons.2 ⟨hall, hR⟩⟩
  obtain ⟨m, rfl⟩ := Nat.exists_eq_succ_of_ne_zero hn.ne'
  rw [List.cons_append, List.take_succ_cons, List.take_succ_cons, List.take_take,
    min_eq_left m.le_succ]

/-- The newest entry is the one that was it before, or succeeds it. -/
theorem head (hn : 0 < n) (h : Retains R n s s') (hx : x ∈ s.head?) :
    ∃ y ∈ s'.head?, y = x ∨ R y x := by
  obtain ⟨news, rfl, hR⟩ := h
  rw [List.head?_take, if_neg hn.ne']
  cases news with
  | nil => exact ⟨x, hx, .inl rfl⟩
  | cons y news =>
    rw [List.pairwise_append] at hR
    exact ⟨y, rfl, .inr (hR.2.2 y List.mem_cons_self x (List.mem_of_mem_head? hx))⟩

/-- An entry that is kept now, and one that is kept later. -/
theorem related (h : Retains R n s s') (hx : x ∈ s) (hy : y ∈ s') : x = y ∨ R y x ∨ R x y := by
  obtain ⟨news, rfl, hR⟩ := h
  rw [List.pairwise_append] at hR
  rcases List.mem_append.1 (List.mem_of_mem_take hy) with hy | hy
  · exact .inr (.inl (hR.2.2 y hy x hx))
  · -- Both are kept now.
    exact List.Pairwise.forall_of_forall_of_flip (R := fun a b => a = b ∨ R b a ∨ R a b)
      (fun _ _ => .inl rfl) (hR.2.1.imp fun h => .inr (.inr h))
      (hR.2.1.imp fun h => .inr (.inl h)) hx hy

end Retains

end W132d
