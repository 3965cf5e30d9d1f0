import Mathlib.Tactic

/-!
# Picking an element of a list

`pick p l` is the first element of `l` that meets `p`, between those before it and those after
it, i.e., where a loop over a linked list stops that looks for one (`pick_eq_some`).
-/

namespace W132d

variable {α : Type*} {p : α → Bool} {l pre post : List α} {x : α}

/-- The first element that meets `p`, between those before and those after it. -/
def pick (p : α → Bool) : List α → Option (List α × α × List α)
  | [] => none
  | a :: l =>
    if p a then some ([], a, l) else (pick p l).map fun (pre, x, post) => (a :: pre, x, post)

theorem pick_eq_none : pick p l = none ↔ ∀ a ∈ l, p a = false := by
  induction l with
  | nil => simp [pick]
  | cons a l ih =>
    rw [pick, List.forall_mem_cons]
    by_cases ha : p a <;> simp [ha, ih]

theorem pick_append (hpre : ∀ a ∈ pre, p a = false) (hx : p x = true) :
    pick p (pre ++ x :: post) = some (pre, x, post) := by
  induction pre with
  | nil => simp [pick, hx]
  | cons a pre ih =>
    rw [List.forall_mem_cons] at hpre
    simp [pick, hpre.1, ih hpre.2]

theorem pick_eq_some :
    pick p l = some (pre, x, post) ↔
      l = pre ++ x :: post ∧ p x = true ∧ ∀ a ∈ pre, p a = false := by
  refine ⟨fun h => ?_, fun ⟨hl, hx, hpre⟩ => hl ▸ pick_append hpre hx⟩
  induction l generalizing pre with
  | nil => exact absurd h (by simp [pick])
  | cons a l ih =>
    rw [pick] at h
    split_ifs at h with ha
    · cases h
      exact ⟨rfl, ha, fun _ hb => absurd hb List.not_mem_nil⟩
    · obtain ⟨⟨pre', x', post'⟩, hl, heq⟩ := Option.map_eq_some_iff.1 h
      cases heq
      obtain ⟨rfl, hx, hpre⟩ := ih hl
      exact ⟨rfl, hx, List.forall_mem_cons.2 ⟨Bool.eq_false_iff.2 ha, hpre⟩⟩

/-- The elements before and after the one that is picked. -/
theorem pick_subset (h : pick p l = some (pre, x, post)) : pre ++ post ⊆ l := by
  rw [(pick_eq_some.1 h).1]
  exact List.append_subset_of_subset_of_subset (List.subset_append_left ..)
    (List.subset_append_of_subset_right _ (List.subset_cons_self ..))

/-- What is picked is what `find?` finds. -/
theorem find?_of_pick (h : pick p l = some (pre, x, post)) : l.find? p = some x := by
  obtain ⟨rfl, hx, hpre⟩ := pick_eq_some.1 h
  rw [List.find?_append, List.find?_eq_none.2 fun a ha => by simp [hpre a ha],
    List.find?_cons_of_pos hx, Option.none_or]

/-- Where two different elements stand in a list. -/
theorem append_cons_cases {pre' post' : List α} {y : α}
    (h : pre' ++ y :: post' = pre ++ x :: post) (hne : y ≠ x) :
    (∃ m, pre = pre' ++ y :: m ∧ post' = m ++ x :: post) ∨
      (∃ m, pre' = pre ++ x :: m ∧ post = m ++ y :: post') := by
  rcases List.append_eq_append_iff.1 h with ⟨l, hl, hy⟩ | ⟨l, hl, hx⟩
  · cases l with
    | nil => exact absurd (List.cons.inj hy).1 hne
    | cons z m =>
      obtain ⟨rfl, hm⟩ := List.cons.inj hy
      exact .inl ⟨m, hl, hm⟩
  · cases l with
    | nil => exact absurd (List.cons.inj hx).1.symm hne
    | cons z m =>
      obtain ⟨rfl, hm⟩ := List.cons.inj hx
      exact .inr ⟨m, hl, hm⟩

end W132d
