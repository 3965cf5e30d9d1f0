import Mathlib.Tactic

/-!
# Rings of list heads

A list of the kernel is a ring of list heads (`struct list_head`), linked in both directions.

* `initListHead`, `listAddTail`: a ring of one head, and one more head put at its end;
* `IsRing links head l`: from `head`, the ring goes on with the heads `l`;
* `visited`: the heads that `for (pos = head; pos->next != head; pos = pos->next)` visits, which
  are all but the last one (`IsRing.visited_eq`).
-/

namespace W132d

variable {A : Type*} [DecidableEq A]

/-- `struct list_head`. -/
structure ListHead (A : Type*) where
  next : A
  prev : A

/-- The list heads in memory. -/
abbrev Links (A : Type*) := A → ListHead A

/-- `INIT_LIST_HEAD`. -/
def initListHead (head : A) (links : Links A) : Links A :=
  Function.update links head ⟨head, head⟩

/-- `list_add_tail`. -/
def listAddTail (new head : A) (links : Links A) : Links A :=
  let prev := (links head).prev
  let links := Function.update links head { links head with prev := new }
  let links := Function.update links new ⟨head, prev⟩
  Function.update links prev { links prev with next := new }

/-- The ring goes from `head` on with `l`, and back to `head`. -/
structure IsRing (links : Links A) (head : A) (l : List A) : Prop where
  nodup : (head :: l).Nodup
  next : (head :: l ++ [head]).IsChain fun a b => (links a).next = b
  prev : (head :: l).getLast? = some (links head).prev

/-- The heads that are visited before the one that leads to `head`. The loop ends by itself, and
    is `none` only if it takes more than `n` turns. -/
def visited (links : Links A) (head : A) : ℕ → A → Option (List A)
  | 0, _ => none
  | n + 1, pos =>
    if (links pos).next = head then some []
    else (visited links head n (links pos).next).map (pos :: ·)

variable {links : Links A} {head new : A} {l m : List A} {n : ℕ}

theorem isRing_init (head : A) (links : Links A) : IsRing (initListHead head links) head [] :=
  ⟨List.nodup_singleton _, by simp [initListHead], by simp [initListHead]⟩

/-- Where the heads lead once `new` is put behind the last one. -/
theorem next_listAddTail (a : A) :
    (listAddTail new head links a).next =
      if a = (links head).prev then new else if a = new then head else (links a).next := by
  by_cases hprev : a = (links head).prev
  · subst hprev
    rw [if_pos rfl, listAddTail, Function.update_self]
  · rw [if_neg hprev, listAddTail, Function.update_of_ne hprev]
    split_ifs with ha
    · rw [ha, Function.update_self]
    · rw [Function.update_of_ne ha]
      by_cases hhead : a = head
      · rw [hhead, Function.update_self]
      · rw [Function.update_of_ne hhead]

theorem prev_listAddTail (hnew : new ≠ head) : (listAddTail new head links head).prev = new := by
  rw [listAddTail]
  by_cases hprev : head = (links head).prev
  · rw [← hprev, Function.update_self, Function.update_of_ne hnew.symm, Function.update_self]
  · rw [Function.update_of_ne hprev, Function.update_of_ne hnew.symm, Function.update_self]

/-- A head is put at the end of a ring. -/
theorem IsRing.add_tail (h : IsRing links head l) (hnew : new ∉ head :: l) :
    IsRing (listAddTail new head links) head (l ++ [new]) := by
  have hne : new ≠ head := List.ne_of_not_mem_cons hnew
  -- The last head was `last`, which leads to `new` now.
  obtain ⟨init, last, hl⟩ : ∃ init last, head :: l = init ++ [last] :=
    (List.eq_nil_or_concat' _).resolve_left (List.cons_ne_nil _ _)
  have hprev : (links head).prev = last := by
    have hlast := h.prev
    rw [hl, List.getLast?_concat, Option.some_inj] at hlast
    exact hlast.symm
  have hinit : ∀ a ∈ init, (listAddTail new head links a).next = (links a).next := by
    intro a ha
    have hmem : a ∈ head :: l := hl ▸ List.mem_append_left _ ha
    have hlast : a ≠ last := by
      have hnodup := h.nodup
      rw [hl, List.nodup_append] at hnodup
      exact hnodup.2.2 a ha last (List.mem_singleton_self _)
    rw [next_listAddTail, hprev, if_neg hlast, if_neg (ne_of_mem_of_not_mem hmem hnew)]
  refine ⟨?_, ?_, ?_⟩
  · rw [← List.cons_append, List.nodup_append]
    exact ⟨h.nodup, List.nodup_singleton _, fun a ha b hb => by
      rw [List.mem_singleton.1 hb]
      exact ne_of_mem_of_not_mem ha hnew⟩
  · have hnext := h.next
    rw [hl, List.append_assoc, List.singleton_append, List.isChain_append_cons_cons] at hnext
    have hbefore := List.isChain_append.1 hnext.1
    rw [← List.cons_append, hl, List.append_assoc, List.append_assoc, List.singleton_append,
      List.singleton_append, List.isChain_append_cons_cons, List.isChain_append]
    refine ⟨⟨hbefore.1.imp_of_mem_imp fun a b ha _ hab => ?_, List.isChain_singleton _,
      fun a ha b hb => ?_⟩, ?_, List.isChain_pair.2 ?_⟩
    · rw [hinit a ha, hab]
    · rw [hinit a (List.mem_of_getLast? ha), hbefore.2.2 a ha b hb]
    · rw [next_listAddTail, if_pos hprev.symm]
    · rw [next_listAddTail, if_neg, if_pos rfl]
      rw [hprev]
      exact (ne_of_mem_of_not_mem (hl ▸ by simp) hnew).symm
  · rw [prev_listAddTail hne, ← List.cons_append, List.getLast?_concat]

/-- The loop does not visit the head that leads back. -/
theorem visited_of_isChain {pos : A}
    (hl : (pos :: l ++ [head]).IsChain fun a b => (links a).next = b) (hmem : head ∉ l)
    (hn : l.length < n) : visited links head n pos = some (pos :: l).dropLast := by
  induction l generalizing pos n with
  | nil =>
    obtain ⟨n, rfl⟩ := Nat.exists_eq_succ_of_ne_zero (Nat.ne_of_gt hn)
    rw [visited, if_pos (List.isChain_cons_cons.1 hl).1]
    rfl
  | cons a l ih =>
    obtain ⟨n, rfl⟩ := Nat.exists_eq_succ_of_ne_zero (Nat.ne_zero_of_lt hn)
    obtain ⟨hnext, hl⟩ := List.isChain_cons_cons.1 hl
    rw [List.mem_cons, not_or] at hmem
    rw [visited, hnext, if_neg (Ne.symm hmem.1), ih hl hmem.2 (Nat.lt_of_succ_lt_succ hn)]
    rfl

/-- The loop over a ring does not visit its last head. -/
theorem IsRing.visited_eq (h : IsRing links head l) (hn : l.length < n) :
    visited links head n head = some (head :: l).dropLast :=
  visited_of_isChain h.next (List.nodup_cons.1 h.nodup).1 hn

end W132d
