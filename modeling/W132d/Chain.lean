import Mathlib.Tactic

/-!
# Linked lists

A singly linked list in memory: `next` tells the node after each one, and `none` is `NULL`.

* `Spells next p l`: the nodes from `p` until `NULL` are those of `l`;
* `nodes next n p`: the `n` nodes from `p` on, as a loop over them goes;
* `Spells.append`, `Spells.cut`: setting the next node of one node puts another list behind
  it, or ends the list there;
* `spells_of_isChain`: nodes of which each leads to the next are a list once it is ended;
* `Linked`: such nodes, where the last one may lead anywhere.

A list is determined by its first node and `next` (`Spells.unique`), so that a proof about code that
sets pointers can speak of lists of nodes: it says which list is spelled before, and which one
after. What the code changes are single values of `next`; a node that is not in a list does not
matter to it (`Spells.congr`). No node is in a list twice (`Spells.nodup`), so that setting the
`next` of the last node changes no other link of the list.
-/

namespace W132d

variable {A : Type*} {next next' : A → Option A} {p q : Option A} {l m : List A} {a t : A}
  {n : ℕ}

/-- The nodes from `p` until `NULL`. -/
def Spells (next : A → Option A) : Option A → List A → Prop
  | p, [] => p = none
  | p, a :: l => p = some a ∧ Spells next (next a) l

/-- The `n` nodes from `p` on, or `none` if a loop over them meets `NULL`. -/
def nodes (next : A → Option A) : ℕ → Option A → Option (List A)
  | 0, _ => some []
  | _ + 1, none => none
  | n + 1, some a => (nodes next n (next a)).map (a :: ·)

/-- The node `n` after `p`, or `none` if it is `NULL` or behind it. -/
def advance (next : A → Option A) : ℕ → Option A → Option A
  | 0, p => p
  | _ + 1, none => none
  | n + 1, some a => advance next n (next a)

instance decidableSpells [DecidableEq A] : ∀ p l, Decidable (Spells next p l)
  | p, [] => inferInstanceAs (Decidable (p = none))
  | p, a :: l =>
    have := decidableSpells (next a) l
    inferInstanceAs (Decidable (p = some a ∧ Spells next (next a) l))

namespace Spells

/-- Only the nodes of a list matter to it. -/
theorem congr (h : Spells next p l) (heq : ∀ a ∈ l, next' a = next a) : Spells next' p l := by
  induction l generalizing p with
  | nil => exact h
  | cons a l ih =>
    rw [List.forall_mem_cons] at heq
    refine ⟨h.1, ?_⟩
    rw [heq.1]
    exact ih h.2 heq.2

theorem nodes_eq (h : Spells next p l) (hn : n ≤ l.length) :
    nodes next n p = some (l.take n) := by
  induction l generalizing p n with
  | nil =>
    obtain rfl := Nat.le_zero.1 hn
    rfl
  | cons a l ih =>
    obtain ⟨rfl, h⟩ := h
    cases n with
    | zero => rfl
    | succ n =>
      rw [nodes, ih h (Nat.le_of_succ_le_succ hn), Option.map_some, List.take_succ_cons]

/-- A loop over all nodes. -/
theorem nodes_length (h : Spells next p l) : nodes next l.length p = some l := by
  rw [h.nodes_eq le_rfl, List.take_length]

theorem advance_eq (h : Spells next p l) (hn : n < l.length) : advance next n p = l[n]? := by
  induction l generalizing p n with
  | nil => exact absurd hn (Nat.not_lt_zero _)
  | cons a l ih =>
    obtain ⟨rfl, h⟩ := h
    cases n with
    | zero => rfl
    | succ n => exact ih h (Nat.lt_of_succ_lt_succ hn)

/-- A list begins at its first node. -/
theorem eq_head? (h : Spells next p l) : p = l.head? := by
  cases l with
  | nil => exact h
  | cons a l => exact h.1

/-- What is behind nodes of a list. -/
theorem suffix (h : Spells next p (l ++ m)) : Spells next m.head? m := by
  induction l generalizing p with
  | nil => exact h.eq_head? ▸ h
  | cons a l ih => exact ih h.2

/-- What comes after a node. -/
theorem tail (h : Spells next p (l ++ t :: m)) : Spells next (next t) m := by
  induction l generalizing p with
  | nil => exact h.2
  | cons a l ih => exact ih h.2

/-- The nodes up to `NULL` are determined. -/
theorem unique (h : Spells next p l) (h' : Spells next p m) : l = m := by
  induction l generalizing p m with
  | nil =>
    cases m with
    | nil => rfl
    | cons b m => exact absurd (h.symm.trans h'.1) (Option.some_ne_none b).symm
  | cons a l ih =>
    cases m with
    | nil => exact absurd (h'.symm.trans h.1) (Option.some_ne_none a).symm
    | cons b m =>
      obtain rfl := Option.some.inj (h.1.symm.trans h'.1)
      rw [ih h.2 h'.2]

/-- No node comes twice, as there would be no end. -/
theorem nodup (h : Spells next p l) : l.Nodup := by
  induction l generalizing p with
  | nil => exact List.nodup_nil
  | cons a l ih =>
    refine List.nodup_cons.2 ⟨fun ha => ?_, ih h.2⟩
    obtain ⟨front, rest, rfl⟩ := List.append_of_mem ha
    have hlen := congrArg List.length (h.2.unique h.2.tail)
    rw [List.length_append, List.length_cons] at hlen
    omega

variable [DecidableEq A]

/-- What is behind a node of a list is replaced. -/
theorem graft {m' : List A} (h : Spells next p (l ++ t :: m)) (hq : Spells next q m')
    (hnodup : (l ++ [t]).Nodup) (ht : t ∉ m') :
    Spells (Function.update next t q) p (l ++ t :: m') := by
  induction l generalizing p with
  | nil =>
    refine ⟨h.1, ?_⟩
    rw [Function.update_self]
    exact hq.congr fun a ha => Function.update_of_ne (ne_of_mem_of_not_mem ha ht) ..
  | cons a l ih =>
    obtain ⟨hal, hnodup⟩ := List.nodup_cons.1 hnodup
    have hne : a ≠ t := fun heq => hal (heq ▸ by simp)
    refine ⟨h.1, ?_⟩
    rw [Function.update_of_ne hne]
    exact ih h.2 hnodup

/-- A list is put behind the last node of another one. -/
theorem append (h : Spells next p (l ++ [t])) (hq : Spells next q m)
    (hnodup : (l ++ [t]).Nodup) (ht : t ∉ m) :
    Spells (Function.update next t q) p (l ++ [t] ++ m) := by
  rw [← List.append_cons]
  exact h.graft hq hnodup ht

/-- A list is ended at a node. -/
theorem cut (h : Spells next p (l ++ t :: m)) (hnodup : (l ++ [t]).Nodup) :
    Spells (Function.update next t none) p (l ++ [t]) :=
  h.graft rfl hnodup List.not_mem_nil

end Spells

/-- Nodes of which each leads to the next are a list, once the last one is ended. -/
theorem spells_of_isChain [DecidableEq A] (h : (l ++ [t]).IsChain fun a b => next a = some b)
    (hnodup : (l ++ [t]).Nodup) :
    Spells (Function.update next t none) (l ++ [t]).head? (l ++ [t]) := by
  induction l with
  | nil => exact ⟨rfl, Function.update_self ..⟩
  | cons a l ih =>
    obtain ⟨hal, hnodup⟩ := List.nodup_cons.1 hnodup
    have hne : a ≠ t := fun heq => hal (heq ▸ by simp)
    refine ⟨rfl, ?_⟩
    rw [Function.update_of_ne hne]
    have hnext : next a = (l ++ [t]).head? := by
      cases l with
      | nil => exact (List.isChain_cons_cons.1 h).1
      | cons b l => exact (List.isChain_cons_cons.1 h).1
    rw [hnext]
    exact ih h.tail hnodup

/-! ## Nodes of which the last may lead anywhere -/

/-- Each of the nodes leads to the next. -/
def Linked (next : A → Option A) (l : List A) : Prop := l.IsChain fun a b => next a = some b

namespace Linked

theorem congr (h : Linked next l) (heq : ∀ a ∈ l, next' a = next a) : Linked next' l :=
  List.IsChain.imp_of_mem_imp (fun a _ ha _ hab => (heq a ha).trans hab) h

/-- A loop over all of them. -/
theorem nodes_length (h : Linked next l) : nodes next l.length l.head? = some l := by
  induction l with
  | nil => rfl
  | cons a l ih =>
    have hrest : nodes next l.length (next a) = some l := by
      cases l with
      | nil => rfl
      | cons b l => rw [(List.isChain_cons_cons.1 h).1]; exact ih h.tail
    rw [List.length_cons, List.head?_cons, nodes, hrest, Option.map_some]

theorem advance_eq (h : Linked next l) (hn : n < l.length) :
    advance next n l.head? = l[n]? := by
  induction l generalizing n with
  | nil => exact absurd hn (Nat.not_lt_zero _)
  | cons a l ih =>
    cases n with
    | zero => rfl
    | succ n =>
      have hn := Nat.lt_of_succ_lt_succ hn
      cases l with
      | nil => exact absurd hn (Nat.not_lt_zero _)
      | cons b l =>
        rw [List.head?_cons, advance, (List.isChain_cons_cons.1 h).1]
        exact ih h.tail hn

/-- The last node is made to lead to other nodes. -/
theorem append [DecidableEq A] (h : Linked next (l ++ [t])) (hm : Linked next m)
    (hnodup : (l ++ [t]).Nodup) (ht : t ∉ m) :
    Linked (Function.update next t m.head?) (l ++ [t] ++ m) := by
  have hfront : ∀ a ∈ l, a ≠ t := by
    intro a ha heq
    rw [heq] at ha
    exact List.disjoint_of_nodup_append hnodup ha (List.mem_singleton_self t)
  have hm' : Linked (Function.update next t m.head?) m :=
    hm.congr fun a ha => Function.update_of_ne (ne_of_mem_of_not_mem ha ht) ..
  rw [← List.append_cons]
  induction l with
  | nil =>
    cases m with
    | nil => exact List.isChain_singleton t
    | cons b m =>
      exact List.isChain_cons_cons.2 ⟨Function.update_self .., hm'⟩
  | cons a l ih =>
    have hrest := ih h.tail (List.nodup_cons.1 hnodup).2
      fun a ha => hfront a (List.mem_cons_of_mem _ ha)
    have ha : Function.update next t m.head? a = next a :=
      Function.update_of_ne (hfront a List.mem_cons_self) ..
    cases l with
    | nil =>
      exact List.isChain_cons_cons.2 ⟨ha.trans (List.isChain_cons_cons.1 h).1, hrest⟩
    | cons b l =>
      exact List.isChain_cons_cons.2 ⟨ha.trans (List.isChain_cons_cons.1 h).1, hrest⟩

end Linked

/-- What a loop over nodes meets. -/
theorem linked_of_nodes (h : nodes next n p = some l) :
    Linked next l ∧ l.length = n ∧ (l ≠ [] → p = l.head?) := by
  induction n generalizing p l with
  | zero =>
    obtain rfl := Option.some.inj h
    exact ⟨List.isChain_nil, rfl, fun h => absurd rfl h⟩
  | succ n ih =>
    cases p with
    | none => cases h
    | some a =>
      rw [nodes, Option.map_eq_some_iff] at h
      obtain ⟨m, hm, rfl⟩ := h
      obtain ⟨hlinked, hlen, hhead⟩ := ih hm
      refine ⟨?_, congrArg Nat.succ hlen, fun _ => rfl⟩
      cases m with
      | nil => exact List.isChain_singleton a
      | cons b m => exact List.isChain_cons_cons.2 ⟨hhead (List.cons_ne_nil b m), hlinked⟩

end W132d
