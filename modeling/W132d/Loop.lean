import Mathlib.Tactic

/-!
# Loops

A *loop* takes one turn after another, each of which either returns or leads to the state of the
next one.

* `Reaches`: the states a loop comes to;
* `Returns`: where it ends, and what it returns;
* `reaches_iff_of_next`, `returns_iff_of_next`, ...: both from one turn to the next;
* `Returns.induction`: induction over the turns of a loop that returns;
* `not_returns_of_invariant`: loops that do not return.
-/

namespace W132d.Loop

variable {S R : Type*} {turn : S → R ⊕ S} {s s' t t' : S} {r r' : R}

/-- From the state `s`, the loop comes to `t`. -/
def Reaches (turn : S → R ⊕ S) : S → S → Prop :=
  Relation.ReflTransGen fun s s' => turn s = .inr s'

/-- From the state `s`, the loop returns `r` in the state `t`. -/
def Returns (turn : S → R ⊕ S) (s t : S) (r : R) : Prop := Reaches turn s t ∧ turn t = .inl r

theorem reaches_refl : Reaches turn s s := Relation.ReflTransGen.refl

/-- Where a loop comes to that goes on. -/
theorem reaches_iff_of_next (h : turn s = .inr s') :
    Reaches turn s t ↔ t = s ∨ Reaches turn s' t := by
  refine ⟨fun hreaches => ?_, fun hreaches => ?_⟩
  · rcases Relation.ReflTransGen.cases_head hreaches with rfl | ⟨u, hu, hreaches⟩
    · exact .inl rfl
    · obtain rfl := Sum.inr.inj (h.symm.trans hu)
      exact .inr hreaches
  · rcases hreaches with rfl | hreaches
    · exact reaches_refl
    · exact Relation.ReflTransGen.head h hreaches

/-- A loop that returns comes nowhere else. -/
theorem reaches_iff_of_return (h : turn s = .inl r) : Reaches turn s t ↔ t = s := by
  refine ⟨fun hreaches => ?_, fun heq => heq ▸ reaches_refl⟩
  rcases Relation.ReflTransGen.cases_head hreaches with rfl | ⟨u, hu, -⟩
  · rfl
  · exact absurd (h.symm.trans hu) Sum.inl_ne_inr

/-- What a loop returns that goes on. -/
theorem returns_iff_of_next (h : turn s = .inr s') : Returns turn s t r ↔ Returns turn s' t r := by
  rw [Returns, Returns, reaches_iff_of_next h]
  refine ⟨fun ⟨hreaches, ht⟩ => ⟨hreaches.resolve_left ?_, ht⟩,
    fun ⟨hreaches, ht⟩ => ⟨.inr hreaches, ht⟩⟩
  rintro rfl
  exact Sum.inl_ne_inr (ht.symm.trans h)

/-- What a loop returns that does not go on. -/
theorem returns_iff_of_return (h : turn s = .inl r) :
    Returns turn s t r' ↔ t = s ∧ r' = r := by
  rw [Returns, reaches_iff_of_return h]
  refine ⟨fun ⟨heq, ht⟩ => ⟨heq, ?_⟩, fun ⟨heq, hr⟩ => ⟨heq, ?_⟩⟩
  · exact Sum.inl.inj ((heq ▸ ht).symm.trans h)
  · rw [heq, h, hr]

/-- What holds where the loop returns, and of every state if it does of the next one, holds of the
    first one. -/
theorem Returns.induction {motive : S → Prop} (h : Returns turn s t r)
    (returns : turn t = .inl r → motive t)
    (next : ∀ s s', turn s = .inr s' → Returns turn s' t r → motive s' → motive s) : motive s := by
  obtain ⟨hreaches, ht⟩ := h
  induction hreaches using Relation.ReflTransGen.head_induction_on with
  | refl => exact returns ht
  | head hs hreaches ih => exact next _ _ hs ⟨hreaches, ht⟩ ih

/-- A loop returns once. -/
theorem Returns.unique (h : Returns turn s t r) (h' : Returns turn s t' r') : t = t' := by
  refine h.induction (motive := fun s => Returns turn s t' r' → t = t') (fun ht h' => ?_)
    (fun s s' hs _ ih h' => ?_) h'
  · exact ((returns_iff_of_return ht).1 h').1.symm
  · exact ih ((returns_iff_of_next hs).1 h')

/-- A loop does not return from a state where an invariant holds that makes it go on. -/
theorem not_returns_of_invariant {I : S → Prop} (h : I s)
    (next : ∀ s, I s → ∃ s', turn s = .inr s' ∧ I s') : ¬Returns turn s t r := by
  intro hreturns
  refine hreturns.induction (motive := fun s => ¬I s) (fun ht hinv => ?_)
    (fun s s' hs _ ih hinv => ?_) h
  · obtain ⟨t', ht', -⟩ := next t hinv
    exact Sum.inl_ne_inr (ht.symm.trans ht')
  · obtain ⟨u, hu, hinv'⟩ := next s hinv
    obtain rfl := Sum.inr.inj (hs.symm.trans hu)
    exact ih hinv'

/-- A turn that changes nothing is repeated for ever. -/
theorem not_returns_of_next_self (h : turn s = .inr s) : ¬Returns turn s t r :=
  not_returns_of_invariant (I := fun s' => s' = s) rfl fun _ hs => ⟨s, hs ▸ h, rfl⟩

end W132d.Loop
