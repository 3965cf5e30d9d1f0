import W132d.Raising

/-!
# Programs that change a part of a memory

The state of a program shows a memory. A program may give up at any point; what it has written until
then stays written.

* `Touches`: a program that starts in a ready state changes the memory only inside `B`. When it
  returns, the state is ready again, and the memory has a property;
* `Touches.bind`: a program after another one, and `Touches.seq`: two that change different parts of
  the memory, so that what is known after the first one still holds after the second;
* `Touches.view_eq`: outside `B` the memory is what it was, however the program ends.
-/

namespace W132d.Raising

variable {S ε α β ι V : Type} (ready : S → Prop) (view : S → ι → V)

/-- From a ready state, a program changes the memory inside `B` only. Where it returns, the state is
    ready, and `Q` holds of the result and the memory. -/
def Touches (B : Set ι) (m : Raising S ε α) (Q : α → (ι → V) → Prop) : Prop :=
  ∀ mem, Ends (fun s => ready s ∧ view s = mem) m
    (fun a s => ready s ∧ Set.EqOn (view s) mem Bᶜ ∧ Q a (view s))
    fun s => Set.EqOn (view s) mem Bᶜ

variable {ready view} {B B' : Set ι} {m : Raising S ε α} {f : α → Raising S ε β}
  {Q : α → (ι → V) → Prop} {R : β → (ι → V) → Prop}

theorem touches_pure (a : α) (h : ∀ mem, Q a mem) :
    Touches ready view B (pure a : Raising S ε α) Q :=
  fun _ => ends_pure a fun s hs => ⟨hs.1, fun i _ => congrFun hs.2 i, h (view s)⟩

theorem touches_throw (e : ε) : Touches ready view B (throw e : Raising S ε α) Q :=
  fun _ _ hs i _ => congrFun hs.2 i

/-- More may be changed, and less be known. -/
theorem Touches.mono {Q' : α → (ι → V) → Prop} (h : Touches ready view B m Q) (hB : B ⊆ B')
    (hQ : ∀ a mem, Q a mem → Q' a mem) : Touches ready view B' m Q' := by
  have hcompl : B'ᶜ ⊆ Bᶜ := Set.compl_subset_compl.2 hB
  intro mem s hs
  have hrun := h mem s hs
  cases hm : m.runFrom s with
  | mk x t =>
    rw [hm] at hrun
    cases x with
    | ok a => exact ⟨hrun.1, hrun.2.1.mono hcompl, hQ a _ hrun.2.2⟩
    | error e => exact Set.EqOn.mono hcompl hrun

/-- A program after another one. What the first one has done is kept by the second one. -/
theorem Touches.bind {P : β → α → (ι → V) → Prop} (h : Touches ready view B m Q)
    (hf : ∀ a, (∃ mem, Q a mem) → Touches ready view B' (f a) fun b => P b a)
    (hR : ∀ a b mem mem', Q a mem → Set.EqOn mem' mem B'ᶜ → P b a mem' → R b mem') :
    Touches ready view (B ∪ B') (m >>= f) R := by
  have hleft : (B ∪ B')ᶜ ⊆ Bᶜ := Set.compl_subset_compl.2 Set.subset_union_left
  have hright : (B ∪ B')ᶜ ⊆ B'ᶜ := Set.compl_subset_compl.2 Set.subset_union_right
  intro mem s hs
  have hrun := h mem s hs
  rw [runFrom_bind]
  cases hm : m.runFrom s with
  | mk x t =>
    rw [hm] at hrun
    cases x with
    | error e => exact Set.EqOn.mono hleft hrun
    | ok a =>
      obtain ⟨hready, hsame, hQ⟩ := hrun
      have hrun' := hf a ⟨_, hQ⟩ (view t) t ⟨hready, rfl⟩
      dsimp only
      cases hm' : (f a).runFrom t with
      | mk y u =>
        rw [hm'] at hrun'
        cases y with
        | error e => exact (Set.EqOn.mono hright hrun').trans (hsame.mono hleft)
        | ok b =>
          obtain ⟨hready', hsame', hP⟩ := hrun'
          exact ⟨hready', (hsame'.mono hright).trans (hsame.mono hleft),
            hR a b _ _ hQ hsame' hP⟩

/-- What is known of a memory depends on `B` only. -/
def LocalTo (B : Set ι) (P : (ι → V) → Prop) : Prop :=
  ∀ ⦃mem mem'⦄, Set.EqOn mem' mem B → P mem → P mem'

/-- Two programs that change different parts of the memory, one after the other. -/
theorem Touches.seq {P₁ P₂ : (ι → V) → Prop} {F : α → Prop} {G : β → Prop}
    (h : Touches ready view B m fun a mem => P₁ mem ∧ F a)
    (hf : ∀ a, F a → Touches ready view B' (f a) fun b mem => P₂ mem ∧ G b)
    (hdisjoint : B ⊆ B'ᶜ) (hlocal : LocalTo B P₁) :
    Touches ready view (B ∪ B') (m >>= f) fun b mem => (P₁ mem ∧ P₂ mem) ∧ G b :=
  h.bind (fun a ha => hf a (ha.elim fun _ hmem => hmem.2)) fun _ _ _ _ hQ hsame hP =>
    ⟨⟨hlocal (hsame.mono hdisjoint) hQ.1, hP.1⟩, hP.2⟩

theorem Touches.ite {c : Prop} [Decidable c] {m' : Raising S ε α}
    (h : c → Touches ready view B m Q) (h' : ¬c → Touches ready view B m' Q) :
    Touches ready view B (if c then m else m') Q := by
  split
  · exact h ‹_›
  · exact h' ‹_›

theorem Touches.adapt {ε' : Type} (h : Touches ready view B m Q) (g : ε → ε') :
    Touches ready view B (ExceptT.adapt g m : Raising S ε' α) Q :=
  fun mem => (h mem).adapt g

/-- However a program ends, the memory is the same outside `B`. -/
theorem Touches.view_eq {s : S} (h : Touches ready view B m Q) (hs : ready s) :
    Set.EqOn (view (m.runFrom s).2) (view s) Bᶜ := by
  have hrun := h (view s) s ⟨hs, rfl⟩
  cases hm : m.runFrom s with
  | mk x t =>
    rw [hm] at hrun
    cases x with
    | ok a => exact hrun.2.1
    | error e => exact hrun

/-- What is known when a program returns. -/
theorem Touches.of_ok {s : S} {a : α} (h : Touches ready view B m Q) (hs : ready s)
    (hrun : (m.runFrom s).1 = .ok a) :
    ready (m.runFrom s).2 ∧ Q a (view (m.runFrom s).2) := by
  have hends := h (view s) s ⟨hs, rfl⟩
  cases hm : m.runFrom s with
  | mk x t =>
    rw [hm] at hends hrun
    subst hrun
    exact ⟨hends.1, hends.2.2⟩

end W132d.Raising
