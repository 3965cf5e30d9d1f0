import Mathlib.Tactic

/-!
# Checks that raise

A program that raises is a computation in `Except`, and `require` raises unless a condition
holds.

* `bind_eq_ok`, `require_eq_ok`, `forM_eq_ok`, `mem_mapM_ok`: what has been checked when such a
  program returns;
* `bind_eq_error`, `mapM_eq_error`: which part of it has raised;
* `foldlM_eq_ok`: a loop whose turns all return.
-/

namespace W132d

theorem bind_eq_ok {ε α β : Type} {x : Except ε α} {f : α → Except ε β} {b : β} :
    (x >>= f) = .ok b ↔ ∃ a, x = .ok a ∧ f a = .ok b := by
  cases x with
  | ok a => exact ⟨fun h => ⟨a, rfl, h⟩, fun ⟨_, ha, h⟩ => by cases ha; exact h⟩
  | error e => exact ⟨fun h => (by cases h), fun ⟨_, ha, _⟩ => (by cases ha)⟩

/-- `require`. -/
def require (condition : Prop) [Decidable condition] (message : String) : Except String Unit :=
  if condition then .ok () else .error message

@[simp] theorem require_eq_ok {p : Prop} [Decidable p] {msg : String} {u : Unit} :
    require p msg = .ok u ↔ p := by
  by_cases hp : p <;> simp [require, hp]

/-- A loop of checks returns iff every one of them does. -/
theorem forM_eq_ok {α : Type} {f : α → Except String Unit} {l : List α} {u : Unit} :
    l.forM f = .ok u ↔ ∀ a ∈ l, f a = .ok () := by
  induction l with
  | nil => exact ⟨fun _ _ ha => absurd ha List.not_mem_nil, fun _ => rfl⟩
  | cons a l ih =>
    have hcons : (a :: l).forM f = (f a >>= fun _ => l.forM f) := rfl
    rw [hcons, bind_eq_ok, List.forall_mem_cons, ← ih]
    exact ⟨fun ⟨_, h⟩ => h, fun h => ⟨(), h⟩⟩

/-- The results of a loop are those of its turns. -/
theorem mem_mapM_ok {ε α β : Type} {f : α → Except ε β} {l : List α} {bs : List β}
    (h : l.mapM f = .ok bs) {b : β} : b ∈ bs ↔ ∃ a ∈ l, f a = .ok b := by
  induction l generalizing bs with
  | nil =>
    rw [← Except.ok.inj h]
    simp
  | cons a l ih =>
    rw [List.mapM_cons] at h
    obtain ⟨b', hb', h⟩ := bind_eq_ok.1 h
    obtain ⟨bs', hbs', h⟩ := bind_eq_ok.1 h
    rw [← Except.ok.inj h, List.mem_cons, List.exists_mem_cons_iff, ih hbs', hb', Except.ok.injEq,
      eq_comm]

/-! ## What has raised -/

theorem bind_eq_error {ε α β : Type} {x : Except ε α} {f : α → Except ε β} {e : ε} :
    (x >>= f) = .error e ↔ x = .error e ∨ ∃ a, x = .ok a ∧ f a = .error e := by
  cases x with
  | ok a =>
    refine ⟨fun h => .inr ⟨a, rfl, h⟩, ?_⟩
    rintro (h | ⟨_, ha, h⟩)
    · cases h
    · cases ha
      exact h
  | error e' =>
    refine ⟨fun h => .inl (congrArg Except.error (Except.error.inj h)), ?_⟩
    rintro (h | ⟨_, ha, _⟩)
    · exact congrArg Except.error (Except.error.inj h)
    · cases ha

theorem mapM_eq_error {ε α β : Type} {f : α → Except ε β} {l : List α} {e : ε}
    (h : l.mapM f = .error e) : ∃ a ∈ l, f a = .error e := by
  induction l with
  | nil => cases h
  | cons a l ih =>
    rw [List.mapM_cons] at h
    rcases bind_eq_error.1 h with h | ⟨_, _, h⟩
    · exact ⟨a, List.mem_cons_self, h⟩
    · rcases bind_eq_error.1 h with h | ⟨_, _, h⟩
      · obtain ⟨a', ha', h⟩ := ih h
        exact ⟨a', List.mem_cons_of_mem _ ha', h⟩
      · cases h

/-- A loop returns if each turn does, from a state with an invariant, which it keeps. -/
theorem foldlM_eq_ok {ε α σ : Type} {f : σ → α → Except ε σ} {I : σ → Prop} {l : List α} {s : σ}
    (hs : I s) (hf : ∀ a ∈ l, ∀ s, I s → ∃ s', f s a = .ok s' ∧ I s') :
    ∃ s', l.foldlM f s = .ok s' ∧ I s' := by
  induction l generalizing s with
  | nil => exact ⟨s, rfl, hs⟩
  | cons a l ih =>
    obtain ⟨s', hs', hI⟩ := hf a List.mem_cons_self s hs
    rw [List.foldlM_cons, hs']
    exact ih hI fun a ha => hf a (List.mem_cons_of_mem _ ha)

end W132d
