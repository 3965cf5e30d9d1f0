import Mathlib.Tactic

/-!
# Programs that raise

A program changes a state and may raise: what it did until then stays done.

* `Raising.runFrom`: the result of a program and the state it leaves;
* `Raising.Keeps`: what holds of the state whenever the program ends, if it held before. There is a
  rule for each way to build a program;
* `Raising.Ends`: what holds when it returns, also of the result, and what when it raises.
-/

namespace W132d

/-- A program on a state `S`, which returns an `α` or raises an `ε`. -/
abbrev Raising (S ε α : Type) := ExceptT ε (StateM S) α

namespace Raising

variable {S ε α β : Type}

/-- Run a program: its result and the state. -/
def runFrom (m : Raising S ε α) (s : S) : Except ε α × S :=
  (ExceptT.run m : StateM S (Except ε α)) s

/-- The program preserves `I`, whether it raises or not. -/
def Keeps (I : S → Prop) (m : Raising S ε α) : Prop := ∀ s, I s → I (m.runFrom s).2

variable {m : Raising S ε α} {f : α → Raising S ε β} {s s' : S} {I : S → Prop}

/-- Doing nothing returns a value. -/
@[simp] theorem runFrom_pure (a : α) : (pure a : Raising S ε α).runFrom s = (.ok a, s) := rfl

@[simp] theorem runFrom_throw (e : ε) : (throw e : Raising S ε α).runFrom s = (.error e, s) := rfl

@[simp] theorem runFrom_modify (g : S → S) :
    (modify g : Raising S ε Unit).runFrom s = (.ok (), g s) := rfl

/-- Reading the state returns it, and leaves it as it is. -/
@[simp] theorem runFrom_get : (get : Raising S ε S).runFrom s = (.ok s, s) := rfl

@[simp] theorem runFrom_modifyGet (g : S → α × S) :
    (modifyGet g : Raising S ε α).runFrom s = (.ok (g s).1, (g s).2) := rfl

/-- Two computations with a state, one after the other. -/
theorem stateM_bind (x : StateM S α) (g : α → StateM S β) (s : S) :
    (x >>= g) s = g (x s).1 (x s).2 := rfl

/-- The second one is not run if the first one raises an error. -/
theorem runFrom_bind : (m >>= f).runFrom s =
    match m.runFrom s with
    | (.ok a, s') => (f a).runFrom s'
    | (.error e, s') => (.error e, s') := by
  rw [runFrom, ExceptT.run_bind, stateM_bind, runFrom]
  rcases (ExceptT.run m : StateM S (Except ε α)) s with ⟨x | x, w⟩ <;> rfl

/-- A program goes on after a part that returns. -/
theorem runFrom_bind_ok {a : α} (h : m.runFrom s = (.ok a, s')) :
    (m >>= f).runFrom s = (f a).runFrom s' := by
  rw [runFrom_bind, h]

/-- A program ends with a part that raises. -/
theorem runFrom_bind_error {e : ε} (h : m.runFrom s = (.error e, s')) :
    (m >>= f).runFrom s = (.error e, s') := by
  rw [runFrom_bind, h]

/-- A handler goes on after what raised. -/
theorem runFrom_tryCatch {g : ε → Raising S ε α} : (tryCatch m g).runFrom s =
    match m.runFrom s with
    | (.ok a, s') => (.ok a, s')
    | (.error e, s') => (g e).runFrom s' := by
  rw [runFrom, ExceptT.run_tryCatch, stateM_bind, runFrom]
  rcases (ExceptT.run m : StateM S (Except ε α)) s with ⟨x | x, w⟩ <;> rfl

/-- What is raised is replaced. -/
theorem runFrom_adapt {ε' : Type} (g : ε → ε') :
    runFrom (ExceptT.adapt g m : Raising S ε' α) s =
      ((m.runFrom s).1.mapError g, (m.runFrom s).2) := rfl

/-- Doing nothing keeps every property. -/
theorem keeps_pure (a : α) : Keeps I (pure a : Raising S ε α) := fun _ h => h

theorem keeps_throw (e : ε) : Keeps I (throw e : Raising S ε α) := fun _ h => h

theorem keeps_get : Keeps I (get : Raising S ε S) := fun _ h => h

theorem keeps_modify {g : S → S} (hg : ∀ s, I s → I (g s)) :
    Keeps I (modify g : Raising S ε Unit) := hg

/-- What holds after a part of a program that the rest preserves. -/
theorem keeps_after (h : I (m.runFrom s).2) (hf : ∀ a, Keeps I (f a)) :
    I ((m >>= f).runFrom s).2 := by
  rw [runFrom_bind]
  cases hrun : m.runFrom s with
  | mk x t =>
    rw [hrun] at h
    cases x with
    | ok a => exact hf a t h
    | error e => exact h

/-- Two computations that keep it do so one after the other. -/
theorem Keeps.bind (h : Keeps I m) (hf : ∀ a, Keeps I (f a)) : Keeps I (m >>= f) :=
  fun s hs => keeps_after (h s hs) hf

theorem Keeps.ite {c : Prop} [Decidable c] {m' : Raising S ε α} (h : c → Keeps I m)
    (h' : ¬c → Keeps I m') : Keeps I (if c then m else m') := by
  split
  · exact h ‹_›
  · exact h' ‹_›

/-- From a state with `I`, the program ends in one with `J`, given what it returns, or in one with
    `K`, where it raises. -/
def Ends (I : S → Prop) (m : Raising S ε α) (J : α → S → Prop) (K : S → Prop) : Prop :=
  ∀ s, I s →
    match m.runFrom s with
    | (.ok a, s') => J a s'
    | (.error _, s') => K s'

variable {J : α → S → Prop} {J' : β → S → Prop} {K : S → Prop}

/-- Doing nothing ends where it begins. -/
theorem ends_pure (a : α) (h : ∀ s, I s → J a s) : Ends I (pure a : Raising S ε α) J K := h

/-- What holds then may be weakened. -/
theorem Ends.mono {J₂ : α → S → Prop} (h : Ends I m J K) (hJ : ∀ a s, J a s → J₂ a s) :
    Ends I m J₂ K := by
  intro s hs
  have hrun := h s hs
  cases hm : m.runFrom s with
  | mk x t =>
    rw [hm] at hrun
    cases x with
    | ok a => exact hJ a t hrun
    | error e => exact hrun

/-- A computation whose errors are replaced ends as before. -/
theorem Ends.adapt {ε' : Type} (h : Ends I m J K) (g : ε → ε') :
    Ends I (ExceptT.adapt g m : Raising S ε' α) J K := by
  intro s hs
  have hrun := h s hs
  rw [runFrom_adapt]
  cases hm : m.runFrom s with
  | mk x t =>
    rw [hm] at hrun
    cases x with
    | ok a => exact hrun
    | error e => exact hrun

/-- What holds of any state is assumed once. -/
theorem ends_and {P : Prop} (h : P → Ends I m J K) : Ends (fun s => I s ∧ P) m J K :=
  fun s hs => h hs.2 s hs.1

/-- Reading the state ends where it begins. -/
theorem ends_get {J : S → S → Prop} (h : ∀ s, I s → J s s) :
    Ends I (get : Raising S ε S) J K := h

theorem ends_modify {g : S → S} {J : Unit → S → Prop} (hg : ∀ s, I s → J () (g s)) :
    Ends I (modify g : Raising S ε Unit) J K := hg

/-- A computation that keeps a property ends there. -/
theorem Keeps.ends (h : Keeps I m) (hJ : ∀ a s, I s → J a s) (hK : ∀ s, I s → K s) :
    Ends I m J K := by
  intro s hs
  have hrun := h s hs
  cases hm : m.runFrom s with
  | mk x t =>
    rw [hm] at hrun
    cases x with
    | ok a => exact hJ a t hrun
    | error e => exact hK t hrun

/-- The second computation begins where the first one ends. -/
theorem Ends.bind (h : Ends I m J K) (hf : ∀ a, Ends (J a) (f a) J' K) :
    Ends I (m >>= f) J' K := by
  intro s hs
  have hrun := h s hs
  rw [runFrom_bind]
  cases hm : m.runFrom s with
  | mk x t =>
    rw [hm] at hrun
    cases x with
    | ok a => exact hf a t hrun
    | error e => exact hrun

/-- A program goes on after a part that preserves what it needs. -/
theorem Keeps.bind_ends (h : Keeps I m) (hf : ∀ a, Ends I (f a) J' K) (hK : ∀ s, I s → K s) :
    Ends I (m >>= f) J' K :=
  (h.ends (fun _ _ hs => hs) hK).bind hf

theorem Ends.ite {c : Prop} [Decidable c] {m' : Raising S ε α} (h : c → Ends I m J K)
    (h' : ¬c → Ends I m' J K) : Ends I (if c then m else m') J K := by
  split
  · exact h ‹_›
  · exact h' ‹_›

end Raising

end W132d
