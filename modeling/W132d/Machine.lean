import Mathlib.Tactic

/-!
# Machines

A *machine* is a component that reacts to events one at a time: an event takes
its state to the next one, or crashes it (`none`). A crash stands for what the
component's language leaves undefined, e.g., a read through a null pointer, so
that nothing is claimed about the state after it.

* `Machine.run`: the state after a list of events, if none of them crashes;
* `Machine.Along`: a condition on the steps of a run, each taken in the state
  it is met in. The condition of a step is about that state and the event
  alone, never about where the step leads;
* `Machine.exists_run`: a run of fixed events, evaluated;
* `Machine.invariant`: what holds initially and is preserved by every step
  meeting the condition holds after every run along it;
* `Machine.invariant_history`: so does what holds of the state and the events that led to it;
* `Machine.exists_run_history`: and a run does not crash if no step does from there;
* `Machine.Always`: a property of all states of a run, and `Machine.always_iff_along`: it holds
  exactly along `G` if it is lost exactly by the steps that do not meet `G`, also if this is so for
  some steps only (`Machine.always_iff_along_of_along`), and exactly if it holds at the end if it is
  never regained (`Machine.always_iff_last`);
* `Machine.outputs`: what the steps of a run put out;
* `Machine.measure_eq_along_iff`: a quantity that no step raises is kept by a run exactly if every
  step keeps it;
* `foldlM_invariant`: the same for a loop over a list.
-/

namespace W132d

/-- The parties of a run of two are `0` and `1`. -/
instance neZeroTwo : NeZero 2 := ⟨by decide⟩

/-- A machine with states `S` and events `E`. -/
structure Machine (S E : Type*) where
  /-- The state after an event, or `none` if it crashes. -/
  step : S → E → Option S

namespace Machine

variable {S E : Type*} (m : Machine S E)

/-- The state after a list of events, or `none` if one of them crashes. -/
def run : S → List E → Option S
  | s, [] => some s
  | s, e :: es =>
    match m.step s e with
    | some s' => run s' es
    | none => none

/-- Every step of the run of `es` from `s` meets the condition `G`. -/
def Along (G : S → E → Prop) : S → List E → Prop
  | _, [] => True
  | s, e :: es =>
    G s e ∧
      match m.step s e with
      | some s' => Along G s' es
      | none => True

instance (G : S → E → Prop) [∀ s e, Decidable (G s e)] :
    ∀ s es, Decidable (m.Along G s es)
  | _, [] => .isTrue trivial
  | s, e :: es =>
    have : Decidable (match m.step s e with | some s' => m.Along G s' es | none => True) :=
      match m.step s e with
      | some s' => instDecidableAlong G s' es
      | none => .isTrue trivial
    inferInstanceAs (Decidable (_ ∧ _))

variable {m} {G : S → E → Prop} {s s' s'' : S} {e : E} {es fs : List E}

@[simp] theorem run_nil : m.run s [] = some s := rfl

theorem run_cons (h : m.step s e = some s') : m.run s (e :: es) = m.run s' es := by
  simp only [run, h]

/-- The first step of a run that does not crash. -/
theorem run_cons_eq_some (h : m.run s (e :: es) = some s'') :
    ∃ s', m.step s e = some s' ∧ m.run s' es = some s'' := by
  rw [run] at h
  split at h
  · exact ⟨_, by assumption, h⟩
  · exact absurd h (by simp)

/-- A condition along a run whose first step does not crash. -/
theorem along_cons (h : m.step s e = some s') :
    m.Along G s (e :: es) ↔ G s e ∧ m.Along G s' es := by
  rw [Along, h]

/-- A run goes on from the state where its first part ends. -/
theorem run_append (h : m.run s es = some s') : m.run s (es ++ fs) = m.run s' fs := by
  induction es generalizing s with
  | nil => rw [run_nil, Option.some_inj] at h; rw [h, List.nil_append]
  | cons e es ih =>
    obtain ⟨t, ht, hrun⟩ := run_cons_eq_some h
    rw [List.cons_append, run_cons ht]
    exact ih hrun

/-- A run taking one more step. -/
theorem run_concat (h : m.run s es = some s') (h' : m.step s' e = some s'') :
    m.run s (es ++ [e]) = some s'' := by
  rw [run_append h, run_cons h', run_nil]

/-- A condition along a run is one along its parts. -/
theorem along_append_iff (h : m.run s es = some s') :
    m.Along G s (es ++ fs) ↔ m.Along G s es ∧ m.Along G s' fs := by
  induction es generalizing s with
  | nil =>
    rw [run_nil, Option.some_inj] at h
    rw [h, List.nil_append, Along, true_and]
  | cons e es ih =>
    obtain ⟨t, ht, hrun⟩ := run_cons_eq_some h
    rw [List.cons_append, along_cons ht, along_cons ht, ih hrun, and_assoc]

/-- A condition along a run that takes one more step. -/
theorem along_concat (h : m.run s es = some s') (hG : m.Along G s (es ++ [e])) :
    m.Along G s es ∧ G s' e := by
  obtain ⟨hes, he⟩ := (along_append_iff h).1 hG
  exact ⟨hes, he.1⟩

/-- Where a run leads, evaluated. -/
theorem exists_run {P : S → Prop} [DecidablePred P]
    (h : (m.run s es).any (fun t => decide (P t)) = true) : ∃ t, m.run s es = some t ∧ P t := by
  obtain ⟨t, ht, hP⟩ := (Option.any_eq_true ..).1 h
  exact ⟨t, ht, of_decide_eq_true hP⟩

/-- Where a run and one more step lead, evaluated. -/
theorem exists_run_step {Q : S → S → Prop} [∀ t, DecidablePred (Q t)]
    (h : (m.run s es).any (fun t => (m.step t e).any fun t' => decide (Q t t')) = true) :
    ∃ t t', m.run s es = some t ∧ m.step t e = some t' ∧ Q t t' := by
  obtain ⟨t, ht, h⟩ := (Option.any_eq_true ..).1 h
  obtain ⟨t', ht', hQ⟩ := (Option.any_eq_true ..).1 h
  exact ⟨t, t', ht, ht', of_decide_eq_true hQ⟩

/-- No condition at all holds along every run. -/
theorem along_true : m.Along (fun _ _ => True) s es := by
  induction es generalizing s with
  | nil => trivial
  | cons e es ih =>
    refine ⟨trivial, ?_⟩
    split
    · exact ih
    · trivial

/-- Two conditions along a run. -/
theorem Along.and {G' : S → E → Prop} (hG : m.Along G s es) (hG' : m.Along G' s es) :
    m.Along (fun s e => G s e ∧ G' s e) s es := by
  induction es generalizing s with
  | nil => trivial
  | cons e es ih =>
    refine ⟨⟨hG.1, hG'.1⟩, ?_⟩
    have hrest := hG.2
    have hrest' := hG'.2
    split at hrest
    · rename_i t ht
      rw [ht] at hrest'
      exact ih hrest hrest'
    · trivial

/-- A condition that follows from another one, and from what the steps meeting that one preserve. -/
theorem Along.imp {G' : S → E → Prop} {I : S → Prop}
    (hstep : ∀ s e s', I s → G s e → m.step s e = some s' → I s')
    (himp : ∀ s e, I s → G s e → G' s e) (hs : I s) (hG : m.Along G s es) : m.Along G' s es := by
  induction es generalizing s with
  | nil => trivial
  | cons e es ih =>
    refine ⟨himp s e hs hG.1, ?_⟩
    have hrest := hG.2
    split at hrest
    · rename_i t ht
      exact ih (hstep s e t hs hG.1 ht) hrest
    · trivial

/-- What holds initially, and is preserved by every step meeting `G`, holds
    after every run along `G`. -/
theorem invariant {I : S → Prop}
    (hstep : ∀ s e s', I s → G s e → m.step s e = some s' → I s')
    (hs : I s) (hG : m.Along G s es) (hrun : m.run s es = some s') : I s' := by
  induction es generalizing s with
  | nil =>
    rw [run_nil, Option.some_inj] at hrun
    exact hrun ▸ hs
  | cons e es ih =>
    obtain ⟨t, ht, hrun⟩ := run_cons_eq_some hrun
    rw [Along, ht] at hG
    exact ih (hstep s e t hs hG.1 ht) hG.2 hrun

/-- What holds of a state and the events that led to it: initially of none, and after every
    step meeting `G`. -/
theorem invariant_history {I : List E → S → Prop}
    (hstep : ∀ es s e s', I es s → G s e → m.step s e = some s' → I (es ++ [e]) s')
    (hs : I [] s) (hG : m.Along G s es) (hrun : m.run s es = some s') : I es s' := by
  suffices h : ∀ pre, I pre s → I (pre ++ es) s' from h [] hs
  clear hs
  induction es generalizing s with
  | nil =>
    rw [run_nil, Option.some_inj] at hrun
    intro pre hI
    rwa [List.append_nil, ← hrun]
  | cons e es ih =>
    obtain ⟨t, ht, hrun⟩ := run_cons_eq_some hrun
    rw [Along, ht] at hG
    intro pre hI
    rw [List.append_cons]
    exact ih hG.2 hrun _ (hstep pre s e t hI hG.1 ht)

/-- A run along `G` does not crash, and what holds of the state and the events that led to it
    holds after it, if no step meeting `G` crashes. -/
theorem exists_run_history {I : List E → S → Prop}
    (hstep : ∀ es s e, I es s → G s e → ∃ s', m.step s e = some s' ∧ I (es ++ [e]) s')
    (hs : I [] s) (hG : m.Along G s es) : ∃ s', m.run s es = some s' ∧ I es s' := by
  suffices h : ∀ pre, I pre s → ∃ s', m.run s es = some s' ∧ I (pre ++ es) s' from h [] hs
  clear hs
  induction es generalizing s with
  | nil => exact fun pre hI => ⟨s, rfl, by rwa [List.append_nil]⟩
  | cons e es ih =>
    intro pre hI
    obtain ⟨t, ht, hI⟩ := hstep pre s e hI hG.1
    rw [Along, ht] at hG
    rw [run_cons ht, List.append_cons]
    exact ih hG.2 _ hI

/-- All states of the run of `es` from `s` have the property `P`. -/
def Always (P : S → Prop) : S → List E → Prop
  | s, [] => P s
  | s, e :: es =>
    P s ∧
      match m.step s e with
      | some s' => Always P s' es
      | none => True

/-- A property of all states of a run whose first step does not crash. -/
theorem always_cons {P : S → Prop} (h : m.step s e = some s') :
    m.Always P s (e :: es) ↔ P s ∧ m.Always P s' es := by
  rw [Always, h]

/-- A property of all states of a run is one of the first state. -/
theorem Always.head {P : S → Prop} (h : m.Always P s es) : P s := by
  cases es with
  | nil => exact h
  | cons e es => exact h.1

/-- A property of all states of a run is one of the last state. -/
theorem Always.last {P : S → Prop} (h : m.Always P s es) (hrun : m.run s es = some s') : P s' := by
  induction es generalizing s with
  | nil =>
    rw [run_nil, Option.some_inj] at hrun
    exact hrun ▸ h
  | cons e es ih =>
    obtain ⟨t, ht, hrun⟩ := run_cons_eq_some hrun
    exact ih ((always_cons ht).1 h).2 hrun

/-- A property of all states of a run is one of all states from where its first part ends. -/
theorem Always.of_append {P : S → Prop} (h : m.Always P s (es ++ fs))
    (hrun : m.run s es = some s') : m.Always P s' fs := by
  induction es generalizing s with
  | nil =>
    rw [run_nil, Option.some_inj] at hrun
    exact hrun ▸ h
  | cons e es ih =>
    obtain ⟨t, ht, hrun⟩ := run_cons_eq_some hrun
    rw [List.cons_append] at h
    exact ih ((always_cons ht).1 h).2 hrun

/-- A property of all states of a run that takes one more step. -/
theorem Always.concat {P : S → Prop} (h : m.Always P s es) (hrun : m.run s es = some s')
    (hstep : m.step s' e = some s'') (hP : P s'') : m.Always P s (es ++ [e]) := by
  induction es generalizing s with
  | nil =>
    rw [run_nil, Option.some_inj] at hrun
    subst hrun
    exact (always_cons hstep).2 ⟨h, hP⟩
  | cons a es ih =>
    obtain ⟨t, ht, hrun⟩ := run_cons_eq_some hrun
    obtain ⟨hs, hrest⟩ := (always_cons ht).1 h
    exact (always_cons ht).2 ⟨hs, ih hrest hrun⟩

/-- A property of all states of a run that follows from another one. -/
theorem Always.imp {P Q : S → Prop} (h : m.Always P s es) (hPQ : ∀ s, P s → Q s) :
    m.Always Q s es := by
  induction es generalizing s with
  | nil => exact hPQ s h
  | cons e es ih =>
    refine ⟨hPQ s h.1, ?_⟩
    have hrest := h.2
    split at hrest
    · exact ih hrest
    · trivial

/-- An invariant holds in all states of a run. -/
theorem always_of_step {I : S → Prop} (hstep : ∀ s e s', I s → m.step s e = some s' → I s')
    (hI : I s) : m.Always I s es := by
  induction es generalizing s with
  | nil => exact hI
  | cons e es ih =>
    refine ⟨hI, ?_⟩
    split
    · rename_i t ht
      exact ih (hstep s e t hI ht)
    · trivial

/-- What holds initially, and is preserved by every step meeting `G`, holds in all states of a run
    along `G`. -/
theorem always_of_along {I : S → Prop}
    (hstep : ∀ s e s', I s → G s e → m.step s e = some s' → I s') (hI : I s)
    (hG : m.Along G s es) : m.Always I s es := by
  induction es generalizing s with
  | nil => exact hI
  | cons e es ih =>
    refine ⟨hI, ?_⟩
    have hrest := hG.2
    split at hrest
    · rename_i t ht
      exact ih (hstep s e t hI hG.1 ht) hrest
    · trivial

/-- If, of the steps meeting `D`, those meeting `G` are exactly those that keep `P`, all states of a
    run along `D` have `P` exactly if all its steps meet `G`. -/
theorem always_iff_along_of_along {I P : S → Prop} {D : S → E → Prop}
    (hinv : ∀ s e s', I s → D s e → m.step s e = some s' → I s')
    (hstep : ∀ s e s', I s → P s → D s e → m.step s e = some s' → (P s' ↔ G s e))
    (hI : I s) (hP : P s) (hD : m.Along D s es) (hrun : m.run s es = some s') :
    m.Always P s es ↔ m.Along G s es := by
  induction es generalizing s with
  | nil => exact iff_of_true hP trivial
  | cons e es ih =>
    obtain ⟨t, ht, hrun⟩ := run_cons_eq_some hrun
    obtain ⟨he, hD⟩ := (along_cons ht).1 hD
    have hiff := hstep s e t hI hP he ht
    rw [always_cons ht, along_cons ht, ← hiff]
    refine ⟨fun h => ?_, fun h => ⟨hP, ?_⟩⟩
    · exact ⟨h.2.head, (ih (hinv s e t hI he ht) h.2.head hD hrun).1 h.2⟩
    · exact (ih (hinv s e t hI he ht) h.1 hD hrun).2 h.2

/-- If the steps meeting `G` are exactly those that keep `P`, all states of a run have `P` exactly
    if all its steps meet `G`. -/
theorem always_iff_along {I P : S → Prop}
    (hinv : ∀ s e s', I s → m.step s e = some s' → I s')
    (hstep : ∀ s e s', I s → P s → m.step s e = some s' → (P s' ↔ G s e))
    (hI : I s) (hP : P s) (hrun : m.run s es = some s') : m.Always P s es ↔ m.Along G s es :=
  always_iff_along_of_along (fun s e s' h _ => hinv s e s' h)
    (fun s e s' h hP _ => hstep s e s' h hP) hI hP along_true hrun

/-- If `P` is never regained, it holds in all states of a run exactly if it does in the last one. -/
theorem always_iff_last {I P : S → Prop}
    (hinv : ∀ s e s', I s → m.step s e = some s' → I s')
    (hlost : ∀ s e s', I s → m.step s e = some s' → P s' → P s)
    (hI : I s) (hrun : m.run s es = some s') : m.Always P s es ↔ P s' := by
  refine ⟨fun h => h.last hrun, fun h => ?_⟩
  induction es generalizing s with
  | nil =>
    rw [run_nil, Option.some_inj] at hrun
    exact hrun ▸ h
  | cons e es ih =>
    obtain ⟨t, ht, hrun⟩ := run_cons_eq_some hrun
    have hrest := ih (hinv s e t hI ht) hrun
    exact (always_cons ht).2 ⟨hlost s e t hI ht hrest.head, hrest⟩

/-- What the steps of a run put out, if a step from `s` by `e` puts out `out s e`. -/
def outputs {O : Type*} (m : Machine S E) (out : S → E → List O) : S → List E → List O
  | _, [] => []
  | s, e :: es =>
    out s e ++
      match m.step s e with
      | some s' => outputs m out s' es
      | none => []

/-- What a run that takes one more step puts out. -/
theorem outputs_concat {O : Type*} {out : S → E → List O} (h : m.run s es = some s') :
    m.outputs out s (es ++ [e]) = m.outputs out s es ++ out s' e := by
  induction es generalizing s with
  | nil =>
    rw [run_nil, Option.some_inj] at h
    subst h
    cases hstep : m.step s e <;> simp [outputs, hstep]
  | cons a es ih =>
    obtain ⟨t, ht, hrun⟩ := run_cons_eq_some h
    rw [List.cons_append, outputs, outputs, ht]
    simp only [ih hrun, List.append_assoc]

/-- A quantity that no step raises, and that exactly the steps meeting `G` keep, is kept by a run
    exactly if all its steps meet `G`. -/
theorem measure_eq_along_iff {M : Type*} [PartialOrder M] {μ : S → M} {I : S → Prop}
    (hinv : ∀ s e s', I s → m.step s e = some s' → I s')
    (hstep : ∀ s e s', I s → m.step s e = some s' → μ s' ≤ μ s ∧ (μ s' = μ s ↔ G s e))
    (hs : I s) (hrun : m.run s es = some s') :
    μ s' ≤ μ s ∧ (μ s' = μ s ↔ m.Along G s es) := by
  induction es generalizing s with
  | nil =>
    rw [run_nil, Option.some_inj] at hrun
    subst hrun
    exact ⟨le_rfl, iff_of_true rfl trivial⟩
  | cons e es ih =>
    obtain ⟨t, ht, hrun⟩ := run_cons_eq_some hrun
    obtain ⟨hle, hiff⟩ := hstep s e t hs ht
    obtain ⟨hle', hiff'⟩ := ih (hinv s e t hs ht) hrun
    rw [along_cons ht, ← hiff, ← hiff']
    refine ⟨hle'.trans hle, fun heq => ?_, fun ⟨heq, heq'⟩ => heq'.trans heq⟩
    -- What the first step took, the other ones would have to give back.
    have ht : μ t = μ s := le_antisymm hle (heq ▸ hle')
    exact ⟨ht, heq.trans ht.symm⟩

/-- A condition on the events alone. -/
theorem along_iff_forall {K : E → Prop} (hrun : m.run s es = some s') :
    m.Along (fun _ e => K e) s es ↔ ∀ e ∈ es, K e := by
  induction es generalizing s with
  | nil => exact iff_of_true trivial (List.forall_mem_nil K)
  | cons e es ih =>
    obtain ⟨t, ht, hrun⟩ := run_cons_eq_some hrun
    rw [along_cons ht, List.forall_mem_cons, ih hrun]

/-- A quantity that no step raises, and that the events meeting `K` keep, is kept by a run
    exactly if all its events do. -/
theorem measure_eq_iff {M : Type*} [PartialOrder M] {μ : S → M} {K : E → Prop}
    (hstep : ∀ s e s', m.step s e = some s' → μ s' ≤ μ s ∧ (μ s' = μ s ↔ K e))
    (hrun : m.run s es = some s') : μ s' ≤ μ s ∧ (μ s' = μ s ↔ ∀ e ∈ es, K e) := by
  obtain ⟨hle, hiff⟩ := measure_eq_along_iff (I := fun _ => True) (fun _ _ _ _ _ => trivial)
    (fun s e s' _ h => hstep s e s' h) trivial hrun
  exact ⟨hle, hiff.trans (along_iff_forall hrun)⟩

/-- An invariant of every step, whatever the condition. -/
theorem invariant_of_step {I : S → Prop}
    (hstep : ∀ s e s', I s → m.step s e = some s' → I s')
    (hs : I s) (hrun : m.run s es = some s') : I s' :=
  invariant (fun s e s' hI _ => hstep s e s' hI) hs along_true hrun

end Machine

/-- What every turn of a loop that may crash preserves, the loop does. -/
theorem foldlM_invariant {S A : Type*} {f : S → A → Option S} {I : S → Prop}
    (hstep : ∀ s a s', I s → f s a = some s' → I s') {l : List A} {s s' : S} (hs : I s)
    (h : l.foldlM f s = some s') : I s' := by
  induction l generalizing s with
  | nil =>
    rw [List.foldlM_nil] at h
    exact Option.some.inj h ▸ hs
  | cons a l ih =>
    rw [List.foldlM_cons] at h
    obtain ⟨t, ht, h⟩ := Option.bind_eq_some_iff.1 h
    exact ih (hstep s a t hs ht) h

end W132d
