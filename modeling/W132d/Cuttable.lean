import W132d.Raising

/-!
# Programs that are cut

A program that may raise issues commands that change a state outside of it. Its process may also
end at any command, before or after that took effect, so that the state is left as it was then.
Which of its commands do not pass is given by a list of faults.

* `Cuttable.command`: a command;
* `Cuttable.Ends`: what holds of the result and of the state however the program is cut. There is a
  rule for each way to build a program, and one for loops;
* `Cuttable.Plain`: a program that nothing cuts ends or raises.
-/

namespace W132d

/-- What happens to a command. -/
inductive Fault where
  /-- Nothing. -/
  | none
  /-- The program is cut before the command. -/
  | before
  /-- The program is cut after the command. -/
  | after
  deriving DecidableEq, Repr

/-- Why a program ends early. -/
inductive Stop (ε : Type) where
  | raised (e : ε)
  | cut
  deriving DecidableEq, Repr

/-- A program on a state `S`, which returns an `α`, raises an `ε` or is cut, with the faults that
    are still to come. -/
abbrev Cuttable (S ε α : Type) := Raising (S × List Fault) (Stop ε) α

namespace Cuttable

variable {S ε α β : Type}

/-- What a command does, which fails or gives a reply and a state. -/
def outcome (f : S → Except ε (α × S)) (s : S) : Fault → Except (Stop ε) α × S
  | .none =>
    match f s with
    | .ok (a, s') => (.ok a, s')
    | .error e => (.error (.raised e), s)
  | .before => (.error .cut, s)
  | .after =>
    match f s with
    | .ok (_, s') => (.error .cut, s')
    | .error _ => (.error .cut, s)

/-- A command. -/
def command (f : S → Except ε (α × S)) : Cuttable S ε α := ExceptT.mk fun (s, faults) =>
  ((outcome f s (faults.headD .none)).1, (outcome f s (faults.headD .none)).2, faults.tail)

/-- A computation that may raise. -/
def lift (x : Except ε α) : Cuttable S ε α := ExceptT.mk fun w => (x.mapError .raised, w)

/-- Run a program: its result, the state and the faults that are left. -/
def runFrom (m : Cuttable S ε α) (s : S) (faults : List Fault) :
    Except (Stop ε) α × S × List Fault :=
  Raising.runFrom m (s, faults)

/-- However the program is cut, its result and the state satisfy `post`. -/
def Ends (m : Cuttable S ε α) (s : S) (post : Except (Stop ε) α → S → Prop) : Prop :=
  ∀ faults, post (m.runFrom s faults).1 (m.runFrom s faults).2.1

/-- If nothing cuts the program, it is not cut. -/
def Plain (m : Cuttable S ε α) : Prop :=
  ∀ s, (m.runFrom s []).1 ≠ .error .cut ∧ (m.runFrom s []).2.2 = []

variable {m : Cuttable S ε α} {f : α → Cuttable S ε β} {s : S} {faults : List Fault}
  {p p' : Except (Stop ε) α → S → Prop} {q : Except (Stop ε) β → S → Prop}

theorem runFrom_bind : (m >>= f).runFrom s faults =
    match m.runFrom s faults with
    | (.ok a, s', faults') => (f a).runFrom s' faults'
    | (.error e, s', faults') => (.error e, s', faults') := by
  rw [runFrom, Raising.runFrom_bind, runFrom]
  cases Raising.runFrom m (s, faults) with
  | mk x w => cases x <;> rfl

theorem Ends.mono (h : Ends m s p) (hp : ∀ r s', p r s' → p' r s') : Ends m s p' :=
  fun faults => hp _ _ (h faults)

theorem ends_pure (a : α) (h : p (.ok a) s) : Ends (pure a) s p := fun _ => h

theorem ends_lift {x : Except ε α} (hok : ∀ a, x = .ok a → p (.ok a) s)
    (herror : ∀ e, x = .error e → p (.error (.raised e)) s) : Ends (lift x) s p := by
  intro faults
  cases x with
  | ok a => exact hok a rfl
  | error e => exact herror e rfl

/-- A command leaves the state if it fails, or if the program is cut before. -/
theorem ends_command {g : S → Except ε (α × S)} (hstop : ∀ e, p (.error e) s)
    (hok : ∀ a s', g s = .ok (a, s') → p (.ok a) s' ∧ p (.error .cut) s') :
    Ends (command g) s p := by
  intro faults
  change p (outcome g s (faults.headD .none)).1 (outcome g s (faults.headD .none)).2
  cases hg : g s with
  | error e => cases faults.headD .none <;> simp only [outcome, hg] <;> exact hstop _
  | ok x =>
    obtain ⟨a, s'⟩ := x
    cases faults.headD .none <;> simp only [outcome, hg]
    · exact (hok a s' hg).1
    · exact hstop _
    · exact (hok a s' hg).2

/-- A program followed by another one: the first one may stop. -/
theorem Ends.bind (h : Ends m s p) (hok : ∀ a s', p (.ok a) s' → Ends (f a) s' q)
    (herror : ∀ e s', p (.error e) s' → q (.error e) s') : Ends (m >>= f) s q := by
  intro faults
  have hp := h faults
  rw [runFrom_bind]
  cases hrun : m.runFrom s faults with
  | mk x w =>
    rw [hrun] at hp
    cases x with
    | ok a => exact hok a _ hp _
    | error e => exact herror e _ hp

/-- A command that only reads, followed by a program. -/
theorem ends_read {g : S → Except ε (α × S)} (hg : ∀ a s', g s = .ok (a, s') → s' = s)
    (hstop : ∀ e, q (.error e) s) (hok : ∀ a, g s = .ok (a, s) → Ends (f a) s q) :
    Ends (command g >>= f) s q := by
  refine Ends.bind (p := fun x s' => s' = s ∧ ∀ a, x = .ok a → g s = .ok (a, s))
    (ends_command (fun _ => ⟨rfl, nofun⟩) fun a s' h => ?_) ?_ ?_
  · obtain rfl := hg a s' h
    exact ⟨⟨rfl, fun _ heq => Except.ok.inj heq ▸ h⟩, rfl, nofun⟩
  · rintro a s' ⟨rfl, h⟩
    exact hok a (h a rfl)
  · rintro e s' ⟨rfl, -⟩
    exact hstop e

/-- A computation that may raise, followed by a program. -/
theorem ends_check {x : Except ε α} (hstop : ∀ e, q (.error e) s)
    (hok : ∀ a, x = .ok a → Ends (f a) s q) : Ends (lift x >>= f) s q := by
  refine Ends.bind (p := fun y s' => s' = s ∧ ∀ a, y = .ok a → x = .ok a)
    (ends_lift (fun a h => ⟨rfl, fun _ heq => Except.ok.inj heq ▸ h⟩) fun _ _ => ⟨rfl, nofun⟩) ?_ ?_
  · rintro a s' ⟨rfl, h⟩
    exact hok a (h a rfl)
  · rintro e s' ⟨rfl, -⟩
    exact hstop e

/-- A loop over a list keeps what each of its turns keeps. -/
theorem ends_forM {g : β → Cuttable S ε Unit} {I : List β → S → Prop}
    {post : Except (Stop ε) Unit → S → Prop} {l : List β} (hI : I [] s)
    (hstep : ∀ done b rest, l = done ++ b :: rest → ∀ s, I done s →
      Ends (g b) s fun r s' => (r = .ok () → I (done ++ [b]) s') ∧ (∀ e, r = .error e → post r s'))
    (hend : ∀ s, I l s → post (.ok ()) s) : Ends (l.forM g) s post := by
  suffices h : ∀ done rest, l = done ++ rest → ∀ s, I done s → Ends (rest.forM g) s post from
    h [] l rfl s hI
  intro done rest
  induction rest generalizing done with
  | nil =>
    intro hl s hs
    rw [List.append_nil] at hl
    exact ends_pure () (hend s (hl ▸ hs))
  | cons b rest ih =>
    intro hl s hs
    refine (hstep done b rest hl s hs).bind (fun _ s' h => ?_) fun e s' h => h.2 e rfl
    exact ih (done ++ [b]) (by rw [hl, List.append_assoc]; rfl) s' (h.1 rfl)

theorem plain_pure (a : α) : Plain (pure a : Cuttable S ε α) := fun _ => ⟨nofun, rfl⟩

theorem plain_lift (x : Except ε α) : Plain (lift x : Cuttable S ε α) := by
  intro s
  cases x with
  | ok a => exact ⟨nofun, rfl⟩
  | error e => exact ⟨nofun, rfl⟩

theorem plain_command (g : S → Except ε (α × S)) : Plain (command g) := by
  intro s
  refine ⟨?_, rfl⟩
  change (outcome g s .none).1 ≠ _
  rw [outcome]
  cases g s with
  | ok x => exact nofun
  | error e => exact nofun

theorem Plain.bind (h : Plain m) (hf : ∀ a, Plain (f a)) : Plain (m >>= f) := by
  intro s
  obtain ⟨hcut, hleft⟩ := h s
  rw [runFrom_bind]
  cases hrun : m.runFrom s [] with
  | mk x w =>
    rw [hrun] at hcut hleft
    cases x with
    | ok a =>
      obtain ⟨s', faults'⟩ := w
      obtain rfl : faults' = [] := hleft
      exact hf a s'
    | error e => exact ⟨fun h => hcut (congrArg _ (Except.error.inj h)), hleft⟩

theorem plain_forM {g : β → Cuttable S ε Unit} (hg : ∀ b, Plain (g b)) (l : List β) :
    Plain (l.forM g) := by
  induction l with
  | nil => exact plain_pure ()
  | cons b l ih => exact (hg b).bind fun _ => ih

end Cuttable

end W132d
