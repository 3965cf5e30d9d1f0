import Mathlib.Tactic

/-!
# Programs that issue commands

A *program* issues commands to an environment it knows nothing of, and returns a value or
fails. The environment replies to a command given all commands so far, so that it is any
deterministic one, whatever its state is.

* `Prog.issue`: a command and its reply;
* `Prog.Emits`: what a program emits, that is, the commands it issues and its result, given
  the commands before it. There is a rule for every way to build a program;
* `Prog.Issues`: all commands it issues have a property;
* `Prog.replies`: the replies of an environment that is a state, and `Prog.stateAfter`: the state
  that commands leave.
-/

namespace W132d

/-- A program that issues commands `C`, and returns an `α` or fails with an `ε`; its state
    are the commands issued so far. -/
abbrev Prog (C ε α : Type) := ExceptT ε (StateM (List C)) α

namespace Prog

variable {C R ε α β : Type}

/-- Issue a command to an environment, whose replies are `env`. -/
def issue (env : List C → R) (c : C) : Prog C ε R := do
  modify (· ++ [c])
  return env (← get)

/-- A program run after the commands `past`: its result, and all commands. -/
def after (m : Prog C ε α) (past : List C) : Except ε α × List C := StateT.run (ExceptT.run m) past

/-- After any commands, the program emits commands and a result that satisfy `post`. -/
def Emits (m : Prog C ε α) (post : List C → List C → Except ε α → Prop) : Prop :=
  ∀ past, ∃ cs r, m.after past = (r, past ++ cs) ∧ post past cs r

variable {m : Prog C ε α} {f : α → Prog C ε β} {p p' : List C → List C → Except ε α → Prop}
  {q : List C → List C → Except ε β → Prop}

/-- What is known of the commands may be weakened. -/
theorem Emits.mono (h : Emits m p) (hp : ∀ past cs r, p past cs r → p' past cs r) :
    Emits m p' := by
  intro past
  obtain ⟨cs, r, heq, hpost⟩ := h past
  exact ⟨cs, r, heq, hp past cs r hpost⟩

/-- Doing nothing issues no command. -/
theorem emits_pure (a : α) : Emits (pure a : Prog C ε α) fun _ cs r => cs = [] ∧ r = .ok a :=
  fun past => ⟨[], .ok a, by rw [List.append_nil]; rfl, rfl, rfl⟩

theorem emits_throw (e : ε) :
    Emits (throw e : Prog C ε α) fun _ cs r => cs = [] ∧ r = .error e :=
  fun past => ⟨[], .error e, by rw [List.append_nil]; rfl, rfl, rfl⟩

/-- A command is issued, and answered. -/
theorem emits_issue (env : List C → R) (c : C) :
    Emits (issue env c : Prog C ε R) fun past cs r => cs = [c] ∧ r = .ok (env (past ++ [c])) :=
  fun past => ⟨[c], .ok (env (past ++ [c])), rfl, rfl, rfl⟩

/-- The second program goes on where the first one has come to. -/
theorem after_bind_ok {past past' : List C} {a : α} (h : m.after past = (.ok a, past')) :
    (m >>= f).after past = (f a).after past' := by
  rw [after] at h
  rw [after, ExceptT.run_bind, StateT.run_bind, h]
  rfl

theorem after_bind_error {past past' : List C} {e : ε} (h : m.after past = (.error e, past')) :
    (m >>= f).after past = (.error e, past') := by
  rw [after] at h
  rw [after, ExceptT.run_bind, StateT.run_bind, h]
  rfl

/-- A program followed by another one: the commands of both, or those of the first one and
    its failure. -/
theorem Emits.bind (h : Emits m p) (hok : ∀ past cs a, p past cs (.ok a) →
      Emits (f a) fun past' cs' r => past' = past ++ cs → q past (cs ++ cs') r)
    (herror : ∀ past cs e, p past cs (.error e) → q past cs (.error e)) : Emits (m >>= f) q := by
  intro past
  obtain ⟨cs, r, heq, hp⟩ := h past
  cases r with
  | ok a =>
    obtain ⟨cs', r', heq', hq⟩ := hok past cs a hp (past ++ cs)
    refine ⟨cs ++ cs', r', ?_, hq rfl⟩
    rw [after_bind_ok heq, heq', List.append_assoc]
  | error e => exact ⟨cs, .error e, after_bind_error heq, herror past cs e hp⟩

/-- A description of what a program has emitted when it returns says nothing of a failure. -/
theorem emits_throw_ok {a : α} {P : List C → List C → Prop} (e : ε) :
    Emits (throw e : Prog C ε α) fun past cs r => r = .ok a → P past cs :=
  (emits_throw e).mono fun _ _ _ h hr => by
    cases h.2.symm.trans hr

/-- If both succeed, their commands are known. -/
theorem Emits.bind_ok {b : β} {P : List C → List C → Prop} (h : Emits m p)
    (hok : ∀ past cs a, p past cs (.ok a) →
      Emits (f a) fun past' cs' r => past' = past ++ cs → r = .ok b → P past (cs ++ cs')) :
    Emits (m >>= f) fun past cs r => r = .ok b → P past cs :=
  h.bind hok fun _ _ _ _ hr => by cases hr

/-- A program emits the same in both descriptions. -/
theorem Emits.and (h : Emits m p) (h' : Emits m p') :
    Emits m fun past cs r => p past cs r ∧ p' past cs r := by
  intro past
  obtain ⟨cs, r, heq, hp⟩ := h past
  obtain ⟨cs', r', heq', hp'⟩ := h' past
  rw [heq, Prod.mk.injEq, List.append_cancel_left_eq] at heq'
  obtain ⟨rfl, rfl⟩ := heq'
  exact ⟨cs, r, heq, hp, hp'⟩

/-- A program only issues commands that satisfy `P`. -/
def Issues (P : C → Prop) (m : Prog C ε α) : Prop := Emits m fun _ cs _ => ∀ c ∈ cs, P c

variable {P : C → Prop}

/-- Doing nothing issues only what it should. -/
theorem issues_pure (a : α) : Issues P (pure a : Prog C ε α) :=
  (emits_pure a).mono fun _ _ _ h => by simp [h.1]

theorem issues_throw (e : ε) : Issues P (throw e : Prog C ε α) :=
  (emits_throw e).mono fun _ _ _ h => by simp [h.1]

theorem Issues.bind (h : Issues P m) (hf : ∀ a, Issues P (f a)) : Issues P (m >>= f) := by
  refine Emits.bind h (fun _ cs a hcs => (hf a).mono fun _ cs' r hcs' _ => ?_) fun _ _ _ => id
  intro c hc
  rcases List.mem_append.1 hc with hc | hc
  · exact hcs c hc
  · exact hcs' c hc

/-! ## Environments with a state -/

variable {S : Type} (step : C → S → R × S)

/-- The state of an environment after commands. -/
def stateAfter (s : S) (cs : List C) : S := cs.foldl (fun s c => (step c s).2) s

/-- The replies of an environment that starts in a state. -/
def replies [Inhabited R] (s : S) (cs : List C) : R :=
  match cs.getLast? with
  | some c => (step c (stateAfter step s cs.dropLast)).1
  | none => default

/-- A device goes on from its state. -/
theorem stateAfter_append (s : S) (cs cs' : List C) :
    stateAfter step s (cs ++ cs') = stateAfter step (stateAfter step s cs) cs' :=
  List.foldl_append

theorem replies_append [Inhabited R] (s : S) (past : List C) (c : C) :
    replies step s (past ++ [c]) = (step c (stateAfter step s past)).1 := by
  rw [replies, List.getLast?_append_of_ne_nil _ (List.cons_ne_nil c []), List.dropLast_concat]
  rfl

end Prog

end W132d
