import Mathlib.Tactic

/-!
# Serial runs

Processes share a store. The program of a process is a list of operations, each of which takes
effect at once: `exec op rest s` is the store after `op`, and what is left to do if `rest` was to
follow. (So an operation may branch on what it reads.)

* `Serial.Runs`: a program that runs alone, from a store to another one;
* `Serial.RunsAll`: programs that run one after another;
* `Serial.Phase`: a process has not begun, is inside its program or is through with it;
* `Serial.Serialized`: the store is what the processes have done one after another so far, and what
  one process has done since. An operation of a process keeps this if no other process is inside its
  program (`Serialized.step`);
* `Serialized.runsAll`: once all processes are through, they have run one after another.
-/

namespace W132d.Serial

variable {S O ι : Type*} (exec : O → List O → S → S × List O)

/-- A program that runs alone. -/
inductive Runs : List O → S → S → Prop
  | nil (s : S) : Runs [] s s
  | cons {op : O} {rest : List O} {s t : S} (h : Runs (exec op rest s).2 (exec op rest s).1 t) :
      Runs (op :: rest) s t

/-- Programs that run one after another. -/
def RunsAll : List (List O) → S → S → Prop
  | [], s, t => s = t
  | program :: programs, s, t => ∃ u, Runs exec program s u ∧ RunsAll programs u t

/-- Where a process is. -/
inductive Phase (O : Type*) where
  | before
  | inside (todo : List O)
  | after
  deriving DecidableEq

namespace Phase

/-- What is left to do of a program. -/
def todo (program : List O) : Phase O → List O
  | before => program
  | inside todo => todo
  | after => []

/-- Where a process is with something left to do. -/
def next [DecidableEq O] (todo : List O) : Phase O := if todo = [] then after else inside todo

/-- The process is inside its program. -/
def IsInside (p : Phase O) : Prop := ∃ todo, p = inside todo

instance : DecidablePred (IsInside (O := O))
  | before | after => .isFalse fun ⟨_, h⟩ => absurd h nofun
  | inside todo => .isTrue ⟨todo, rfl⟩

end Phase

/-- The processes of `order` have run one after another, and at most one other process is inside its
    program: alone, it would get from the store they have left to where it will get from here. -/
structure SerializedAs (program : ι → List O) (store₀ : S) (phase : ι → Phase O) (store : S)
    (order : List ι) (base : S) : Prop where
  nodup : order.Nodup
  mem : ∀ i, i ∈ order ↔ phase i = .after
  runs : RunsAll exec (order.map program) store₀ base
  one : ∀ i j, (phase i).IsInside → (phase j).IsInside → i = j
  alone : ∀ i todo t, phase i = .inside todo → Runs exec todo store t → Runs exec (program i) base t
  rest : (∀ i, ¬(phase i).IsInside) → store = base

/-- The store is what the processes have done one after another, and what one process has done
    since. -/
def Serialized (program : ι → List O) (store₀ : S) (phase : ι → Phase O) (store : S) : Prop :=
  ∃ order base, SerializedAs exec program store₀ phase store order base

variable {exec} {program : ι → List O} {store₀ store : S} {phase : ι → Phase O} {op : O}
  {rest : List O} {s t : S} {i : ι}

@[simp] theorem runs_nil_iff : Runs exec [] s t ↔ t = s :=
  ⟨fun h => by cases h; rfl, fun h => h ▸ .nil t⟩

@[simp] theorem runs_cons_iff :
    Runs exec (op :: rest) s t ↔ Runs exec (exec op rest s).2 (exec op rest s).1 t :=
  ⟨fun h => by cases h with | cons h => exact h, .cons⟩

/-- One more program. -/
theorem runsAll_concat {programs : List (List O)} {p : List O} :
    RunsAll exec (programs ++ [p]) s t ↔ ∃ u, RunsAll exec programs s u ∧ Runs exec p u t := by
  induction programs generalizing s with
  | nil => simp only [List.nil_append, RunsAll, exists_eq_right, exists_eq_left']
  | cons q programs ih =>
    simp only [List.cons_append, RunsAll, ih]
    constructor
    · rintro ⟨u, hq, v, hprograms, hp⟩
      exact ⟨v, ⟨u, hq, hprograms⟩, hp⟩
    · rintro ⟨v, ⟨u, hq, hprograms⟩, hp⟩
      exact ⟨u, hq, v, hprograms, hp⟩

/-- Nothing has been done yet. -/
theorem serialized_init (hphase : ∀ i, phase i = .before) :
    Serialized exec program store phase store := by
  have houtside : ∀ i, ¬(phase i).IsInside := fun i ⟨todo, h⟩ =>
    absurd ((hphase i).symm.trans h) nofun
  refine ⟨[], store, List.nodup_nil, fun i => ?_, rfl, fun i _ h => absurd h (houtside i),
    fun i todo _ h => absurd ⟨todo, h⟩ (houtside i), fun _ => rfl⟩
  rw [hphase i]
  exact iff_of_false List.not_mem_nil nofun

/-- What a process has left to do, it would do alone, whether it begins or goes on. -/
theorem SerializedAs.runs_of_todo {order : List ι} {base : S}
    (h : SerializedAs exec program store₀ phase store order base)
    (htodo : (phase i).todo (program i) = op :: rest) (halone : ∀ j, (phase j).IsInside → j = i)
    (ht : Runs exec (op :: rest) store t) : Runs exec (program i) base t := by
  cases hphase : phase i with
  | before =>
    -- Then no process is inside its program.
    have hstore : store = base := h.rest fun j hj => by
      obtain rfl := halone j hj
      obtain ⟨todo, hj⟩ := hj
      exact absurd (hphase.symm.trans hj) nofun
    rw [hphase] at htodo
    rw [← hstore, show program i = op :: rest from htodo]
    exact ht
  | inside todo =>
    rw [hphase] at htodo
    exact h.alone i todo t hphase ((show todo = op :: rest from htodo) ▸ ht)
  | after =>
    rw [hphase] at htodo
    exact absurd htodo nofun

/-- A process that has something left to do is not through. -/
theorem ne_after_of_todo (htodo : (phase i).todo (program i) = op :: rest) : phase i ≠ .after := by
  intro hphase
  rw [hphase] at htodo
  exact absurd htodo nofun

/-- An operation of a process while no other one is inside its program. -/
theorem Serialized.step [DecidableEq ι] [DecidableEq O]
    (h : Serialized exec program store₀ phase store)
    (htodo : (phase i).todo (program i) = op :: rest)
    (halone : ∀ j, (phase j).IsInside → j = i) :
    Serialized exec program store₀ (Function.update phase i (.next (exec op rest store).2))
      (exec op rest store).1 := by
  obtain ⟨order, base, h⟩ := h
  have hruns : ∀ t, Runs exec (op :: rest) store t → Runs exec (program i) base t :=
    fun t => h.runs_of_todo htodo halone
  have hafter : phase i ≠ .after := ne_after_of_todo htodo
  have hother :
      ∀ j, j ≠ i → ¬(Function.update phase i (.next (exec op rest store).2) j).IsInside := by
    intro j hne hj
    rw [Function.update_of_ne hne] at hj
    exact hne (halone j hj)
  have hone : ∀ j k, (Function.update phase i (.next (exec op rest store).2) j).IsInside →
      (Function.update phase i (.next (exec op rest store).2) k).IsInside → j = k := by
    intro j k hj hk
    rw [not_imp_not.1 (hother j) hj, not_imp_not.1 (hother k) hk]
  -- The process leaves its program, and is the next in the order; or it stays inside.
  by_cases hend : (exec op rest store).2 = []
  · refine ⟨order ++ [i], (exec op rest store).1, ?_, fun j => ?_, ?_, hone, fun j todo t hj => ?_,
      fun _ => rfl⟩
    · refine List.Nodup.append h.nodup (List.nodup_singleton i) ?_
      rw [List.disjoint_singleton, h.mem]
      exact hafter
    · rw [List.mem_append, List.mem_singleton, h.mem]
      by_cases hne : j = i
      · subst hne
        rw [Function.update_self, Phase.next, if_pos hend]
        exact iff_of_true (.inr rfl) rfl
      · rw [Function.update_of_ne hne]
        exact or_iff_left hne
    · rw [List.map_append, List.map_singleton, runsAll_concat]
      refine ⟨base, h.runs, hruns _ (.cons ?_)⟩
      rw [hend]
      exact .nil _
    · obtain rfl : j = i := not_imp_not.1 (hother j) ⟨todo, hj⟩
      rw [Function.update_self, Phase.next, if_pos hend] at hj
      exact absurd hj nofun
  · have hinside : Function.update phase i (.next (exec op rest store).2) i =
        .inside (exec op rest store).2 := by
      rw [Function.update_self, Phase.next, if_neg hend]
    refine ⟨order, base, h.nodup, fun j => ?_, h.runs, hone, fun j todo t hj ht => ?_,
      fun hrest => absurd ⟨_, hinside⟩ (hrest i)⟩
    · by_cases hne : j = i
      · subst hne
        rw [hinside, h.mem]
        exact iff_of_false hafter nofun
      · rw [Function.update_of_ne hne, h.mem]
    · obtain rfl : j = i := not_imp_not.1 (hother j) ⟨todo, hj⟩
      obtain rfl := Phase.inside.inj (hinside.symm.trans hj)
      exact hruns t (.cons ht)

/-- Once all processes are through, they have run one after another. -/
theorem Serialized.runsAll (h : Serialized exec program store₀ phase store)
    (hphase : ∀ i, phase i = .after) :
    ∃ order : List ι, order.Nodup ∧ (∀ i, i ∈ order) ∧
      RunsAll exec (order.map program) store₀ store := by
  obtain ⟨order, base, h⟩ := h
  have hstore : store = base := h.rest fun i ⟨todo, hi⟩ => absurd ((hphase i).symm.trans hi) nofun
  exact ⟨order, h.nodup, fun i => (h.mem i).2 (hphase i), hstore ▸ h.runs⟩

end W132d.Serial
