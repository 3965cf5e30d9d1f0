import W132d.Remote.Recording

/-!
# Pairing

A call of `Pair()` is an attempt for the session of its time, and its reply may come late: by then
the next tick may have raised, which clears `busy`, and a new session may have begun. So the
callbacks take the token of their session. The callback of a success goes by it (`_finish_pair`):
it leaves the window of another session open. The callback of an error (`_err`) looks at it only
where it resets `pair_token`. It clears `busy`, cancels the pairing and sets the back-off whichever
attempt it is for.

* `RepliesOwn`: the reply that comes next acts on nothing but its own attempt;
* `NoOverlap`: `_tick` does not call `Pair()` while the reply for another session is to come;
* `repliesOwn_iff`: in a run, replies act on nothing but their own attempts exactly if no attempts
  for different sessions overlap.

How the theorem is proved: every handler but the tick leaves the outstanding attempt and the replies
to come, or clears the attempt, or takes one reply off (`step_own`); the tick makes at most one
attempt more (`tick_pairs`, `tick_own`). So whether the replies to come are for the outstanding
attempt (`Own`) changes only where an attempt is made: it is lost exactly if there is a reply to
come for another session. That the next reply then acts on the wrong attempt is seen from what the
callbacks do (`repliesOwn_iff_own`).
-/

namespace W132d.Remote

open Raising

namespace Bridge

/-- The next reply acts on nothing but its own attempt: an error leaves `busy`, the pairing and the
    back-off alone if the outstanding attempt is for another session, and a success leaves the
    window of another session open. -/
structure RepliesOwn (s : Bridge) : Prop where
  error : ∀ token env s', bridge.step s (.pairFailed env token) = some s' →
    ∀ other, s.pairToken = some other → other ≠ token →
      s'.busy = s.busy ∧ s'.cancels = s.cancels ∧ s'.retryAfter = s.retryAfter
  success : ∀ token env s', bridge.step s (.pairOk env token) = some s' →
    ∀ session, s.pairFlag = some session → session.token ≠ token → s'.pairFlag = some session

/-- The session for which `_tick` calls `Pair()`. -/
def pairsFor (env : TickEnv) (s : Bridge) : Option String :=
  match (tickStart env).runFrom s with
  | (.ok (some next), _) => if env.pairs then next.token else none
  | _ => none

/-- `_tick` does not call `Pair()` while the reply for another session is to come. -/
def NoOverlap (s : Bridge) : Event → Prop
  | .tick env => ∀ token, pairsFor env s = some token → ∀ other ∈ s.attempts, other = token
  | _ => True

instance (s : Bridge) (e : Event) : Decidable (NoOverlap s e) :=
  match e with
  | .tick env =>
    match h : pairsFor env s with
    | none => .isTrue fun _ h' => absurd (h.symm.trans h') nofun
    | some token =>
      decidable_of_iff (∀ other ∈ s.attempts, other = token)
        ⟨fun hall _ h' => Option.some.inj (h.symm.trans h') ▸ hall, fun hno => hno token h⟩
  | .value .. | .device .. | .ifaceAdded .. | .controlReply .. | .pairOk .. | .pairFailed ..
  | .openWindow .. => .isTrue trivial

/-- The replies to come are for the outstanding attempt. -/
def Own (s : Bridge) : Prop :=
  ∀ token ∈ s.attempts, ∀ other, s.pairToken = some other → other = token

variable {s s' t : Bridge} {I : Bridge → Prop}

/-! ## Replies -/

/-- A success leaves the window of another session open. -/
theorem finishPair_pairFlag {env : DiscoveryEnv} {token : String} {session : Session}
    (h : s.pairFlag = some session) (hne : session.token ≠ token) :
    (finishPair env token).runFrom s = (.ok (), s) := by
  rw [finishPair, runFrom_bind_ok runFrom_get, if_pos]
  · rfl
  · rw [h]
    exact decide_eq_true hne

/-- Replies act on nothing but their own attempts exactly if those to come are for the
    outstanding one. -/
theorem repliesOwn_iff_own : RepliesOwn s ↔ Own s := by
  constructor
  · intro h token hmem other hother
    by_contra hne
    -- An error that is not final sets the back-off.
    have hstep : bridge.step s (.pairFailed ⟨.inProgress, false, s.retryAfter, 0,
        ⟨none, false, none⟩⟩ token) = some _ := if_pos hmem
    have hretry := (h.error token _ _ hstep other hother hne).2.2
    exact absurd hretry (Nat.ne_of_gt (Nat.lt_add_of_pos_right (by decide)))
  · intro h
    refine ⟨fun token env s' hstep other hother hne => ?_,
      fun token env s' hstep session hsession hne => ?_⟩
    · exact absurd (h token (step_pairFailed hstep).1 other hother) hne
    · obtain ⟨-, rfl⟩ := step_pairOk hstep
      rw [@finishPair_pairFlag { s with attempts := s.attempts.erase token } env token session
        hsession hne]
      exact hsession

/-! ## Attempts -/

/-- The outstanding attempt and the replies to come are as given. -/
def Pending (token : Option String) (attempts : List String) (s : Bridge) : Prop :=
  s.pairToken = token ∧ s.attempts = attempts

theorem adoptDevice_pairing (path : Option Path) (s : Bridge) :
    (adoptDevice path s).pairToken = s.pairToken ∧ (adoptDevice path s).attempts = s.attempts := by
  rw [adoptDevice]
  split_ifs <;> exact ⟨rfl, rfl⟩

theorem connectionChanged_pairing (now : ℕ) (connected : Bool) (s : Bridge) :
    (connectionChanged now connected s).pairToken = s.pairToken ∧
      (connectionChanged now connected s).attempts = s.attempts := by
  rw [connectionChanged]
  split_ifs
  · exact ⟨rfl, rfl⟩
  · exact ⟨rfl, rfl⟩
  · rw [endRecording]
    split_ifs <;> exact ⟨rfl, rfl⟩

/-- A handler that makes no attempt leaves the replies to come, and the outstanding attempt or
    none. -/
theorem stable_own : Stable Own where
  rmap _ _ hs := hs
  discovering _ _ hs := hs
  connSince _ _ hs := hs
  busy _ _ hs := hs
  retryAfter _ _ hs := hs
  pairFlag _ _ hs := hs
  cancels _ _ hs := hs
  finished _ _ _ := fun _ _ _ h => absurd h nofun
  failed s token hs := by
    intro token' hmem other hother
    refine hs token' hmem other ?_
    dsimp only at hother
    split at hother
    · exact absurd hother nofun
    · exact hother
  adopted s path hs := by
    rw [Own, (adoptDevice_pairing path s).1, (adoptDevice_pairing path s).2]
    exact hs
  changed s now connected hs := by
    rw [Own, (connectionChanged_pairing now connected s).1,
      (connectionChanged_pairing now connected s).2]
    exact hs

/-- So are the replies to come. -/
theorem stable_attempts (l : List String) : Stable fun s => s.attempts = l where
  rmap _ _ hs := hs
  discovering _ _ hs := hs
  connSince _ _ hs := hs
  busy _ _ hs := hs
  retryAfter _ _ hs := hs
  pairFlag _ _ hs := hs
  cancels _ _ hs := hs
  finished _ _ hs := hs
  failed _ _ hs := hs
  adopted s path hs := (adoptDevice_pairing path s).2.trans hs
  changed s now connected hs := (connectionChanged_pairing now connected s).2.trans hs

theorem apart_own : Apart Own where
  voice _ _ hs := hs
  recordingSince _ _ hs := hs
  controls _ _ hs := hs
  rmap _ _ hs := hs

theorem apart_pending (token : Option String) (l : List String) : Apart (Pending token l) where
  voice _ _ hs := hs
  recordingSince _ _ hs := hs
  controls _ _ hs := hs
  rmap _ _ hs := hs

/-- What `_tick` preserves where it goes on after `Pair()` holds after it. -/
theorem tick_after {env : TickEnv} {next : Next} (hI : Apart I)
    (hbusy : ∀ s on, I s → I { s with busy := on })
    (hsince : ∀ s since, I s → I { s with connSince := since })
    (hrun : (tickStart env).runFrom s = (.ok (some next), t))
    (ht : I ((startPair env next).runFrom t).2) : I (tick env s) := by
  have hbefore : I ((beforeSilence env).runFrom s).2 := by
    rw [beforeSilence, runFrom_bind_ok hrun]
    exact keeps_after ht fun _ =>
      Keeps.ite (fun _ => keeps_tickServices hsince) fun _ => keeps_pure _
  have hbody : I ((tickBody env).runFrom s).2 := by
    rw [tickBody]
    exact keeps_after hbefore fun _ => keeps_get.bind fun _ =>
      Keeps.ite (fun _ => hI.stopRecording _) fun _ => keeps_pure _
  rw [tick]
  cases hrun : (tickBody env).runFrom s with
  | mk x u =>
    rw [hrun] at hbody
    cases x with
    | ok _ => exact hbody
    | error _ => exact hbusy _ _ hbody

/-- What `_tick` preserves up to `Pair()` holds after it if it does not get there. -/
theorem tick_early {env : TickEnv} (hI : Keeps I (tickStart env))
    (hbusy : ∀ s on, I s → I { s with busy := on }) (hs : I s)
    (hnext : ∀ next t, (tickStart env).runFrom s ≠ (.ok (some next), t)) : I (tick env s) := by
  have hstart := hI s hs
  rw [tick, tickBody]
  cases hrun : (tickStart env).runFrom s with
  | mk x u =>
    rw [hrun] at hstart
    rcases x with e | _ | next
    · have hbefore : (beforeSilence env).runFrom s = (.error e, u) := runFrom_bind_error hrun
      rw [runFrom_bind_error hbefore]
      exact hbusy _ _ hstart
    · have hbefore : (beforeSilence env).runFrom s = (.ok false, u) := by
        rw [beforeSilence, runFrom_bind_ok hrun]
        rfl
      rw [runFrom_bind_ok hbefore]
      exact hstart
    · exact absurd hrun (hnext next u)

/-- Where `_tick` calls `Pair()`. -/
theorem tick_pairs {env : TickEnv} {token : String} (h : pairsFor env s = some token) :
    Pending (some token) (token :: s.attempts) (tick env s) := by
  rw [pairsFor] at h
  split at h
  · rename_i next t hrun
    have hattempts : t.attempts = s.attempts := by
      have h := (stable_attempts s.attempts).tickStart env s rfl
      rwa [hrun] at h
    refine tick_after (apart_pending _ _) (fun _ _ h => h) (fun _ _ h => h) hrun ?_
    split at h
    · rename_i hpairs
      rw [startPair, h]
      dsimp only
      rw [runFrom_bind_ok (runFrom_modify _), if_pos hpairs]
      exact ⟨rfl, congrArg (token :: ·) hattempts⟩
    · exact absurd h nofun
  · exact absurd h nofun

/-- Where it does not. -/
theorem tick_own {env : TickEnv} (h : pairsFor env s = none) (hs : Own s) : Own (tick env s) := by
  by_cases hnext : ∃ next t, (tickStart env).runFrom s = (.ok (some next), t)
  · obtain ⟨next, t, hrun⟩ := hnext
    have ht : Own t := by
      have h := stable_own.tickStart env s hs
      rwa [hrun] at h
    refine tick_after apart_own (fun _ _ h => h) (fun _ _ h => h) hrun ?_
    rw [pairsFor, hrun] at h
    dsimp only at h
    rw [startPair]
    split
    · exact ht
    · rename_i token htoken
      have hpairs : ¬env.pairs = true := fun hpairs => by
        rw [if_pos hpairs, htoken] at h
        cases h
      rw [runFrom_bind_ok (runFrom_modify _), if_neg hpairs]
      exact fun _ _ _ h => absurd h.symm (Option.some_ne_none _)
  · exact tick_early (stable_own.tickStart env) (fun _ _ h => h) hs
      fun next t hrun => hnext ⟨next, t, hrun⟩

/-! ## Runs -/

theorem own_erase {token : String} (hs : Own s) :
    Own { s with attempts := s.attempts.erase token } :=
  fun other hmem => hs other (List.mem_of_mem_erase hmem)

/-- An attempt is the only one exactly if it does not overlap another one. -/
theorem tick_own_iff {env : TickEnv} (hs : Own s) :
    Own (tick env s) ↔ NoOverlap s (.tick env) := by
  cases h : pairsFor env s with
  | none => exact iff_of_true (tick_own h hs) fun token h' => absurd (h.symm.trans h') nofun
  | some token =>
    obtain ⟨htoken, hattempts⟩ := tick_pairs h
    rw [Own, htoken, hattempts, NoOverlap]
    constructor
    · intro hall token' h' other hmem
      obtain rfl := Option.some.inj (h.symm.trans h')
      exact (hall other (List.mem_cons_of_mem _ hmem) token rfl).symm
    · rintro hno other hmem _ ⟨⟩
      rcases List.mem_cons.1 hmem with rfl | hmem
      · rfl
      · exact (hno token h other hmem).symm

/-- No other step makes an attempt. -/
theorem step_own {e : Event} (hs : Own s) (hstep : bridge.step s e = some s') :
    Own s' ↔ NoOverlap s e := by
  cases e with
  | value e env path data =>
    obtain rfl := Option.some.inj hstep
    exact iff_of_true (apart_own.onValue e env path data s hs) trivial
  | device now env path =>
    obtain rfl := Option.some.inj hstep
    exact iff_of_true (stable_own.onDevice now env path hs) trivial
  | ifaceAdded matching current path =>
    obtain rfl := Option.some.inj hstep
    exact iff_of_true (stable_own.onIfaceAdded matching current path hs) trivial
  | controlReply on ctlSeq failed =>
    refine iff_of_true ?_ trivial
    obtain ⟨-, rfl⟩ | ⟨-, rfl⟩ := step_controlReply hstep
    · exact hs
    · exact hs
  | tick env =>
    obtain rfl := Option.some.inj hstep
    exact tick_own_iff hs
  | pairOk env token =>
    refine iff_of_true ?_ trivial
    obtain ⟨-, rfl⟩ := step_pairOk hstep
    exact stable_own.finishPair env token _ (own_erase hs)
  | pairFailed env token =>
    refine iff_of_true ?_ trivial
    obtain ⟨-, rfl⟩ := step_pairFailed hstep
    exact stable_own.pairFailed env token _ (own_erase hs)
  | openWindow now session =>
    obtain rfl := Option.some.inj hstep
    exact iff_of_true hs trivial

/-- In a run, replies act on nothing but their own attempts exactly if no `Pair()` is called while
    the reply for another session is to come. -/
theorem repliesOwn_iff {es : List Event} (hrun : bridge.run init es = some s) :
    bridge.Always RepliesOwn init es ↔ bridge.Along NoOverlap init es := by
  refine Machine.always_iff_along (I := fun _ => True) (fun _ _ _ _ _ => trivial) ?_ trivial
    (repliesOwn_iff_own.2 fun _ h => absurd h List.not_mem_nil) hrun
  intro s e s' _ hs hstep
  rw [repliesOwn_iff_own]
  exact step_own (repliesOwn_iff_own.1 hs) hstep

/-- A tick with a remote control that is connected but not bonded, where the lookup of the adapter
    raises or not. -/
def tickAt (time : ℕ) (lookup : Bool) : TickEnv :=
  let discovery : DiscoveryEnv := ⟨none, lookup, none⟩
  let notify : NotifyEnv := ⟨0, [], []⟩
  ⟨fun _ => time, none, some ⟨true, false, true⟩, discovery, discovery, discovery, discovery,
    notify, notify, true, true, ⟨[], true, true⟩⟩

/-- An attempt for a session that is about to end. -/
def attempt : List Event :=
  [.openWindow 0 ⟨60000, "A", "fresh"⟩, .ifaceAdded true false remote, .tick (tickAt 59000 true)]

theorem repliesOwn_attempt : ∃ s, bridge.run init attempt = some s ∧ s.attempts = ["A"] ∧
    bridge.Always RepliesOwn init attempt := by
  obtain ⟨s, hrun, hs⟩ := @Machine.exists_run _ _ bridge init attempt
    (fun s => s.attempts = ["A"]) _ (by decide)
  exact ⟨s, hrun, hs, (repliesOwn_iff hrun).2 (by decide)⟩

/-- The next tick raises, a new session begins, and an attempt is made for it as well. -/
def overlap : List Event :=
  attempt ++ [.tick (tickAt 59900 false), .openWindow 61000 ⟨120000, "B", "fresh"⟩,
    .tick (tickAt 62000 true)]

/-- The error of an attempt ends the attempt for another session: it clears `busy`, cancels the
    pairing and sets the back-off. -/
theorem not_repliesOwn : ¬∀ es s, bridge.run init es = some s → RepliesOwn s := by
  intro h
  obtain ⟨s, s', hrun, hstep, hother, hbusy⟩ := @Machine.exists_run_step _ _ bridge init
    (.pairFailed ⟨.other, true, 63000, 63000, ⟨none, true, none⟩⟩ "A") overlap
    (fun s s' => s.pairToken = some "B" ∧ s.busy = true ∧ s'.busy = false ∧
      s'.cancels = s.cancels + 1 ∧ s'.retryAfter = 71000) _ (by decide)
  have hbusy' := ((h _ s hrun).error "A" _ s' hstep "B" hother (by decide)).1
  rw [hbusy.1, hbusy.2.1] at hbusy'
  exact absurd hbusy' (by decide)

end Bridge

end W132d.Remote
