import W132d.Remote.Pairing

/-!
# The end of a pairing session

A pairing session is finished by `_finish_pair`, once its device is bonded: it counts the pairing,
clears `busy` and `pair_token`, removes the session file and stops the discovery. It is called when
the reply to `Pair()` says so, and by `_tick`, which does not rely on that reply. So it may be
called twice for a session, and it is to do its work once. It does nothing if the window of another
session is open, or if the session is the one that was finished last. But if another session was
finished since, and the window is closed, it finishes the session again.

* `finished`: the session that a step finishes;
* `Moves`, `step_moves`: what a step does to the session file, to the replies to come and to the
  sessions that are finished;
* `Ledger`: what is known of them after a run in which no two sessions have the same token;
* `Timely`: no late success comes when no window is open and another session was finished since;
* `finished_once_iff`: in a run, each session is finished at most once, and late successes change
  nothing, exactly if it is `Timely`.

What the bridge knows of sessions is in four of its fields (`sessions`): the session in the file,
the calls of `Pair()` whose reply is to come, the number of pairings, and the token of the session
that was finished last. Most handlers leave them alone (`OfSessions`), which is proved once for
every handler by the rules for computations that may raise (`Apart`); what is left are the tick, the
replies and the window that is opened (`Moves`).

The run lemma is `ledger`: as no two sessions have the same token, the session in the file is not
finished yet, each reply that is to come is for a session that was opened, and the one that was
finished last is remembered. From it follows when a success is ignored (`Ledger.ignores_iff`), and
from this, by induction on the run, that no session is finished twice if it is `Timely`. In the
other direction, a late success that is not ignored finishes its session once more.
-/

namespace W132d.Remote

open Raising

namespace Bridge

/-- The session that a step finishes. -/
def finished (s : Bridge) (e : Event) : List String :=
  match bridge.step s e with
  | some s' => if s'.pairs = s.pairs then [] else s'.completedToken.toList
  | none => []

variable {s s₀ s' t : Bridge} {e : Event} {es : List Event}

/-! ## What handlers do to sessions -/

/-- The session in the file has the token. -/
def Filed (s : Bridge) (token : String) : Prop := ∃ session, s.pairFlag = some session ∧
  session.token = token

/-- No session is finished, no reply has come, and if there is a session in the file, it is the one
    that was there in `s₀`. -/
structure Same (s₀ s : Bridge) : Prop where
  file : ∀ token, Filed s token → Filed s₀ token
  attempts : s.attempts = s₀.attempts
  pairs : s.pairs = s₀.pairs
  completed : s.completedToken = s₀.completedToken

/-- The session `token` is finished. -/
structure Finishes (s₀ : Bridge) (token : String) (s : Bridge) : Prop where
  pairs : s.pairs = s₀.pairs + 1
  completed : s.completedToken = some token
  file : s.pairFlag = none

/-- What a tick does: it may finish the session in the file, or make an attempt for it. -/
structure Ticks (s₀ s : Bridge) : Prop where
  file : ∀ token, Filed s token → Filed s₀ token
  attempts : ∀ token ∈ s.attempts, token ∈ s₀.attempts ∨ Filed s₀ token
  finish : (s.pairs = s₀.pairs ∧ s.completedToken = s₀.completedToken) ∨
    ∃ token, Filed s₀ token ∧ Finishes s₀ token s

theorem Same.ticks (h : Same s₀ s) : Ticks s₀ s :=
  ⟨h.file, fun _ hmem => .inl (h.attempts ▸ hmem), .inl ⟨h.pairs, h.completed⟩⟩

/-- The part of the state that is about sessions. -/
def sessions (s : Bridge) : Option Session × List String × ℕ × Option String :=
  (s.pairFlag, s.attempts, s.pairs, s.completedToken)

/-- Adopting a device leaves the sessions. -/
theorem adoptDevice_sessions (path : Option Path) (s : Bridge) :
    (adoptDevice path s).sessions = s.sessions := by
  rw [adoptDevice]
  split_ifs <;> rfl

theorem connectionChanged_sessions (now : ℕ) (connected : Bool) (s : Bridge) :
    (connectionChanged now connected s).sessions = s.sessions := by
  rw [connectionChanged]
  split_ifs
  · rfl
  · rfl
  · rw [endRecording]
    split_ifs <;> rfl

theorem armNotify_sessions (env : NotifyEnv) (dev : Path) (s : Bridge) :
    (armNotify env dev s).sessions = s.sessions := by
  rw [armNotify]
  split_ifs <;> rfl

theorem onDevice_sessions (now : ℕ) (env : PropsEnv) (path : Path) (s : Bridge) :
    (onDevice now env path s).sessions = s.sessions := by
  have hadopt : (if s.dev.isNone && env.matching then adoptDevice (some path) s else s).sessions =
      s.sessions := by
    split
    · exact adoptDevice_sessions _ s
    · rfl
  rw [onDevice]
  dsimp only
  generalize (if s.dev.isNone && env.matching then adoptDevice (some path) s else s) = t at hadopt
  split_ifs
  · exact hadopt
  · rw [armNotify_sessions]
    split
    · exact (connectionChanged_sessions _ _ t).trans hadopt
    · exact hadopt
  · split
    · exact (connectionChanged_sessions _ _ t).trans hadopt
    · exact hadopt

theorem onIfaceAdded_sessions (matching current : Bool) (path : Path) (s : Bridge) :
    (onIfaceAdded matching current path s).sessions = s.sessions := by
  rw [onIfaceAdded]
  split_ifs
  · rfl
  · rfl
  · exact adoptDevice_sessions _ s

/-- A property of the bridge that is about sessions alone. -/
def OfSessions (I : Bridge → Prop) : Prop := ∀ s t, I s → t.sessions = s.sessions → I t

section

variable {I : Bridge → Prop} (hI : OfSessions I)
include hI

/-- What is said of the sessions only holds whatever happens to the rest. -/
theorem apart_sessions : Apart I where
  voice _ _ hs := hI _ _ hs rfl
  recordingSince _ _ hs := hI _ _ hs rfl
  controls _ _ hs := hI _ _ hs rfl
  rmap _ _ hs := hI _ _ hs rfl

/-- Turning discovery on or off leaves the sessions. -/
theorem keeps_discovery (env : DiscoveryEnv) (on : Bool) : Keeps I (setDiscovery env on) :=
  keeps_setDiscovery fun _ _ hs => hI _ _ hs rfl

theorem keeps_modify_sessions {g : Bridge → Bridge} (hg : ∀ s, (g s).sessions = s.sessions) :
    Keeps I (modify g : Handler Unit) := keeps_modify fun s hs => hI _ _ hs (hg s)

/-- Setting up the link leaves the sessions. -/
theorem keeps_armLink (env : TickEnv) (dev : Path) (link : Link) : Keeps I (armLink env dev link) :=
  Keeps.ite (fun _ => (keeps_discovery hI _ _).bind fun _ =>
    keeps_modify_sessions hI (armNotify_sessions _ _)) fun _ => keeps_pure _

/-- An old bond is removed, and the session is marked. -/
theorem keeps_removeBond (env : TickEnv) (session : Session)
    (hmark : ∀ s, I s → I { s with
      pairFlag := Session.markPairPhase session.token "unbound" s.pairFlag }) :
    Keeps I (removeBond env session) := by
  refine (keeps_discovery hI _ _).bind fun _ => Keeps.ite (fun _ => ?_) fun _ => ?_
  · refine (keeps_modify hmark).bind fun _ => ?_
    refine (keeps_modify_sessions hI (adoptDevice_sessions none)).bind fun _ => ?_
    exact keeps_modify_sessions hI fun _ => rfl
  · exact keeps_modify_sessions hI fun _ => rfl

end

/-- `_finish_pair` returns early. -/
def Ignores (s : Bridge) (token : String) : Prop :=
  (∃ session, s.pairFlag = some session ∧ session.token ≠ token) ∨ s.completedToken = some token

/-- A session that is ignored is not finished again. -/
theorem finishPair_ignores {env : DiscoveryEnv} {token : String} (h : Ignores s token) :
    (finishPair env token).runFrom s = (.ok (), s) := by
  rw [finishPair, runFrom_bind_ok runFrom_get]
  obtain ⟨session, hfile, hne⟩ | hcompleted := h
  · rw [if_pos]
    · rfl
    · rw [hfile]
      exact decide_eq_true hne
  · rw [if_pos hcompleted]
    split_ifs <;> rfl

theorem finishPair_finishes (env : DiscoveryEnv) {token : String} (h : ¬Ignores s token) :
    ((finishPair env token).runFrom s).2.sessions =
      (none, s.attempts, s.pairs + 1, some token) := by
  have hopen : ¬s.pairFlag.any (fun current => current.token ≠ token) = true := by
    intro hany
    obtain ⟨session, hfile, hne⟩ := (Option.any_eq_true ..).1 hany
    exact h (.inl ⟨session, hfile, of_decide_eq_true hne⟩)
  have hclosed : (Session.closeWindow (some token) s.pairFlag).2 = none := by
    cases hfile : s.pairFlag with
    | none => rfl
    | some session =>
      rw [Session.closeWindow, if_neg]
      rintro ⟨other, hother, hne⟩
      obtain rfl := Option.some.inj hother
      exact h (.inl ⟨session, hfile, hne⟩)
  rw [finishPair, runFrom_bind_ok runFrom_get, if_neg hopen, if_neg fun h' => h (.inr h'),
    runFrom_bind_ok (runFrom_modify _)]
  have hkeeps : Keeps (fun t => t.sessions = (none, s.attempts, s.pairs + 1, some token))
      (setDiscovery env false) := keeps_setDiscovery fun _ _ h => h
  exact hkeeps _ (Prod.ext hclosed rfl)

/-! ## Ticks -/

/-- Whether the sessions are the same depends on them only. -/
theorem same_of_sessions (s₀ : Bridge) : OfSessions (Same s₀) := by
  intro s t h heq
  simp only [sessions, Prod.mk.injEq] at heq
  obtain ⟨hfile, hattempts, hpairs, hcompleted⟩ := heq
  refine ⟨fun token hfiled => h.file token ?_, hattempts.trans h.attempts, hpairs.trans h.pairs,
    hcompleted.trans h.completed⟩
  rwa [Filed, hfile] at hfiled

theorem ticks_of_sessions (s₀ : Bridge) : OfSessions (Ticks s₀) := by
  intro s t h heq
  simp only [sessions, Prod.mk.injEq] at heq
  obtain ⟨hfile, hattempts, hpairs, hcompleted⟩ := heq
  refine ⟨fun token hfiled => h.file token ?_, fun token hmem => h.attempts token ?_, ?_⟩
  · rwa [Filed, hfile] at hfiled
  · exact hattempts ▸ hmem
  · rw [hpairs, hcompleted]
    exact h.finish.imp_right fun ⟨token, hfiled, hfin⟩ =>
      ⟨token, hfiled, hpairs.trans hfin.pairs, hcompleted.trans hfin.completed,
        hfile.trans hfin.file⟩

/-- The session in the file is finished. -/
theorem Same.finishPair (env : DiscoveryEnv) {token : String} (h : Same s₀ s)
    (hfiled : Filed s₀ token) : Ticks s₀ ((finishPair env token).runFrom s).2 := by
  by_cases hignores : Ignores s token
  · rw [finishPair_ignores hignores]
    exact h.ticks
  · have heq := finishPair_finishes env hignores
    simp only [sessions, Prod.mk.injEq] at heq
    obtain ⟨hfile, hattempts, hpairs, hcompleted⟩ := heq
    refine ⟨fun other hother => ?_, fun other hmem => .inl ?_, .inr ⟨token, hfiled, ?_⟩⟩
    · obtain ⟨session, hsession, -⟩ := hother
      exact absurd (hfile.symm.trans hsession) nofun
    · exact h.attempts ▸ hattempts ▸ hmem
    · exact ⟨hpairs.trans (congrArg (· + 1) h.pairs), hcompleted, hfile⟩

/-- Marking a session leaves its token. -/
theorem filed_mark {session : Session} {token phase : String} {file : Option Session}
    (h : Session.markPairPhase token phase file = some session) :
    ∃ current, file = some current ∧ session.token = current.token := by
  cases file with
  | none => exact absurd h nofun
  | some current =>
    rw [Session.markPairPhase] at h
    split_ifs at h with hne
    · exact ⟨current, rfl, congrArg Session.token (Option.some.inj h).symm⟩
    · obtain rfl := Option.some.inj h
      exact ⟨current, rfl, (not_not.1 hne).symm⟩

/-- The phase of a session is marked. -/
theorem Ticks.mark (h : Ticks s₀ s) (token phase : String) :
    Ticks s₀ { s with pairFlag := Session.markPairPhase token phase s.pairFlag } := by
  refine ⟨?_, h.attempts, h.finish.imp_right ?_⟩
  · rintro other ⟨session, hsession, rfl⟩
    obtain ⟨current, hcurrent, heq⟩ := filed_mark hsession
    exact h.file _ ⟨current, hcurrent, heq.symm⟩
  · rintro ⟨token, hfiled, hfin⟩
    refine ⟨token, hfiled, hfin.pairs, hfin.completed, ?_⟩
    change Session.markPairPhase _ _ s.pairFlag = none
    rw [hfin.file]
    rfl

/-- The session that `_tick` goes on with is the one in the file. -/
def FromFile (s₀ : Bridge) (token : Option String) : Prop := ∀ t, token = some t → Filed s₀ t

/-- A device that is bonded finishes its session. -/
theorem ends_finishBonded (env : TickEnv) (link : Link) {session : Option Session}
    (hsession : FromFile s₀ (session.map (·.token))) :
    Ends (Same s₀) (finishBonded env link session)
      (fun session t => FromFile s₀ (session.map (·.token)) ∧ Ticks s₀ t) (Ticks s₀) := by
  refine keeps_get.bind_ends (fun s => ?_) fun _ h => h.ticks
  cases session with
  | none => exact ends_pure _ fun _ h => ⟨hsession, h.ticks⟩
  | some session =>
    refine Ends.ite (fun _ => ?_) fun _ => ends_pure _ fun _ h => ⟨hsession, h.ticks⟩
    refine Ends.bind (J := fun _ => Ticks s₀) (fun s hs => ?_)
      fun _ => ends_pure _ fun _ h => ⟨nofun, h⟩
    have hticks := hs.finishPair env.finish (hsession _ rfl)
    cases hrun : (finishPair env.finish session.token).runFrom s with
    | mk x t =>
      rw [hrun] at hticks
      cases x <;> exact hticks

theorem ends_tickReady (env : TickEnv) (dev : Path) (link : Link) {session : Option Session}
    (hsession : FromFile s₀ (session.map (·.token))) :
    Ends (Ticks s₀) (tickReady env dev link session)
      (fun next t => FromFile s₀ (next.bind (·.token)) ∧ Ticks s₀ t) (Ticks s₀) := by
  have hI := ticks_of_sessions s₀
  have hend : ∀ next : Option Next, FromFile s₀ (next.bind (·.token)) →
      Ends (Ticks s₀) (pure next : Handler (Option Next))
        (fun next t => FromFile s₀ (next.bind (·.token)) ∧ Ticks s₀ t) (Ticks s₀) :=
    fun next hnext => ends_pure _ fun _ h => ⟨hnext, h⟩
  unfold Bridge.tickReady
  split
  · exact (keeps_removeBond hI env _ fun s hs => hs.mark _ _).bind_ends (fun _ => hend _ nofun)
      fun _ h => h
  · refine (keeps_discovery hI _ _).bind_ends (fun _ => Ends.ite (fun _ => ?_) fun _ => ?_)
      fun _ h => h
    · refine Ends.ite (fun _ => ?_) fun _ => hend _ nofun
      refine (keeps_modify_sessions hI (armNotify_sessions _ _)).bind_ends (fun _ => ?_)
        fun _ h => h
      refine Keeps.bind_ends ?_ (fun _ => hend _ hsession) fun _ h => h
      exact Keeps.ite (fun _ => keeps_discovery hI _ _) fun _ => keeps_pure _
    · split
      · exact hend _ nofun
      · exact hend _ hsession

theorem ends_tickLink (env : TickEnv) (dev : Path) (link : Link) {session : Option Session}
    (hsession : FromFile s₀ (session.map (·.token))) :
    Ends (Same s₀) (tickLink env dev link session)
      (fun next t => FromFile s₀ (next.bind (·.token)) ∧ Ticks s₀ t) (Ticks s₀) := by
  have hI := same_of_sessions s₀
  have hJ := ticks_of_sessions s₀
  refine (keeps_modify_sessions hI (connectionChanged_sessions _ _)).bind_ends (fun _ => ?_)
    fun _ h => h.ticks
  refine (keeps_modify_sessions hI fun s => ?_).bind_ends (fun _ => ?_) fun _ h => h.ticks
  · rw [busyDeadline]
    split <;> rfl
  refine (ends_finishBonded env link hsession).bind fun session => ?_
  -- The session that is left is from the file, whatever the rest of the tick does.
  intro s hs
  have hrest : Ends (Ticks s₀) (do
      armLink env dev link
      let s ← get
      if s.busy || env.now .retry < s.retryAfter then pure none
        else tickReady env dev link session)
      (fun next t => FromFile s₀ (next.bind (·.token)) ∧ Ticks s₀ t) (Ticks s₀) :=
    (keeps_armLink hJ env dev link).bind_ends (fun _ => keeps_get.bind_ends (fun _ =>
      Ends.ite (fun _ => ends_pure _ fun _ h => ⟨fun _ hnone => absurd hnone.symm
          (Option.some_ne_none _), h⟩) fun _ =>
        ends_tickReady env dev link hs.1) fun _ h => h) fun _ h => h
  exact hrest s hs.2

/-- The session of a tick, and what is left in the file, is the one in the file. -/
theorem pairingSession_filed {now : ℕ} {file : Option Session} {session : Session} :
    ((Session.pairingSession now file).1 = some session → file = some session) ∧
      ((Session.pairingSession now file).2 = some session → file = some session) := by
  cases file with
  | none => exact ⟨nofun, nofun⟩
  | some current =>
    rw [Session.pairingSession]
    split
    · exact ⟨id, id⟩
    · refine ⟨nofun, fun h => absurd h ?_⟩
      rw [Session.closeWindow, if_neg]
      · exact nofun
      · rintro ⟨token, htoken, hne⟩
        exact hne (Option.some.inj htoken)

/-- Reading the file of the session changes nothing. -/
theorem same_pairingSession (now : ℕ) (s : Bridge) :
    Same s { s with pairFlag := (Session.pairingSession now s.pairFlag).2 } := by
  refine ⟨?_, rfl, rfl, rfl⟩
  rintro token ⟨session, hsession, htoken⟩
  exact ⟨session, pairingSession_filed.2 hsession, htoken⟩

theorem ends_tickStart (env : TickEnv) (s : Bridge) :
    Ends (· = s) (tickStart env)
      (fun next t => FromFile s (next.bind (·.token)) ∧ Ticks s t) (Ticks s) := by
  intro t ht
  rw [ht, tickStart, runFrom_bind_ok runFrom_get, runFrom_bind_ok (runFrom_modify _)]
  have hI := same_of_sessions s
  have hsession : FromFile s
      ((Session.pairingSession (env.now .session) s.pairFlag).1.map (·.token)) := by
    intro token htoken
    obtain ⟨session, hsession, rfl⟩ := Option.map_eq_some_iff.1 htoken
    exact ⟨session, pairingSession_filed.1 hsession, rfl⟩
  refine (?_ : Ends (Same s) _ _ _) _ (hI _ _ (same_pairingSession (env.now .session) s)
    (adoptDevice_sessions _ _))
  have hend : Ends (Same s) (pure none : Handler (Option Next))
      (fun next t => FromFile s (next.bind (·.token)) ∧ Ticks s t) (Ticks s) :=
    ends_pure _ fun _ h => ⟨nofun, h.ticks⟩
  split
  · exact (keeps_discovery hI _ _).bind_ends (fun _ => hend) fun _ h => h.ticks
  · split
    · exact (keeps_modify_sessions hI (adoptDevice_sessions none)).bind_ends (fun _ => hend)
        fun _ h => h.ticks
    · exact ends_tickLink env _ _ hsession

/-- What a tick does to sessions. -/
theorem tick_ticks (env : TickEnv) (s : Bridge) : Ticks s (tick env s) := by
  have hI := ticks_of_sessions s
  -- The one attempt that a tick makes is for the session of the file.
  have hpair : ∀ next : Next, FromFile s next.token → Keeps (Ticks s) (startPair env next) := by
    intro next hnext
    rw [startPair]
    split
    · exact keeps_pure _
    · rename_i token htoken
      refine Keeps.bind (fun t ht => hI _ _ ht rfl) fun _ => ?_
      refine Keeps.ite (fun _ => ?_) fun _ t ht => hI _ _ ht rfl
      refine keeps_modify fun t ht => ⟨ht.file, fun other hmem => ?_, ?_⟩
      · rcases List.mem_cons.1 hmem with rfl | hmem
        · exact .inr (hnext _ htoken)
        · exact ht.attempts other hmem
      · refine ht.finish.imp_right ?_
        rintro ⟨other, hfiled, hfin⟩
        exact ⟨other, hfiled, hfin.pairs, hfin.completed, hfin.file⟩
  -- What comes in front of the check for silence ends with that attempt.
  have hbefore : Ends (· = s) (beforeSilence env) (fun _ => Ticks s) (Ticks s) := by
    refine (ends_tickStart env s).bind fun next => ?_
    rintro t ⟨hnext, ht⟩
    refine (?_ : Ends (Ticks s) _ _ _) t ht
    cases next with
    | none => exact ends_pure _ fun _ h => h
    | some next =>
      refine (hpair next hnext).bind_ends (fun _ => Ends.ite (fun _ => ?_) fun _ => ?_) fun _ h => h
      · exact (keeps_tickServices fun _ _ hs => hI _ _ hs rfl).ends (fun _ _ h => h) fun _ h => h
      · exact ends_pure _ fun _ h => h
  have hbody : Ends (· = s) (tickBody env) (fun _ => Ticks s) (Ticks s) := by
    refine hbefore.bind fun reached => Keeps.ends ?_ (fun _ _ h => h) fun _ h => h
    exact keeps_get.bind fun _ => Keeps.ite (fun _ => (apart_sessions hI).stopRecording _)
      fun _ => keeps_pure _
  have hrun := hbody s rfl
  rw [tick]
  cases h : (tickBody env).runFrom s with
  | mk x t =>
    rw [h] at hrun
    cases x with
    | ok _ => exact hrun
    | error _ => exact hI _ _ hrun rfl

/-! ## Steps -/

/-- The token of the session that an event opens a window for. -/
def openedToken : Event → Option String
  | .openWindow _ session => some session.token
  | _ => none

/-- What a step does to sessions. -/
structure Moves (s : Bridge) (e : Event) (s' : Bridge) : Prop where
  file : ∀ token, Filed s' token → Filed s token ∨ openedToken e = some token
  attempts : ∀ token ∈ s'.attempts, token ∈ s.attempts ∨ Filed s token
  finish : (s'.pairs = s.pairs ∧ s'.completedToken = s.completedToken) ∨
    ∃ token, Finishes s token s' ∧ (Filed s token ∨
      ∃ env, e = .pairOk env token ∧ token ∈ s.attempts ∧ ¬Ignores s token)

theorem same_refl (s : Bridge) : Same s s := ⟨fun _ h => h, rfl, rfl, rfl⟩

theorem Same.trans (h : Same s₀ s) (h' : Same s t) : Same s₀ t :=
  ⟨fun token hfiled => h.file token (h'.file token hfiled), h'.attempts.trans h.attempts,
    h'.pairs.trans h.pairs, h'.completed.trans h.completed⟩

/-- What a tick does is one of the moves. -/
theorem Ticks.moves (h : Ticks s s') : Moves s e s' :=
  ⟨fun token hfiled => .inl (h.file token hfiled), h.attempts,
    h.finish.imp_right fun ⟨token, hfiled, hfin⟩ => ⟨token, hfin, .inl hfiled⟩⟩

theorem moves_of_sessions (h : s'.sessions = s.sessions) : Moves s e s' :=
  (ticks_of_sessions s s s' (same_refl s).ticks h).moves

/-- A failure finishes no session. -/
theorem pairFailed_same (env : FailEnv) (token : String) (s : Bridge) :
    Same s ((pairFailed env token).runFrom s).2 := by
  have hI := same_of_sessions s
  have hend : Ends (Same s) (pairFailed env token) (fun _ => Same s) (Same s) := by
    refine Keeps.bind_ends (fun _ ht => hI _ _ ht rfl) (fun _ => ?_) fun _ h => h
    refine Ends.ite (fun _ => ?_) fun _ => ?_
    · exact Keeps.ends (fun _ ht => hI _ _ ht rfl) (fun _ _ h => h) fun _ h => h
    · refine Keeps.bind_ends (fun _ ht => hI _ _ ht rfl) (fun _ => ?_) fun _ h => h
      refine Ends.bind (J := fun a t => a = t ∧ Same s t) (ends_get fun t ht => ⟨rfl, ht⟩)
        fun a => ?_
      refine Ends.bind (J := fun _ => Same s) (ends_modify ?_) fun _ => ?_
      · rintro t ⟨rfl, ht⟩
        exact ht.trans (same_pairingSession env.later a)
      · exact Keeps.ends (Keeps.ite (fun _ => keeps_discovery hI _ _) fun _ => keeps_pure _)
          (fun _ _ h => h) fun _ h => h
  have hrun := hend s (same_refl s)
  cases h : (pairFailed env token).runFrom s with
  | mk x t =>
    rw [h] at hrun
    cases x <;> exact hrun

theorem step_moves (hstep : bridge.step s e = some s') : Moves s e s' := by
  -- Only the end of a pairing and the opening of a window do something to the sessions; the other
  -- events are frame cases.
  cases e with
  | value env control path data =>
    obtain rfl := Option.some.inj hstep
    have hI : OfSessions fun t => t.sessions = s.sessions := fun _ _ h heq => heq.trans h
    exact moves_of_sessions ((apart_sessions hI).onValue env control path data s rfl)
  | device now env path =>
    obtain rfl := Option.some.inj hstep
    exact moves_of_sessions (onDevice_sessions now env path s)
  | ifaceAdded matching current path =>
    obtain rfl := Option.some.inj hstep
    exact moves_of_sessions (onIfaceAdded_sessions matching current path s)
  | controlReply on ctlSeq failed =>
    obtain ⟨-, rfl⟩ | ⟨-, rfl⟩ := step_controlReply hstep
    · exact moves_of_sessions rfl
    · exact moves_of_sessions rfl
  | tick env =>
    obtain rfl := Option.some.inj hstep
    exact (tick_ticks env s).moves
  | pairOk env token =>
    obtain ⟨hmem, rfl⟩ := step_pairOk hstep
    -- A session that was finished is ignored. Otherwise this event finishes it.
    by_cases hignores : Ignores s token
    · rw [finishPair_ignores (s := { s with attempts := s.attempts.erase token }) hignores]
      exact ⟨fun _ h => .inl h, fun _ h => .inl (List.mem_of_mem_erase h), .inl ⟨rfl, rfl⟩⟩
    · have heq := finishPair_finishes (s := { s with attempts := s.attempts.erase token })
        env hignores
      simp only [sessions, Prod.mk.injEq] at heq
      obtain ⟨hfile, hattempts, hpairs, hcompleted⟩ := heq
      refine ⟨fun other hother => ?_, fun other hother => .inl ?_, .inr ⟨token, ?_, .inr ?_⟩⟩
      · obtain ⟨session, hsession, -⟩ := hother
        exact absurd (hfile.symm.trans hsession) nofun
      · exact List.mem_of_mem_erase (hattempts ▸ hother)
      · exact ⟨hpairs, hcompleted, hfile⟩
      · exact ⟨env, rfl, hmem, hignores⟩
  | pairFailed env token =>
    obtain ⟨-, rfl⟩ := step_pairFailed hstep
    have hsame := pairFailed_same env token { s with attempts := s.attempts.erase token }
    exact ⟨fun other hother => .inl (hsame.file other hother), fun other hother =>
      .inl (List.mem_of_mem_erase (hsame.attempts ▸ hother)), .inl ⟨hsame.pairs, hsame.completed⟩⟩
  | openWindow now session =>
    obtain rfl := Option.some.inj hstep
    refine ⟨fun token => ?_, fun _ h => .inl h, .inl ⟨rfl, rfl⟩⟩
    rintro ⟨current, hcurrent, rfl⟩
    -- A window keeps the session that is open, or begins the new one.
    change Session.openWindow now session s.pairFlag = some current at hcurrent
    cases hfile : s.pairFlag with
    | none =>
      rw [hfile] at hcurrent
      exact .inr (congrArg (Option.map Session.token) hcurrent)
    | some old =>
      rw [hfile, Session.openWindow] at hcurrent
      split_ifs at hcurrent
      · exact .inl ⟨current, hfile.trans hcurrent, rfl⟩
      · exact .inr (congrArg (Option.map Session.token) hcurrent)

/-! ## Runs -/

/-- The sessions that a run finishes. -/
def finishedBy (es : List Event) : List String := bridge.outputs finished init es

/-- The sessions of a run: the one in the file is not finished, replies come for sessions that were
    opened, and the session that was finished last is remembered. -/
structure Ledger (es : List Event) (s : Bridge) : Prop where
  file : ∀ token, Filed s token → token ∈ es.filterMap openedToken ∧ token ∉ finishedBy es
  attempts : ∀ token ∈ s.attempts, token ∈ es.filterMap openedToken
  finished : ∀ token ∈ finishedBy es, token ∈ es.filterMap openedToken
  completed : s.completedToken = (finishedBy es).getLast?

/-- What a step adds to the sessions that are finished. -/
theorem finishedBy_concat (hrun : bridge.run init es = some s) (hstep : bridge.step s e = some s') :
    finishedBy (es ++ [e]) =
      finishedBy es ++ if s'.pairs = s.pairs then [] else s'.completedToken.toList := by
  rw [finishedBy, Machine.outputs_concat hrun, finished, hstep]
  rfl

/-- The sessions that were finished are written down once more. -/
theorem step_ledger (hrun : bridge.run init es = some s) (hstep : bridge.step s e = some s')
    (hdistinct : ((es ++ [e]).filterMap openedToken).Nodup) (hs : Ledger es s) :
    Ledger (es ++ [e]) s' := by
  have hmoves := step_moves hstep
  have hopened : (es ++ [e]).filterMap openedToken =
      es.filterMap openedToken ++ (openedToken e).toList := by
    rw [List.filterMap_append]
    cases h : openedToken e <;> simp [h]
  have hmono : ∀ token ∈ es.filterMap openedToken, token ∈ (es ++ [e]).filterMap openedToken :=
    fun token hmem => hopened ▸ List.mem_append_left _ hmem
  -- A window that is opened is for a session that was not met.
  have hfresh : ∀ token, openedToken e = some token → token ∉ es.filterMap openedToken := by
    intro token htoken hmem
    rw [hopened, htoken] at hdistinct
    exact (List.nodup_append.1 hdistinct).2.2 token hmem token (List.mem_singleton_self _) rfl
  have hattempts : ∀ token ∈ s'.attempts, token ∈ (es ++ [e]).filterMap openedToken := by
    intro token hmem
    rcases hmoves.attempts token hmem with hmem | hfiled
    · exact hmono token (hs.attempts token hmem)
    · exact hmono token (hs.file token hfiled).1
  rcases hmoves.finish with ⟨hpairs, hcompleted⟩ | ⟨token, hfin, hwhich⟩
  · have hsame : finishedBy (es ++ [e]) = finishedBy es := by
      rw [finishedBy_concat hrun hstep, if_pos hpairs, List.append_nil]
    refine ⟨fun token hfiled => ?_, hattempts, ?_, ?_⟩
    · rw [hsame]
      rcases hmoves.file token hfiled with hfiled | hnew
      · exact ⟨hmono token (hs.file token hfiled).1, (hs.file token hfiled).2⟩
      · refine ⟨?_, fun hmem => hfresh token hnew (hs.finished token hmem)⟩
        rw [hopened, hnew]
        exact List.mem_append_right _ (List.mem_singleton_self _)
    · rw [hsame]
      exact fun token hmem => hmono token (hs.finished token hmem)
    · rw [hsame, hcompleted, hs.completed]
  · have hnext : finishedBy (es ++ [e]) = finishedBy es ++ [token] := by
      have hne : s'.pairs ≠ s.pairs := by rw [hfin.pairs]; exact (Nat.succ_ne_self _)
      rw [finishedBy_concat hrun hstep, if_neg hne, hfin.completed]
      rfl
    have htoken : token ∈ es.filterMap openedToken := by
      rcases hwhich with hfiled | ⟨env, -, hmem, -⟩
      · exact (hs.file token hfiled).1
      · exact hs.attempts token hmem
    refine ⟨fun other hfiled => ?_, hattempts, fun other hmem => ?_, ?_⟩
    · obtain ⟨session, hsession, -⟩ := hfiled
      exact absurd (hfin.file.symm.trans hsession) nofun
    · rw [hnext] at hmem
      rcases List.mem_append.1 hmem with hmem | hmem
      · exact hmono other (hs.finished other hmem)
      · exact List.mem_singleton.1 hmem ▸ hmono token htoken
    · rw [hnext, hfin.completed, List.getLast?_concat]

/-- The ledger of a run in which no two sessions have the same token. -/
theorem ledger (hdistinct : (es.filterMap openedToken).Nodup) (hrun : bridge.run init es = some s) :
    Ledger es s := by
  have hinv := Machine.invariant_history (m := bridge) (s := init)
    (G := fun _ _ => True)
    (I := fun es s => bridge.run init es = some s ∧
      ((es.filterMap openedToken).Nodup → Ledger es s))
    ?_ ?_ Machine.along_true hrun
  · exact hinv.2 hdistinct
  · intro es s e s' ⟨hrun, hs⟩ _ hstep
    refine ⟨Machine.run_concat hrun hstep, fun hdistinct => ?_⟩
    refine step_ledger hrun hstep hdistinct (hs ?_)
    rw [List.filterMap_append] at hdistinct
    exact (List.nodup_append.1 hdistinct).1
  · refine ⟨rfl, fun _ => ⟨fun token hfiled => ?_, fun _ h => absurd h List.not_mem_nil,
      fun _ h => absurd h List.not_mem_nil, rfl⟩⟩
    obtain ⟨session, hsession, -⟩ := hfiled
    exact absurd hsession nofun

/-- A call for a session that is finished is ignored exactly if a window is open, or no other
    session was finished since. -/
theorem Ledger.ignores_iff {token : String} (h : Ledger es s) (hfin : token ∈ finishedBy es) :
    Ignores s token ↔ (s.pairFlag = none → (finishedBy es).getLast? = some token) := by
  rw [Ignores, h.completed]
  constructor
  · rintro (⟨session, hsession, -⟩ | hlast) hnone
    · exact absurd (hnone.symm.trans hsession) nofun
    · exact hlast
  · intro hlast
    cases hfile : s.pairFlag with
    | none => exact .inr (hlast hfile)
    | some session =>
      refine .inl ⟨session, rfl, fun heq => ?_⟩
      exact (h.file token ⟨session, hfile, heq⟩).2 hfin

/-- A success that comes for a session that is finished, while no window is open, comes before
    another session is finished. -/
def Timely (es : List Event) : Prop :=
  ∀ pre env token post s, es = pre ++ .pairOk env token :: post → bridge.run init pre = some s →
    token ∈ finishedBy pre → s.pairFlag = none → (finishedBy pre).getLast? = some token

/-- A success that comes for a session that is finished changes nothing. -/
def Harmless (es : List Event) : Prop :=
  ∀ pre env token post s s', es = pre ++ .pairOk env token :: post → bridge.run init pre = some s →
    token ∈ finishedBy pre → bridge.step s (.pairOk env token) = some s' →
    s' = { s with attempts := s.attempts.erase token }

/-- The effect of a success. -/
theorem step_pairOk_iff {env : DiscoveryEnv} {token : String}
    (hstep : bridge.step s (.pairOk env token) = some s') :
    s' = { s with attempts := s.attempts.erase token } ↔ Ignores s token := by
  obtain ⟨-, rfl⟩ := step_pairOk hstep
  constructor
  · intro heq
    by_contra hignores
    have hfin := finishPair_finishes (s := { s with attempts := s.attempts.erase token })
      env hignores
    rw [heq] at hfin
    exact absurd (congrArg (·.2.2.1) hfin) (Nat.succ_ne_self _).symm
  · intro hignores
    rw [finishPair_ignores (s := { s with attempts := s.attempts.erase token }) hignores]

/-- A run that is timely was so before its last step. -/
theorem Timely.prefix (h : Timely (es ++ [e])) : Timely es := by
  intro pre env token post s hes
  refine h pre env token (post ++ [e]) s ?_
  rw [hes, List.append_assoc, List.cons_append]

/-- If successes are timely, no session is finished twice: a tick finishes the one in the file, and
    a success that is not for the last one is ignored. -/
theorem Timely.nodup (hdistinct : (es.filterMap openedToken).Nodup)
    (hrun : bridge.run init es = some s) (h : Timely es) : (finishedBy es).Nodup := by
  have hinv := Machine.invariant_history (m := bridge) (s := init)
    (G := fun _ _ => True)
    (I := fun es s => bridge.run init es = some s ∧
      ((es.filterMap openedToken).Nodup → Timely es → (finishedBy es).Nodup))
    ?_ ⟨rfl, fun _ _ => List.nodup_nil⟩ Machine.along_true hrun
  · exact hinv.2 hdistinct h
  · intro es s e s' ⟨hrun, hs⟩ _ hstep
    refine ⟨Machine.run_concat hrun hstep, fun hdistinct htimely => ?_⟩
    have hdistinct' : (es.filterMap openedToken).Nodup := by
      rw [List.filterMap_append] at hdistinct
      exact (List.nodup_append.1 hdistinct).1
    have hledger := ledger hdistinct' hrun
    have hnodup := hs hdistinct' htimely.prefix
    rw [finishedBy_concat hrun hstep]
    rcases (step_moves hstep).finish with ⟨hpairs, -⟩ | ⟨token, hfin, hwhich⟩
    · rw [if_pos hpairs, List.append_nil]
      exact hnodup
    · have hne : s'.pairs ≠ s.pairs := by rw [hfin.pairs]; exact Nat.succ_ne_self _
      have hnew : token ∉ finishedBy es := by
        intro hmem
        rcases hwhich with hfiled | ⟨env, rfl, -, hacts⟩
        · exact (hledger.file token hfiled).2 hmem
        · exact hacts ((hledger.ignores_iff hmem).2 (htimely es env token [] s rfl hrun hmem))
      rw [if_neg hne, hfin.completed]
      exact List.nodup_append.2 ⟨hnodup, List.nodup_singleton _, fun a ha b hb heq =>
        hnew (List.mem_singleton.1 hb ▸ heq ▸ ha)⟩

/-- In every run in which no two sessions have the same token, each session is finished at most
    once, and successes that come later change nothing, exactly if each of them that comes while no
    window is open comes before another session is finished. -/
theorem finished_once_iff (hdistinct : (es.filterMap openedToken).Nodup)
    (hrun : bridge.run init es = some s) :
    ((finishedBy es).Nodup ∧ Harmless es) ↔ Timely es := by
  have hpre : ∀ pre x post t, es = pre ++ x :: post → bridge.run init pre = some t →
      Ledger pre t := by
    intro pre x post t hes hpre
    refine ledger ?_ hpre
    rw [hes, List.filterMap_append] at hdistinct
    exact (List.nodup_append.1 hdistinct).1
  constructor
  · rintro ⟨-, h⟩ pre env token post t hes hpre' hfin
    -- The run goes on with the reply, which is for an attempt.
    have hrest : bridge.run t (.pairOk env token :: post) = some s := by
      rw [hes, Machine.run_append hpre'] at hrun
      exact hrun
    obtain ⟨t', hstep, -⟩ := Machine.run_cons_eq_some hrest
    exact ((hpre _ _ _ _ hes hpre').ignores_iff hfin).1
      ((step_pairOk_iff hstep).1 (h pre env token post t t' hes hpre' hfin hstep))
  · intro h
    refine ⟨h.nodup hdistinct hrun, ?_⟩
    intro pre env token post t t' hes hpre' hfin hstep
    exact (step_pairOk_iff hstep).2 (((hpre _ _ _ _ hes hpre').ignores_iff hfin).2
      (h pre env token post t hes hpre' hfin))

/-- A tick with the remote control bonded. -/
def bondedAt (time : ℕ) : TickEnv := { tickAt time true with link := some ⟨true, true, true⟩ }

/-- A session that a tick finishes, before the reply to `Pair()` comes. -/
def overtaken : List Event :=
  [.openWindow 0 ⟨60000, "A", "fresh"⟩, .ifaceAdded true false remote, .tick (tickAt 1000 true),
    .tick (bondedAt 2000)]

/-- Another session after it, which removes the bond, makes an attempt and is finished as well. -/
def overtakenTwice : List Event :=
  overtaken ++ [.openWindow 10000 ⟨70000, "B", "fresh"⟩, .tick (bondedAt 11000),
    .ifaceAdded true false remote, .tick (tickAt 15000 true), .tick (bondedAt 16000)]

/-- The reply for the first session. -/
def reply : Event := .pairOk ⟨none, true, none⟩ "A"

/-- A session that is overtaken by another one is finished twice exactly if its reply comes after
    that. -/
theorem finished_once_overtaken : ∃ s, bridge.run init (overtaken ++ [reply]) = some s ∧
    finishedBy (overtaken ++ [reply]) = ["A"] ∧
    (((finishedBy (overtaken ++ [reply])).Nodup ∧ Harmless (overtaken ++ [reply])) ↔
      Timely (overtaken ++ [reply])) := by
  obtain ⟨s, hrun, hfin⟩ := @Machine.exists_run _ _ bridge init (overtaken ++ [reply])
    (fun _ => finishedBy (overtaken ++ [reply]) = ["A"]) _ (by decide +kernel)
  exact ⟨s, hrun, hfin, finished_once_iff (by decide) hrun⟩

/-- The reply for the first session finishes it again. -/
theorem not_finished_once : ¬∀ es s, (es.filterMap openedToken).Nodup →
    bridge.run init es = some s → (finishedBy es).Nodup ∧ Harmless es := by
  intro h
  obtain ⟨s, hrun, hfin⟩ := @Machine.exists_run _ _ bridge init (overtakenTwice ++ [reply])
    (fun _ => finishedBy (overtakenTwice ++ [reply]) = ["A", "B", "A"]) _ (by decide +kernel)
  have hnodup := (h _ s (by decide) hrun).1
  rw [hfin] at hnodup
  exact absurd hnodup (by decide)

end Bridge

end W132d.Remote
