import W132d.Machine

/-!
# Scan requests

A scan request is kept in `scan_request` until it is completed: when the firmware has done the scan
(`sprdwl_scan_done`), when its interface goes away or the command cannot be sent
(`sprdwl_cancel_scan`), or when the timer expires (`sprdwl_scan_timeout`). The first two look at
`scan_vif` and at the timer without a lock, and all of them complete the request that they find in
`scan_request` under `scan_lock`, be it another one by then.

* `Priv`: the request, the timer and where the threads are;
* `scan`: any number of threads and the timer, one section or one look at the state at a time;
* `Inv`, `step_inv`: what every step keeps;
* `requests_accounted`: every request that was started is completed once, unless it has no channels
  or another one took its place, and there is always someone to complete it;
* `exists_completed`: who is there to do so gets to the section that takes the request away.
-/

namespace W132d.ScanRequest

variable {T V R : Type*}

/-- Where a thread is. -/
inductive Pc (V : Type*) where
  | idle
  /-- In `sprdwl_cfg80211_scan`, before `mod_timer`. -/
  | arm (vif : V)
  /-- Before `sprdwl_scan`. -/
  | send (vif : V)
  /-- In `sprdwl_scan_done` or `sprdwl_cancel_scan`, before the look at `scan_vif`. -/
  | test (vif : V)
  /-- Before `timer_pending`. -/
  | tested
  /-- In `del_timer_sync`. -/
  | delTimer
  /-- Before the section of `scan_lock`. -/
  | complete
  deriving DecidableEq

/-- The thread will complete the request. -/
def Pc.Completes : Pc V → Prop
  | tested | delTimer | complete => True
  | idle | arm _ | send _ | test _ => False

/-- The thread will start the timer. -/
def Pc.Arms : Pc V → Prop
  | arm _ => True
  | _ => False

/-- Where `sprdwl_scan_timeout` is. -/
inductive Handler where
  | idle
  /-- Before its first line is written to the log. -/
  | expired
  /-- Before the section of `scan_lock`. -/
  | complete
  deriving DecidableEq, Repr

/-- `struct sprdwl_priv`, with where the threads and the function of the timer are. The requests
    that were `started`, `completed` (`cfg80211_scan_done`), `dropped` because they have no
    channels, and `replaced` are a record only. -/
structure Priv (T V R : Type*) where
  scanVif : Option V
  scanRequest : Option R
  /-- `timer_pending` of `scan_timer`. -/
  timerPending : Bool
  handler : Handler
  pc : T → Pc V
  started : List R
  completed : List R
  dropped : List R
  replaced : List R

namespace Priv

/-- No request was started. -/
def init : Priv T V R := ⟨none, none, false, .idle, fun _ => .idle, [], [], [], []⟩

variable [DecidableEq T] (priv : Priv T V R) (t : T)

/-- A thread goes on. -/
def goto (pc : Pc V) : Priv T V R := { priv with pc := Function.update priv.pc t pc }

/-- `sprdwl_cfg80211_scan`, the section of `scan_lock`. -/
def start (vif : V) (request : R) : Priv T V R :=
  { priv.goto t (.arm vif) with
    scanRequest := some request
    scanVif := some vif
    started := priv.started ++ [request]
    replaced := priv.replaced ++ priv.scanRequest.toList }

/-- The request is completed, and taken away. -/
def scanDone (request : R) : Priv T V R :=
  { priv with
    scanRequest := none
    scanVif := none
    completed := priv.completed ++ [request] }

/-- `sprdwl_scan_done` and `sprdwl_cancel_scan`, the section of `scan_lock`. -/
def complete (nChannels : R → ℕ) : Priv T V R :=
  match priv.scanRequest with
  | some request =>
    if nChannels request ≠ 0 then priv.scanDone request
    else
      { priv with
        scanRequest := none
        scanVif := none
        dropped := priv.dropped ++ [request] }
  | none => priv

/-- `sprdwl_scan_timeout`, the section of `scan_lock`. -/
def timeout : Priv T V R :=
  match priv.scanRequest with
  | some request => priv.scanDone request
  | none => priv

/-- The next operation of a thread; `ret`: what `sprdwl_scan` returns is zero. -/
def operate [DecidableEq V] (nChannels : R → ℕ) (ret : Bool) : Pc V → Priv T V R
  | .idle => priv
  | .arm vif => { priv.goto t (.send vif) with timerPending := true }
  | .send vif => priv.goto t (if ret then .idle else .test vif)
  | .test vif => priv.goto t (if priv.scanVif = some vif then .tested else .idle)
  | .tested => priv.goto t (if priv.timerPending then .delTimer else .complete)
  | .delTimer =>
    -- It waits for the function of the timer.
    if priv.handler = .idle then { priv.goto t .complete with timerPending := false } else priv
  | .complete => (priv.complete nChannels).goto t .idle

/-- The next step of the function of the timer, or a crash. `debug`: lines are written to the log,
    for which `scan_vif` is read. -/
def expire (debug : Bool) : Handler → Option (Priv T V R)
  | .idle => some priv
  | .expired =>
    if debug ∧ priv.scanVif.isNone then none else some { priv with handler := .complete }
  | .complete => some { priv.timeout with handler := .idle }

end Priv

/-- What happens. -/
inductive Event (T V R : Type*) where
  /-- `sprdwl_cfg80211_scan`, from the section of `scan_lock` on. -/
  | start (t : T) (vif : V) (request : R)
  /-- `sprdwl_scan_done` or `sprdwl_cancel_scan` is called. -/
  | scanDone (t : T) (vif : V)
  | step (t : T) (ret : Bool)
  /-- The timer expires. -/
  | fire
  /-- Its function goes on. -/
  | handler

/-- The scan requests, as a machine. -/
def scan (T V R : Type*) [DecidableEq T] [DecidableEq V] (debug : Bool) (nChannels : R → ℕ) :
    Machine (Priv T V R) (Event T V R) where
  step priv
    | .start t vif request =>
      match priv.pc t with
      | .idle => some (priv.start t vif request)
      | _ => some priv
    | .scanDone t vif =>
      match priv.pc t with
      | .idle => some (priv.goto t (.test vif))
      | _ => some priv
    | .step t ret => some (priv.operate t nChannels ret (priv.pc t))
    | .fire =>
      if priv.timerPending ∧ priv.handler = .idle then
        some { priv with timerPending := false, handler := .expired }
      else some priv
    | .handler => priv.expire debug priv.handler

/-! ## The invariant -/

/-- Somebody will complete the request: the timer, or a thread, or one will start the timer. -/
def Priv.Attended (priv : Priv T V R) : Prop :=
  priv.timerPending = true ∨ priv.handler ≠ .idle ∨ ∃ t, (priv.pc t).Arms ∨ (priv.pc t).Completes

/-- What every step keeps. -/
structure Inv [DecidableEq R] (priv : Priv T V R) : Prop where
  /-- A request that was started is completed, dropped or replaced, or is still there. -/
  count : ∀ request, priv.started.count request = priv.completed.count request +
    priv.dropped.count request + priv.replaced.count request +
      priv.scanRequest.toList.count request
  attended : priv.scanRequest ≠ none → priv.Attended

section

variable {priv : Priv T V R} {f : T → Pc V} {t : T} {pc : Pc V} {nChannels : R → ℕ}

/-- After the section of `scan_lock` there is no request. -/
theorem complete_scanRequest : (priv.complete nChannels).scanRequest = none := by
  rw [Priv.complete]
  split
  · split_ifs <;> rfl
  · assumption

theorem timeout_scanRequest : priv.timeout.scanRequest = none := by
  rw [Priv.timeout]
  split
  · rfl
  · assumption

variable [DecidableEq T]

/-- A thread that goes on keeps the request attended, if it does so itself or has not done it
    before. -/
theorem attended_goto (h : priv.Attended)
    (hpc : (priv.pc t).Arms ∨ (priv.pc t).Completes → pc.Arms ∨ pc.Completes) :
    (priv.goto t pc).Attended := by
  obtain hpending | hhandler | ⟨t', ht'⟩ := h
  · exact .inl hpending
  · exact .inr (.inl hhandler)
  · refine .inr (.inr ⟨t', ?_⟩)
    dsimp only [Priv.goto]
    by_cases hne : t' = t
    · rw [hne, Function.update_self]
      exact hpc (hne ▸ ht')
    · rwa [Function.update_of_ne hne]

/-- A thread that attends to the request itself. -/
theorem attended_self (hpc : priv.pc = Function.update f t pc) (h : pc.Arms ∨ pc.Completes) :
    priv.Attended :=
  .inr (.inr ⟨t, by rwa [hpc, Function.update_self]⟩)

end

section

variable [DecidableEq R] {priv priv' : Priv T V R} {t : T} {pc : Pc V} {vif : V} {request : R}
  {nChannels : R → ℕ} {debug ret : Bool}

theorem inv_init : Inv (.init : Priv T V R) where
  count _ := rfl
  attended hne := absurd rfl hne

/-- A request that is there is completed. -/
theorem Inv.scanDone (h : Inv priv) (hreq : priv.scanRequest = some request) :
    Inv (priv.scanDone request) where
  count request' := by
    have hcount := h.count request'
    rw [hreq] at hcount
    simp only [Priv.scanDone, Option.toList_none, List.count_nil, List.count_append]
    rw [hcount, Option.toList_some]
    omega
  attended hne := absurd rfl hne

theorem Inv.complete (h : Inv priv) : Inv (priv.complete nChannels) := by
  rw [Priv.complete]
  split
  · rename_i request hreq
    split_ifs
    · exact h.scanDone hreq
    · refine ⟨fun request' => ?_, fun hne => absurd rfl hne⟩
      have hcount := h.count request'
      rw [hreq] at hcount
      simp only [Option.toList_none, List.count_nil, List.count_append]
      rw [hcount, Option.toList_some]
      omega
  · exact h

theorem Inv.timeout (h : Inv priv) : Inv priv.timeout := by
  rw [Priv.timeout]
  split
  · exact h.scanDone (by assumption)
  · exact h

/-- The next step of the function of the timer. -/
theorem Inv.expire (h : Inv priv) (hexpire : priv.expire debug priv.handler = some priv') :
    Inv priv' := by
  cases hh : priv.handler with
  | idle =>
    rw [hh] at hexpire
    exact Option.some.inj hexpire ▸ h
  | expired =>
    rw [hh, Priv.expire] at hexpire
    split_ifs at hexpire
    rw [← Option.some.inj hexpire]
    exact ⟨h.count, fun _ => .inr (.inl (by simp))⟩
  | complete =>
    rw [hh] at hexpire
    rw [← Option.some.inj hexpire]
    exact ⟨h.timeout.count, fun hne => absurd timeout_scanRequest hne⟩

variable [DecidableEq T]

theorem Inv.goto (h : Inv priv)
    (hpc : (priv.pc t).Arms ∨ (priv.pc t).Completes → pc.Arms ∨ pc.Completes) :
    Inv (priv.goto t pc) :=
  ⟨h.count, fun hne => attended_goto (h.attended hne) hpc⟩

/-- A request is started. -/
theorem Inv.start (h : Inv priv) : Inv (priv.start t vif request) where
  count request' := by
    have hcount := h.count request'
    simp only [Priv.start, Priv.goto, List.count_append, Option.toList_some]
    omega
  attended _ := attended_self rfl (.inl trivial)

variable [DecidableEq V]

/-- The next operation of a thread. -/
theorem Inv.operate (h : Inv priv) : Inv (priv.operate t nChannels ret (priv.pc t)) := by
  cases ht : priv.pc t with
  | idle => exact h
  | arm vif => exact ⟨h.count, fun _ => .inl rfl⟩
  | send vif => exact h.goto (by rw [ht]; exact fun hpc => hpc.elim False.elim False.elim)
  | test vif => exact h.goto (by rw [ht]; exact fun hpc => hpc.elim False.elim False.elim)
  | tested =>
    refine h.goto fun _ => .inr ?_
    split_ifs <;> trivial
  | delTimer =>
    rw [Priv.operate]
    split_ifs
    · exact ⟨h.count, fun _ => attended_self rfl (.inr trivial)⟩
    · exact h
  | complete =>
    exact ⟨h.complete.count, fun hne => absurd complete_scanRequest hne⟩

/-- Every step keeps the invariant. -/
theorem step_inv (h : Inv priv) {e : Event T V R}
    (hstep : (scan T V R debug nChannels).step priv e = some priv') : Inv priv' := by
  cases e with
  | start t vif request =>
    simp only [scan] at hstep
    split at hstep
    · exact Option.some.inj hstep ▸ h.start
    · exact Option.some.inj hstep ▸ h
  | scanDone t vif =>
    simp only [scan] at hstep
    split at hstep
    · rename_i ht
      rw [← Option.some.inj hstep]
      exact h.goto (by rw [ht]; exact fun hpc => hpc.elim False.elim False.elim)
    · exact Option.some.inj hstep ▸ h
  | step t ret => exact Option.some.inj hstep ▸ h.operate
  | fire =>
    simp only [scan] at hstep
    split_ifs at hstep
    · rw [← Option.some.inj hstep]
      exact ⟨h.count, fun _ => .inr (.inl (by simp))⟩
    · exact Option.some.inj hstep ▸ h
  | handler => exact h.expire hstep

end

/-! ## Every run -/

/-- What became of the requests. -/
structure Accounted [DecidableEq R] (priv : Priv T V R) : Prop where
  /-- Every request that was started was completed, dropped or replaced, or is still there, and
      nothing of that has happened twice. -/
  count : ∀ request, priv.started.count request = priv.completed.count request +
    priv.dropped.count request + priv.replaced.count request +
      priv.scanRequest.toList.count request
  /-- If it is there, somebody will complete it. -/
  attended : priv.scanRequest ≠ none → priv.Attended
  /-- When no thread is in these functions and the timer does not run, there is none. -/
  quiet : (∀ t, priv.pc t = .idle) → priv.timerPending = false → priv.handler = .idle →
    ∀ request, priv.started.count request = priv.completed.count request +
      priv.dropped.count request + priv.replaced.count request

theorem Inv.accounted [DecidableEq R] {priv : Priv T V R} (h : Inv priv) : Accounted priv := by
  refine ⟨h.count, h.attended, fun hidle hpending hhandler request => ?_⟩
  have hnone : priv.scanRequest = none := by
    by_contra hne
    obtain hp | hh | ⟨t, ht⟩ := h.attended hne
    · rw [hpending] at hp
      exact absurd hp (by decide)
    · exact hh hhandler
    · rw [hidle t] at ht
      exact ht.elim False.elim False.elim
  have hcount := h.count request
  rwa [hnone, Option.toList_none, List.count_nil, add_zero] at hcount

/-- Whatever the order of the steps, every scan request that was started is completed exactly once,
    unless it has no channels or another one took its place, and there is always someone to do
    so. -/
theorem requests_accounted {T V R : Type*} [DecidableEq T] [DecidableEq V] [DecidableEq R]
    (debug : Bool) (nChannels : R → ℕ) (es : List (Event T V R)) :
    (scan T V R debug nChannels).Always Accounted .init es :=
  (Machine.always_of_step (I := Inv) (fun _ _ _ h hstep => step_inv h hstep) inv_init).imp
    fun _ h => h.accounted

/-! ## Who attends to a request completes it -/

/-- A step of a thread that is in one of the functions, or of the timer. -/
def Event.Attends : Event T V R → Prop
  | step _ _ | fire | handler => True
  | start _ _ _ | scanDone _ _ => False

/-- The run can go on, by steps of the threads that are there and of the timer only, to a state
    without a request. -/
def Completable [DecidableEq T] [DecidableEq V] (debug : Bool) (nChannels : R → ℕ)
    (priv : Priv T V R) : Prop :=
  ∃ es priv', (scan T V R debug nChannels).run priv es = some priv' ∧
    priv'.scanRequest = none ∧ ∀ e ∈ es, e.Attends

section

variable [DecidableEq T] [DecidableEq V] {debug : Bool} {nChannels : R → ℕ}
  {p q : Priv T V R} {e : Event T V R} {t : T}

/-- One more step before. -/
theorem Completable.cons (h : Completable debug nChannels q) (he : e.Attends)
    (hstep : (scan T V R debug nChannels).step p e = some q) :
    Completable debug nChannels p := by
  obtain ⟨es, r, hrun, hnone, hall⟩ := h
  exact ⟨e :: es, r, (Machine.run_cons hstep).trans hrun, hnone,
    List.forall_mem_cons.2 ⟨he, hall⟩⟩

/-- The step that takes the request away. -/
theorem completable_of_step (he : e.Attends)
    (hstep : (scan T V R debug nChannels).step p e = some q)
    (hnone : q.scanRequest = none) : Completable debug nChannels p :=
  Completable.cons ⟨[], q, rfl, hnone, List.forall_mem_nil _⟩ he hstep

/-- The function of the timer gets to its section. -/
theorem completable_of_handler (hvif : p.scanVif ≠ none) (hhandler : p.handler ≠ .idle) :
    Completable debug nChannels p := by
  have hcomplete (r : Priv T V R) (hr : r.handler = .complete) :
      Completable debug nChannels r := by
    refine completable_of_step (e := .handler) trivial (q := { r.timeout with handler := .idle })
      ?_ timeout_scanRequest
    simp only [scan, hr, Priv.expire]
  cases hh : p.handler with
  | idle => exact absurd hh hhandler
  | expired =>
    -- The line that is written to the log reads `scan_vif`, which is there.
    refine (hcomplete { p with handler := .complete } rfl).cons (e := .handler) trivial ?_
    simp only [scan, hh, Priv.expire]
    rw [if_neg fun h => hvif (Option.isNone_iff_eq_none.1 h.2)]
  | complete => exact hcomplete p hh

/-- So does the timer, if it was started. -/
theorem completable_of_pending (hvif : p.scanVif ≠ none) (hpending : p.timerPending = true) :
    Completable debug nChannels p := by
  by_cases hhandler : p.handler = .idle
  · refine (completable_of_handler (p := { p with timerPending := false, handler := .expired })
      hvif nofun).cons (e := .fire) trivial ?_
    simp only [scan, hpending, hhandler, and_self, if_true]
  · exact completable_of_handler hvif hhandler

/-- So does a thread that has looked at `scan_vif`; in `del_timer_sync`, it waits for the function
    of the timer. -/
theorem completable_of_completes (hvif : p.scanVif ≠ none) (ht : (p.pc t).Completes) :
    Completable debug nChannels p := by
  have hcomplete (r : Priv T V R) (hr : r.pc t = .complete) : Completable debug nChannels r := by
    refine completable_of_step (e := .step t true) trivial
      (q := (r.complete nChannels).goto t .idle) ?_ complete_scanRequest
    simp only [scan, hr, Priv.operate]
  have hdelTimer (r : Priv T V R) (hvif : r.scanVif ≠ none) (hr : r.pc t = .delTimer) :
      Completable debug nChannels r := by
    by_cases hhandler : r.handler = .idle
    · refine (hcomplete { r.goto t .complete with timerPending := false }
        (Function.update_self ..)).cons (e := .step t true) trivial ?_
      simp only [scan, hr, Priv.operate, if_pos hhandler]
    · exact completable_of_handler hvif hhandler
  cases hpc : p.pc t with
  | tested =>
    by_cases hpending : p.timerPending = true
    · refine (hdelTimer (p.goto t .delTimer) hvif (Function.update_self ..)).cons
        (e := .step t true) trivial ?_
      simp only [scan, hpc, Priv.operate, if_pos hpending]
    · refine (hcomplete (p.goto t .complete) (Function.update_self ..)).cons
        (e := .step t true) trivial ?_
      simp only [scan, hpc, Priv.operate, if_neg hpending]
  | delTimer => exact hdelTimer p hvif hpc
  | complete => exact hcomplete p hpc
  | _ => rw [hpc] at ht; exact ht.elim

/-- Whoever attends to the request gets there. -/
theorem Priv.Attended.completable (h : p.Attended) (hvif : p.scanVif ≠ none) :
    Completable debug nChannels p := by
  obtain hpending | hhandler | ⟨t, harms | hcompletes⟩ := h
  · exact completable_of_pending hvif hpending
  · exact completable_of_handler hvif hhandler
  · -- The thread starts the timer.
    cases hpc : p.pc t with
    | arm vif =>
      refine (completable_of_pending (p := { p.goto t (.send vif) with timerPending := true })
        hvif rfl).cons (e := .step t true) trivial ?_
      simp only [scan, hpc, Priv.operate]
    | _ => rw [hpc] at harms; exact harms.elim
  · exact completable_of_completes hvif hcompletes

end

/-- A step of a thread leaves a request only if it leaves its interface. -/
theorem operate_vif [DecidableEq T] [DecidableEq V] {nChannels : R → ℕ} {ret : Bool}
    {priv : Priv T V R} {t : T} (h : priv.scanRequest ≠ none → priv.scanVif ≠ none)
    (hne : (priv.operate t nChannels ret (priv.pc t)).scanRequest ≠ none) :
    (priv.operate t nChannels ret (priv.pc t)).scanVif ≠ none := by
  cases hpc : priv.pc t with
  | complete =>
    rw [hpc] at hne
    exact absurd complete_scanRequest hne
  | delTimer =>
    rw [hpc, Priv.operate] at hne
    rw [Priv.operate]
    split_ifs at hne ⊢
    · exact h hne
    · exact h hne
  | _ => rw [hpc] at hne; exact h hne

/-- As long as there is a request, there is its interface. -/
theorem scanVif_ne_none [DecidableEq T] [DecidableEq V] {debug : Bool} {nChannels : R → ℕ}
    {priv : Priv T V R} {es : List (Event T V R)}
    (hrun : (scan T V R debug nChannels).run .init es = some priv) :
    priv.scanRequest ≠ none → priv.scanVif ≠ none := by
  -- The invariant is the statement itself: whoever sets the request has set the interface, and the
  -- interface is cleared only after the request was taken away.
  refine Machine.invariant_of_step (I := fun p => p.scanRequest ≠ none → p.scanVif ≠ none)
    (fun p e p' h hstep => ?_) (fun hne => absurd rfl hne) hrun
  cases e with
  | start t vif request =>
    simp only [scan] at hstep
    split at hstep
    · exact Option.some.inj hstep ▸ fun _ => nofun
    · exact Option.some.inj hstep ▸ h
  | scanDone t vif =>
    simp only [scan] at hstep
    split at hstep
    · exact Option.some.inj hstep ▸ h
    · exact Option.some.inj hstep ▸ h
  | step t ret => exact Option.some.inj hstep ▸ operate_vif h
  | fire =>
    simp only [scan] at hstep
    split_ifs at hstep
    · exact Option.some.inj hstep ▸ h
    · exact Option.some.inj hstep ▸ h
  | handler =>
    simp only [scan] at hstep
    cases hh : p.handler with
    | idle =>
      rw [hh] at hstep
      exact Option.some.inj hstep ▸ h
    | expired =>
      rw [hh, Priv.expire] at hstep
      split_ifs at hstep
      exact Option.some.inj hstep ▸ h
    -- The handler takes the request away, so that there is nothing to show.
    | complete =>
      rw [hh] at hstep
      rw [← Option.some.inj hstep]
      exact fun hne => absurd timeout_scanRequest hne

/-- From every state, the threads that are there and the timer can complete the request. -/
theorem exists_completed [DecidableEq T] [DecidableEq V] [DecidableEq R] {debug : Bool}
    {nChannels : R → ℕ} {priv : Priv T V R} {es : List (Event T V R)}
    (hrun : (scan T V R debug nChannels).run .init es = some priv) :
    Completable debug nChannels priv := by
  by_cases hne : priv.scanRequest = none
  · exact ⟨[], priv, rfl, hne, List.forall_mem_nil _⟩
  · have hinv : Inv priv :=
      Machine.invariant_of_step (fun _ _ _ h hstep => step_inv h hstep) inv_init hrun
    exact (hinv.attended hne).completable (scanVif_ne_none hrun hne)

end W132d.ScanRequest
