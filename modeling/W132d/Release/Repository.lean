import W132d.Release.Lock
import W132d.Retained

/-!
# The state of the repository

The package repository keeps the newest releases of each channel, newest first. A release is
published by `nextState` (`repository.py`), which refuses one that is not newer than the
newest one of its channel, or that goes back to an older upstream version.

* `Succeeds`: what a published release has over the newest one before it, and, since this is
  transitive, over all of them;
* `Kept`: the releases of a state, and those of a later one, are kept from a history in which
  every release succeeds the older ones (`Retains`);
* `Kept.run`: calls go on with such a history;
* `repository_history`: so the states reached are in order, what is published stays as it is,
  and the upstream versions of the stable channel do not go back.
-/

namespace W132d.Release

/-- A package of a release. -/
structure Package where
  name : String
  version : String
  architecture : String
  file : String
  size : ℕ
  sha256 : String
  path : String
  deriving DecidableEq, Repr

/-- A published release. Those of an older repository have no U-Boot. -/
structure Entry where
  version : String
  projectCommit : String
  linux : Upstream
  armbian : Upstream
  uboot : Option Upstream
  packages : List Package
  inputsDigest : String
  deriving DecidableEq, Repr

/-- `current.get(name)`. -/
def Entry.upstream (e : Entry) : Name → Option Upstream
  | .linux => some e.linux
  | .armbian => some e.armbian
  | .uboot => e.uboot

/-- The retained releases of each channel. -/
abbrev State := Channel → List Entry

/-- Nothing is published. -/
def State.empty : State := fun _ => []

/-- `RETENTION`. -/
def retention : Channel → ℕ
  | .stable => 3
  | .experimental => 2

variable (p : Platform)

/-- A turn of the loop over the upstream projects in `next_state`. -/
def checkUpstream (lock : Lock) (current : Entry) (name : Name) : Except String Unit :=
  match current.upstream name with
  | none => .ok ()
  | some recorded => do
    let candidateTag ← tagNumbers p (lock.upstream name).tag
    let currentTag ← tagNumbers p recorded.tag
    require (currentTag ≤ candidateTag) ("Refusing an upstream version regression: " ++ name.text)
    require (candidateTag ≠ currentTag ∨ (lock.upstream name).commit = recorded.commit)
      ("Upstream tag points to a different commit: " ++ name.text)

/-- The checks of a new version in `next_state`. -/
def checkNewer (lock : Lock) (current : Entry) : Except String Unit := do
  require (p.versionNewer lock.version current.version) "Refusing stale publication"
  let candidateTask ← task p lock.version
  let currentTask ← task p current.version
  require (currentTask < candidateTask) "Refusing stale publication task"
  if lock.channel = .stable then Name.all.forM (checkUpstream p lock current)

/-- The release that a lock and its packages make. -/
def entryOf (lock : Lock) (records : List Package) : Entry where
  version := lock.version
  projectCommit := lock.projectCommit
  linux := lock.upstream .linux
  armbian := lock.upstream .armbian
  uboot := some (lock.upstream .uboot)
  packages := records
  inputsDigest := maintainedDigest p lock

/-- The state with a release put in front. -/
def publish (previous : State) (lock : Lock) (records : List Package) : State :=
  Function.update previous lock.channel
    ((entryOf p lock records :: previous lock.channel).take (retention lock.channel))

/-- `next_state`. -/
def nextState (previous : State) (lock : Lock) (records : List Package) :
    Except String State :=
  match previous lock.channel with
  | [] => .ok (publish p previous lock records)
  | current :: _ =>
    if current.version = lock.version then do
      require (current.packages = records)
        "An immutable version already has different package bytes"
      require (current.projectCommit = lock.projectCommit)
        "An immutable version already has another commit"
      return previous
    else do
      checkNewer p lock current
      return publish p previous lock records

/-! ## Calls -/

/-- A call of `nextState`, with a lock that was valid in some checkout. -/
structure Call where
  lock : Lock
  records : List Package
  validated : ∃ checkout, validateLock p checkout lock = .ok ()

variable {p}

/-- The state after a call: a refused one leaves it as it was. -/
def State.after (s : State) (call : Call p) : State :=
  match nextState p s call.lock call.records with
  | .ok s' => s'
  | .error _ => s

/-- The state after a sequence of calls. -/
def State.run (s : State) (calls : List (Call p)) : State :=
  calls.foldl State.after s

/-! ## What a release has over an older one -/

/-- The task of `new` comes after the one of `old`. -/
def LaterTask (p : Platform) (new old : Entry) : Prop :=
  ∃ t t', task p new.version = .ok t ∧ task p old.version = .ok t' ∧ t' < t

/-- `new` has no older upstream version than `old`, and the same commit for the same one. -/
def KeepsUpstream (p : Platform) (name : Name) (new old : Entry) : Prop :=
  ∃ u u', new.upstream name = some u ∧ old.upstream name = some u' ∧
    ∃ t t', tagNumbers p u.tag = .ok t ∧ tagNumbers p u'.tag = .ok t' ∧
      t' ≤ t ∧ (t = t' → u.commit = u'.commit)

/-- `new` is a release of the channel `c` after `old`. -/
structure Succeeds (p : Platform) (c : Channel) (new old : Entry) : Prop where
  newer : p.versionNewer new.version old.version
  later : LaterTask p new old
  upstream : c = .stable → ∀ name, KeepsUpstream p name new old

/-- Tasks are ordered. -/
theorem LaterTask.trans {x y z : Entry} (h : LaterTask p x y) (h' : LaterTask p y z) :
    LaterTask p x z := by
  obtain ⟨t, u, ht, hu, hlt⟩ := h
  obtain ⟨u', v, hu', hv, hlt'⟩ := h'
  obtain rfl : u = u' := Except.ok.inj (hu ▸ hu')
  exact ⟨t, v, ht, hv, hlt'.trans hlt⟩

theorem KeepsUpstream.trans {name : Name} {x y z : Entry} (h : KeepsUpstream p name x y)
    (h' : KeepsUpstream p name y z) : KeepsUpstream p name x z := by
  obtain ⟨ux, uy, hux, huy, a, b, ha, hb, hle, heq⟩ := h
  obtain ⟨uy', uz, huy', huz, b', c, hb', hc, hle', heq'⟩ := h'
  obtain rfl : uy = uy' := Option.some.inj (huy ▸ huy')
  obtain rfl : b = b' := Except.ok.inj (hb ▸ hb')
  refine ⟨ux, uz, hux, huz, a, c, ha, hc, hle'.trans hle, fun hac => ?_⟩
  -- The version in between is the same one too.
  have hab : a = b := le_antisymm (hac ▸ hle') hle
  exact (heq hab).trans (heq' (hab ▸ hac))

theorem Succeeds.trans {c : Channel}
    (htrans : ∀ a b d, p.versionNewer a b → p.versionNewer b d → p.versionNewer a d)
    {x y z : Entry} (h : Succeeds p c x y) (h' : Succeeds p c y z) : Succeeds p c x z where
  newer := htrans _ _ _ h.newer h'.newer
  later := h.later.trans h'.later
  upstream hc name := (h.upstream hc name).trans (h'.upstream hc name)

/-! ## What the checks establish -/

/-- A release as `entryOf` makes it from a valid lock of the channel. -/
structure Recorded (p : Platform) (c : Channel) (e : Entry) : Prop where
  isVersion : isVersion p e.version
  suffix : endsWith e.version "~experimental" = decide (c = .experimental)
  uboot : e.uboot.isSome

/-- The entry of a call is recorded. -/
theorem recorded_entryOf (call : Call p) :
    Recorded p call.lock.channel (entryOf p call.lock call.records) := by
  obtain ⟨checkout, h⟩ := call.validated
  simp only [validateLock, bind_eq_ok, require_eq_ok] at h
  obtain ⟨_, _, _, hversion, _, hsuffix, _⟩ := h
  exact ⟨hversion, hsuffix, rfl⟩

theorem Recorded.upstream_isSome {c : Channel} {e : Entry} (he : Recorded p c e) :
    ∀ name, ∃ u, e.upstream name = some u
  | .linux => ⟨_, rfl⟩
  | .armbian => ⟨_, rfl⟩
  | .uboot => Option.isSome_iff_exists.1 he.uboot

/-- The versions of upstream in an entry are those of the lock. -/
theorem upstream_entryOf {lock : Lock} {records : List Package} :
    ∀ name, (entryOf p lock records).upstream name = some (lock.upstream name)
  | .linux => rfl
  | .armbian => rfl
  | .uboot => rfl

/-- The check of a version passes only if it was kept, or is newer. -/
theorem keepsUpstream_of_check {lock : Lock} {records : List Package} {current : Entry}
    {name : Name} {u : Upstream} (hu : current.upstream name = some u)
    (h : checkUpstream p lock current name = .ok ()) :
    KeepsUpstream p name (entryOf p lock records) current := by
  simp only [checkUpstream, hu, bind_eq_ok, require_eq_ok] at h
  obtain ⟨t, ht, t', ht', _, hle, heq⟩ := h
  exact ⟨_, u, upstream_entryOf name, hu, t, t', ht, ht', hle,
    fun h => heq.resolve_left (not_not_intro h)⟩

/-- A release that passes the checks succeeds the newest one. -/
theorem succeeds_of_checkNewer {lock : Lock} {records : List Package} {current : Entry}
    (hcurrent : Recorded p lock.channel current) (h : checkNewer p lock current = .ok ()) :
    Succeeds p lock.channel (entryOf p lock records) current := by
  simp only [checkNewer, bind_eq_ok, require_eq_ok] at h
  obtain ⟨_, hnewer, t, ht, t', ht', _, hlt, hupstream⟩ := h
  refine ⟨hnewer, ⟨t, t', ht, ht', hlt⟩, fun hc name => ?_⟩
  rw [if_pos hc] at hupstream
  obtain ⟨u, hu⟩ := hcurrent.upstream_isSome name
  have hname : name ∈ Name.all := by cases name <;> decide
  exact keepsUpstream_of_check hu (forM_eq_ok.1 hupstream name hname)

/-- What an accepted call does: the version is there already, as it is, or its release is put
    in front of the older ones. -/
theorem nextState_cases {s s' : State} {lock : Lock} {records : List Package}
    (h : nextState p s lock records = .ok s') :
    (∃ current ∈ (s lock.channel).head?, current.version = lock.version ∧
      current.packages = records ∧ current.projectCommit = lock.projectCommit ∧ s' = s) ∨
    ((∀ current ∈ (s lock.channel).head?, checkNewer p lock current = .ok ()) ∧
      s' = publish p s lock records) := by
  rw [nextState] at h
  split at h
  · rename_i hs
    refine .inr ⟨fun current hc => ?_, (Except.ok.inj h).symm⟩
    rw [hs] at hc
    exact absurd hc (by simp)
  · rename_i current _ hs
    rw [hs]
    split_ifs at h with hversion
    · simp only [bind_eq_ok, require_eq_ok] at h
      obtain ⟨_, hpackages, _, hcommit, h⟩ := h
      exact .inl ⟨current, rfl, hversion, hpackages, hcommit, (Except.ok.inj h).symm⟩
    · obtain ⟨_, hnewer, h⟩ := bind_eq_ok.1 h
      refine .inr ⟨fun c hc => ?_, (Except.ok.inj h).symm⟩
      exact Option.some.inj hc ▸ hnewer

/-! ## Histories -/

/-- The releases of `s'` are kept from a history that goes on from those of `s`, in which
    every release succeeds the older ones of its channel. -/
structure Kept (p : Platform) (s s' : State) : Prop where
  retains : ∀ c, Retains (Succeeds p c) (retention c) (s c) (s' c)
  recorded : ∀ c, ∀ e ∈ s' c, Recorded p c e

/-- A channel keeps an entry at least. -/
theorem retention_pos (c : Channel) : 0 < retention c := by
  cases c <;> decide

/-- Nothing was published yet. -/
theorem kept_empty : Kept p State.empty State.empty where
  retains _ := Retains.refl (Nat.zero_le _) List.Pairwise.nil
  recorded _ _ he := absurd he List.not_mem_nil

/-- A history that is kept up to a state is kept in it. -/
theorem Kept.refl {s s' : State} (h : Kept p s s') : Kept p s' s' where
  retains c := Retains.refl (h.retains c).length_le (h.retains c).pairwise
  recorded := h.recorded

section

variable (htrans : ∀ a b d, p.versionNewer a b → p.versionNewer b d → p.versionNewer a d)

include htrans

theorem Kept.publish {s s' : State} {call : Call p} (h : Kept p s s')
    (hnewer : ∀ current ∈ (s' call.lock.channel).head?,
      checkNewer p call.lock current = .ok ()) :
    Kept p s (publish p s' call.lock call.records) := by
  refine ⟨fun c => ?_, fun c => ?_⟩
  · by_cases hc : c = call.lock.channel
    · subst hc
      rw [Release.publish, Function.update_self]
      refine (h.retains _).push (fun _ _ _ => Succeeds.trans htrans) (retention_pos _)
        fun current hcurrent => succeeds_of_checkNewer ?_ (hnewer current hcurrent)
      exact h.recorded _ _ (List.mem_of_mem_head? hcurrent)
    · rw [Release.publish, Function.update_of_ne hc]
      exact h.retains c
  · by_cases hc : c = call.lock.channel
    · subst hc
      rw [Release.publish, Function.update_self]
      intro e he
      rcases List.mem_cons.1 (List.mem_of_mem_take he) with rfl | he
      · exact recorded_entryOf call
      · exact h.recorded _ e he
    · rw [Release.publish, Function.update_of_ne hc]
      exact h.recorded c

/-- A call goes on with the history. -/
theorem Kept.after {s s' : State} (h : Kept p s s') (call : Call p) :
    Kept p s (s'.after call) := by
  unfold State.after
  split
  · rename_i hcall
    rcases nextState_cases hcall with ⟨_, _, _, _, _, rfl⟩ | ⟨hnewer, rfl⟩
    · exact h
    · exact h.publish htrans hnewer
  · exact h

theorem Kept.run {s s' : State} (h : Kept p s s') (calls : List (Call p)) :
    Kept p s (s'.run calls) := by
  induction calls generalizing s' with
  | nil => exact h
  | cons call calls ih => exact ih (h.after htrans call)

end

/-- An accepted call leaves the other channel as it is. -/
theorem nextState_other {s s' : State} {lock : Lock} {records : List Package}
    (h : nextState p s lock records = .ok s') {c : Channel} (hc : c ≠ lock.channel) :
    s' c = s c := by
  rcases nextState_cases h with ⟨_, _, _, _, _, rfl⟩ | ⟨_, rfl⟩
  · rfl
  · exact Function.update_of_ne hc ..

/-- An accepted call that is repeated changes nothing. -/
theorem nextState_retry {s s' : State} {lock : Lock} {records : List Package}
    (h : nextState p s lock records = .ok s') : nextState p s' lock records = .ok s' := by
  rcases nextState_cases h with ⟨_, _, _, _, _, rfl⟩ | ⟨_, rfl⟩
  · exact h
  · -- The release is now the newest one.
    obtain ⟨n, hn⟩ := Nat.exists_eq_succ_of_ne_zero (retention_pos lock.channel).ne'
    have hhead : publish p s lock records lock.channel =
        entryOf p lock records :: (s lock.channel).take n := by
      rw [publish, Function.update_self, hn, List.take_succ_cons]
    rw [nextState, hhead]
    simp [entryOf, require, bind, Except.bind, pure, Except.pure]

/-! ## The states that are reached -/

/-- The release `new` has a newer version than `old`, and a later run and attempt. -/
def Later (p : Platform) (new old : Entry) : Prop :=
  p.versionNewer new.version old.version ∧
    ∃ run attempt run' attempt', task p new.version = .ok [run, attempt] ∧
      task p old.version = .ok [run', attempt'] ∧
      (run' < run ∨ run' = run ∧ attempt' < attempt)

/-- An entry that succeeds another one is later. -/
theorem Succeeds.later' {c : Channel} {new old : Entry} (h : Succeeds p c new old)
    (hnew : Recorded p c new) (hold : Recorded p c old) : Later p new old := by
  obtain ⟨t, t', ht, ht', hlt⟩ := h.later
  obtain ⟨run, attempt, rfl⟩ := task_of_isVersion hnew.isVersion ht
  obtain ⟨run', attempt', rfl⟩ := task_of_isVersion hold.isVersion ht'
  refine ⟨h.newer, run, attempt, run', attempt', ht, ht', ?_⟩
  simpa [List.cons_lt_cons_iff] using hlt

/-- The releases of a state `s`, and those of a later one. -/
structure History (p : Platform) (s s' : State) : Prop where
  /-- Each channel has at most `retention` releases. -/
  length_le : ∀ c, (s c).length ≤ retention c
  /-- Each release is later than the older ones. -/
  pairwise : ∀ c, (s c).Pairwise (Later p)
  /-- An accepted call leaves the other channel as it is. -/
  other : ∀ (call : Call p) t, nextState p s call.lock call.records = .ok t →
    ∀ c, c ≠ call.lock.channel → t c = s c
  /-- An accepted call that is repeated changes nothing. -/
  retry : ∀ (call : Call p) t, nextState p s call.lock call.records = .ok t →
    nextState p t call.lock call.records = .ok t
  /-- Two releases of one version are the same release. -/
  immutable : ∀ c c', ∀ e ∈ s c, ∀ e' ∈ s' c', e.version = e'.version → e = e'
  /-- The newest stable release is still the same, or the one that is has no older upstream
      version. -/
  newest : ∀ e ∈ (s .stable).head?, ∃ e' ∈ (s' .stable).head?,
    e' = e ∨ ∀ name, KeepsUpstream p name e' e
  /-- No newer stable release has an older upstream version. -/
  upstream : ∀ e ∈ s .stable, ∀ e' ∈ s' .stable, p.versionNewer e'.version e.version →
    ∀ name, KeepsUpstream p name e' e

/-- **The states of the repository**, after any calls from the empty state and any calls that
    follow them. -/
theorem repository_history (hirrefl : ∀ a, p.versionNewer a a = false)
    (htrans : ∀ a b d, p.versionNewer a b → p.versionNewer b d → p.versionNewer a d)
    (calls calls' : List (Call p)) :
    History p (State.empty.run calls) ((State.empty.run calls).run calls') := by
  have hs : Kept p State.empty (State.empty.run calls) := kept_empty.run htrans calls
  have hs' : Kept p (State.empty.run calls) _ := hs.refl.run htrans calls'
  have hne : ∀ e e' : Entry, e.version = e'.version → ¬p.versionNewer e'.version e.version := by
    intro e e' h
    rw [h, hirrefl]
    exact Bool.false_ne_true
  refine {
    length_le := fun c => (hs.retains c).length_le
    pairwise := fun c => (hs.retains c).pairwise.imp_of_mem fun hx hy h =>
      h.later' (hs.recorded c _ hx) (hs.recorded c _ hy)
    other := fun call t h c hc => nextState_other h hc
    retry := fun call t h => nextState_retry h
    immutable := fun c c' e he e' he' hversion => ?_
    newest := fun e he => ?_
    upstream := fun e he e' he' hnewer => ?_ }
  · -- The version tells the channel, and of two releases of one channel one would be newer.
    obtain rfl : c = c' := by
      have hsuffix := (hs.recorded c e he).suffix
      rw [hversion, (hs'.recorded c' e' he').suffix] at hsuffix
      cases c <;> cases c' <;> simp_all
    rcases (hs'.retains c).related he he' with h | h | h
    · exact h
    · exact absurd h.newer (hne e e' hversion)
    · exact absurd h.newer (hne e' e hversion.symm)
  · obtain ⟨e', he', h⟩ := (hs'.retains .stable).head (retention_pos _) he
    exact ⟨e', he', h.imp_right fun h => h.upstream rfl⟩
  · rcases (hs'.retains .stable).related he he' with rfl | h | h
    · exact absurd hnewer (hne e e rfl)
    · exact h.upstream rfl
    · exact absurd (htrans _ _ _ hnewer h.newer) (hne e' e' rfl)

/-! ### A fixture -/

/-- The numbers of a version, and whether it is not experimental. -/
def versionKey (v : String) : List ℕ :=
  ((split (removeSuffix v "~experimental") '.').map fun part =>
    part.toList.foldl (fun n c => 10 * n + (c.toNat - '0'.toNat)) 0) ++
  [if endsWith v "~experimental" then 0 else 1]

/-- The digits of ASCII, the order of `dpkg` on the versions of releases, and the digest of no
    inputs. -/
def fixturePlatform : Platform where
  decimal c := if c.isDigit then some (c.toNat - '0'.toNat) else none
  decimal_ascii _ _ := rfl
  versionNewer candidate installed := decide (versionKey installed < versionKey candidate)
  digest _ _ := "8430c5bbdca1ecce91a8ab02d13bc27577c43146215dd754cced88c3bbc46868"

/-- A version is newer if its number is larger. -/
theorem fixturePlatform_newer {a b : String} :
    fixturePlatform.versionNewer a b ↔ versionKey b < versionKey a := by
  rw [fixturePlatform, decide_eq_true_eq]

/-- The lock of a version. -/
def fixtureLock (channel : Channel) (version linuxTag : String) : Lock where
  schema := 1
  channel := channel
  version := version
  projectCommit := "aaaaaaaaaaaaaaaaaaaaaaaaaaaaaaaaaaaaaaaa"
  projectDirty := false
  inputs := []
  blobs := []
  upstream
    | .linux => ⟨linuxTag, some "7b20d05fd38de8e0be168956f6fd241d750c7d69", []⟩
    | .armbian => ⟨"v26.5.1", some "8de11a017f7f05a82c77850f8322928cb6a3b70c", []⟩
    | .uboot => ⟨"v2026.10", some "5508406582f6f7120dce0c4b3059819a41788db2", []⟩

/-- The checkout of these locks. -/
def fixtureCheckout : Checkout := ⟨[], "aaaaaaaaaaaaaaaaaaaaaaaaaaaaaaaaaaaaaaaa", ""⟩

/-- Four stable releases and an experimental one, and a restarted older task. -/
def fixtureCalls : List (Call fixturePlatform) :=
  [⟨fixtureLock .stable "20261015.9.1" "v7.2.10", [], fixtureCheckout, by decide +kernel⟩,
   ⟨fixtureLock .stable "20261015.10.1" "v7.2.11", [], fixtureCheckout, by decide +kernel⟩,
   ⟨fixtureLock .experimental "20261015.11.1~experimental" "v7.3", [], fixtureCheckout,
      by decide +kernel⟩,
   ⟨fixtureLock .stable "20261016.12.1" "v7.3", [], fixtureCheckout, by decide +kernel⟩,
   ⟨fixtureLock .stable "20261017.10.2" "v7.3", [], fixtureCheckout, by decide +kernel⟩,
   ⟨fixtureLock .stable "20261017.13.1" "v7.3.1", [], fixtureCheckout, by decide +kernel⟩]

/-- The first release is dropped, and the restarted task is refused. -/
theorem repository_history_fixture :
    ((State.empty.run fixtureCalls) .stable).map (·.version) =
      ["20261017.13.1", "20261016.12.1", "20261015.10.1"] ∧
    History fixturePlatform (State.empty.run (fixtureCalls.take 4))
      ((State.empty.run (fixtureCalls.take 4)).run (fixtureCalls.drop 4)) := by
  refine ⟨by decide +kernel, repository_history (fun a => ?_) (fun a b d hab hbd => ?_) _ _⟩
  · rw [← Bool.not_eq_true, fixturePlatform_newer]
    exact lt_irrefl _
  · rw [fixturePlatform_newer] at hab hbd ⊢
    exact hbd.trans hab

end W132d.Release
