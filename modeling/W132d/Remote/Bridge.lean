import W132d.Raising
import W132d.Remote.Session
import W132d.Remote.Voice

/-!
# The bridge

The bridge (`ble-remote.py`) is a main loop that calls handlers, one at a time: for the signals of
BlueZ (`on_props`, `on_iface_added`), for the replies to the calls it has made (`_wfail`,
`_pair_ok`, `_err`), and every second (`tick`). A handler calls BlueZ over D-Bus, and a call may
raise, which aborts the handler and leaves the state as it is then. Only `tick` catches it.

* `Bridge`: the state, with the calls whose reply is to come;
* `Bridge.voiceCtl`, `Bridge.stopRecording`, `Bridge.onVoiceReport`, `Bridge.dispatchNotification`:
  recording;
* `Bridge.finishPair`, `Bridge.pairFailed`, `Bridge.startPair`: pairing;
* `Bridge.tick`: the handler that is called every second, in parts: up to the point where it may
  call `Pair()`, that call, and what follows it;
* `bridge`: the machine, whose events are the calls of handlers and the pairing windows that are
  opened;
* `Bridge.step_controlReply`, `Bridge.step_pairOk`, `Bridge.step_pairFailed`: what the replies do.

What BlueZ and the decoder do is part of an event. What a handler never reads in turn, e.g., the
state of the link probe and of the `Pairable` property, is left out: `probe_link`, `set_pairable`
and `_autoconnect_once` catch what BlueZ raises.

Times are in milliseconds.
-/

namespace W132d.Remote

open Raising

/-- The path of an object of BlueZ, by its parts. -/
abbrev Path := List String

/-- `path.startswith(dev + "/")`. -/
def Path.within (path dev : Path) : Bool := dev.isPrefixOf path && decide (dev.length < path.length)

/-! ## The report map -/

/-- `RPT_VOICE_IN`. -/
def rptVoiceIn : ℕ := 0xFC

/-- `RPT_VOICE_CTL`. -/
def rptVoiceCtl : ℕ := 0xFB

/-- `RPT_KEYEVENT`. -/
def rptKeyevent : ℕ := 0xF8

/-- `VOICE_KEY`. -/
def voiceKey : UInt8 := 3

/-- `KNOWN_REPORTS`. -/
def knownReports : List (String × ℕ × ℕ) :=
  [("char002b", 0x01, 1), ("char002f", 0x03, 1), ("char0033", 0xFC, 1), ("char0037", 0xFB, 2),
    ("char003a", 0xF8, 1), ("char003e", 0xFA, 2), ("char0041", 0xF9, 1), ("char0045", 0x04, 1)]

/-- The report that a path is known for, by its last part. -/
def knownReport (path : Path) : Option (ℕ × ℕ) :=
  path.getLast?.bind fun leaf => knownReports.lookup leaf

/-- `rmap`: an assignment hides an earlier one. -/
structure ReportMap where
  byId : List ((ℕ × ℕ) × Path)
  byPath : List (Path × ℕ × ℕ)
  deriving DecidableEq, Repr

namespace ReportMap

/-- `clear_report_map`. -/
def clear : ReportMap := ⟨[], []⟩

/-- The assignment of a report to a path. -/
def set (rmap : ReportMap) (ent : ℕ × ℕ) (path : Path) : ReportMap :=
  ⟨(ent, path) :: rmap.byId, (path, ent) :: rmap.byPath⟩

/-- `seed_known_report_map`, given the characteristics that BlueZ manages. -/
def seedKnown (rmap : ReportMap) (objects : List Path) (dev : Path) : ReportMap :=
  objects.foldl (fun rmap path =>
    if path.within dev then
      match knownReport path with
      | some ent => rmap.set ent path
      | none => rmap
    else rmap) rmap

/-- All known reports are in the map. -/
def complete (rmap : ReportMap) : Bool :=
  knownReports.all fun known => (rmap.byId.lookup known.2).isSome

/-- `build_report_map`, given also what the Report Reference descriptors say. -/
def build (objects : List Path) (descriptors : List (Path × ℕ × ℕ)) (dev : Path) : ReportMap :=
  let rmap := clear.seedKnown objects dev
  if rmap.complete then rmap
  else descriptors.foldl (fun rmap d => if d.1.within dev then rmap.set d.2 d.1 else rmap) rmap

/-- The map when `dispatch_notification` has looked for a path. -/
def mapPath (rmap : ReportMap) (path : Path) : ReportMap :=
  match rmap.byPath.lookup path, knownReport path with
  | none, some ent => rmap.set ent path
  | _, _ => rmap

end ReportMap

/-! ## The state -/

/-- The state of the bridge: `voice` and `state`, the session file, the writes of the recording
    control and the `Pair()` calls whose reply is to come, and how often it called
    `CancelPairing()`. -/
structure Bridge where
  voice : Voice
  recordingSince : ℕ
  controls : List (Bool × ℕ)
  rmap : ReportMap
  dev : Option Path
  connected : Option Bool
  connSince : Option ℕ
  discovering : Option Bool
  busy : Bool
  busyUntil : ℕ
  retryAfter : ℕ
  pairs : ℕ
  pairToken : Option String
  completedToken : Option String
  pairFlag : Option Session
  attempts : List String
  cancels : ℕ
  deriving DecidableEq, Repr

/-- A `DBusException`. -/
inductive DBusException where
  /-- One whose name has `InProgress` in it. -/
  | inProgress
  | other
  deriving DecidableEq, Repr

/-- A handler of the bridge. -/
abbrev Handler (α : Type) := Raising Bridge DBusException α

namespace Bridge

/-- The bridge as it starts. -/
def init : Bridge where
  voice := ⟨false, 0, List.replicate 48 0, -1, -1, 0, false, 0, 0, 0, false, 0, []⟩
  recordingSince := 0
  controls := []
  rmap := .clear
  dev := none
  connected := none
  connSince := none
  discovering := none
  busy := false
  busyUntil := 0
  retryAfter := 0
  pairs := 0
  pairToken := none
  completedToken := none
  pairFlag := none
  attempts := []
  cancels := 0

/-- `reset_gatt_runtime`. -/
def resetGattRuntime (s : Bridge) : Bridge := { s with rmap := .clear, connSince := none }

/-- Something of a recording is open. -/
def opened (s : Bridge) : Bool := s.voice.recording || s.voice.proc || decide (s.voice.frames ≠ 0)

/-- The failures of the decoder, forgotten. -/
def trustDecoder (s : Bridge) : Bridge :=
  { s with voice := { s.voice with codecFailed := false, fails := 0 } }

/-- `adopt_device`. -/
def adoptDevice (path : Option Path) (s : Bridge) : Bridge :=
  if path = s.dev then s
  else
    let s := if s.dev.isSome && s.opened then
        { s with voice := voiceClose { s.voice with recording := false } }
      else s
    { s.trustDecoder.resetGattRuntime with connected := none, dev := path }

/-- The end of a recording with its link. -/
def endRecording (s : Bridge) : Bridge :=
  let s := if s.opened then { s with voice := voiceClose s.voice } else s
  { s with voice := { s.voice with recording := false } }.trustDecoder

/-- `connection_changed`. -/
def connectionChanged (now : ℕ) (connected : Bool) (s : Bridge) : Bridge :=
  if some connected = s.connected then s
  else
    let s := { s.resetGattRuntime with
      connected := some connected, connSince := if connected then some now else none }
    if connected then s else s.endRecording

/-- What `set_discovery` meets: the `Discovering` property if it can be read, whether the adapter
    is found, and what `StartDiscovery()` or `StopDiscovery()` raises. -/
structure DiscoveryEnv where
  actual : Option Bool
  lookup : Bool
  raises : Option DBusException

/-- What `set_discovery` caches. -/
def DiscoveryEnv.cached (env : DiscoveryEnv) (on : Bool) : Option Bool :=
  match env.raises with
  | none => some on
  | some e =>
    if on && e == .inProgress then some on
    else if !on && env.actual == some false then some false
    else none

/-- `set_discovery`. -/
def setDiscovery (env : DiscoveryEnv) (on : Bool) : Handler Unit := do
  let s ← get
  if s.discovering = some on ∧ env.actual = some on then pure ()
  else if env.lookup then modify fun s => { s with discovering := env.cached on }
  else throw .other

/-- What `arm_notify` meets: the notifying characteristics, and what `build_report_map` reads. -/
structure NotifyEnv where
  notifying : ℕ
  objects : List Path
  descriptors : List (Path × ℕ × ℕ)

/-- `arm_notify`, which catches what BlueZ raises. -/
def armNotify (env : NotifyEnv) (dev : Path) (s : Bridge) : Bridge :=
  if env.notifying ≠ 0 ∧ !s.rmap.complete then
    { s with rmap := .build env.objects env.descriptors dev }
  else s

/-! ## Recording -/

/-- What `voice_ctl` meets: the characteristics that BlueZ manages, whether the control
    characteristic is found when it is looked up, and whether the write to it can be initiated. -/
structure ControlEnv where
  objects : List Path
  lookup : Bool
  write : Bool

/-- The report map when `voice_ctl` has looked for the control characteristic. -/
def controlMap (objects : List Path) (s : Bridge) : ReportMap :=
  match s.rmap.byId.lookup (rptVoiceCtl, 2), s.dev with
  | none, some dev => s.rmap.seedKnown objects dev
  | _, _ => s.rmap

/-- `voice_ctl`. The write is asynchronous. -/
def voiceCtl (env : ControlEnv) (on : Bool) : Handler Bool := do
  modify fun s => { s with rmap := s.controlMap env.objects }
  let s ← get
  if (s.rmap.byId.lookup (rptVoiceCtl, 2)).isNone then pure false
  else if env.lookup then do
    let ctlSeq := s.voice.ctlSeq + 1
    modify fun s => { s with voice := { s.voice with ctlSeq := ctlSeq } }
    if env.write then do
      modify fun s => { s with controls := (on, ctlSeq) :: s.controls }
      pure true
    else pure false
  -- `obj` raises outside of the `try`.
  else throw .other

/-- `_wfail`. -/
def controlFailed (on : Bool) (ctlSeq : ℕ) (s : Bridge) : Bridge :=
  if on ∧ ctlSeq = s.voice.ctlSeq then
    { s with voice := voiceClose { s.voice with recording := false } }
  else s

/-- How a recording is stopped: on a release of the key, at the limit and when it is silent. -/
def stopRecording (env : ControlEnv) : Handler Unit := do
  modify fun s => { s with voice := { s.voice with recording := false } }
  let _ ← voiceCtl env false
  modify fun s => { s with voice := voiceClose s.voice }

/-- `on_voice_report` with a complete frame in `buf`, up to the limit. -/
def takeFrame (env : Env) (v : Voice) (vol : UInt8) : Voice :=
  let frame := v.buf.take 40
  let v := { v with vol := vol, frames := v.frames + 1, lastFrame := env.now }
  let v := voiceOpen env v
  let v := if v.proc && !env.takes then voiceClose (decoderFailed v) else v
  { v with emitted := v.emitted ++ [frame] }

/-- Storing the fragment `idx` of a frame, up to the limit, and whether the frame is complete. -/
def takeFragment (env : Env) (v : Voice) (idx : ℕ) (body : List UInt8) : Voice × Bool :=
  let buf := v.buf.take (idx * 16) ++ (body.drop 4).take 16 ++ v.buf.drop (idx * 16 + 16)
  let v := { v with buf := buf }
  if idx ≠ 2 then (v, false) else (takeFrame env v (body.getD 12 0), true)

/-- `on_voice_report` up to the limit, and whether a frame is complete. -/
def takeReport (env : Env) (v : Voice) (body : List UInt8) : Voice × Bool :=
  if !v.recording then (v, false)
  else if body.length ≠ 20 then (v, false)
  else
    let seq : ℤ := (body.getD 0 0).toNat + 256 * (body.getD 1 0).toNat
    let idx := (body.getD 2 0).toNat
    if seq ≠ v.seq then
      let v := { v with seq := seq }
      if idx ≠ 0 then ({ v with frag := -1 }, false)
      else takeFragment env { v with frag := 0 } idx body
    else if (idx : ℤ) ≠ v.frag + 1 then ({ v with frag := -1 }, false)
    else takeFragment env { v with frag := idx } idx body

/-- A report completes the last frame of a recording. -/
def full (taken : Voice × Bool) : Bool := taken.2 && decide (taken.1.frames ≥ voiceMaxFrames)

/-- `on_voice_report`. -/
def onVoiceReport (env : Env) (control : ControlEnv) (body : List UInt8) : Handler Unit := do
  let s ← get
  let taken := takeReport env s.voice body
  modify fun s => { s with voice := taken.1 }
  if full taken then stopRecording control else pure ()

/-- A press of the voice key. -/
def press (now : ℕ) (control : ControlEnv) : Handler Unit := do
  modify fun s => { s with
    voice := { s.voice with recording := true, lastFrame := 0 }, recordingSince := now }
  let started ← voiceCtl control true
  if started then pure ()
  else modify fun s => { s with voice := { s.voice with recording := false } }

/-- A release of the voice key. -/
def release (control : ControlEnv) : Handler Unit := do
  let s ← get
  if s.voice.recording then stopRecording control
  else modify fun s => { s with voice := voiceClose s.voice }

/-- The action of a vendor key event, if it is one of the voice key. -/
def voiceKeyAction (data : List UInt8) : Option UInt8 :=
  if 4 ≤ data.length ∧ data.getD 0 0 = 0x82 ∧ data.getD 1 0 = voiceKey then some (data.getD 2 0)
  else none

/-- A vendor key event. -/
def keyEvent (now : ℕ) (control : ControlEnv) (data : List UInt8) : Handler Unit := do
  let s ← get
  if voiceKeyAction data = some 1 ∧ !s.voice.recording then press now control
  else if voiceKeyAction data = some 0 then release control
  else pure ()

/-- What `dispatch_notification` does with a report. Those that go to the input device change
    nothing here. -/
def onReport (env : Env) (control : ControlEnv) (rid : ℕ) (data : List UInt8) : Handler Unit :=
  if rid = rptVoiceIn then onVoiceReport env control data
  else if rid = rptKeyevent then keyEvent env.now control data
  else pure ()

/-- `dispatch_notification`. -/
def dispatchNotification (env : Env) (control : ControlEnv) (path : Path) (data : List UInt8) :
    Handler Unit := do
  modify fun s => { s with rmap := s.rmap.mapPath path }
  let s ← get
  match s.rmap.byPath.lookup path with
  | none => pure ()
  | some (rid, _) => onReport env control rid data

/-- `on_props` for the value of a characteristic. -/
def onValue (env : Env) (control : ControlEnv) (path : Path) (data : List UInt8) :
    Handler Unit := do
  let s ← get
  if (knownReport path).isNone ∧ (s.rmap.byPath.lookup path).isNone then pure ()
  else if s.dev.any (fun dev => !path.within dev) then pure ()
  else dispatchNotification env control path data

/-- The properties of a device that a signal says have changed, and what the handler meets: whether
    the device is one to adopt, and what `arm_notify` meets. -/
structure PropsEnv where
  connected : Option Bool
  resolved : Bool
  matching : Bool
  notify : NotifyEnv

/-- `on_props` for a device. -/
def onDevice (now : ℕ) (env : PropsEnv) (path : Path) (s : Bridge) : Bridge :=
  let s := if s.dev.isNone && env.matching then adoptDevice (some path) s else s
  if some path ≠ s.dev then s
  else
    let s :=
      match env.connected with
      | some connected => connectionChanged now connected s
      | none => s
    if env.resolved then armNotify env.notify path s else s

/-- `on_iface_added`, given whether the name of the device matches, and whether the current device
    is known to be connected. -/
def onIfaceAdded (matching current : Bool) (path : Path) (s : Bridge) : Bridge :=
  if !matching || s.dev = some path then s
  else if s.dev.isSome && current then s
  else adoptDevice (some path) s

/-! ## Pairing -/

/-- `_finish_pair`. -/
def finishPair (env : DiscoveryEnv) (token : String) : Handler Unit := do
  let s ← get
  if s.pairFlag.any (fun current => current.token ≠ token) then pure ()
  else if s.completedToken = some token then pure ()
  else
    modify fun s => { s with
      completedToken := some token, busy := false, pairToken := none, pairs := s.pairs + 1,
      pairFlag := (Session.closeWindow (some token) s.pairFlag).2 }
    setDiscovery env false

/-- What an error callback meets: its error, whether `CancelPairing()` can be called, the time when
    it sets the back-off, and the time when it reads the session. -/
structure FailEnv where
  error : DBusException
  cancel : Bool
  now : ℕ
  later : ℕ
  discovery : DiscoveryEnv

/-- The callback that `_err("pairing", token)` makes. -/
def pairFailed (env : FailEnv) (token : String) : Handler Unit := do
  modify fun s => { s with
    busy := false, pairToken := if s.pairToken = some token then none else s.pairToken }
  if env.error = .inProgress then modify fun s => { s with retryAfter := env.now + 25000 }
  else
    modify fun s => { s with
      cancels := if s.dev.isSome && env.cancel then s.cancels + 1 else s.cancels,
      retryAfter := env.now + 8000, discovering := none }
    let s ← get
    let session := Session.pairingSession env.later s.pairFlag
    modify fun s => { s with pairFlag := session.2 }
    if session.1.isSome then setDiscovery env.discovery true else pure ()

/-! ## The handler that is called every second -/

/-- Where `_tick` reads the time. -/
inductive Moment where
  | session | connection | busy | retry | pair | backoff | services | silence

/-- The properties of a device. -/
structure Link where
  connected : Bool
  paired : Bool
  resolved : Bool
  deriving DecidableEq, Repr

/-- What `_tick` meets: the time whenever it reads it, the device that `find_device` finds, the
    properties of the device if they can be read, what each call of `set_discovery` and
    `arm_notify` meets, whether `RemoveDevice()` raises and whether `Pair()` does, and what
    `voice_ctl` meets. -/
structure TickEnv where
  now : Moment → ℕ
  found : Option Path
  link : Option Link
  finish : DiscoveryEnv
  ready : DiscoveryEnv
  discovery : DiscoveryEnv
  pairing : DiscoveryEnv
  notify : NotifyEnv
  notifyAgain : NotifyEnv
  removes : Bool
  pairs : Bool
  control : ControlEnv

/-- What `_tick` goes on with: the link, and the token of the session to pair for. -/
structure Next where
  link : Link
  token : Option String
  deriving DecidableEq, Repr

/-- The bound on `busy`. -/
def busyDeadline (now : ℕ) (s : Bridge) : Bridge :=
  if s.busy ∧ s.busyUntil ≤ now then { s with busy := false } else s

/-- The end of a session whose device is bonded: the session that is left. -/
def finishBonded (env : TickEnv) (link : Link) (session : Option Session) :
    Handler (Option Session) := do
  let s ← get
  match session with
  | none => pure none
  | some session =>
    if link.paired ∧ (session.phase = "unbound" ∨ s.pairToken = some session.token) then do
      finishPair env.finish session.token
      pure none
    else pure (some session)

/-- The removal of an old bond. -/
def removeBond (env : TickEnv) (session : Session) : Handler Unit := do
  setDiscovery env.discovery false
  if env.removes then
    modify fun s => { s with
      pairFlag := Session.markPairPhase session.token "unbound" s.pairFlag }
    modify (adoptDevice none)
    modify fun s => { s with discovering := none, retryAfter := env.now .backoff + 3000 }
  else modify fun s => { s with retryAfter := env.now .backoff + 3000 }

/-- The end of a scan before `Pair()` on a connection. -/
def stopScan (env : TickEnv) (session : Option Session) : Handler Unit :=
  if session.isSome then setDiscovery env.pairing false else pure ()

/-- `_tick` from the check of `busy` to `Pair()`. -/
def tickReady (env : TickEnv) (dev : Path) (link : Link) (session : Option Session) :
    Handler (Option Next) := do
  match session, link.paired with
  | some session, true => do
    removeBond env session
    pure none
  | session, _ => do
    setDiscovery env.discovery false
    if link.connected then do
      if link.resolved then do
        modify (armNotify env.notifyAgain dev)
        stopScan env session
        pure (some ⟨link, session.map (·.token)⟩)
      else pure (some ⟨link, none⟩)
    else
      match session with
      | none => pure none
      | some session => pure (some ⟨link, some session.token⟩)

/-- The subscription to the notifications before the check of `busy`. -/
def armLink (env : TickEnv) (dev : Path) (link : Link) : Handler Unit :=
  if link.connected && link.resolved then do
    setDiscovery env.ready false
    modify (armNotify env.notify dev)
  else pure ()

/-- `_tick` once the properties of the device are read, up to `Pair()`. -/
def tickLink (env : TickEnv) (dev : Path) (link : Link) (session : Option Session) :
    Handler (Option Next) := do
  modify (connectionChanged (env.now .connection) link.connected)
  modify (busyDeadline (env.now .busy))
  let session ← finishBonded env link session
  armLink env dev link
  let s ← get
  if s.busy || env.now .retry < s.retryAfter then pure none
  else tickReady env dev link session

/-- `_tick` up to `Pair()`, with what it goes on with if it has not returned. -/
def tickStart (env : TickEnv) : Handler (Option Next) := do
  let s ← get
  let session := Session.pairingSession (env.now .session) s.pairFlag
  let dev := s.dev <|> env.found
  modify fun s => adoptDevice dev { s with pairFlag := session.2 }
  match dev with
  | none => do
    setDiscovery env.discovery session.1.isSome
    pure none
  | some dev =>
    match env.link with
    | none => do
      modify (adoptDevice none)
      pure none
    | some link => tickLink env dev link session.1

/-- The calls of `Pair()`. -/
def startPair (env : TickEnv) (next : Next) : Handler Unit :=
  match next.token with
  | none => pure ()
  | some token => do
    modify fun s => { s with
      busy := true, busyUntil := env.now .pair + 50000, pairToken := some token }
    if env.pairs then modify fun s => { s with attempts := token :: s.attempts }
    else modify fun s => { s with
      busy := false, pairToken := none,
      retryAfter := if next.link.connected then s.retryAfter else env.now .backoff + 3000 }

/-- The check of a connection without services, and whether `_tick` goes on. -/
def tickServices (now : ℕ) (link : Link) : Handler Bool := do
  let s ← get
  if link.resolved then do
    modify fun s => { s with connSince := none }
    pure true
  else
    match s.connSince with
    | none => do
      modify fun s => { s with connSince := some now }
      pure true
    | some since =>
      if since + 25000 < now then do
        modify fun s => { s with connSince := none }
        pure false
      else pure true

/-- `_tick` up to the check for silence, and whether it gets there. -/
def beforeSilence (env : TickEnv) : Handler Bool := do
  let next ← tickStart env
  match next with
  | none => pure false
  | some next => do
    startPair env next
    if next.link.connected then tickServices (env.now .services) next.link else pure false

/-- `no_first_frame or stream_stalled`, with `VOICE_START_TIMEOUT`. -/
def stalled (now : ℕ) (s : Bridge) : Bool :=
  s.voice.recording &&
    if s.voice.lastFrame = 0 then decide (s.recordingSince + 2000 < now)
    else decide (s.voice.lastFrame + 400 < now)

/-- `_tick`. -/
def tickBody (env : TickEnv) : Handler Unit := do
  let reached ← beforeSilence env
  let s ← get
  if reached && stalled (env.now .silence) s then stopRecording env.control else pure ()

/-- `tick`, which catches what `_tick` raises. -/
def tick (env : TickEnv) (s : Bridge) : Bridge :=
  match (tickBody env).runFrom s with
  | (.ok (), s) => s
  | (.error _, s) => { s with busy := false }

/-! ## What handlers keep -/

/-- A property of the bridge that is not about the fields that handlers change, outside of recording
    and of the calls of `Pair()`. -/
structure Stable (I : Bridge → Prop) : Prop where
  rmap : ∀ s rmap, I s → I { s with rmap := rmap }
  discovering : ∀ s on, I s → I { s with discovering := on }
  connSince : ∀ s since, I s → I { s with connSince := since }
  busy : ∀ s on, I s → I { s with busy := on }
  retryAfter : ∀ s time, I s → I { s with retryAfter := time }
  pairFlag : ∀ s file, I s → I { s with pairFlag := file }
  adopted : ∀ s path, I s → I (adoptDevice path s)
  changed : ∀ s now connected, I s → I (connectionChanged now connected s)
  finished : ∀ s token, I s → I { s with
    completedToken := some token, busy := false, pairToken := none, pairs := s.pairs + 1 }
  failed : ∀ s token, I s → I { s with
    busy := false, pairToken := if s.pairToken = some token then none else s.pairToken }
  cancels : ∀ s n, I s → I { s with cancels := n }

variable {I : Bridge → Prop} {s : Bridge}

/-- Discovery is turned on or off, which is noted down. -/
theorem keeps_setDiscovery {env : DiscoveryEnv} {on : Bool}
    (hI : ∀ s on, I s → I { s with discovering := on }) : Keeps I (setDiscovery env on) :=
  keeps_get.bind fun _ => Keeps.ite (fun _ => keeps_pure _) fun _ =>
    Keeps.ite (fun _ => keeps_modify fun s => hI s _) fun _ => keeps_throw _

/-- Since when the services are waited for is noted down. -/
theorem keeps_tickServices {now : ℕ} {link : Link}
    (hI : ∀ s since, I s → I { s with connSince := since }) : Keeps I (tickServices now link) := by
  refine keeps_get.bind fun s => Keeps.ite (fun _ => ?_) fun _ => ?_
  · exact (keeps_modify fun s => hI s _).bind fun _ => keeps_pure _
  · split
    · exact (keeps_modify fun s => hI s _).bind fun _ => keeps_pure _
    · exact Keeps.ite (fun _ => (keeps_modify fun s => hI s _).bind fun _ => keeps_pure _)
        fun _ => keeps_pure _

/-- A property of the bridge that is not about recordings. -/
structure Apart (I : Bridge → Prop) : Prop where
  voice : ∀ s v, I s → I { s with voice := v }
  recordingSince : ∀ s time, I s → I { s with recordingSince := time }
  controls : ∀ s writes, I s → I { s with controls := writes }
  rmap : ∀ s rmap, I s → I { s with rmap := rmap }

namespace Apart

variable (h : Apart I)
include h

/-- Nothing else is changed as the voice is controlled. -/
theorem voiceCtl (env : ControlEnv) (on : Bool) : Keeps I (voiceCtl env on) := by
  refine (keeps_modify fun s => h.rmap s _).bind fun _ => keeps_get.bind fun s => ?_
  refine Keeps.ite (fun _ => keeps_pure _) fun _ => Keeps.ite (fun _ => ?_) fun _ => keeps_throw _
  refine (keeps_modify fun s => h.voice s _).bind fun _ => Keeps.ite (fun _ => ?_) fun _ => ?_
  · exact (keeps_modify fun s => h.controls s _).bind fun _ => keeps_pure _
  · exact keeps_pure _

theorem stopRecording (env : ControlEnv) : Keeps I (stopRecording env) := by
  refine (keeps_modify fun s => h.voice s _).bind fun _ => (h.voiceCtl env false).bind fun _ => ?_
  exact keeps_modify fun s => h.voice s _

theorem keyEvent (now : ℕ) (env : ControlEnv) (data : List UInt8) :
    Keeps I (keyEvent now env data) := by
  refine keeps_get.bind fun s =>
    Keeps.ite (fun _ => ?_) fun _ => Keeps.ite (fun _ => ?_) fun _ => ?_
  · refine (keeps_modify fun s hs => h.recordingSince _ _ (h.voice s _ hs)).bind fun _ => ?_
    refine (h.voiceCtl env true).bind fun _ => Keeps.ite (fun _ => keeps_pure _) fun _ => ?_
    exact keeps_modify fun s => h.voice s _
  · exact keeps_get.bind fun s => Keeps.ite (fun _ => h.stopRecording env) fun _ =>
      keeps_modify fun s => h.voice s _
  · exact keeps_pure _

/-- A notification. -/
theorem onValue (e : Env) (env : ControlEnv) (path : Path) (data : List UInt8) :
    Keeps I (onValue e env path data) := by
  refine keeps_get.bind fun s => Keeps.ite (fun _ => keeps_pure _) fun _ =>
    Keeps.ite (fun _ => keeps_pure _) fun _ => ?_
  refine (keeps_modify fun s => h.rmap s _).bind fun _ => keeps_get.bind fun s => ?_
  split
  · exact keeps_pure _
  · refine Keeps.ite (fun _ => ?_) fun _ =>
      Keeps.ite (fun _ => h.keyEvent _ _ _) fun _ => keeps_pure _
    refine keeps_get.bind fun s => (keeps_modify fun s => h.voice s _).bind fun _ => ?_
    exact Keeps.ite (fun _ => h.stopRecording env) fun _ => keeps_pure _

end Apart

namespace Stable

variable (h : Stable I)
include h

theorem armNotify (env : NotifyEnv) (dev : Path) (hs : I s) : I (armNotify env dev s) := by
  rw [Bridge.armNotify]
  split
  · exact h.rmap s _ hs
  · exact hs

theorem finishPair (env : DiscoveryEnv) (token : String) : Keeps I (finishPair env token) := by
  refine keeps_get.bind fun s => Keeps.ite (fun _ => keeps_pure _) fun _ =>
    Keeps.ite (fun _ => keeps_pure _) fun _ => ?_
  refine (keeps_modify fun s hs => ?_).bind fun _ => keeps_setDiscovery h.discovering
  exact h.pairFlag _ _ (h.finished s token hs)

theorem pairFailed (env : FailEnv) (token : String) : Keeps I (pairFailed env token) := by
  refine (keeps_modify (I := I) fun s => h.failed s token).bind fun _ => Keeps.ite (fun _ => ?_)
    fun _ => ?_
  · exact keeps_modify fun s => h.retryAfter s _
  · refine (keeps_modify fun s hs => ?_).bind fun _ => keeps_get.bind fun s => ?_
    · exact h.discovering _ none (h.retryAfter _ (env.now + 8000) (h.cancels s _ hs))
    · refine (keeps_modify fun s => h.pairFlag s _).bind fun _ => ?_
      exact Keeps.ite (fun _ => keeps_setDiscovery h.discovering) fun _ => keeps_pure _

theorem removeBond (env : TickEnv) (session : Session) : Keeps I (removeBond env session) := by
  refine (keeps_setDiscovery h.discovering).bind fun _ => Keeps.ite (fun _ => ?_) fun _ => ?_
  · refine (keeps_modify fun s => h.pairFlag s _).bind fun _ => ?_
    refine (keeps_modify fun s => h.adopted s none).bind fun _ => ?_
    exact keeps_modify fun s hs => h.retryAfter _ _ (h.discovering s none hs)
  · exact keeps_modify fun s => h.retryAfter s _

theorem armLink (env : TickEnv) (dev : Path) (link : Link) : Keeps I (armLink env dev link) :=
  Keeps.ite (fun _ => (keeps_setDiscovery h.discovering).bind fun _ =>
    keeps_modify fun _ => h.armNotify _ _) fun _ => keeps_pure _

theorem finishBonded (env : TickEnv) (link : Link) (session : Option Session) :
    Keeps I (finishBonded env link session) := by
  refine keeps_get.bind fun s => ?_
  cases session with
  | none => exact keeps_pure _
  | some session =>
    exact Keeps.ite (fun _ => (h.finishPair _ _).bind fun _ => keeps_pure _) fun _ => keeps_pure _

theorem tickReady (env : TickEnv) (dev : Path) (link : Link) (session : Option Session) :
    Keeps I (tickReady env dev link session) := by
  unfold Bridge.tickReady
  split
  · exact (h.removeBond _ _).bind fun _ => keeps_pure _
  · refine (keeps_setDiscovery h.discovering).bind fun _ => Keeps.ite (fun _ => ?_) fun _ => ?_
    · refine Keeps.ite (fun _ => ?_) fun _ => keeps_pure _
      refine (keeps_modify (I := I) fun _ => h.armNotify _ _).bind fun _ => ?_
      refine (Keeps.ite (fun _ => keeps_setDiscovery h.discovering) fun _ => keeps_pure _).bind ?_
      exact fun _ => keeps_pure _
    · split
      · exact keeps_pure _
      · exact keeps_pure _

theorem tickLink (env : TickEnv) (dev : Path) (link : Link) (session : Option Session) :
    Keeps I (tickLink env dev link session) := by
  refine (keeps_modify fun s => h.changed s _ _).bind fun _ => ?_
  refine (keeps_modify fun s hs => ?_).bind fun _ => ?_
  · rw [busyDeadline]
    split
    · exact h.busy s false hs
    · exact hs
  refine (h.finishBonded env link session).bind fun session => ?_
  refine (h.armLink env dev link).bind fun _ => keeps_get.bind fun s => ?_
  exact Keeps.ite (fun _ => keeps_pure _) fun _ => h.tickReady env dev link session

/-- The handler that is called every second, up to the calls of `Pair()`. -/
theorem tickStart (env : TickEnv) : Keeps I (tickStart env) := by
  refine keeps_get.bind fun s => ?_
  refine (keeps_modify fun s hs => h.adopted _ _ (h.pairFlag s _ hs)).bind fun _ => ?_
  split
  · exact (keeps_setDiscovery h.discovering).bind fun _ => keeps_pure _
  · split
    · exact (keeps_modify fun s => h.adopted s none).bind fun _ => keeps_pure _
    · exact h.tickLink _ _ _ _

theorem onDevice (now : ℕ) (env : PropsEnv) (path : Path) (hs : I s) :
    I (onDevice now env path s) := by
  rw [Bridge.onDevice]
  dsimp only
  have hadopted : I (if s.dev.isNone && env.matching then adoptDevice (some path) s else s) := by
    split
    · exact h.adopted s _ hs
    · exact hs
  generalize (if s.dev.isNone && env.matching then adoptDevice (some path) s else s) = t at hadopted
  have hchanged : I (match env.connected with
      | some connected => connectionChanged now connected t
      | none => t) := by
    split
    · exact h.changed t _ _ hadopted
    · exact hadopted
  split_ifs
  · exact hadopted
  · exact h.armNotify _ _ hchanged
  · exact hchanged

theorem onIfaceAdded (matching current : Bool) (path : Path) (hs : I s) :
    I (onIfaceAdded matching current path s) := by
  rw [Bridge.onIfaceAdded]
  split_ifs
  · exact hs
  · exact hs
  · exact h.adopted s _ hs

end Stable

/-- A property of the control writes and `voice` that the end of a recording keeps, and so does
    forgetting the failures of the decoder. -/
structure Vocal (Q : List (Bool × ℕ) → Voice → Prop) : Prop where
  ended : ∀ writes v, Q writes v → Q writes (voiceClose { v with recording := false })
  trusted : ∀ writes v, Q writes v → Q writes { v with codecFailed := false, fails := 0 }

namespace Vocal

variable {Q : List (Bool × ℕ) → Voice → Prop} (h : Vocal Q)
include h

/-- A device that is adopted has no voice yet. -/
theorem adoptDevice (path : Option Path) (hs : Q s.controls s.voice) :
    Q (adoptDevice path s).controls (adoptDevice path s).voice := by
  rw [Bridge.adoptDevice]
  split_ifs
  · exact hs
  · exact h.trusted _ _ (h.ended _ _ hs)
  · exact h.trusted _ _ hs

/-- The end of a link ends a recording, if there is one. -/
theorem endRecording (hs : Q s.controls s.voice) :
    Q s.endRecording.controls s.endRecording.voice := by
  rw [Bridge.endRecording]
  dsimp only
  split
  · exact h.trusted _ _ (h.ended _ _ hs)
  · rename_i hopen
    have hrec : s.voice.recording = false := by
      cases hrec : s.voice.recording with
      | false => rfl
      | true => exact absurd (by rw [opened, hrec]; rfl) hopen
    have hvoice : { s.voice with recording := false } = s.voice := by rw [← hrec]
    change Q s.controls
      { ({ s.voice with recording := false } : Voice) with codecFailed := false, fails := 0 }
    rw [hvoice]
    exact h.trusted _ _ hs

theorem connectionChanged (now : ℕ) (connected : Bool) (hs : Q s.controls s.voice) :
    Q (connectionChanged now connected s).controls (connectionChanged now connected s).voice := by
  rw [Bridge.connectionChanged]
  split_ifs
  · exact hs
  · exact hs
  · exact h.endRecording hs

/-- What every function keeps of the voice, the bridge does. -/
theorem stable : Stable (fun s => Q s.controls s.voice) where
  rmap _ _ hs := hs
  discovering _ _ hs := hs
  connSince _ _ hs := hs
  busy _ _ hs := hs
  retryAfter _ _ hs := hs
  pairFlag _ _ hs := hs
  finished _ _ hs := hs
  failed _ _ hs := hs
  cancels _ _ hs := hs
  adopted _ path hs := h.adoptDevice path hs
  changed _ now connected hs := h.connectionChanged now connected hs

/-- Up to the check for silence, nothing but the end of the link ends a recording. -/
theorem beforeSilence (env : TickEnv) :
    Keeps (fun s => Q s.controls s.voice) (beforeSilence env) := by
  refine (h.stable.tickStart env).bind fun next => ?_
  cases next with
  | none => exact keeps_pure _
  | some next =>
    refine Keeps.bind ?_ fun _ => Keeps.ite
      (fun _ => keeps_tickServices h.stable.connSince) fun _ => keeps_pure _
    rw [startPair]
    split
    · exact keeps_pure _
    · exact Keeps.bind (fun _ hs => hs) fun _ => Keeps.ite (fun _ _ hs => hs) fun _ _ hs => hs

end Vocal

end Bridge

/-! ## The machine -/

/-- What the main loop handles. -/
inductive Event where
  | value (env : Env) (control : Bridge.ControlEnv) (path : Path) (data : List UInt8)
  | device (now : ℕ) (env : Bridge.PropsEnv) (path : Path)
  | ifaceAdded (matching current : Bool) (path : Path)
  /-- A reply to the write of the recording control. -/
  | controlReply (on : Bool) (ctlSeq : ℕ) (failed : Bool)
  | tick (env : Bridge.TickEnv)
  /-- The replies to `Pair()`. -/
  | pairOk (env : Bridge.DiscoveryEnv) (token : String)
  | pairFailed (env : Bridge.FailEnv) (token : String)
  /-- `w132d-ble-pair`. -/
  | openWindow (now : ℕ) (session : Session)

/-- The bridge. A reply comes to a call that was made. -/
def bridge : Machine Bridge Event where
  step
    | s, .value env control path data => some ((Bridge.onValue env control path data).runFrom s).2
    | s, .device now env path => some (Bridge.onDevice now env path s)
    | s, .ifaceAdded matching current path => some (Bridge.onIfaceAdded matching current path s)
    | s, .controlReply on ctlSeq failed =>
      if (on, ctlSeq) ∈ s.controls then
        let s := { s with controls := s.controls.erase (on, ctlSeq) }
        some (if failed then s.controlFailed on ctlSeq else s)
      else none
    | s, .tick env => some (s.tick env)
    | s, .pairOk env token =>
      if token ∈ s.attempts then
        some ((Bridge.finishPair env token).runFrom
          { s with attempts := s.attempts.erase token }).2
      else none
    | s, .pairFailed env token =>
      if token ∈ s.attempts then
        some ((Bridge.pairFailed env token).runFrom
          { s with attempts := s.attempts.erase token }).2
      else none
    | s, .openWindow now session =>
      some { s with pairFlag := Session.openWindow now session s.pairFlag }

/-! ## Replies -/

namespace Bridge

variable {s s' : Bridge} {token : String}

/-- The reply to a control write: if that write failed, and was the last one to start a recording,
    the recording ends. -/
theorem step_controlReply {on failed : Bool} {ctlSeq : ℕ}
    (h : bridge.step s (.controlReply on ctlSeq failed) = some s') :
    ¬(failed = true ∧ on = true ∧ ctlSeq = s.voice.ctlSeq) ∧
        s' = { s with controls := s.controls.erase (on, ctlSeq) } ∨
      (failed = true ∧ on = true ∧ ctlSeq = s.voice.ctlSeq) ∧
        s' = { s with
          controls := s.controls.erase (on, ctlSeq)
          voice := voiceClose { s.voice with recording := false } } := by
  rw [bridge] at h
  dsimp only at h
  split_ifs at h with hmem hfailed
  · obtain rfl := Option.some.inj h
    rw [controlFailed]
    split
    · rename_i hlast
      exact .inr ⟨⟨hfailed, hlast⟩, rfl⟩
    · rename_i hlast
      exact .inl ⟨fun h => hlast h.2, rfl⟩
  · exact .inl ⟨fun h => hfailed h.1, (Option.some.inj h).symm⟩

/-- The success of a call of `Pair()`. -/
theorem step_pairOk {env : DiscoveryEnv} (h : bridge.step s (.pairOk env token) = some s') :
    token ∈ s.attempts ∧
      s' = ((finishPair env token).runFrom { s with attempts := s.attempts.erase token }).2 := by
  rw [bridge] at h
  dsimp only at h
  split_ifs at h with hmem
  exact ⟨hmem, (Option.some.inj h).symm⟩

/-- The error of a call of `Pair()`. -/
theorem step_pairFailed {env : FailEnv} (h : bridge.step s (.pairFailed env token) = some s') :
    token ∈ s.attempts ∧
      s' = ((pairFailed env token).runFrom { s with attempts := s.attempts.erase token }).2 := by
  rw [bridge] at h
  dsimp only at h
  split_ifs at h with hmem
  exact ⟨hmem, (Option.some.inj h).symm⟩

end Bridge

end W132d.Remote
