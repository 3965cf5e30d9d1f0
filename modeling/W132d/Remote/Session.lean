import W132d.Machine

/-!
# The pairing session

`w132d-ble-pair` opens a pairing window: it writes a session to `PAIR_FLAG`, with the time at which
it ends, a token of its own and how far it got. The bridge reads the file, marks its progress in it,
and removes it once the pairing succeeds or the time is over (`read_pair_session`,
`pairing_session`, `close_window` and `mark_pair_phase` in `ble-remote.py`).

Times are in milliseconds.
-/

namespace W132d.Remote

/-- What `read_pair_session` reads. -/
structure Session where
  deadline : ℕ
  token : String
  phase : String
  deriving DecidableEq, Repr

namespace Session

/-! ## The functions of the bridge -/

/-- `close_window`, on the session in the file: whether it removes it, and the file after it. -/
def closeWindow (token : Option String) : Option Session → Bool × Option Session
  | none => (false, none)
  | some current =>
    if ∃ t, token = some t ∧ current.token ≠ t then (false, some current) else (true, none)

/-- `pairing_session`. -/
def pairingSession (now : ℕ) : Option Session → Option Session × Option Session
  | none => (none, none)
  | some session =>
    if now < session.deadline then (some session, some session)
    else (none, (closeWindow (some session.token) (some session)).2)

/-- `mark_pair_phase`. The time is written in whole seconds. -/
def markPairPhase (token phase : String) : Option Session → Option Session
  | none => none
  | some current =>
    if current.token ≠ token then some current
    else some ⟨current.deadline / 1000 * 1000, token, phase⟩

/-- `w132d-ble-pair`, which does not replace a session whose time is not over. -/
def openWindow (now : ℕ) (session : Session) : Option Session → Option Session
  | none => some session
  | some current =>
    if now / 1000 < current.deadline / 1000 then some current else some session

end Session

end W132d.Remote
