import Ktty.Wire.Json
import Mathlib.Data.List.DropRight

/-!
# The dashboard

`DashboardScreen` as a state machine, as far as `_connect` goes. A call of `_connect` is checked up to
the first `await` (`connect`), and an attempt that passes the checks is an entry of `attempts`: it awaits
`wsService.connect`, then `performHandshake`, and after a failure the delay of five seconds. How the two
awaited calls end is an event.

Nothing but the button keeps `_connect` from being called while an attempt is under way, so several
attempts can be under way at once. Leaving the terminal shows the dashboard again with a new `State`
object; `screen` counts these objects.
-/

set_option autoImplicit false

namespace Ktty.Client

open Ktty.Wire

inductive ConnectionStatus where
  | disconnected
  | connectingRelay
  | relayConnected
  | handshaking
  | waitingForAgent
  | connected
  | syncing
  deriving DecidableEq

/-- What the dashboard does to the services and the user interface. -/
inductive DashboardEffect where
  | snackBar (content : Text) (seconds : Nat)
  /-- `wsService.connect(url)`. -/
  | connect (url : Text)
  | performHandshake (pin : Text)
  | disconnect
  | clearTerminal
  | attach (syncExisting : Bool)
  /-- `Navigator.pushReplacementNamed(context, '/terminal')`. -/
  | showTerminal
  deriving DecidableEq

/-- Where an attempt stands. -/
inductive AttemptStage where
  /-- It awaits `wsService.connect`. -/
  | connecting
  /-- It awaits `performHandshake`. -/
  | handshaking
  /-- It has failed and awaits the delay. -/
  | cooling
  | ended
  deriving DecidableEq

/-- A call of `_connect` that has passed the checks. -/
structure Attempt where
  /-- The `State` object it belongs to. -/
  screen : Nat
  pin : Text
  stage : AttemptStage

/-- The fields of the `State` object that `_connect` uses, those of `SessionState`, and the attempts. -/
structure Dashboard where
  /-- The clock, in microseconds. -/
  now : Nat
  screen : Nat
  mounted : Bool
  /-- `_connecting`. -/
  busy : Bool
  pinAttempts : Nat
  lockoutUntil : Option Nat
  status : ConnectionStatus
  url : Text
  pin : Text
  attempts : List Attempt

inductive DashboardEvent where
  /-- `_connect` is called with these texts in the two fields. -/
  | connect (pinText urlText : Text)
  /-- `wsService.connect` of the `i`-th attempt completes, or throws an error with this text. -/
  | relay (i : Nat) (error : Option Text)
  /-- The same for `performHandshake`. -/
  | handshake (i : Nat) (error : Option Text)
  /-- The delay of the `i`-th attempt is over. -/
  | cooled (i : Nat)
  /-- The service calls `onConnectionChanged`. -/
  | connectionChanged (connected : Bool)
  | disposed
  /-- The user leaves the terminal, and the dashboard is shown again. -/
  | shown
  | elapse (d : Nat)
  deriving DecidableEq

/-! ## Reading the fields -/

/-- The characters that `String.trim` removes: Unicode white space and the byte order mark. -/
def isWhitespace (c : Char) : Bool :=
  let n := c.toNat
  (9 ≤ n && n ≤ 13) || n == 0x20 || n == 0x85 || n == 0xA0 || n == 0x1680 ||
    (0x2000 ≤ n && n ≤ 0x200A) || n == 0x2028 || n == 0x2029 || n == 0x202F || n == 0x205F ||
    n == 0x3000 || n == 0xFEFF

def trim (t : Text) : Text := (t.dropWhile isWhitespace).rdropWhile isWhitespace

/-- The digits of the PIN field. -/
def pinOf (t : Text) : Text := (trim t).filter fun c => '0' ≤ c && c ≤ '9'

/-- The URL is not cleartext. -/
def usesTls (url : Text) : Bool := "wss://".toList.isPrefixOf url

namespace Dashboard

def start : Dashboard :=
  { now := 0, screen := 0, mounted := true, busy := false, pinAttempts := 0, lockoutUntil := none,
    status := .disconnected, url := [], pin := [], attempts := [] }

/-! ## The rate limiter -/

def maxAttempts : Nat := 5

/-- `Duration(seconds: 30)`. -/
def lockoutDuration : Nat := 30 * 1000000

variable (s : Dashboard)

/-- `_isLockedOut`, which clears a lockout that is over. -/
def isLockedOut : Bool × Dashboard :=
  match s.lockoutUntil with
  | none => (false, s)
  | some lockoutUntil =>
      -- `isAfter` is strict: the last moment still counts
      if lockoutUntil < s.now then (false, { s with lockoutUntil := none, pinAttempts := 0 })
      else (true, s)

def lockoutSecondsRemaining : Nat :=
  match s.lockoutUntil with
  | none => 0
  | some lockoutUntil => min ((lockoutUntil - s.now) / 1000000) 999

/-! ## A call -/

def tooManyAttempts : Text :=
  "Too many attempts. Try again in ".toList ++ (toString s.lockoutSecondsRemaining).toList ++
    "s.".toList

/-- The attempt begins with the call of `wsService.connect`. -/
def begin (url pin : Text) : Dashboard × List DashboardEffect :=
  ({ s with
      busy := true
      url := url
      pin := pin
      status := .connectingRelay
      attempts := s.attempts ++ [{ screen := s.screen, pin := pin, stage := .connecting }] },
    [.connect url])

/-- `_connect` behind the rate limiter. -/
def connectTo (url pin : Text) : Dashboard × List DashboardEffect :=
  if url.isEmpty then (s, [])
  else if !usesTls url then
    (s, [.snackBar "Relay URL must use wss:// (TLS required).".toList 3])
  else s.begin url pin

/-- `_connect` up to its first `await`, on a mounted widget; `kIsWeb` says whether this is the PWA. -/
def connect (kIsWeb : Bool) (pinText urlText : Text) : Dashboard × List DashboardEffect :=
  if (pinOf pinText).isEmpty then (s, [])
  else if (pinOf pinText).length < 8 then
    (s, [.snackBar "PIN must be at least 8 digits.".toList 3])
  else if kIsWeb then
    let (lockedOut, s') := s.isLockedOut
    if lockedOut then (s', [.snackBar s'.tooManyAttempts 3])
    else s'.connectTo (trim urlText) (pinOf pinText)
  else s.connectTo (trim urlText) (pinOf pinText)

/-! ## An attempt -/

def setStage (i : Nat) (a : Attempt) (stage : AttemptStage) : Dashboard :=
  { s with attempts := s.attempts.set i { a with stage := stage } }

/-- The `State` object of the attempt is mounted. -/
def isMounted (a : Attempt) : Bool := s.mounted && a.screen == s.screen

def errorMsg (e : Text) : Text :=
  if containsStr e "No agent found" then "No agent found. Wrong PIN or agent not running.".toList
  else if containsStr e "host lookup" then "Cannot reach relay server.".toList
  else if containsStr e "TimeoutException" then
    "Connection timed out. Agent may not be running.".toList
  else "Connection failed: ".toList ++ e

/-- The `catch` and `finally` blocks: the status is `disconnected`, so the button stays disabled for the
delay. -/
def fail (i : Nat) (a : Attempt) (e : Text) : Dashboard × List DashboardEffect :=
  let s' := { s with status := .disconnected }
  if s.isMounted a then
    ({ s' with busy := true }.setStage i a .cooling, [.disconnect, .snackBar (errorMsg e) 4])
  else (s'.setStage i a .ended, [.disconnect])

/-- The relay is connected: the attempt goes on with the handshake. -/
def connected (i : Nat) (a : Attempt) : Dashboard × List DashboardEffect :=
  -- `relayConnected` is set first and overwritten at once
  ({ s with status := .waitingForAgent }.setStage i a .handshaking, [.performHandshake a.pin])

/-- The handshake is done: the terminal is attached and shown. -/
def succeed (i : Nat) (a : Attempt) : Dashboard × List DashboardEffect :=
  let s' := { s with status := .connected }
  if s.isMounted a then
    ({ s' with busy := false }.setStage i a .ended, [.clearTerminal, .attach true, .showTerminal])
  else (s'.setStage i a .ended, [.clearTerminal, .attach true])

/-- The delay after a failure is over. -/
def cooled (i : Nat) (a : Attempt) : Dashboard :=
  if s.isMounted a then { s with busy := false }.setStage i a .ended else s.setStage i a .ended

/-- The attempt `i`, if it is at this stage. -/
def attemptAt (i : Nat) (stage : AttemptStage) : Option Attempt :=
  s.attempts[i]?.filter fun a => a.stage == stage

/-- One step; `none` for an event that cannot happen. -/
def step (kIsWeb : Bool) (s : Dashboard) : DashboardEvent → Option (Dashboard × List DashboardEffect)
  -- `context.read` needs a mounted widget
  | .connect pinText urlText => if s.mounted then some (s.connect kIsWeb pinText urlText) else none
  | .relay i error =>
      (s.attemptAt i .connecting).map fun a =>
        match error with
        | none => s.connected i a
        | some e => s.fail i a e
  | .handshake i error =>
      (s.attemptAt i .handshaking).map fun a =>
        match error with
        | none => s.succeed i a
        | some e => s.fail i a e
  | .cooled i => (s.attemptAt i .cooling).map fun a => (s.cooled i a, [])
  | .connectionChanged connected =>
      some ({ s with status := if connected then .connected else .syncing }, [])
  | .disposed => some ({ s with mounted := false }, [])
  | .shown =>
      if s.mounted then none
      else
        some ({ s with
          screen := s.screen + 1
          mounted := true
          busy := false
          pinAttempts := 0
          lockoutUntil := none
          status := .disconnected }, [])
  | .elapse d => some ({ s with now := s.now + d }, [])

/-! ## Lemmas -/

theorem isLockedOut_attempts (s : Dashboard) : s.isLockedOut.2.attempts = s.attempts := by
  rw [isLockedOut]
  cases s.lockoutUntil with
  | none => rfl
  | some lockoutUntil =>
      dsimp only
      split <;> rfl

theorem attemptAt_some {s : Dashboard} {i : Nat} {a : Attempt} {stage : AttemptStage}
    (h : s.attemptAt i stage = some a) : s.attempts[i]? = some a ∧ a.stage = stage := by
  rw [attemptAt, Option.filter_eq_some_iff] at h
  exact ⟨h.1, eq_of_beq h.2⟩

end Dashboard

end Ktty.Client
