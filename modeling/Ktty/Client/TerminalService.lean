import Ktty.Client.WebSocketService

/-!
# The client's terminal service

`TerminalService` between an `attach` and the next `detach`, as a state machine. The handler
`_handleMessage` runs in two parts: up to the `await` of `decryptPayload` when a frame arrives
(`handleMessage`), and behind it when the decryption completes (`resume`). Between the two the frame
is in `pending`, and decryptions may complete in any order. A sync recovery is a queued microtask that
reads `_lastGoodSeq` when it runs.

An exception of the handler ends in its outer `catch`, which schedules a recovery. Timestamps and the
statistics they feed are left out, and so are resizing and pinch gestures.
-/

set_option autoImplicit false

namespace Ktty.Client

open Ktty.Wire

/-- The two kinds of frames that are decrypted. -/
inductive FrameKind where
  | pty
  | syncWarn
  deriving DecidableEq

/-- A frame whose handler waits for `decryptPayload`: the member `seq` of its JSON and what the
decryption comes to. -/
structure Pending where
  kind : FrameKind
  seq : Option Json
  outcome : Option Bytes

/-- The fields of `TerminalService`, and the asynchronous work it has under way. -/
structure TerminalService where
  ws : WebSocketService
  seq : Int
  lastGoodSeq : Int
  syncRecoveryInFlight : Bool
  inputBuffer : Bytes
  predictedEcho : Bytes
  pending : List Pending
  /-- Calls of `sendEncrypted` for keystrokes that have not completed. -/
  sending : Nat
  /-- Recovery microtasks that have not started. -/
  microtasks : Nat
  /-- Recovery microtasks that wait for `sendSyncRequest`. -/
  recovering : Nat

/-- What the service does to its surroundings. -/
inductive TerminalEffect where
  /-- The payload of a `pty` frame, with the frame's `seq` and the part that is written to the
  terminal. -/
  | output (seq : Option Json) (payload filtered : Bytes)
  /-- The local echo of keystrokes. -/
  | echo (bytes : Bytes)
  /-- The data loss warning. -/
  | warning (droppedStart droppedEnd : Option Json)
  /-- `_ws.sendSyncRequest`. -/
  | syncRequest (lastSeq : Int)
  /-- `_ws.sendEncrypted(_seq, 'pty', data)`. -/
  | sendPty (seq : Int) (data : Bytes)

inductive TerminalEvent where
  /-- `_ws.messages` yields a text. -/
  | message (raw : Text)
  /-- The decryption of the `i`-th waiting frame completes. -/
  | decrypted (i : Nat)
  /-- A recovery microtask starts. -/
  | recover
  /-- A recovery microtask has awaited its request. -/
  | recovered
  /-- `terminal.onOutput`: the user types. -/
  | typed (bytes : Bytes)
  /-- `sendText` and `pastePlainText`. -/
  | injected (bytes : Bytes)
  /-- The flush timer fires. -/
  | flush
  /-- The `sendEncrypted` of a batch of keystrokes completes or throws. -/
  | sent (ok : Bool)
  /-- The handshake of a reconnect, or a disconnect, changes the session. -/
  | session (ws : WebSocketService)
  | reattachAfterReconnect

/-! ## Casts -/

/-- `json[key] as String?`; `none` when the cast throws. -/
def asNullableString : Option Json → Option (Option Text)
  | none => some none
  | some .null => some none
  | some (.str s) => some (some s)
  | some _ => none

/-- `json[key] as int?`; `none` when the cast throws. -/
def asNullableInt : Option Json → Option (Option Int)
  | none => some none
  | some .null => some none
  | some (.int i) => some (some i)
  | some _ => none

/-- The body of `sendResize`, in the key order of the map literal. -/
def resizeJson (cols rows : Int) : Json := .ofFields [("cols", .int cols), ("rows", .int rows)]

/-! ## Local echo -/

/-- The loop of `_stripPredictedEcho` on predictions and incoming bytes: what remains of both, or
`none` on a mismatch. -/
def matchEcho : Bytes → Bytes → Option (Bytes × Bytes)
  | [], incoming => some ([], incoming)
  | predicted, [] => some (predicted, [])
  -- a mismatch gives up all predictions and filters nothing:
  | p :: predicted, b :: incoming => if b = p then matchEcho predicted incoming else none

/-- `_stripPredictedEcho`: the remaining predictions and the bytes to write. -/
def stripPredictedEcho (predicted incoming : Bytes) : Bytes × Bytes :=
  match matchEcho predicted incoming with
  | some r => r
  | none => ([], incoming)

/-- The bytes of a keystroke that are echoed locally: the printable ones, unless there is an escape
among them. -/
def localEcho (bytes : Bytes) : Bytes :=
  if (0x1B : UInt8) ∈ bytes then [] else bytes.filter fun b => 0x20 ≤ b && b ≤ 0x7E

namespace TerminalService

variable (D : Dart) (c : TerminalService)

/-! ## Recovery -/

/-- `_scheduleSyncRecovery`. -/
def scheduleSyncRecovery : TerminalService :=
  if c.syncRecoveryInFlight then c
  else
    { c with syncRecoveryInFlight := true, predictedEcho := [], microtasks := c.microtasks + 1 }

/-- `_requestSync` sends `_lastGoodSeq` when a session is established; without one the error is only
printed. -/
def requestSync : List TerminalEffect :=
  if c.ws.crypto.isSome && c.ws.sessionId.isSome then [.syncRequest c.lastGoodSeq] else []

/-! ## `_handleMessage` -/

/-- What the handler does with a frame up to the first `await`. -/
inductive Arrival where
  | skip
  | recover
  | decrypt (p : Pending)

/-- The part common to `pty` and `sync_warn` frames: the session check, then the payload. -/
def receive (kind : FrameKind) (json : Json) (envelopeSessionId : Option Text) : Arrival :=
  match envelopeSessionId, c.ws.sessionId with
  | some envelopeSid, some currentSid =>
      -- a frame of another session is not decrypted:
      if envelopeSid ≠ currentSid then .recover
      else
        match (json.get? "payload").bind Json.asStr with
        | some payload =>
            .decrypt { kind := kind, seq := json.get? "seq", outcome := decryptPayload D c.ws payload }
        | none => .recover
  | _, _ => .recover

/-- The dispatch of a frame. -/
def arrival (raw : Text) : Arrival :=
  match jsonDecodeMap D raw with
  | none => .recover
  | some json =>
      match asNullableString (json.get? "type"), asNullableString (json.get? "session_id") with
      | some type, some envelopeSessionId =>
          if type = some "handshake".toList ∨ type = some "boot".toList then .skip
          else if (json.get? "action").bind Json.asStr = some "join".toList then .skip
          else if type = some "pty".toList then c.receive D .pty json envelopeSessionId
          else if type = some "sync_warn".toList then c.receive D .syncWarn json envelopeSessionId
          else .skip
      -- a `type` or `session_id` of another kind throws in the cast
      | _, _ => .recover

def handleMessage (raw : Text) : TerminalService :=
  match c.arrival D raw with
  | .skip => c
  | .recover => c.scheduleSyncRecovery
  | .decrypt p => { c with pending := c.pending ++ [p] }

/-- The tracking of the agent's outgoing `seq`; a value that is not an `int` throws. -/
def track (seq : Option Json) : TerminalService :=
  match asNullableInt seq with
  | none => c.scheduleSyncRecovery
  | some none => c
  -- the number is taken over as it is; only `_seq` is compared with it:
  | some (some n) => { c with lastGoodSeq := n, seq := if c.seq < n then n else c.seq }

/-- A `pty` frame behind its `await`. -/
def resumePty (seq : Option Json) : Option Bytes → TerminalService × List TerminalEffect
  | none => (c.scheduleSyncRecovery, [])
  | some bytes =>
      -- the bytes are written before the number is tracked, so a bad `seq` does not hold them back:
      let (predicted, filtered) := stripPredictedEcho c.predictedEcho bytes
      ({ c with predictedEcho := predicted }.track seq, [.output seq bytes filtered])

/-- A `sync_warn` frame behind its `await`. -/
def resumeSyncWarn : Option Bytes → TerminalService × List TerminalEffect
  | none => (c.scheduleSyncRecovery, [])
  | some bytes =>
      match (D.utf8Decode bytes).bind (jsonDecodeMap D) with
      | none => (c.scheduleSyncRecovery, [])
      | some syncData =>
          (c, [.warning (syncData.get? "dropped_start") (syncData.get? "dropped_end")])

/-- The handler of a frame goes on behind its `await`. -/
def resume (p : Pending) : TerminalService × List TerminalEffect :=
  match p.kind with
  | .pty => c.resumePty p.seq p.outcome
  | .syncWarn => c.resumeSyncWarn D p.outcome

/-! ## Steps -/

/-- The service after its constructor, on a WebSocket service. -/
def new (ws : WebSocketService) : TerminalService :=
  { ws := ws, seq := 0, lastGoodSeq := 0, syncRecoveryInFlight := false, inputBuffer := [],
    predictedEcho := [], pending := [], sending := 0, microtasks := 0, recovering := 0 }

/-- `attach` on the service of a session: listening starts, and an existing session is synced. -/
def attach (syncExisting : Bool) : TerminalService × List TerminalEffect :=
  let c := { c with predictedEcho := [], syncRecoveryInFlight := false, lastGoodSeq := 0 }
  (c, if syncExisting then c.requestSync else [])

/-- `_flushInput` with `_sendPty`, up to its `await`. -/
def flushInput : TerminalService × List TerminalEffect :=
  if c.inputBuffer = [] then (c, [])
  else
    ({ c with inputBuffer := [], seq := c.seq + 1, sending := c.sending + 1 },
      [.sendPty (c.seq + 1) c.inputBuffer])

/-- One step of the attached service; `none` for an event that cannot happen now. -/
def step : TerminalEvent → Option (TerminalService × List TerminalEffect)
  | .message raw => some (c.handleMessage D raw, [])
  | .decrypted i => (c.pending[i]?).map ({ c with pending := c.pending.eraseIdx i }.resume D)
  | .recover =>
      if 0 < c.microtasks then
        some ({ c with microtasks := c.microtasks - 1, recovering := c.recovering + 1 }, c.requestSync)
      else none
  | .recovered =>
      if 0 < c.recovering then
        -- the `finally`, whether or not the request could be sent
        some ({ c with recovering := c.recovering - 1, syncRecoveryInFlight := false }, [])
      else none
  | .typed bytes =>
      some ({ c with
        predictedEcho := c.predictedEcho ++ localEcho bytes
        inputBuffer := c.inputBuffer ++ bytes }, [.echo (localEcho bytes)])
  | .injected bytes => some ({ c with inputBuffer := c.inputBuffer ++ bytes }, [])
  | .flush => some c.flushInput
  | .sent ok =>
      if 0 < c.sending then
        let c := { c with sending := c.sending - 1 }
        some (if ok then c else c.scheduleSyncRecovery, [])
      else none
  | .session ws => some ({ c with ws := ws }, [])
  | .reattachAfterReconnect =>
      some ({ c with syncRecoveryInFlight := false, predictedEcho := [] }, c.requestSync)

end TerminalService

end Ktty.Client
