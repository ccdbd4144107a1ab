import Ktty.Agent.RingBuffer
import Ktty.Crypto.Primitives
import Ktty.Lib.Hex
import Ktty.Wire.Messages

/-!
# The agent session

`Session::run` as a state machine. A state (`RunState`) records the phase of the run and its local
variables; an event (`Event`) is one thing the run waits for: the result of `connect_async`, an item of
the WebSocket stream, a chunk from the PTY reader, a timer tick. `Session.step` gives the next state
and the effects: messages put on the send channel and operations on the PTY. An event that the code
does not wait for in a phase is not a step (`none`). `Session.react` is the code of one phase; beside
it only the writer task can end.

Each loop of the source has its function here: `initRecv`, `waitPty`, `waitRecv`, `waitTick`,
`handshakeRecv`, and for the bridge loop `bridgePty`, `bridgeRecv`, `bridgeTick`, which say by a
`BridgeExit` how the loop returns. `bridgeEnvelope` is the dispatch of a parsed envelope.

The randomness of the run (key pairs and nonces) is a numbered stream whose position is `rng`. The
counter `seq` is a `Nat`: the `u64` of the source would wrap after `2 ^ 64` chunks.
-/

set_option autoImplicit false

namespace Ktty.Agent

open Ktty.Wire Ktty.Crypto

/-- The crates behind the agent. -/
structure Crates where
  prim : Primitives Bytes Text
  aead : Aead
  json : SerdeJson
  hexEncode_eq : ∀ bs, prim.hexEncode bs = Lib.Hex.encode bs

/-- An item of the WebSocket stream, as `ws_rx.next()` yields it. -/
inductive WsItem where
  | text (t : Text)
  | ping (d : Bytes)
  | pong
  | close
  /-- A binary message or a raw frame. -/
  | other
  /-- `Some(Err(_))`. -/
  | error
  /-- `None`. -/
  | ended

/-- What the agent puts on the send channel. -/
inductive AgentMsg where
  | join (roomId : Text)
  | boot (auth : Option Text)
  | offer (pubKeyB64 : Text) (auth : Option Text)
  | hmac (hmacB64 : Text) (auth : Option Text)
  | envelope (env : EncryptedEnvelope)
  | ping
  | pong (d : Bytes)

/-- The calls on the PTY write handle. -/
inductive PtyOp where
  | writeInput (data : Bytes)
  | resize (cols rows : Nat)
  | killProcessGroup
  deriving DecidableEq

inductive Effect where
  | send (m : AgentMsg)
  | pty (op : PtyOp)

/-- The value `Session::run` returns. -/
inductive RunResult where
  /-- `Ok(Some(pty))`. -/
  | ptyHandedBack
  /-- `Ok(None)`. -/
  | shellExited
  /-- `Err(_)`, which drops the PTY. -/
  | err
  deriving DecidableEq

/-- Why the PTY ↔ WS bridge loop exited. -/
inductive BridgeExit where
  | peerDisconnected
  | peerRejoined
  | wsError
  | ptyExited
  deriving DecidableEq

/-- Where the run stands. -/
inductive Phase where
  /-- Before `connect_async` has returned. -/
  | connecting
  /-- Connected, about to send the join message. -/
  | joining
  /-- The loop that waits for the auth token and the first client. -/
  | init
  /-- The wait loop, with its flag `pty_alive`. -/
  | wait (ptyAlive : Bool)
  /-- About to send the boot signal. -/
  | boot
  /-- About to generate the key pair and send the offer. -/
  | offer
  /-- The receive loop of `perform_handshake`, with the decapsulation key. -/
  | handshake (dk : Bytes)
  | bridge (key : Bytes) (sessionId : Text)
  | returned (r : RunResult)
  /-- A panic. -/
  | crashed

/-- The state of a run: the phase and the local variables of `Session::run`. -/
structure RunState where
  phase : Phase
  relayAuthToken : Option Text
  ringBuffer : RingBuffer
  seq : Nat
  /-- The writer task still holds the receiver of the send channel. -/
  writerAlive : Bool
  rng : Nat

/-- What a run waits for. -/
inductive Event where
  | connected (ok : Bool)
  | ws (item : WsItem)
  /-- `pty_data_rx.recv()`: a chunk, or the end of the reader. -/
  | pty (result : Option Bytes)
  /-- A tick of the keepalive timer with the seconds since the last frame. -/
  | tick (elapsed : Nat)
  /-- The run goes on without waiting. -/
  | proceed
  /-- The writer task ends. -/
  | writerExit

/-- `struct Session` and the crates it runs on. -/
structure Session where
  crates : Crates
  derivedKey : Bytes

namespace Session

variable (S : Session)

def roomId : Text := Crypto.roomId S.crates.prim S.derivedKey

/-- The state before the run connects. -/
def start : RunState :=
  { phase := .connecting, relayAuthToken := none, ringBuffer := .new, seq := 0, writerAlive := true,
    rng := 0 }

end Session

namespace RunState

variable (st : RunState)

def goto (p : Phase) : RunState := { st with phase := p }

/-- `let _ = ws_send.send(m)`: nothing happens when the writer task is gone. -/
def trySend (m : AgentMsg) : List Effect := if st.writerAlive then [.send m] else []

end RunState

@[simp] theorem RunState.goto_phase (st : RunState) (p : Phase) : (st.goto p).phase = p := rfl

/-! ## Connecting and the init loop -/

section Init

variable (L : Crates)

/-- `connect_async(..).await?`. -/
def connected (st : RunState) (ok : Bool) : RunState × List Effect :=
  if ok then (st.goto .joining, []) else (st.goto (.returned .err), [])

/-- The join message, sent with `?`. -/
def sendJoin (S : Session) (st : RunState) : RunState × List Effect :=
  if st.writerAlive then (st.goto .init, [.send (.join S.roomId)])
  else (st.goto (.returned .err), [])

/-- The token of a text that the init loop takes for the relay's auth message. -/
def interceptAuth (t : Text) : Option Text :=
  if containsStr t "\"type\"" && containsStr t "\"auth\"" then do
    let val ← L.json.fromStr t
    (← val.get? "token").asStr
  else none

/-- One message in the init loop. -/
def initRecv (st : RunState) : WsItem → RunState × List Effect
  | .text t =>
      -- the text is logged first, so a bad cut panics before anything is read:
      if !previewOk 100 t then (st.goto .crashed, [])
      else
        match interceptAuth L t with
        | some token => ({ st with relayAuthToken := some token }, [])
        -- a text with both words but no token falls through to the test for a join:
        | none => if isJoinText t then (st.goto .boot, []) else (st, [])
  | .ping d => (st, st.trySend (.pong d))
  | .ended => (st.goto (.returned .ptyHandedBack), [])
  | .error => (st.goto (.returned .ptyHandedBack), [])
  | _ => (st, [])

end Init

/-! ## The wait loop -/

/-- Store a chunk under the next number. -/
def storeChunk (st : RunState) (data : Bytes) : RunState :=
  { st with
    seq := st.seq + 1
    ringBuffer :=
      st.ringBuffer.push { seq := st.seq + 1, msgType := "pty".toList, payload := data } }

/-- A chunk in the wait loop is only stored; the end of the reader is remembered in `pty_alive`. -/
def waitPty (st : RunState) : Option Bytes → RunState × List Effect
  | some data => (storeChunk st data, [])
  -- `pty_alive = false` disables the branch of the `select!`, so the reader is not polled again:
  | none => (st.goto (.wait false), [])

/-- One message in the wait loop. -/
def waitRecv (st : RunState) : WsItem → RunState × List Effect
  | .text t =>
      if !previewOk 120 t then (st.goto .crashed, [])
      else if isJoinText t then (st.goto .boot, [])
      else (st, [])
  | .ping d => (st, st.trySend (.pong d))
  | .ended => (st.goto (.returned .ptyHandedBack), [])
  | .error => (st.goto (.returned .ptyHandedBack), [])
  | _ => (st, [])

/-- A keepalive tick in the wait loop. -/
def waitTick (st : RunState) (elapsed : Nat) : RunState × List Effect :=
  if 45 < elapsed then (st.goto (.returned .ptyHandedBack), [])
  else (st, st.trySend .ping)

/-! ## Boot signal and handshake -/

/-- The boot signal, sent with `?`. -/
def sendBoot (st : RunState) : RunState × List Effect :=
  if st.writerAlive then (st.goto .offer, [.send (.boot st.relayAuthToken)])
  else (st.goto (.returned .err), [])

/-- The first half of `perform_handshake`: generate the key pair and send the offer. An error of the
send fails the handshake, and the run goes to the wait loop. -/
def sendOffer (L : Crates) (st : RunState) : RunState × List Effect :=
  let (dk, ek) := L.prim.mlkemGenerate st.rng
  -- the key pair is drawn whether or not the offer can be sent:
  let st := { st with rng := st.rng + 1 }
  if st.writerAlive then
    (st.goto (.handshake dk), [.send (.offer (L.prim.b64Encode ek) st.relayAuthToken)])
  else (st.goto (.wait true), [])

/-- What `perform_handshake` makes of one text message. -/
inductive HandshakeOutcome (β : Type) where
  /-- Not a ciphertext: keep waiting. -/
  | ignored
  /-- The handshake fails with `Err`. -/
  | failed
  /-- `from_slice` panics. -/
  | panicked
  /-- The shared secret has been derived. -/
  | derived (key : β)

/-- The reply handling of `perform_handshake` on a parsed message. -/
def handshakeReply {β τ : Type} (P : Primitives β τ) (dk : β) (raw : RawMessage τ) :
    HandshakeOutcome β :=
  if raw.isHandshake then
    match raw.mlkemCiphertext with
    | some ctB64 =>
        match P.b64Decode ctB64 with
        | some ctBytes =>
            match P.mlkemDecapsulate dk ctBytes with
            | some key => .derived key
            -- `Ciphertext::from_slice` panics on a length that is not the one of the parameter set:
            | none => .panicked
        -- a text that is not base64 ends the handshake with `?`:
        | none => .failed
    | none => .ignored
  else .ignored

/-- One message in the receive loop of `perform_handshake`. When the secret is derived, the HMAC is
sent with `?` and the run enters the bridge loop. -/
def handshakeRecv (S : Session) (st : RunState) (dk : Bytes) : WsItem → RunState × List Effect
  | .text t =>
      if !previewOk 80 t then (st.goto .crashed, [])
      else
        match (S.crates.json.fromStr t).bind RawMessage.deserialize with
        | none => (st, [])
        | some raw =>
            match handshakeReply S.crates.prim dk raw with
            | .ignored => (st, [])
            | .failed => (st.goto (.wait true), [])
            | .panicked => (st.goto .crashed, [])
            | .derived key =>
                let hmac := computeHmac S.crates.prim S.derivedKey key
                if st.writerAlive then
                  (st.goto (.bridge key (sessionId S.crates.prim key)),
                    [.send (.hmac (S.crates.prim.b64Encode hmac) st.relayAuthToken)])
                else (st.goto (.wait true), [])
  | .ping d => (st, st.trySend (.pong d))
  -- either error fails the handshake only: the wait loop then finds the stream ended
  | .error => (st.goto (.wait true), [])
  | .ended => (st.goto (.wait true), [])
  | _ => (st, [])

/-! ## The bridge loop -/

section Bridge

variable (L : Crates) (key : Bytes) (sid : Text)

/-- Encrypt one packet under the session key, with the `n`-th nonce. -/
def sealPacket (auth : Option Text) (n seq : Nat) (msgType : Text) (payload : Bytes) :
    Option EncryptedEnvelope :=
  (encrypt L.aead n key payload).map fun enc =>
    (EncryptedEnvelope.new seq sid msgType (L.prim.b64Encode enc)).withAuth auth

/-- The replayed packets, each under its own nonce; a packet that fails to encrypt is skipped. -/
def replay (auth : Option Text) : Nat → List Packet → List EncryptedEnvelope
  | _, [] => []
  | n, pkt :: pkts =>
      (sealPacket L key sid auth n pkt.seq pkt.msgType pkt.payload).toList ++ replay auth (n + 1) pkts

/-- The `sync_warn` of a dropped range. -/
def syncWarn (auth : Option Text) (n : Nat) (dropped : Option (Nat × Nat)) :
    List EncryptedEnvelope :=
  match dropped with
  | some (start, stop) =>
      (sealPacket L key sid auth n 0 "sync_warn".toList (toVec (syncWarnJson start stop))).toList
  | none => []

/-- The answer to a sync request: the warning, then the packets after `lastSeq`. -/
def answerSync (st : RunState) (lastSeq : Nat) : RunState × List EncryptedEnvelope :=
  let (packets, dropped) := st.ringBuffer.packetsSince lastSeq
  -- one nonce for the warning, if there is one, and one for each packet:
  let warned := if dropped.isSome then 1 else 0
  ({ st with rng := st.rng + warned + packets.length },
    syncWarn L key sid st.relayAuthToken st.rng dropped ++
      replay L key sid st.relayAuthToken (st.rng + warned) packets)

/-- `handle_sync_req`: a body that does not parse or that names another session is dropped. -/
def handleSyncReq (st : RunState) (plain : Bytes) : RunState × List Effect :=
  match (L.json.fromSlice plain).bind SyncReqPayload.deserialize with
  | none => (st, [])
  | some syncData =>
      -- a request of an earlier session is stale:
      if syncData.sessionId ≠ sid then (st, [])
      else
        let (st', envs) := answerSync L key sid st syncData.lastSeq
        (st', envs.flatMap fun env => st.trySend (.envelope env))

/-- The dispatch on the type of a decrypted envelope. -/
def dispatch (st : RunState) (type : Text) (plain : Bytes) : RunState × List Effect :=
  if type = "pty".toList then (st, [.pty (.writeInput plain)])
  else if type = "resize".toList then
    match (L.json.fromSlice plain).bind ResizePayload.deserialize with
    | some r => (st, [.pty (.resize r.cols r.rows)])
    | none => (st, [])
  else if type = "sys_kill".toList then (st, [.pty .killProcessGroup])
  else if type = "sync_req".toList then handleSyncReq L key sid st plain
  else (st, [])

/-- The plaintext of an envelope that passes the session check, base64 and decryption. -/
def openEnvelope (env : EncryptedEnvelope) : Option Bytes :=
  if env.sessionId ≠ sid then none
  else (L.prim.b64Decode env.payload).bind (decrypt L.aead key)

/-- A parsed envelope in the bridge loop. -/
def bridgeEnvelope (st : RunState) (env : EncryptedEnvelope) : RunState × List Effect :=
  match openEnvelope L key sid env with
  | none => (st, [])
  | some plain => dispatch L key sid st env.type plain

/-- How a text leaves the bridge loop, tested in the order of the source. -/
def controlExit (t : Text) : Option BridgeExit :=
  -- the tests look for words anywhere in the text, before it is parsed:
  if isDisconnectText t then some .peerDisconnected
  else if isPeerDisconnectText t then some .peerDisconnected
  else if isJoinText t then some .peerRejoined
  else none

/-- The result of one turn of the bridge loop. -/
structure BridgeTurn where
  state : RunState
  effects : List Effect := []
  exit : Option BridgeExit := none

/-- A text message in the bridge loop. -/
def bridgeText (st : RunState) (t : Text) : BridgeTurn :=
  match controlExit t with
  | some e => { state := st, exit := some e }
  | none =>
      match (L.json.fromStr t).bind EncryptedEnvelope.deserialize with
      -- only a text that does not parse is logged here:
      | none => { state := if previewOk 80 t then st else st.goto .crashed }
      | some env =>
          let (st', effects) := bridgeEnvelope L key sid st env
          { state := st', effects := effects }

/-- One item of the stream in the bridge loop. -/
def bridgeRecv (st : RunState) : WsItem → BridgeTurn
  | .text t => bridgeText L key sid st t
  | .ping d => { state := st, effects := st.trySend (.pong d) }
  | .pong => { state := st }
  | .close => { state := st, exit := some .wsError }
  | .other => { state := st }
  | .error => { state := st, exit := some .wsError }
  | .ended => { state := st, exit := some .wsError }

/-- A chunk in the bridge loop: store it, encrypt it and send it. -/
def bridgePty (st : RunState) : Option Bytes → BridgeTurn
  | none => { state := st, exit := some .ptyExited }
  | some data =>
      -- the chunk is stored before it is sealed, so it can be replayed when the send fails:
      let st' := { storeChunk st data with rng := st.rng + 1 }
      match sealPacket L key sid st.relayAuthToken st.rng (st.seq + 1) "pty".toList data with
      | none => { state := st' }
      | some env =>
          if st.writerAlive then { state := st', effects := [.send (.envelope env)] }
          else { state := st', exit := some .wsError }

/-- A keepalive tick in the bridge loop. -/
def bridgeTick (st : RunState) (elapsed : Nat) : BridgeTurn :=
  if 45 < elapsed then { state := st, exit := some .wsError }
  else { state := st, effects := st.trySend .ping }

/-- One turn of the bridge loop; `none` for an event it does not wait for. -/
def bridgeTurn (st : RunState) : Event → Option BridgeTurn
  | .ws item => some (bridgeRecv L key sid st item)
  | .pty result => some (bridgePty L key sid st result)
  | .tick elapsed => some (bridgeTick st elapsed)
  | _ => none

/-- How `run` goes on after the bridge loop has returned. -/
def afterBridge (st : RunState) : BridgeExit → RunState
  | .peerDisconnected => st.goto (.wait true)
  | .peerRejoined => st.goto .boot
  | .wsError => st.goto (.returned .ptyHandedBack)
  | .ptyExited => st.goto (.returned .shellExited)

/-- A turn of the bridge loop inside the run. -/
def BridgeTurn.resume (turn : BridgeTurn) : RunState × List Effect :=
  match turn.exit with
  | none => (turn.state, turn.effects)
  | some e => (afterBridge turn.state e, turn.effects)

end Bridge

/-! ## The run -/

/-- The writer task runs from the connection to the end of the run. -/
def Phase.hasWriter : Phase → Bool
  | .connecting => false
  | .returned _ => false
  | .crashed => false
  | _ => true

/-- What the run does on an event in its phase; `none` for an event it does not wait for. -/
def Session.react (S : Session) (st : RunState) : Phase → Event → Option (RunState × List Effect)
  | .connecting, .connected ok => some (connected st ok)
  | .joining, .proceed => some (sendJoin S st)
  | .init, .ws item => some (initRecv S.crates st item)
  | .init, .tick _ => some (st, st.trySend .ping)
  | .wait true, .pty result => some (waitPty st result)
  | .wait _, .ws item => some (waitRecv st item)
  | .wait _, .tick elapsed => some (waitTick st elapsed)
  | .boot, .proceed => some (sendBoot st)
  | .offer, .proceed => some (sendOffer S.crates st)
  | .handshake dk, .ws item => some (handshakeRecv S st dk item)
  | .bridge key sid, e => (bridgeTurn S.crates key sid st e).map BridgeTurn.resume
  | _, _ => none

/-- One step of `Session::run`, or the end of its writer task. -/
def Session.step (S : Session) (st : RunState) : Event → Option (RunState × List Effect)
  -- the run does not notice: it learns of the end by a failed send
  | .writerExit => if st.phase.hasWriter then some ({ st with writerAlive := false }, []) else none
  | e => S.react st st.phase e

end Ktty.Agent
