import Ktty.Client.WebSocketService
import Ktty.Lib.Hex

/-!
# The connection of the WebSocket service

`WebSocketService` as a whole: the channel and the subscription to its stream, the reconnect timer, and
every call that is suspended at an `await`. A `Task` is a call of `connect` or of `performHandshake`, or
the callback of the reconnect timer, which calls both. Its `Stage` is the `await` at which it stands; an
event lets one task go on, so that calls interleave in every order.

The broadcast stream `messages` carries the texts of all channels to all closures that listen. Each
closure (`Listener`) has the items that it has not seen yet, and it stays on the stream until it accepts
one, also when the task that waited for it has timed out.

Some data is kept beside the code: a secret remembers the channels over which its handshake ran, and a
frame the session whose key encrypted it. A subscription that is cancelled delivers nothing more
(`listening`).
-/

set_option autoImplicit false

namespace Ktty.Client

open Ktty.Wire Ktty.Crypto

/-! ## Constants -/

/-- `kReconnectInitial` in milliseconds. -/
def kReconnectInitial : Int := 1000

/-- `kReconnectMax` in milliseconds. -/
def kReconnectMax : Int := 30000

/-! ## Data -/

/-- A `WebSocketChannel`; each one that is opened gets a new number. -/
abbrev ChannelId := Nat

/-- The result of an encapsulation, with the channel that its offer came from and the channel on which
the ciphertext was sent (`none` when no channel was open). -/
structure Secret where
  bytes : Bytes
  offerFrom : ChannelId
  ciphertextTo : Option ChannelId
  deriving DecidableEq

/-- A `CryptoService`: the shared secret of a handshake, with the channel that its HMAC came from. -/
structure SessionKey where
  secret : Secret
  hmacFrom : ChannelId
  deriving DecidableEq

/-- The messages of the handshake went over this channel. -/
def SessionKey.NegotiatedOver (k : SessionKey) (ch : ChannelId) : Prop :=
  k.secret.offerFrom = ch ∧ k.secret.ciphertextTo = some ch ∧ k.hmacFrom = ch

instance (k : SessionKey) (ch : ChannelId) : Decidable (k.NegotiatedOver ch) :=
  inferInstanceAs (Decidable (_ ∧ _ ∧ _))

/-- Who awaits a task: code outside the service, or the callback of the reconnect timer, which is one
task from its call of `connect` to its end. -/
inductive Caller where
  | outside
  | timer
  deriving DecidableEq

/-- The `await` at which a task stands. -/
inductive Stage where
  /-- In `connect`, for `connectWebSocket`. -/
  | connecting
  /-- `connect` has returned. -/
  | connected
  /-- For `deriveKey` and `hashPin`. -/
  | derivingKey (pin : Text)
  /-- For a `firstWhere`. -/
  | waiting
  /-- An offer has come. -/
  | offered (derivedKey : Bytes) (mlkemPubKeyB64 : Text) (offerFrom : ChannelId)
  /-- An HMAC has come. -/
  | heardHmac
  /-- For `verifyHmac`, with its result. -/
  | verifying (k : SessionKey) (valid : Bool)
  /-- `performHandshake` has returned. -/
  | established
  | thrown
  /-- The callback of the timer has returned. -/
  | finished
  deriving DecidableEq

structure Task where
  caller : Caller
  stage : Stage
  deriving DecidableEq

/-- What a closure on the stream `messages` is there for. -/
inductive Wanted where
  | offer (derivedKey : Bytes)
  | hmac (derivedKey : Bytes) (secret : Secret)
  deriving DecidableEq

/-- An item of the stream `messages`. -/
inductive StreamItem where
  | message (ch : ChannelId) (msg : Text)
  | error
  | done
  deriving DecidableEq

/-- A closure passed to `firstWhere`, with the task that called it. -/
structure Listener where
  task : Nat
  wanted : Wanted
  inbox : List StreamItem
  deriving DecidableEq

/-- `_pendingHmacVerification`. -/
structure PendingHmac where
  derivedKey : Bytes
  key : SessionKey
  hmacB64 : Text
  deriving DecidableEq

/-- A call of `sendEncrypted` that awaits `encrypt`. -/
structure Encryption where
  key : SessionKey
  seq : Int
  type : Text
  payload : Bytes
  deriving DecidableEq

/-- A frame put on a channel, with the session that encrypted its payload. -/
structure Frame where
  channel : ChannelId
  json : Json
  sealedUnder : Option SessionKey

/-- The fields of `WebSocketService` and what it has under way. -/
structure Connection where
  channel : Option ChannelId
  subscription : Option ChannelId
  /-- The channels whose subscription has not been cancelled and has not ended. -/
  listening : List ChannelId
  crypto : Option SessionKey
  sessionId : Option Text
  relayAuthToken : Option Text
  /-- The delay of the reconnect timer, when it is armed. -/
  reconnectTimer : Option Int
  reconnectAttempts : Nat
  lastUrl : Option Text
  lastPin : Option Text
  autoReconnectEnabled : Bool
  pendingHmacVerification : Option PendingHmac
  /-- `_messageController` is closed. -/
  closed : Bool
  tasks : List Task
  listeners : List Listener
  encryptions : List Encryption
  /-- The number of channels opened so far. -/
  opened : Nat
  rng : Nat
  sent : List Frame

inductive ServiceEvent where
  /-- `connect` is called from outside. -/
  | connect (url : Text)
  /-- The `connectWebSocket` of the `i`-th task completes or throws. -/
  | connectWebSocket (i : Nat) (ok : Bool)
  /-- The stream of a channel yields a text. -/
  | data (ch : ChannelId) (str : Text)
  | error (ch : ChannelId)
  | done (ch : ChannelId)
  /-- The `i`-th closure on `messages` sees its next item. -/
  | hear (i : Nat)
  /-- The `firstWhere` of the `i`-th task times out. -/
  | timeout (i : Nat)
  /-- `performHandshake` is called from outside. -/
  | performHandshake (pin : Text)
  /-- The `i`-th task goes on behind its `await`. -/
  | proceed (i : Nat)
  /-- The reconnect timer fires. -/
  | fire
  | attemptReconnect
  | suppressReconnect
  | backgroundClose
  | disconnect
  | dispose
  | sendEncrypted (seq : Int) (type : Text) (payload : Bytes)
  | sendSyncRequest (lastSeq : Int)
  /-- The `i`-th encryption completes. -/
  | encrypted (i : Nat)
  deriving DecidableEq

/-! ## Reading messages -/

/-- The closure on the stream of a channel: the token of an `auth` message. -/
def authToken (D : Dart) (str : Text) : Option Text :=
  if containsStr str "\"type\"" && containsStr str "\"auth\"" then
    (jsonDecodeMap D str).bind fun json =>
      if (json.get? "type").bind Json.asStr = some "auth".toList then
        (json.get? "token").bind Json.asStr
      else none
  else none

/-- A field of a handshake message. A value that is not a string throws in the closure, which then
goes on waiting. -/
def handshakeField (D : Dart) (field : String) (msg : Text) : Option Text :=
  (jsonDecodeMap D msg).bind fun json =>
    if (json.get? "type").bind Json.asStr = some "handshake".toList then
      (json.get? field).bind Json.asStr
    else none

/-- The closure that waits for the agent's offer. -/
def offerIn (D : Dart) (msg : Text) : Option Text := handshakeField D "mlkem_pub_key" msg

/-- The closure that waits for the agent's HMAC. -/
def hmacIn (D : Dart) (msg : Text) : Option Text := handshakeField D "hmac" msg

/-- `_deriveSessionId`. -/
def deriveSessionId (sessionKey : Bytes) : Text := Lib.Hex.encode (sessionKey.take 8)

/-- The map literal of `sendEncrypted`. -/
def envelopeFields (seq : Int) (sessionId : Option Text) (type payloadB64 : Text) :
    List (String × Json) :=
  [("seq", .int seq), ("session_id", sessionId.elim .null .str), ("type", .str type),
    ("payload", .str payloadB64)]

/-- `sendJson` on the members of a map: a message other than a join gets the relay token. -/
def withToken (token : Option Text) (fields : List (String × Json)) : List (String × Json) :=
  match token with
  | some token =>
      if ((Json.ofFields fields).get? "action").bind Json.asStr = some "join".toList then fields
      else fields ++ [("auth", .str token)]
  | none => fields

/-- Dart's `int` on native platforms wraps around. -/
def int64 (i : Int) : Int := i.bmod (2 ^ 64)

/-- The delay that `_scheduleReconnect` computes, in milliseconds. -/
def reconnectDelay (reconnectAttempts : Nat) : Int :=
  min (int64 (kReconnectInitial * int64 (2 ^ reconnectAttempts))) kReconnectMax

namespace Connection

variable (D : Dart) (c : Connection)

/-- The service after its constructor. -/
def new : Connection :=
  { channel := none, subscription := none, listening := [], crypto := none, sessionId := none,
    relayAuthToken := none, reconnectTimer := none, reconnectAttempts := 0, lastUrl := none,
    lastPin := none, autoReconnectEnabled := false, pendingHmacVerification := none, closed := false,
    tasks := [], listeners := [], encryptions := [], opened := 0, rng := 0, sent := [] }

/-- Where the `i`-th task stands. -/
def stage (i : Nat) : Option Stage := (c.tasks[i]?).map (·.stage)

/-- Move the `i`-th task. -/
def goto (i : Nat) (stage : Stage) : Connection :=
  { c with tasks := c.tasks.modify i fun t => { t with stage := stage } }

/-- A new task. -/
def spawn (caller : Caller) (stage : Stage) : Connection :=
  { c with tasks := c.tasks ++ [{ caller := caller, stage := stage }] }

/-! ## Timer and channel -/

/-- `_cancelReconnect`. -/
def cancelReconnect : Connection := { c with reconnectTimer := none }

/-- `_scheduleReconnect`. -/
def scheduleReconnect : Connection :=
  if c.lastUrl.isNone || c.lastPin.isNone then c
  else
    { c with
      reconnectTimer := some (reconnectDelay c.reconnectAttempts)
      reconnectAttempts := c.reconnectAttempts + 1 }

/-- `_cleanupChannel`. -/
def cleanupChannel : Connection :=
  { c with
    -- only the subscription that the field still holds is cancelled
    subscription := none
    listening := c.listening.filter fun ch => c.subscription ≠ some ch
    channel := none
    crypto := none
    sessionId := none
    relayAuthToken := none }

/-- `backgroundClose`. -/
def backgroundClose : Connection := c.cleanupChannel

/-- `send`: nothing happens without a channel. -/
def send (json : Json) (sealedUnder : Option SessionKey) : Connection :=
  match c.channel with
  -- the frame is put on whatever channel is open when it is sent:
  | some ch =>
      { c with sent := c.sent ++ [{ channel := ch, json := json, sealedUnder := sealedUnder }] }
  | none => c

/-- `sendJson`. -/
def sendJson (fields : List (String × Json)) (sealedUnder : Option SessionKey) : Connection :=
  c.send (.ofFields (withToken c.relayAuthToken fields)) sealedUnder

/-- `disconnect`. -/
def disconnect : Connection :=
  let c := { c with autoReconnectEnabled := false }.cancelReconnect
  -- the notice goes out, with the token, before the channel is closed
  let c := (c.sendJson [("type", .str "disconnect".toList)] none).cleanupChannel
  { c with lastUrl := none, lastPin := none }

/-- `attemptReconnect`. -/
def attemptReconnect : Connection :=
  if c.lastUrl.isNone || c.lastPin.isNone then c
  else { c with autoReconnectEnabled := true, reconnectAttempts := 0 }.scheduleReconnect

/-- `suppressReconnect`. -/
def suppressReconnect : Connection := { c with autoReconnectEnabled := false }.cancelReconnect

/-- `_handleDisconnect`. -/
def handleDisconnect : Connection :=
  -- nothing says which channel has closed: the current one is given up
  let c := { c with channel := none, crypto := none, sessionId := none, relayAuthToken := none }
  if c.autoReconnectEnabled then c.scheduleReconnect else c

/-! ## The stream `messages` -/

/-- An item reaches every closure on the stream. -/
def broadcast (item : StreamItem) : Connection :=
  { c with listeners := c.listeners.map fun l => { l with inbox := l.inbox ++ [item] } }

/-- `onData` of the subscription; `add` throws when the controller is closed. -/
def onData (ch : ChannelId) (str : Text) : Connection :=
  match authToken D str with
  -- a token is not passed on to `messages`
  | some token => { c with relayAuthToken := some token }
  | none => if c.closed then c else c.broadcast (.message ch str)

/-- `onError`; `addError` throws when the controller is closed. -/
def onError : Connection :=
  -- the throw also skips `_handleDisconnect`:
  if c.closed then c else (c.broadcast .error).handleDisconnect

/-- `onDone`. -/
def onDone (ch : ChannelId) : Connection :=
  { c with listening := c.listening.filter (· ≠ ch) }.handleDisconnect

/-- `dispose`. -/
def dispose : Connection :=
  let c := c.disconnect
  if c.closed then c else { c.broadcast .done with closed := true }

/-- `messages.firstWhere` in the `i`-th task; the stream of a closed controller is done at once. -/
def firstWhere (i : Nat) (wanted : Wanted) : Connection :=
  { c.goto i .waiting with
    listeners := c.listeners ++
      [{ task := i, wanted := wanted, inbox := if c.closed then [.done] else [] }] }

/-- The `i`-th task goes on with the result of its `firstWhere`, unless it has timed out. -/
def wake (i : Nat) (stage : Stage) : Connection :=
  -- a task that has timed out no longer waits, but its closure is still there
  if c.stage i = some .waiting then c.goto i stage else c

/-- The closure accepts or passes over a message. -/
def hearMessage (i : Nat) (l : Listener) (rest : List StreamItem) (ch : ChannelId) (msg : Text) :
    Connection :=
  let pass := { c with listeners := c.listeners.set i { l with inbox := rest } }
  match l.wanted with
  | .offer derivedKey =>
      match offerIn D msg with
      | some mlkemPubKeyB64 =>
          { c with listeners := c.listeners.eraseIdx i }.wake l.task
            (.offered derivedKey mlkemPubKeyB64 ch)
      | none => pass
  | .hmac derivedKey secret =>
      match hmacIn D msg with
      | some hmacB64 =>
          -- one field for all handshakes: the last closure that accepts an HMAC wins
          { c with
            listeners := c.listeners.eraseIdx i
            pendingHmacVerification := some
              { derivedKey := derivedKey, key := { secret := secret, hmacFrom := ch },
                hmacB64 := hmacB64 } }.wake l.task .heardHmac
      | none => pass

/-- The `i`-th closure sees its next item; an error and the end of the stream make its task throw. -/
def hear (i : Nat) : Option Connection :=
  match c.listeners[i]? with
  | some l =>
      match l.inbox with
      | .message ch msg :: rest => some (c.hearMessage D i l rest ch msg)
      | .error :: _ | .done :: _ =>
          some ({ c with listeners := c.listeners.eraseIdx i }.wake l.task .thrown)
      | [] => none
  | none => none

/-! ## `connect` -/

/-- `connect` up to its `await`. -/
def connect (url : Text) : Connection := { c.cancelReconnect with lastUrl := some url }.cleanupChannel

/-- `connect` behind its `await`: the subscription before is overwritten and not cancelled. -/
def listen (i : Nat) : Connection :=
  { c.goto i .connected with
    -- whatever was called during the `await`
    channel := some c.opened
    opened := c.opened + 1
    autoReconnectEnabled := true
    subscription := some c.opened
    listening := c.listening ++ [c.opened] }

/-! ## `performHandshake` -/

/-- Behind the derivation of key and room id: join and wait for an offer. -/
def join (i : Nat) (pin : Text) : Connection :=
  let derivedKey := D.prim.argon2id pin
  (c.sendJson [("action", .str "join".toList),
    ("room_id", .str (roomId D.prim derivedKey))] none).firstWhere i (.offer derivedKey)

/-- With an offer: encapsulate, send the ciphertext and wait for the HMAC. -/
def encapsulate (i : Nat) (derivedKey : Bytes) (mlkemPubKeyB64 : Text) (offerFrom : ChannelId) :
    Connection :=
  match (D.prim.base64Decode mlkemPubKeyB64).bind fun ek => D.prim.mlkemEncapsulate ek c.rng with
  | some (ct, ss) =>
      ({ c with rng := c.rng + 1 }.sendJson [("type", .str "handshake".toList),
        ("mlkem_ciphertext", .str (D.prim.b64Encode ct))] none).firstWhere i
          (.hmac derivedKey { bytes := ss, offerFrom := offerFrom, ciphertextTo := c.channel })
  -- `base64Decode` or the encapsulation throws
  | none => c.goto i .thrown

/-- Behind the arrival of an HMAC: take what is in `_pendingHmacVerification` and verify it. -/
def verifyHmac (i : Nat) : Connection :=
  match c.pendingHmacVerification with
  -- another handshake has taken the pending HMAC, and `!` throws
  | none => c.goto i .thrown
  | some p =>
      -- the pair that is verified is the one in the field, whichever task put it there
      let c := { c with pendingHmacVerification := none }
      match D.prim.base64Decode p.hmacB64 with
      | some hmacBytes =>
          c.goto i (.verifying p.key
            (decide (hmacBytes = D.prim.hmacSha256 p.derivedKey p.key.secret.bytes)))
      | none => c.goto i .thrown

/-- Behind the verification: establish the session. -/
def install (i : Nat) (k : SessionKey) (valid : Bool) : Connection :=
  -- nothing is read again behind the last `await`, not even whether a channel is open:
  if valid then
    { c.goto i .established with
      crypto := some k
      sessionId := some (deriveSessionId k.secret.bytes) }
  else c.goto i .thrown

/-! ## The callback of the reconnect timer -/

/-- The `catch` of the callback. -/
def catchReconnect : Connection := if c.autoReconnectEnabled then c.scheduleReconnect else c

/-- The callback up to its first `await`. -/
def fire : Connection :=
  let c := { c with reconnectTimer := none }
  match c.lastUrl with
  | some url => (c.connect url).spawn .timer .connecting
  | none => c.catchReconnect

/-- Behind `await connect`: call `performHandshake`. -/
def rejoin (i : Nat) : Connection :=
  match c.lastPin with
  | some pin => c.goto i (.derivingKey pin)
  | none => (c.goto i .finished).catchReconnect

/-- A task of the timer goes on. -/
def proceedTimer (i : Nat) : Stage → Option Connection
  | .connected => some (c.rejoin i)
  | .established => some { c.goto i .finished with reconnectAttempts := 0 }
  | .thrown => some (c.goto i .finished).catchReconnect
  | _ => none

/-- The `i`-th task goes on behind its `await`. -/
def proceed (i : Nat) : Option Connection :=
  match c.tasks[i]? with
  | some t =>
      match t.stage with
      | .derivingKey pin => some (c.join D i pin)
      | .offered derivedKey mlkemPubKeyB64 ch => some (c.encapsulate D i derivedKey mlkemPubKeyB64 ch)
      | .heardHmac => some (c.verifyHmac D i)
      | .verifying k valid => some (c.install i k valid)
      -- a call from outside has ended here; the callback of the timer goes on
      | stage => if t.caller = .timer then c.proceedTimer i stage else none
  | none => none

/-! ## `sendEncrypted` -/

/-- `sendEncrypted` up to its `await`; without a session it throws. -/
def sendEncrypted (seq : Int) (type : Text) (payload : Bytes) : Connection :=
  match c.crypto, c.sessionId with
  -- the key is taken here, before the `await`; the session id is only tested
  | some k, some _ =>
      { c with
        encryptions := c.encryptions ++ [{ key := k, seq := seq, type := type, payload := payload }] }
  | _, _ => c

/-- `sendSyncRequest`. -/
def sendSyncRequest (lastSeq : Int) : Connection :=
  match c.crypto, c.sessionId with
  -- the session id in the body is the one at the call:
  | some _, some sid => c.sendEncrypted lastSeq "sync_req".toList (toVec (syncReqJson lastSeq sid))
  | _, _ => c

/-- `sendEncrypted` behind its `await`: session id, token and channel are read now. -/
def finishEncryption (e : Encryption) : Connection :=
  match encrypt D.aead c.rng e.key.secret.bytes e.payload with
  | some packed =>
      { c with rng := c.rng + 1 }.sendJson
        (envelopeFields e.seq c.sessionId e.type (D.prim.b64Encode packed)) (some e.key)
  -- `encrypt` throws
  | none => { c with rng := c.rng + 1 }

/-! ## Steps -/

/-- One step; `none` for an event that cannot happen now. -/
def step : ServiceEvent → Option Connection
  | .connect url => some ((c.connect url).spawn .outside .connecting)
  | .connectWebSocket i ok =>
      if c.stage i = some .connecting then some (if ok then c.listen i else c.goto i .thrown) else none
  | .data ch str => if ch ∈ c.listening then some (c.onData D ch str) else none
  | .error ch => if ch ∈ c.listening then some c.onError else none
  | .done ch => if ch ∈ c.listening then some (c.onDone ch) else none
  | .hear i => c.hear D i
  | .timeout i => if c.stage i = some .waiting then some (c.goto i .thrown) else none
  | .performHandshake pin => some ({ c with lastPin := some pin }.spawn .outside (.derivingKey pin))
  | .proceed i => c.proceed D i
  | .fire => if c.reconnectTimer.isSome then some c.fire else none
  | .attemptReconnect => some c.attemptReconnect
  | .suppressReconnect => some c.suppressReconnect
  | .backgroundClose => some c.backgroundClose
  | .disconnect => some c.disconnect
  | .dispose => some c.dispose
  | .sendEncrypted seq type payload => some (c.sendEncrypted seq type payload)
  | .sendSyncRequest lastSeq => some (c.sendSyncRequest lastSeq)
  | .encrypted i =>
      (c.encryptions[i]?).map fun e =>
        { c with encryptions := c.encryptions.eraseIdx i }.finishEncryption D e

end Connection

end Ktty.Client
