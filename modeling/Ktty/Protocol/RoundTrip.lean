import Ktty.Client.Outbound
import Ktty.Protocol.Ends
import Ktty.Relay.Socket

/-!
# An envelope through the relay

Agent and client build the same object for an envelope, with the relay token in it. The relay checks the
token, removes it and writes the object anew with its keys sorted, and the other end reads the envelope
from that (`envelope_round_trip`). What is assumed of the JSON libraries is that they undo each other on
the objects in question (`Decodes`); base64 and the cipher carry their own assumptions.
-/

set_option autoImplicit false

namespace Ktty.Protocol

open Ktty.Wire Ktty.Crypto Ktty.Agent Ktty.Client Ktty.Lib.Execution

/-! ## The relay -/

/-- The JSON libraries undo each other on an object sent through the relay: the relay reads it, writes it
without its token, and the receiver reads that. -/
structure Decodes (J : SerdeJson) (decode : Text → Option Json) (v : Json) : Prop where
  relay : J.fromStr v.encode = some v
  write : J.valueToString (v.remove "auth") = (v.remove "auth").sorted.encode
  receiver : decode (v.remove "auth").sorted.encode = some (v.remove "auth").sorted

/-- The text that the relay forwards when a text comes from the connection `conn`. -/
def relayed (J : SerdeJson) (s : Relay.State) (conn : Relay.ConnId) (t : Text) : Option Text :=
  match ((Relay.readFrame J s conn (.text t)).conns conn).pc with
  | .forwarding p =>
      match Relay.forwardMsg J p with
      | .text t' => some t'
      | .binary _ => none
  | _ => none

section Relayed

variable {J : SerdeJson} {decode : Text → Option Json} {s : Relay.State} {conn : Relay.ConnId}
  {peer : Relay.Peer} {env : EncryptedEnvelope}

theorem get?_auth {token : Text} (h : env.auth = some token) :
    env.toJson.get? "auth" = some (.str token) := by
  rw [env.toJson_eq_obj]
  apply Json.get?_of_nodup env.nodup_members
  simp [EncryptedEnvelope.members, h]

/-- An envelope with the token of its connection is forwarded without the token. -/
theorem relayed_envelope (hpeer : s.ownPeer? conn = some peer) (hauth : env.auth = some peer.authToken)
    (hsize : byteLen env.toJson.encode ≤ Relay.MAX_TEXT_FRAME_BYTES)
    (hjson : Decodes J decode env.toJson) :
    ∃ t, relayed J s conn env.toJson.encode = some t ∧
      decode t = some (env.withAuth none).toJson.sorted := by
  have hget := get?_auth hauth
  -- the entry that the handler finds has the token of the envelope:
  have hok : Relay.tokenOk s conn env.toJson = true := by
    rw [Relay.tokenOk, hpeer, hget]
    exact beq_self_eq_true _
  have hread : Relay.readFrame J s conn (.text env.toJson.encode) =
      s.setPc conn (.forwarding (.text env.toJson.encode)) := by
    rw [Relay.readFrame, if_neg (Nat.not_lt.2 hsize), hjson.relay]
    exact if_pos hok
  have hforward : Relay.forwardMsg J (.text env.toJson.encode) =
      .text (env.withAuth none).toJson.sorted.encode := by
    rw [Relay.forwardMsg, hjson.relay]
    dsimp only
    rw [hget, Option.isSome_some, if_pos rfl, hjson.write, env.toJson_remove]
  refine ⟨(env.withAuth none).toJson.sorted.encode, ?_, ?_⟩
  · rw [relayed, hread]
    simp only [Relay.State.setPc, Relay.State.setConn, Function.update_self, hforward]
  · have hreceiver := hjson.receiver
    rw [env.toJson_remove] at hreceiver
    exact hreceiver

/-- The other end reads the envelope from the forwarded object. -/
theorem deserialize_sorted (env : EncryptedEnvelope) (hseq : env.seq < 2 ^ 64) :
    ∃ ms, env.toJson.sorted = .obj ms ∧ EncryptedEnvelope.deserialize (.obj ms) = some env ∧
      ms.Perm env.members := by
  obtain ⟨ms, hms, hperm⟩ := Json.exists_sorted env.members
  rw [← env.toJson_eq_obj] at hms
  exact ⟨ms, hms, EncryptedEnvelope.deserialize_of_perm hperm hseq, hperm⟩

end Relayed

/-! ## What the client sends -/

/-- The encrypted messages of the client. -/
inductive ClientMessage where
  | pty (seq : Nat) (data : Bytes)
  | resize (seq cols rows : Nat)
  | syncReq (lastSeq : Nat)

namespace ClientMessage

def seq : ClientMessage → Nat
  | pty seq _ => seq
  | resize seq _ _ => seq
  | syncReq lastSeq => lastSeq

def type : ClientMessage → Text
  | pty _ _ => "pty".toList
  | resize _ _ _ => "resize".toList
  | syncReq _ => "sync_req".toList

/-- The JSON inside the payload. -/
def body (sid : Text) : ClientMessage → Option Json
  | pty _ _ => none
  | resize _ cols rows => some (resizeJson cols rows)
  | syncReq lastSeq => some (syncReqJson lastSeq sid)

def payload (sid : Text) : ClientMessage → Bytes
  | pty _ data => data
  | resize _ cols rows => toVec (resizeJson cols rows)
  | syncReq lastSeq => toVec (syncReqJson lastSeq sid)

/-- The call of the service that sends the message. -/
def call : ClientMessage → ServiceEvent
  | pty seq data => .sendEncrypted seq "pty".toList data
  | resize seq cols rows => .sendEncrypted seq "resize".toList (toVec (resizeJson cols rows))
  | syncReq lastSeq => .sendSyncRequest lastSeq

/-- The numbers that the message is about are in range. -/
def InRange : ClientMessage → Prop
  | pty seq _ => seq < 2 ^ 53
  | resize seq cols rows => seq < 2 ^ 53 ∧ cols < 65536 ∧ rows < 65536
  | syncReq lastSeq => lastSeq < 2 ^ 53

/-- The agent's reading of a decrypted payload. -/
def ReadFrom (L : Crates) (sid : Text) (plain : Bytes) : ClientMessage → Prop
  | pty _ data => plain = data
  | resize _ cols rows =>
      (L.json.fromSlice plain).bind ResizePayload.deserialize = some { cols := cols, rows := rows }
  | syncReq lastSeq =>
      (L.json.fromSlice plain).bind SyncReqPayload.deserialize =
        some { lastSeq := lastSeq, sessionId := sid }

/-- The envelope of the message. -/
def envelope (msg : ClientMessage) (sid payloadB64 : Text) (auth : Option Text) :
    EncryptedEnvelope :=
  { seq := msg.seq, sessionId := sid, type := msg.type, payload := payloadB64, auth := auth }

variable {msg : ClientMessage}

theorem seq_lt (h : msg.InRange) : msg.seq < 2 ^ 53 := by
  cases msg with
  | pty seq data => exact h
  | resize seq cols rows => exact h.1
  | syncReq lastSeq => exact h

theorem deserialize_resizeJson {cols rows : Nat} (hcols : cols < 65536) (hrows : rows < 65536) :
    ResizePayload.deserialize (resizeJson cols rows) = some { cols := cols, rows := rows } := by
  -- both numbers are read the same way:
  have hread : ∀ n : Nat, n < 65536 → asU16 (.int n) = some n := by
    intro n hn
    have hrange : (0 : Int) ≤ n ∧ (n : Int) < 2 ^ 16 := by omega
    rw [asU16, if_pos hrange, Int.toNat_natCast]
  have hnd : ([("cols", Json.int cols), ("rows", .int rows)].map (·.1)).Nodup := by simp
  rw [resizeJson, Json.ofFields]
  apply ResizePayload.deserialize_obj
  · rw [required_ofFields (v := .int cols) asU16 hnd (by simp), hread cols hcols]
  · rw [required_ofFields (v := .int rows) asU16 hnd (by simp), hread rows hrows]

theorem deserialize_syncReqJson {lastSeq : Nat} (sid : Text) (h : lastSeq < 2 ^ 53) :
    SyncReqPayload.deserialize (syncReqJson lastSeq sid) =
      some { lastSeq := lastSeq, sessionId := sid } := by
  -- what Dart can count exactly fits a `u64`:
  have hrange : (0 : Int) ≤ lastSeq ∧ (lastSeq : Int) < 2 ^ 64 := by omega
  have hread : Json.asU64 (.int lastSeq) = some lastSeq := by
    rw [Json.asU64, if_pos hrange, Int.toNat_natCast]
  have hnd : ([("last_seq", Json.int lastSeq), ("session_id", .str sid)].map (·.1)).Nodup := by simp
  rw [syncReqJson, Json.ofFields]
  apply SyncReqPayload.deserialize_obj
  · rw [required_ofFields (v := .int lastSeq) Json.asU64 hnd (by simp), hread]
  · rw [required_ofFields (v := .str sid) Json.asStr hnd (by simp), Json.asStr]

/-- The agent reads a message from its own payload. -/
theorem readFrom_payload {L : Crates} {sid : Text} (hrange : msg.InRange)
    (hbody : ∀ v ∈ msg.body sid, L.json.fromSlice (toVec v) = some v) :
    msg.ReadFrom L sid (msg.payload sid) := by
  cases msg with
  | pty seq data => rfl
  | resize seq cols rows =>
      rw [ReadFrom, payload, hbody _ rfl, Option.bind_some]
      exact deserialize_resizeJson hrange.2.1 hrange.2.2
  | syncReq lastSeq =>
      rw [ReadFrom, payload, hbody _ rfl, Option.bind_some]
      exact deserialize_syncReqJson sid hrange

end ClientMessage

/-- The service has the session `k` and the relay token `token`. -/
structure Ready (c : Connection) (k : SessionKey) (token : Text) : Prop where
  crypto : c.crypto = some k
  sessionId : c.sessionId = some (deriveSessionId k.secret.bytes)
  relayAuthToken : c.relayAuthToken = some token

section Sending

variable {D : Dart} {c m : Connection} {k : SessionKey} {token : Text} {msg : ClientMessage}
  {f : Client.Frame}

theorem step_call (hready : Ready c k token) :
    c.step D msg.call = some (c.sendEncrypted msg.seq msg.type
      (msg.payload (deriveSessionId k.secret.bytes))) := by
  cases msg with
  | pty seq data => rfl
  | resize seq cols rows => rfl
  | syncReq lastSeq =>
      rw [ClientMessage.call, Connection.step, Connection.sendSyncRequest, hready.crypto,
        hready.sessionId]
      rfl

/-- The encryption that a call begins. -/
def encryptionOf (k : SessionKey) (msg : ClientMessage) : Encryption :=
  { key := k, seq := msg.seq, type := msg.type
    payload := msg.payload (deriveSessionId k.secret.bytes) }

/-- A call whose encryption is finished before anything else happens. -/
theorem exec_call (hready : Ready c k token) :
    exec (Connection.step D) c [msg.call, .encrypted c.encryptions.length] =
      some (c.finishEncryption D (encryptionOf k msg)) := by
  -- the call puts its encryption at the end of the list, from where it is finished:
  have hcalled : c.sendEncrypted msg.seq msg.type (msg.payload (deriveSessionId k.secret.bytes)) =
      { c with encryptions := c.encryptions ++ [encryptionOf k msg] } :=
    Connection.sendEncrypted_eq hready.crypto hready.sessionId _ _ _
  have hfinished : ({ c with encryptions := c.encryptions ++ [encryptionOf k msg] } : Connection).step D
      (.encrypted c.encryptions.length) = some (c.finishEncryption D (encryptionOf k msg)) :=
    Connection.step_encrypted_last (encryptionOf k msg)
  rw [exec, step_call hready, hcalled, Option.bind_some, exec, hfinished]
  rfl

/-- The frame that the service sends for a message. -/
theorem frame_of_call (hready : Ready c k token)
    (hrun : exec (Connection.step D) c [msg.call, .encrypted c.encryptions.length] = some m)
    (hsent : m.sent = c.sent ++ [f]) :
    ∃ packed, encrypt D.aead c.rng k.secret.bytes (msg.payload (deriveSessionId k.secret.bytes)) =
        some packed ∧
      f.json = (msg.envelope (deriveSessionId k.secret.bytes) (D.prim.b64Encode packed)
        (some token)).toJson := by
  rw [exec_call hready, Option.some.injEq] at hrun
  subst hrun
  rcases Connection.finishEncryption_sent (D := D) (c := c) (encryptionOf k msg) with h | ⟨g, h, hg⟩
  · -- nothing was sent
    rw [h] at hsent
    cases List.self_eq_append_right.1 hsent
  · rw [h] at hsent
    obtain rfl : g = f := by simpa using hsent
    obtain ⟨r, hr, hjson⟩ := hg.sent hready.sessionId rfl
    rw [Client.sendEncrypted, Option.map_eq_some_iff] at hr
    obtain ⟨packed, hpacked, rfl⟩ := hr
    refine ⟨packed, hpacked, ?_⟩
    rw [hjson, hready.relayAuthToken]
    rfl

/-- With an open channel a call sends one frame. -/
theorem call_sends (hready : Ready c k token) (hchannel : c.channel.isSome = true)
    (hlength : (msg.payload (deriveSessionId k.secret.bytes)).length < 64 * (2 ^ 32 - 1)) :
    ∃ m f, exec (Connection.step D) c [msg.call, .encrypted c.encryptions.length] = some m ∧
      m.sent = c.sent ++ [f] := by
  obtain ⟨ch, hch⟩ := Option.isSome_iff_exists.1 hchannel
  obtain ⟨packed, hpacked⟩ := Option.isSome_iff_exists.1
    (encrypt_isSome (A := D.aead) c.rng k.secret.bytes hlength)
  let json := Json.ofFields (withToken c.relayAuthToken
    (envelopeFields msg.seq c.sessionId msg.type (D.prim.b64Encode packed)))
  refine ⟨_, { channel := ch, json := json, sealedUnder := some k }, exec_call hready, ?_⟩
  have hencrypt : encrypt D.aead c.rng (encryptionOf k msg).key.secret.bytes
      (encryptionOf k msg).payload = some packed := hpacked
  rw [Connection.finishEncryption, hencrypt]
  dsimp only
  rw [Connection.sendJson, Connection.send, hch]
  rfl

end Sending

/-! ## The round trip -/

namespace Ends

variable (E : Ends)

/-- The client reads a text as the envelope in its session, without a token, and the payload decrypts to
`plain`. -/
def ClientReads (key : Bytes) (t : Text) (env : EncryptedEnvelope) (plain : Bytes) : Prop :=
  ∃ json, jsonDecodeMap E.dart t = some json ∧
    json.get? "type" = some (.str env.type) ∧ json.get? "seq" = some (.int env.seq) ∧
    json.get? "session_id" = some (.str (deriveSessionId key)) ∧
    json.get? "payload" = some (.str env.payload) ∧ json.get? "auth" = none ∧
    decryptPayload E.dart { crypto := some key, sessionId := some (deriveSessionId key) }
      env.payload = some plain

/-- The agent reads a text as this envelope in the session of `key`, and the payload decrypts to
`plain`. -/
def AgentReads (key : Bytes) (t : Text) (env : EncryptedEnvelope) (plain : Bytes) : Prop :=
  (E.session.crates.json.fromStr t).bind EncryptedEnvelope.deserialize = some env ∧
    openEnvelope E.session.crates key (sessionId E.session.crates.prim key) env = some plain

/-- The relay takes the envelope of the agent from the connection `conn`, and the client reads it in what
is forwarded. -/
def ReachesClient (J : SerdeJson) (s : Relay.State) (conn : Relay.ConnId) (key : Bytes)
    (env : EncryptedEnvelope) (plain : Bytes) : Prop :=
  ∃ t, relayed J s conn env.toJson.encode = some t ∧ E.ClientReads key t env plain

/-- The relay takes the frame of the client from the connection `conn`, and the agent reads in what is
forwarded the envelope that the client made, without the token, and the message in it. -/
def ReachesAgent (J : SerdeJson) (s : Relay.State) (conn : Relay.ConnId) (key : Bytes) (token : Text)
    (f : Client.Frame) (msg : ClientMessage) : Prop :=
  ∃ t payloadB64, relayed J s conn f.json.encode = some t ∧
    f.json = (msg.envelope (deriveSessionId key) payloadB64 (some token)).toJson ∧
    E.AgentReads key t (msg.envelope (deriveSessionId key) payloadB64 none)
      (msg.payload (deriveSessionId key)) ∧
    msg.ReadFrom E.session.crates (deriveSessionId key) (msg.payload (deriveSessionId key))

/-- Both ends derive the same session id. -/
theorem sessionId_eq (key : Bytes) : sessionId E.session.crates.prim key = deriveSessionId key :=
  E.session.crates.hexEncode_eq _

variable {E} {J : SerdeJson} {s : Relay.State} {conn : Relay.ConnId} {peer : Relay.Peer}

theorem reachesClient (hpeer : s.ownPeer? conn = some peer) {key : Bytes} {n seq : Nat}
    {type : Text} {payload : Bytes} {env : EncryptedEnvelope} (hseq : seq < 2 ^ 53)
    (hseal : sealPacket E.session.crates key (sessionId E.session.crates.prim key)
      (some peer.authToken) n seq type payload = some env)
    (hsize : byteLen env.toJson.encode ≤ Relay.MAX_TEXT_FRAME_BYTES)
    (hjson : Decodes J E.dart.jsonDecode env.toJson) :
    E.ReachesClient J s conn key env payload := by
  rw [sealPacket, Option.map_eq_some_iff] at hseal
  obtain ⟨packed, hpacked, rfl⟩ := hseal
  obtain ⟨t, ht, hdecode⟩ := relayed_envelope hpeer rfl hsize hjson
  refine ⟨t, ht, ?_⟩
  -- what the relay forwards is the envelope without its token
  obtain ⟨ms, hms, hread, hperm⟩ := deserialize_sorted
    (EncryptedEnvelope.new seq (sessionId E.session.crates.prim key) type
      (E.session.crates.prim.b64Encode packed)) (Nat.lt_trans hseq (by decide))
  have hdecoded : E.dart.jsonDecode t = some (.obj ms) := hdecode.trans (congrArg some hms)
  obtain ⟨hseqRead, hsidRead, htypeRead, hpayloadRead⟩ :=
    EncryptedEnvelope.get?_of_deserialize hread
  refine ⟨.obj ms, ?_, htypeRead, hseqRead, ?_, hpayloadRead, ?_, ?_⟩
  · rw [jsonDecodeMap, hdecoded]
  · rw [hsidRead, ← sessionId_eq]
    rfl
  · exact Json.get?_of_notMem (EncryptedEnvelope.key_ne_auth rfl hperm)
  · rw [decryptPayload, Option.bind_some, E.prim_eq, E.aead_eq]
    show (E.session.crates.prim.base64Decode (E.session.crates.prim.b64Encode packed)).bind
      (decrypt E.session.crates.aead key) = some payload
    rw [E.session.crates.prim.base64Decode_b64Encode, Option.bind_some]
    exact decrypt_encrypt hpacked

theorem reachesAgent (hpeer : s.ownPeer? conn = some peer) {c m : Connection} {k : SessionKey}
    {msg : ClientMessage} {f : Client.Frame} (hrange : msg.InRange) (hready : Ready c k peer.authToken)
    (hrun : exec (Connection.step E.dart) c [msg.call, .encrypted c.encryptions.length] = some m)
    (hsent : m.sent = c.sent ++ [f])
    (hsize : byteLen f.json.encode ≤ Relay.MAX_TEXT_FRAME_BYTES)
    (hjson : Decodes J E.session.crates.json.fromStr f.json)
    (hbody : ∀ v ∈ msg.body (deriveSessionId k.secret.bytes),
      E.session.crates.json.fromSlice (toVec v) = some v) :
    E.ReachesAgent J s conn k.secret.bytes peer.authToken f msg := by
  obtain ⟨packed, hpacked, hframe⟩ := frame_of_call hready hrun hsent
  rw [hframe] at hsize hjson
  obtain ⟨t, ht, hdecode⟩ := relayed_envelope hpeer rfl hsize hjson
  refine ⟨t, E.dart.prim.b64Encode packed, ?_, hframe, ⟨?_, ?_⟩,
    ClientMessage.readFrom_payload hrange hbody⟩
  · rw [hframe]
    exact ht
  · obtain ⟨ms, hms, hread, -⟩ := deserialize_sorted
      (msg.envelope (deriveSessionId k.secret.bytes) (E.dart.prim.b64Encode packed) none)
      (Nat.lt_trans (ClientMessage.seq_lt hrange) (by decide))
    -- the agent reads the sorted object as the same envelope:
    have hdecoded : E.session.crates.json.fromStr t = some (.obj ms) :=
      hdecode.trans (congrArg some hms)
    rw [hdecoded, Option.bind_some, hread]
  · rw [openEnvelope, if_neg (by rw [sessionId_eq]; exact fun h => h rfl), E.prim_eq]
    show (E.session.crates.prim.b64Decode (E.session.crates.prim.b64Encode packed)).bind
      (decrypt E.session.crates.aead k.secret.bytes) = _
    rw [E.session.crates.prim.b64Decode_b64Encode, Option.bind_some, ← E.aead_eq]
    exact decrypt_encrypt hpacked

/-- Every envelope of the agent reaches the client, and every keystroke, resize and sync request of the
client reaches the agent, through a relay that issued the token it carries. -/
theorem envelope_round_trip (E : Ends) (J : SerdeJson) (s : Relay.State) (conn : Relay.ConnId)
    (peer : Relay.Peer) (hpeer : s.ownPeer? conn = some peer) :
    (∀ (key : Bytes) (n seq : Nat) (type : Text) (payload : Bytes) (env : EncryptedEnvelope),
      seq < 2 ^ 53 →
      sealPacket E.session.crates key (sessionId E.session.crates.prim key) (some peer.authToken)
        n seq type payload = some env →
      byteLen env.toJson.encode ≤ Relay.MAX_TEXT_FRAME_BYTES →
      Decodes J E.dart.jsonDecode env.toJson →
      env.type = type ∧ env.seq = seq ∧ E.ReachesClient J s conn key env payload) ∧
    ∀ (c m : Connection) (k : SessionKey) (msg : ClientMessage) (f : Client.Frame),
      msg.InRange → Ready c k peer.authToken →
      exec (Connection.step E.dart) c [msg.call, .encrypted c.encryptions.length] = some m →
      m.sent = c.sent ++ [f] →
      byteLen f.json.encode ≤ Relay.MAX_TEXT_FRAME_BYTES →
      Decodes J E.session.crates.json.fromStr f.json →
      (∀ v ∈ msg.body (deriveSessionId k.secret.bytes),
        E.session.crates.json.fromSlice (toVec v) = some v) →
      E.ReachesAgent J s conn k.secret.bytes peer.authToken f msg := by
  constructor
  · intro key n seq type payload env hseq hseal hsize hjson
    have hfields : env.type = type ∧ env.seq = seq := by
      rw [sealPacket, Option.map_eq_some_iff] at hseal
      obtain ⟨packed, -, rfl⟩ := hseal
      exact ⟨rfl, rfl⟩
    exact ⟨hfields.1, hfields.2, reachesClient hpeer hseq hseal hsize hjson⟩
  · intro c m k msg f hrange hready hrun hsent hsize hjson hbody
    exact reachesAgent hpeer hrange hready hrun hsent hsize hjson hbody

end Ends

/-! ## A round trip on small crates -/

namespace RoundTrip.Sample

open Agent.Sample

def token : Text := "t0ken".toList

def peer : Relay.Peer := { id := 1, tx := 0, lastActivity := 0, authToken := token }

/-- A relay with one connection in a room. -/
def relay : Relay.State where
  rooms := AList.insert [] { peers := [peer], nextId := 2 } ∅
  conns _ := { pc := .reading, peerId := 1, authToken := token }
  now := 0

/-- An output chunk of the agent, with its token. -/
def output : EncryptedEnvelope :=
  { seq := 1, sessionId := sid, type := "pty".toList, auth := some token
    payload := prim.b64Encode ((encrypt aead 0 key [104, 105]).getD []) }

/-- A resize of the client, as the agent reads it. -/
def resize : ClientMessage := .resize 3 120 40

def resized : EncryptedEnvelope :=
  resize.envelope sid (prim.b64Encode ((encrypt aead 0 key (resize.payload sid)).getD [])) (some token)

def sessionKey : SessionKey :=
  { secret := { bytes := key, offerFrom := 0, ciphertextTo := some 0 }, hmacFrom := 0 }

/-- A client in its session. -/
def client : Connection :=
  { Connection.new with
    channel := some 0
    crypto := some sessionKey
    sessionId := some (deriveSessionId key)
    relayAuthToken := some token }

/-- The JSON of an envelope as the relay forwards it. -/
def forwarded (env : EncryptedEnvelope) : Json := (env.toJson.remove "auth").sorted

/-- The agent knows the resize and its body, the client the output chunk. -/
def ends : Ends where
  session := session [forwarded resized, resizeJson 120 40]
  dart := dart [forwarded output]
  prim_eq := rfl
  aead_eq := rfl

theorem decodes (env : EncryptedEnvelope) (known : List Json) :
    Decodes (.knowing [env.toJson]) (SerdeJson.knowing (forwarded env :: known)).fromStr env.toJson where
  relay := SerdeJson.knowing_fromStr _ _
  write := rfl
  receiver := SerdeJson.knowing_fromStr _ _

theorem inRange_resize : resize.InRange := by
  refine ⟨?_, ?_, ?_⟩ <;> decide

theorem ready_client : Ready client sessionKey token := ⟨rfl, rfl, rfl⟩

/-- The body of the resize is the second value that the agent's reader knows. -/
theorem reads_body : ends.session.crates.json.fromSlice (toVec (resizeJson 120 40)) =
    some (resizeJson 120 40) := by
  -- the reader's list of known values is searched in order:
  have hother : (toVec (forwarded resized) == toVec (resizeJson 120 40)) = false := by
    decide +kernel
  show List.find? (fun v => toVec v == toVec (resizeJson 120 40))
    [forwarded resized, resizeJson 120 40] = _
  rw [List.find?_cons_of_neg (by rw [hother]; exact Bool.false_ne_true)]
  exact List.find?_cons_of_pos (beq_self_eq_true (toVec (resizeJson 120 40)))

/-- An output chunk and a resize. -/
theorem envelope_round_trip_sample :
    ends.ReachesClient (.knowing [output.toJson]) relay 0 Agent.Sample.key output [104, 105] ∧
    ∃ f, ends.ReachesAgent (.knowing [resized.toJson]) relay 0 Agent.Sample.key token f resize := by
  have hpeer : relay.ownPeer? 0 = some peer := rfl
  constructor
  · have hroundTrip := (Ends.envelope_round_trip ends (.knowing [output.toJson]) relay 0 peer hpeer).1
      Agent.Sample.key 0 1 "pty".toList [104, 105] output (by decide) (by decide +kernel)
      (by decide +kernel) (decodes output [])
    exact hroundTrip.2.2
  · obtain ⟨m, f, hrun, hsent⟩ : ∃ m f, exec (Connection.step ends.dart) client
        [resize.call, .encrypted client.encryptions.length] = some m ∧ m.sent = client.sent ++ [f] :=
      call_sends ready_client rfl (by decide +kernel)
    obtain ⟨packed, hpacked, hframe⟩ := frame_of_call ready_client hrun hsent
    have hjson : f.json = resized.toJson := by
      -- the frame of the run is the sample envelope:
      have hvalue : encrypt Agent.Sample.aead 0 Agent.Sample.key
          (resize.payload Agent.Sample.sid) = some packed := hpacked
      rw [hframe, resized, hvalue]
      rfl
    refine ⟨f, (Ends.envelope_round_trip ends (.knowing [resized.toJson]) relay 0 peer hpeer).2
      client m sessionKey resize f inRange_resize ready_client hrun hsent ?_ ?_ ?_⟩
    · rw [hjson]
      decide +kernel
    · rw [hjson]
      exact decodes resized [resizeJson 120 40]
    · rintro v ⟨⟩
      exact reads_body

end RoundTrip.Sample

end Ktty.Protocol
