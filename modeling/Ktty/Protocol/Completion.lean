import Ktty.Client.Recovery
import Ktty.Protocol.Eviction
import Ktty.Protocol.FrameSize
import Ktty.Protocol.Keystrokes
import Ktty.Protocol.RoundTrip
import Ktty.Wire.QuotedWords

/-!
# A handshake that completes

The agent in its wait loop, a client whose reconnect timer is armed, and a relay with an entry for each of
them. When agent and client have the same PIN and the relay forwards what they send, the join is answered
and the handshake ends at both ends, in a session with the same key and the same session id
(`handshake_completes`). The texts that each side reads are those that the relay makes of what the other
side has sent.
-/

set_option autoImplicit false

namespace Ktty.Protocol.Completion

open Ktty.Wire Ktty.Crypto Ktty.Lib.Execution Ktty.Agent Ktty.Client
open Ktty.Protocol.Eviction (sentBy)
open Ktty.Protocol.FrameSize (Fits StandardBase64)
open Ktty.Relay (authJson joinJson)

/-! ## The messages -/

section Messages

variable (P : Primitives Bytes Text)

def bootFields : List (String × Json) := [("type", .str "boot".toList)]

def offerFields (ek : Bytes) : List (String × Json) :=
  [("mlkem_pub_key", .str (P.b64Encode ek)), ("type", .str "handshake".toList)]

def hmacFields (mac : Bytes) : List (String × Json) :=
  [("hmac", .str (P.b64Encode mac)), ("type", .str "handshake".toList)]

/-- The messages of the agent, without their token. -/
def agentMessages (ek mac : Bytes) : List (List (String × Json)) :=
  [bootFields, offerFields P ek, hmacFields P mac]

/-- The reply of the client as the relay writes it anew. -/
def ciphertextFields (ct : Bytes) : List (String × Json) :=
  [("mlkem_ciphertext", .str (P.b64Encode ct)), ("type", .str "handshake".toList)]

/-- A message of the agent with its token. -/
def authed (token : Text) (fields : List (String × Json)) : Json :=
  Eviction.withToken (some token) fields

/-- The reply of the client with its token. -/
def replyJson (D : Dart) (token : Text) (ct : Bytes) : Json :=
  .ofFields (Client.withToken (some token) (Connection.replyFields D ct))

end Messages

/-- ML-KEM is correct: a generated key encapsulates, and its other half recovers the secret. -/
def KemCorrect (P : Primitives Bytes Text) : Prop :=
  ∀ n r, ∃ ct ss, P.mlkemEncapsulate (P.mlkemGenerate n).2 r = some (ct, ss) ∧
    P.mlkemDecapsulate (P.mlkemGenerate n).1 ct = some ss

/-- The JSON libraries read the messages of the handshake, and the relay's size gate takes them. -/
structure Transmits (E : Ends) (tokenA tokenB : Text) (ek ct mac : Bytes) : Prop where
  auth : E.dart.jsonDecode (authJson tokenB).encode = some (authJson tokenB)
  fromAgent : ∀ fields ∈ agentMessages E.dart.prim ek mac,
    Decodes E.session.crates.json E.dart.jsonDecode (authed tokenA fields) ∧
      Fits (authed tokenA fields)
  fromClient : Decodes E.session.crates.json E.session.crates.json.fromStr
      (replyJson E.dart tokenB ct) ∧ Fits (replyJson E.dart tokenB ct)

/-! ## Through the relay -/

section Relay

variable {J : SerdeJson} {decode : Text → Option Json} {s : Relay.State} {conn : Relay.ConnId}
  {peer : Relay.Peer}

/-- A message with the token of its connection is forwarded without the token. -/
theorem relayed_json {v : Json} (hpeer : s.ownPeer? conn = some peer)
    (hauth : v.get? "auth" = some (.str peer.authToken)) (hfits : Fits v) (hjson : Decodes J decode v) :
    relayed J s conn v.encode = some (v.remove "auth").sorted.encode := by
  have hok : Relay.tokenOk s conn v = true := by
    rw [Relay.tokenOk, hpeer, hauth]
    exact beq_self_eq_true _
  have hread : Relay.readFrame J s conn (.text v.encode) =
      s.setPc conn (.forwarding (.text v.encode)) := by
    rw [Relay.readFrame, if_neg (Nat.not_lt.2 hfits), hjson.relay]
    exact if_pos hok
  have hforward : Relay.forwardMsg J (.text v.encode) = .text (v.remove "auth").sorted.encode := by
    rw [Relay.forwardMsg, hjson.relay]
    dsimp only
    rw [hauth, Option.isSome_some, if_pos rfl, hjson.write]
  rw [relayed, hread]
  simp only [Relay.State.setPc, Relay.State.setConn, Function.update_self, hforward]

/-- Members without the name `auth`. -/
theorem filter_auth {fields : List (String × Json)} (h : ∀ f ∈ fields, f.1 ≠ "auth") :
    (fields.map fun f => (f.1.toList, f.2)).filter (fun m => decide (m.1 ≠ "auth".toList)) =
        (fields.map fun f => (f.1.toList, f.2)) ∧
      (fields.map fun f => (f.1.toList, f.2)).filter (fun m => decide (m.1 = "auth".toList)) = [] := by
  have hkeys : ∀ m ∈ fields.map fun f => (f.1.toList, f.2), m.1 ≠ "auth".toList := by
    intro m hm
    obtain ⟨f, hf, rfl⟩ := List.mem_map.1 hm
    exact fun heq => h f hf (String.toList_inj.1 heq)
  constructor
  · exact List.filter_eq_self.2 fun m hm => decide_eq_true (hkeys m hm)
  · exact List.filter_eq_nil_iff.2 fun m hm heq => hkeys m hm (of_decide_eq_true heq)

theorem remove_authed {fields : List (String × Json)} (h : ∀ f ∈ fields, f.1 ≠ "auth") (token : Text) :
    (authed token fields).remove "auth" = .ofFields fields ∧
      (authed token fields).get? "auth" = some (.str token) := by
  obtain ⟨hkept, hnone⟩ := filter_auth h
  constructor
  · show Json.obj ((("auth".toList, Json.str token) :: fields.map fun f => (f.1.toList, f.2)).filter _) = _
    rw [List.filter_cons_of_neg (by simp), hkept]
    rfl
  · show ((List.filter _ (("auth".toList, Json.str token) :: fields.map fun f =>
      (f.1.toList, f.2))).getLast?).map (·.2) = _
    rw [List.filter_cons_of_pos (by simp), hnone]
    rfl

/-- A pair of members in order. -/
theorem sorted_pair {k l : Text} (h : k ≤ l) (v w : Json) :
    (Json.obj [(k, v), (l, w)]).sorted = .obj [(k, v), (l, w)] := by
  simp [Json.sorted, List.insertionSort, h]

/-- Their keys are in order, and none is `auth`. -/
theorem ordered_agentMessages {P : Primitives Bytes Text} {ek mac : Bytes} {fields : List (String × Json)}
    (h : fields ∈ agentMessages P ek mac) :
    (∀ f ∈ fields, f.1 ≠ "auth") ∧ (Json.ofFields fields).sorted = .ofFields fields := by
  have hoffer : "mlkem_pub_key".toList ≤ "type".toList := by decide
  have hhmac : "hmac".toList ≤ "type".toList := by decide
  simp only [agentMessages, List.mem_cons, List.not_mem_nil, or_false] at h
  rcases h with rfl | rfl | rfl
  · exact ⟨by simp [bootFields], rfl⟩
  · exact ⟨by simp [offerFields], sorted_pair hoffer _ _⟩
  · exact ⟨by simp [hmacFields], sorted_pair hhmac _ _⟩

/-- A message of the agent through the relay, as its text and as what the client reads. -/
theorem relayed_authed {P : Primitives Bytes Text} {ek mac : Bytes} {fields : List (String × Json)}
    (h : fields ∈ agentMessages P ek mac) (hpeer : s.ownPeer? conn = some peer)
    (hfits : Fits (authed peer.authToken fields))
    (hjson : Decodes J decode (authed peer.authToken fields)) :
    relayed J s conn (authed peer.authToken fields).encode = some (Json.ofFields fields).encode ∧
      decode (Json.ofFields fields).encode = some (.ofFields fields) := by
  obtain ⟨hplain, hsorted⟩ := ordered_agentMessages h
  obtain ⟨hremove, hauth⟩ := remove_authed hplain peer.authToken
  have hrelayed := relayed_json hpeer hauth hfits hjson
  have hreceiver := hjson.receiver
  rw [hremove, hsorted] at hrelayed hreceiver
  exact ⟨hrelayed, hreceiver⟩

/-- The reply of the client is written with its keys in order. -/
theorem remove_reply (D : Dart) (token : Text) (ct : Bytes) :
    ((replyJson D token ct).remove "auth").sorted = .ofFields (ciphertextFields D.prim ct) ∧
      (replyJson D token ct).get? "auth" = some (.str token) := by
  have hjson : replyJson D token ct =
      .obj [("type".toList, .str "handshake".toList),
        ("mlkem_ciphertext".toList, .str (D.prim.b64Encode ct)), ("auth".toList, .str token)] := by
    have haction : (Json.ofFields (Connection.replyFields D ct)).get? "action" = none := by
      simp [Connection.replyFields, Json.ofFields, Json.get?]
    rw [replyJson, Client.withToken]
    simp only [haction]
    rfl
  have hremove : (replyJson D token ct).remove "auth" =
      .obj [("type".toList, .str "handshake".toList),
        ("mlkem_ciphertext".toList, .str (D.prim.b64Encode ct))] := by
    rw [hjson]
    simp [Json.remove]
  constructor
  · rw [hremove]
    rfl
  · rw [hjson]
    rfl

end Relay

/-! ## The agent -/

/-- A run of the agent with the messages that it sends. -/
def performs (S : Session) : RunState → List Agent.Event → Option (RunState × List AgentMsg)
  | st, [] => some (st, [])
  | st, e :: es =>
      (S.step st e).bind fun r =>
        (performs S r.1 es).map fun last => (last.1, sentBy r.2 ++ last.2)

theorem performs_cons {S : Session} {st m t : RunState} {e : Agent.Event} {es : List Agent.Event}
    {effs : List Effect} {ms : List AgentMsg} (h : S.step st e = some (m, effs))
    (k : performs S m es = some (t, ms)) : performs S st (e :: es) = some (t, sentBy effs ++ ms) := by
  rw [performs, h, Option.bind_some, k]
  rfl

/-- A join and a reply. -/
def served (roomId reply : Text) : List Agent.Event :=
  [.ws (.text (joinJson roomId).encode), .proceed, .proceed, .ws (.text reply)]

section Agent

variable {S : Session}

/-- The notification of the relay is read as a join. -/
theorem isJoinText_joinJson (roomId : Text) : isJoinText (joinJson roomId).encode = true := by
  have htext : ∃ rest, (joinJson roomId).encode =
      ['\x7b'] ++ "\"action\"".toList ++ ([':'] ++ "\"join\"".toList ++ rest) := by
    refine ⟨",\"room_id\":".toList ++ Json.quote roomId ++ ['\x7d'], ?_⟩
    simp [joinJson, Json.ofFields, Json.encode, Json.encodeMembers, Json.quote, Json.escapeChar]
  obtain ⟨rest, htext⟩ := htext
  have haction : "\"action\"".toList <:+: (joinJson roomId).encode := ⟨_, _, htext.symm⟩
  have hjoin : "\"join\"".toList <:+: (joinJson roomId).encode := by
    rw [htext]
    exact (List.infix_append [':'] _ rest).trans (List.suffix_append _ _).isInfix
  rw [isJoinText, containsStr, containsStr, decide_eq_true haction, decide_eq_true hjoin]
  rfl

theorem plain_of_all {t : Text} (h : (t.all fun c => Plain c) = true) : ∀ c ∈ t, Plain c := by
  intro c hc
  exact of_decide_eq_true (List.all_eq_true.1 h c hc)

/-- The texts of the wait loop and of the handshake can be cut for the log. -/
theorem previewOk_joinJson {roomId : Text} (h : ∀ c ∈ roomId, Plain c) (limit : Nat) :
    previewOk limit (joinJson roomId).encode = true := by
  apply previewOk_of_flat
  intro m hm
  simp only [List.map_cons, List.map_nil, List.mem_cons, List.not_mem_nil, or_false] at hm
  have haction : ∀ c ∈ "action".toList, Plain c := plain_of_all rfl
  have hjoin : ∀ c ∈ "join".toList, Plain c := plain_of_all rfl
  have hroom : ∀ c ∈ "room_id".toList, Plain c := plain_of_all rfl
  rcases hm with rfl | rfl
  · exact ⟨haction, hjoin⟩
  · exact ⟨hroom, h⟩

theorem previewOk_ciphertext {P : Primitives Bytes Text} (hb64 : StandardBase64 P) (ct : Bytes)
    (limit : Nat) : previewOk limit (Json.ofFields (ciphertextFields P ct)).encode = true := by
  apply previewOk_of_flat
  intro m hm
  simp only [ciphertextFields, List.map_cons, List.map_nil, List.mem_cons, List.not_mem_nil,
    or_false] at hm
  have hciphertext : ∀ c ∈ "mlkem_ciphertext".toList, Plain c := plain_of_all rfl
  have htype : ∀ c ∈ "type".toList, Plain c := plain_of_all rfl
  have hhandshake : ∀ c ∈ "handshake".toList, Plain c := plain_of_all rfl
  rcases hm with rfl | rfl
  · refine ⟨hciphertext, fun c hc => ?_⟩
    rw [hb64] at hc
    exact plain_base64 hc
  · exact ⟨htype, hhandshake⟩

/-- The agent in its wait loop answers the join with an offer, and a reply that it reads with the HMAC of
the secret. -/
theorem agent_serves {st : RunState} {alive : Bool} {token roomId reply ctB64 : Text}
    {ct key : Bytes} (hphase : st.phase = .wait alive) (hwriter : st.writerAlive = true)
    (htoken : st.relayAuthToken = some token) (hroom : ∀ c ∈ roomId, Plain c)
    (hpreview : previewOk 80 reply = true)
    (hreply : (S.crates.json.fromStr reply).bind RawMessage.deserialize =
      some (.reply ctB64))
    (hct : S.crates.prim.b64Decode ctB64 = some ct)
    (hkey : S.crates.prim.mlkemDecapsulate (S.crates.prim.mlkemGenerate st.rng).1 ct = some key) :
    ∃ m, performs S st (served roomId reply) = some (m,
        [.boot (some token),
          .offer (S.crates.prim.b64Encode (S.crates.prim.mlkemGenerate st.rng).2) (some token),
          .hmac (S.crates.prim.b64Encode (computeHmac S.crates.prim S.derivedKey key)) (some token)]) ∧
      m.phase = .bridge key (sessionId S.crates.prim key) := by
  let drawn : RunState := { st with rng := st.rng + 1 }
  have hjoin : S.step st (.ws (.text (joinJson roomId).encode)) = some (st.goto .boot, []) := by
    rw [step_eq_react (by simp), hphase, Session.react, waitRecv, previewOk_joinJson hroom,
      isJoinText_joinJson]
    rfl
  have hboot : S.step (st.goto .boot) .proceed =
      some (st.goto .offer, [.send (.boot (some token))]) := by
    rw [step_eq_react (by simp), RunState.goto_phase, Session.react, sendBoot, ← htoken]
    exact congrArg some (if_pos hwriter)
  have hoffer : S.step (st.goto .offer) .proceed =
      some (drawn.goto (.handshake (S.crates.prim.mlkemGenerate st.rng).1),
        [.send (.offer (S.crates.prim.b64Encode (S.crates.prim.mlkemGenerate st.rng).2)
          (some token))]) := by
    rw [step_eq_react (by simp), RunState.goto_phase, Session.react, sendOffer, ← htoken]
    exact congrArg some (if_pos hwriter)
  have hderived : handshakeReply S.crates.prim (S.crates.prim.mlkemGenerate st.rng).1
      (.reply ctB64) = .derived key := by
    rw [handshakeReply, if_pos (by rfl)]
    simp only [RawMessage.reply, hct, hkey]
  have hhmac : S.step (drawn.goto (.handshake (S.crates.prim.mlkemGenerate st.rng).1))
      (.ws (.text reply)) = some (drawn.goto (.bridge key (sessionId S.crates.prim key)),
        [.send (.hmac (S.crates.prim.b64Encode (computeHmac S.crates.prim S.derivedKey key))
          (some token))]) := by
    rw [step_eq_react (by simp), RunState.goto_phase, Session.react, handshakeRecv, hpreview,
      hreply]
    dsimp only
    rw [hderived, ← htoken]
    exact congrArg some (if_pos hwriter)
  exact ⟨_, performs_cons hjoin (performs_cons hboot (performs_cons hoffer (performs_cons hhmac rfl))),
    rfl⟩

end Agent

/-! ## The client -/

section Client

variable {D : Dart} {t : Text} {fields : List (String × Json)}

/-- A message that is not of type `auth` is passed on. -/
theorem authToken_eq_none (type : Text) (hread : D.jsonDecode t = some (.ofFields fields))
    (htype : (Json.ofFields fields).get? "type" = some (.str type)) (hne : type ≠ "auth".toList) :
    authToken D t = none := by
  rw [authToken]
  split
  · rw [jsonDecodeMap, hread]
    show ((some (Json.ofFields fields)).bind _ : Option Text) = none
    rw [Option.bind_some, htype, if_neg]
    intro heq
    exact hne (Option.some.inj heq)
  · rfl

theorem handshakeField_eq (hread : D.jsonDecode t = some (.ofFields fields))
    (htype : (Json.ofFields fields).get? "type" = some (.str "handshake".toList)) (field : String) :
    handshakeField D field t = ((Json.ofFields fields).get? field).bind Json.asStr := by
  rw [handshakeField, jsonDecodeMap, hread]
  show ((some (Json.ofFields fields)).bind _ : Option Text) = _
  rw [Option.bind_some, htype]
  exact if_pos rfl

/-- The auth message of the relay is read for its token. -/
theorem authToken_authJson {token : Text}
    (hread : D.jsonDecode (authJson token).encode = some (authJson token)) :
    authToken D (authJson token).encode = some token := by
  have htext : ∃ front, (authJson token).encode =
      front ++ ("\"type\"".toList ++ ([':'] ++ ("\"auth\"".toList ++ ['\x7d']))) := by
    refine ⟨"\x7b\"token\":".toList ++ Json.quote token ++ [','], ?_⟩
    simp [authJson, Json.ofFields, Json.encode, Json.encodeMembers, Json.quote, Json.escapeChar]
  obtain ⟨front, htext⟩ := htext
  have htype : "\"type\"".toList <:+: (authJson token).encode :=
    ⟨front, _, by rw [htext, List.append_assoc]⟩
  have hauth : "\"auth\"".toList <:+: (authJson token).encode := by
    refine ⟨front ++ "\"type\"".toList ++ [':'], ['\x7d'], ?_⟩
    rw [htext]
    simp only [List.append_assoc]
  have hkind : (authJson token).get? "type" = some (.str "auth".toList) := by
    simp [authJson, Json.ofFields, Json.get?]
  have htoken : (authJson token).get? "token" = some (.str token) := by
    simp [authJson, Json.ofFields, Json.get?]
  rw [authToken, containsStr, containsStr, decide_eq_true htype, decide_eq_true hauth, Bool.and_self,
    if_pos rfl, jsonDecodeMap, hread]
  show ((some (authJson token)).bind _ : Option Text) = _
  rw [Option.bind_some, hkind, htoken]
  exact if_pos rfl

end Client

/-! ## Both ends -/

section Both

variable {E : Ends} {s : Relay.State} {a b : Relay.ConnId} {pa pb : Relay.Peer} {ek ct ss : Bytes}

/-- What the client reads of the messages of the agent. -/
theorem reads_agentMessage {tokenA tokenB : Text} {mac : Bytes}
    (h : Transmits E tokenA tokenB ek ct mac) {fields : List (String × Json)}
    (hfields : fields ∈ agentMessages E.dart.prim ek mac) :
    E.dart.jsonDecode (Json.ofFields fields).encode = some (.ofFields fields) := by
  obtain ⟨hplain, hsorted⟩ := ordered_agentMessages hfields
  have hreceiver := (h.fromAgent fields hfields).1.receiver
  rw [(remove_authed hplain tokenA).1, hsorted] at hreceiver
  exact hreceiver

/-- What the relay makes of the messages of the agent is what the client waits for. -/
def answers {tokenA tokenB pin : Text} {n : Nat}
    (hderived : E.session.derivedKey = E.dart.prim.argon2id pin)
    (hencap : E.dart.prim.mlkemEncapsulate ek n = some (ct, ss))
    (hjson : Transmits E tokenA tokenB ek ct (computeHmac E.dart.prim E.session.derivedKey ss)) :
    Connection.Answers E.dart pin n :=
  let mac := computeHmac E.dart.prim E.session.derivedKey ss
  have hboot : E.dart.jsonDecode (Json.ofFields bootFields).encode = some (.ofFields bootFields) :=
    reads_agentMessage hjson (by simp [agentMessages])
  have hoffer : E.dart.jsonDecode (Json.ofFields (offerFields E.dart.prim ek)).encode =
      some (.ofFields (offerFields E.dart.prim ek)) :=
    reads_agentMessage hjson (by simp [agentMessages])
  have hhmac : E.dart.jsonDecode (Json.ofFields (hmacFields E.dart.prim mac)).encode =
      some (.ofFields (hmacFields E.dart.prim mac)) :=
    reads_agentMessage hjson (by simp [agentMessages, mac])
  { auth := (authJson tokenB).encode
    boot := (Json.ofFields bootFields).encode
    offer := (Json.ofFields (offerFields E.dart.prim ek)).encode
    hmac := (Json.ofFields (hmacFields E.dart.prim mac)).encode
    token := tokenB
    pubKeyB64 := E.dart.prim.b64Encode ek
    hmacB64 := E.dart.prim.b64Encode mac
    ct := ct
    secret := ss
    auth_reads := authToken_authJson hjson.auth
    boot_passes := authToken_eq_none "boot".toList hboot
      (by simp [bootFields, Json.ofFields, Json.get?]) (by decide)
    offer_passes := authToken_eq_none "handshake".toList hoffer
      (by simp [offerFields, Json.ofFields, Json.get?]) (by decide)
    hmac_passes := authToken_eq_none "handshake".toList hhmac
      (by simp [hmacFields, Json.ofFields, Json.get?]) (by decide)
    boot_ignored := by
      rw [offerIn, handshakeField, jsonDecodeMap, hboot]
      rfl
    offer_reads := by
      rw [offerIn, handshakeField_eq hoffer (by simp [offerFields, Json.ofFields, Json.get?])]
      simp [offerFields, Json.ofFields, Json.get?, Json.asStr]
    hmac_reads := by
      rw [hmacIn, handshakeField_eq hhmac (by simp [hmacFields, Json.ofFields, Json.get?])]
      simp [hmacFields, Json.ofFields, Json.get?, Json.asStr]
    encapsulates := by
      rw [E.dart.prim.base64Decode_b64Encode]
      exact hencap
    verifies := by
      rw [E.dart.prim.base64Decode_b64Encode, ← hderived]
      rfl }

/-- The relay makes `t'` of a text `t` from the connection `conn`, whenever the entry of the connection has
this token. -/
def Forwards (J : SerdeJson) (conn : Relay.ConnId) (token t t' : Text) : Prop :=
  ∀ s peer, s.ownPeer? conn = some peer → peer.authToken = token → relayed J s conn t = some t'

/-- The texts among the frames of the agent. -/
def texts (ms : List AgentMsg) : List Text := ms.filterMap fun m => Eviction.textOf (Eviction.frame m)

/-- The agent `st` on the connection `a` and the client `c` on the connection `b` complete a handshake. -/
structure Completes (E : Ends) (a b : Relay.ConnId) (tokenA tokenB pin : Text) (st : RunState)
    (c : Connection) (A : Connection.Answers E.dart pin c.rng) (m : RunState) (t : Connection) : Prop where
  /-- The agent reads the join and the reply of the client, and the client what the agent has sent. -/
  agent : ∃ reply ms, performs E.session st (served E.session.roomId reply) = some (m, ms) ∧
    List.Forall₂ (Forwards E.session.crates.json a tokenA) (texts ms) [A.boot, A.offer, A.hmac] ∧
    Forwards E.session.crates.json b tokenB (replyJson E.dart tokenB A.ct).encode reply
  client : Run (stepRel (Connection.step E.dart)) c (c.attempt A) t
  /-- The first frame of the client is the join of the agent's room, the second one the reply. -/
  frames : t.sent.map (·.json) =
    c.sent.map (·.json) ++ [joinJson E.session.roomId, replyJson E.dart tokenB A.ct]
  auth : A.auth = (authJson tokenB).encode
  /-- Both ends have a session under the same key. -/
  session : ∃ key sid, m.phase = .bridge key sid ∧ t.sessionId = some sid ∧
    t.crypto.map (·.secret.bytes) = some key ∧ t.channel.isSome = true

theorem forwards_agentMessage {J : SerdeJson} {decode : Text → Option Json} {P : Primitives Bytes Text}
    {mac : Bytes} {token : Text} {fields : List (String × Json)} (h : fields ∈ agentMessages P ek mac)
    (hjson : Decodes J decode (authed token fields) ∧ Fits (authed token fields)) :
    Forwards J a token (authed token fields).encode (Json.ofFields fields).encode := by
  rintro s peer hpeer rfl
  exact (relayed_authed h hpeer hjson.2 hjson.1).1

theorem forwards_reply {J : SerdeJson} {D : Dart} {token : Text}
    (hjson : Decodes J J.fromStr (replyJson D token ct) ∧ Fits (replyJson D token ct)) :
    Forwards J b token (replyJson D token ct).encode
      (Json.ofFields (ciphertextFields D.prim ct)).encode := by
  rintro s peer hpeer rfl
  obtain ⟨hremove, hauth⟩ := remove_reply D peer.authToken ct
  rw [← hremove]
  exact relayed_json hpeer hauth hjson.2 hjson.1

/-- The agent reads the ciphertext in what the relay makes of the reply. -/
theorem deserialize_ciphertext {J : SerdeJson} {D : Dart} {token : Text}
    (hjson : Decodes J J.fromStr (replyJson D token ct)) :
    (J.fromStr (Json.ofFields (ciphertextFields D.prim ct)).encode).bind RawMessage.deserialize =
      some (.reply (D.prim.b64Encode ct)) := by
  have hreceiver := hjson.receiver
  rw [(remove_reply D token ct).1] at hreceiver
  have hfields : Json.ofFields (ciphertextFields D.prim ct) =
      .obj [("mlkem_ciphertext".toList, .str (D.prim.b64Encode ct)),
        ("type".toList, .str "handshake".toList)] := rfl
  rw [hreceiver, hfields]
  rfl

/-- With the same PIN at both ends, libraries that undo each other and a relay that forwards, the join of
a reconnecting client ends in one session at both ends. -/
theorem handshake_completes (st : RunState) {es : List ServiceEvent} {c : Connection} {alive : Bool}
    {tokenA tokenB pin : Text} (a b : Relay.ConnId)
    (hrun : Run (stepRel (Connection.step E.dart)) Connection.new es c) (hopen : c.closed = false)
    (harmed : c.reconnectTimer.isSome = true) (hpin : c.lastPin = some pin)
    (hphase : st.phase = .wait alive) (hwriter : st.writerAlive = true)
    (htoken : st.relayAuthToken = some tokenA)
    (hderived : E.session.derivedKey = E.dart.prim.argon2id pin)
    (hb64 : StandardBase64 E.dart.prim) (hkem : KemCorrect E.dart.prim)
    (hjson : ∀ ct ss, E.dart.prim.mlkemEncapsulate (E.dart.prim.mlkemGenerate st.rng).2 c.rng =
      some (ct, ss) → Transmits E tokenA tokenB (E.dart.prim.mlkemGenerate st.rng).2 ct
        (computeHmac E.dart.prim E.session.derivedKey ss)) :
    ∃ A m t, Completes E a b tokenA tokenB pin st c A m t := by
  obtain ⟨ct, ss, hencap, hdecap⟩ := hkem st.rng c.rng
  have htransmits := hjson ct ss hencap
  obtain ⟨url, hurl⟩ := Option.isSome_iff_exists.1 (Connection.armedKnowing_of_run hrun harmed).1
  let A := answers hderived hencap htransmits
  -- the client goes through its part with the answers that the relay makes
  obtain ⟨t, hattempt, hestablished, hsent⟩ := Connection.attempt_succeeds hopen harmed hurl hpin A
  -- and the agent through its own with the reply that the relay makes
  have hroom : ∀ x ∈ E.session.roomId, Plain x := by
    intro x hx
    rw [Session.roomId, Crypto.roomId, E.session.crates.hexEncode_eq] at hx
    exact plain_hex (Lib.Hex.mem_encode hx)
  have hprim := E.prim_eq
  obtain ⟨m, hperforms, hbridge⟩ := agent_serves (S := E.session) hphase hwriter htoken hroom
    (previewOk_ciphertext hb64 ct 80) (deserialize_ciphertext htransmits.fromClient.1)
    (by rw [hprim, E.session.crates.prim.b64Decode_b64Encode]) (by rw [← hprim, hdecap])
  refine ⟨A, m, t, ⟨⟨_, _, hperforms, ?_, forwards_reply htransmits.fromClient⟩, hattempt, ?_, rfl,
    ss, _, hbridge, ?_, ?_, ?_⟩⟩
  · show List.Forall₂ _ [(authed tokenA bootFields).encode,
      (authed tokenA (offerFields E.session.crates.prim _)).encode,
      (authed tokenA (hmacFields E.session.crates.prim _)).encode] _
    have hforwards : ∀ fields ∈ agentMessages E.dart.prim (E.dart.prim.mlkemGenerate st.rng).2
        (computeHmac E.dart.prim E.session.derivedKey ss), Forwards E.session.crates.json a tokenA
          (authed tokenA fields).encode (Json.ofFields fields).encode :=
      fun fields hfields => forwards_agentMessage hfields (htransmits.fromAgent fields hfields)
    rw [← hprim]
    exact .cons (hforwards _ (by simp [agentMessages])) (.cons (hforwards _ (by simp [agentMessages]))
      (.cons (hforwards _ (by simp [agentMessages])) .nil))
  · have hkey : roomId E.dart.prim (E.dart.prim.argon2id pin) = E.session.roomId := by
      rw [Session.roomId, hderived, hprim]
    rw [hsent, List.map_append, ← hkey]
    rfl
  · rw [hestablished.sessionId, ← E.sessionId_eq]
    rfl
  · rw [hestablished.crypto]
    rfl
  · rw [hestablished.channel]
    rfl

end Both

/-! ## A handshake on small crates -/

namespace Sample

open Keystrokes.Sample (known received hmac)
open Eviction.Sample (boot offer)

def tokenA : Text := Lib.Hex.encode [10]

def tokenB : Text := Lib.Hex.encode [11]

/-- What the client reads: the token, and the agent's messages behind the relay. -/
def heard : List Json := received ++ [(boot.remove "auth").sorted]

def ends : Ends where
  session := Agent.Sample.session known
  dart := Agent.Sample.dart heard
  prim_eq := rfl
  aead_eq := rfl

/-- The agent after its first client has gone. -/
def waiting : RunState :=
  { Session.start with phase := .wait true, relayAuthToken := some tokenA }

/-- The channel ends under the first handshake of the client. -/
def lost : List ServiceEvent :=
  Connection.Sample.connected 0 ++ [.performHandshake Connection.Sample.pin, .done 0]

theorem kemCorrect : KemCorrect Agent.Sample.prim := fun _ _ => ⟨_, _, rfl, rfl⟩

theorem decodes_boot : Decodes (.knowing known) (SerdeJson.knowing heard).fromStr boot where
  relay := SerdeJson.fromStr_known (l := known.take 2) (by decide +kernel)
  write := rfl
  receiver := SerdeJson.fromStr_known (l := received) (by decide +kernel)

theorem decodes_offer : Decodes (.knowing known) (SerdeJson.knowing heard).fromStr offer where
  relay := SerdeJson.fromStr_known (l := known.take 3) (by decide +kernel)
  write := rfl
  receiver := SerdeJson.fromStr_known (l := received.take 1) (by decide +kernel)

theorem decodes_hmac : Decodes (.knowing known) (SerdeJson.knowing heard).fromStr hmac where
  relay := SerdeJson.fromStr_known (l := known.take 4) (by decide +kernel)
  write := rfl
  receiver := SerdeJson.fromStr_known (l := received.take 2) (by decide +kernel)

theorem reads_auth : (SerdeJson.knowing heard).fromStr (authJson tokenB).encode = some (authJson tokenB) :=
  SerdeJson.fromStr_known (l := []) rfl

theorem fits : Fits boot ∧ Fits offer ∧ Fits hmac ∧ Fits Keystrokes.Sample.reply := by
  simp only [Fits]
  decide +kernel

theorem transmits : Transmits ends tokenA tokenB [0] [0, 0]
    (computeHmac Agent.Sample.prim ends.session.derivedKey Keystrokes.Sample.key) where
  auth := reads_auth
  fromAgent := by
    intro fields hfields
    simp only [agentMessages, List.mem_cons, List.not_mem_nil, or_false] at hfields
    rcases hfields with rfl | rfl | rfl
    · exact ⟨decodes_boot, fits.1⟩
    · exact ⟨decodes_offer, fits.2.1⟩
    · exact ⟨decodes_hmac, fits.2.2.1⟩
  fromClient := ⟨Keystrokes.Sample.decodes_reply, fits.2.2.2⟩

end Sample

/-- A second client finds the agent. -/
theorem handshake_completes_lost :
    ∃ c A m t, Run (stepRel (Connection.step Sample.ends.dart)) .new Sample.lost c ∧
      Completes Sample.ends 0 1 Sample.tokenA Sample.tokenB Connection.Sample.pin Sample.waiting c A m t := by
  obtain ⟨c, hrun, hopen, harmed, hpin, hrng⟩ : ∃ c,
      Run (stepRel (Connection.step Sample.ends.dart)) .new Sample.lost c ∧ c.closed = false ∧
        c.reconnectTimer.isSome = true ∧ c.lastPin = some Connection.Sample.pin ∧ c.rng = 0 :=
    exists_run_of_exec (by decide +kernel)
  obtain ⟨A, m, t, hcompletes⟩ := handshake_completes (E := Sample.ends) Sample.waiting 0 1 hrun
    hopen harmed hpin rfl rfl rfl rfl (fun _ => rfl) Sample.kemCorrect (by
      rw [hrng]
      rintro ct ss ⟨⟩
      exact Sample.transmits)
  exact ⟨c, A, m, t, hrun, hcompletes⟩

end Ktty.Protocol.Completion
