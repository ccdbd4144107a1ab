import Ktty.Crypto.Primitives
import Ktty.Wire.Messages

/-!
# The client's WebSocket service

What the handshake leaves in `WebSocketService` (the session key inside `_crypto` and `_sessionId`) and
the functions that encrypt and decrypt with it. `Sent` records an envelope of `sendEncrypted` together
with what was encrypted in it; the relay token that `sendJson` adds is removed by the relay and left
out.
-/

set_option autoImplicit false

namespace Ktty.Client

open Ktty.Wire Ktty.Crypto

/-- The libraries behind the client: the crypto packages, `jsonDecode` and `utf8.decode`, which throw
where these return `none`. -/
structure Dart where
  prim : Primitives Bytes Text
  aead : Aead
  jsonDecode : Text → Option Json
  utf8Decode : Bytes → Option Text

/-- `jsonDecode(text) as Map<String, dynamic>`. -/
def jsonDecodeMap (D : Dart) (text : Text) : Option Json :=
  match D.jsonDecode text with
  | some (.obj ms) => some (.obj ms)
  | _ => none

/-- The fields of `WebSocketService` that a completed handshake sets. -/
structure WebSocketService where
  crypto : Option Bytes
  sessionId : Option Text
  deriving DecidableEq

/-- `decryptPayload`: no session key, bad base64 and a failed decryption all throw. -/
def decryptPayload (D : Dart) (ws : WebSocketService) (base64Payload : Text) : Option Bytes :=
  ws.crypto.bind fun key => (D.prim.base64Decode base64Payload).bind (decrypt D.aead key)

/-- The body of a sync request, in the key order of the map literal. -/
def syncReqJson (lastSeq : Int) (sessionId : Text) : Json :=
  .ofFields [("last_seq", .int lastSeq), ("session_id", .str sessionId)]

/-- An envelope of the client: what it passed to `sendEncrypted` and the packed ciphertext. -/
structure Sent where
  seq : Nat
  type : Text
  plaintext : Bytes
  packed : Bytes
  deriving DecidableEq

/-- `sendEncrypted` with the `n`-th nonce. -/
def sendEncrypted (A : Aead) (key : Bytes) (n seq : Nat) (type : Text) (payload : Bytes) :
    Option Sent :=
  (encrypt A n key payload).map fun packed =>
    { seq := seq, type := type, plaintext := payload, packed := packed }

/-- The envelope on the wire, after the relay has removed the relay token. -/
def Sent.envelope (P : Primitives Bytes Text) (sid : Text) (r : Sent) : EncryptedEnvelope :=
  .new r.seq sid r.type (P.b64Encode r.packed)

/-- The payload decrypts to what the client encrypted. -/
def Sent.Opens (A : Aead) (key : Bytes) (r : Sent) : Prop := decrypt A key r.packed = some r.plaintext

theorem sendEncrypted_opens {A : Aead} {key : Bytes} {n seq : Nat} {type : Text} {payload : Bytes}
    {r : Sent} (h : sendEncrypted A key n seq type payload = some r) : r.Opens A key := by
  simp only [sendEncrypted, Option.map_eq_some_iff] at h
  obtain ⟨packed, hpacked, rfl⟩ := h
  exact decrypt_encrypt hpacked

end Ktty.Client
