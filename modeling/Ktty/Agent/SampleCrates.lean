import Ktty.Agent.Session
import Ktty.Client.TerminalService

/-!
# Small crates for concrete runs

Stand-ins for the crates of the agent and the libraries of the client on which a run can be evaluated.
The KEM of the `n`-th key pair has the one-byte keys `[n]`, and a ciphertext carries the key and the
randomness of the encapsulation; the cipher leaves the text readable and appends a tag of 16 key bytes;
the JSON reader knows the texts of a finite list of values. Base64 and hex are the real ones.
-/

set_option autoImplicit false

namespace Ktty.Agent.Sample

open Ktty.Wire Ktty.Crypto Ktty.Lib

/-- The first `n` bytes of `bs`, with zeros behind a shorter input. -/
def pad (n : Nat) (bs : Bytes) : Bytes := (bs ++ List.replicate n 0).take n

theorem length_pad (n : Nat) (bs : Bytes) : (pad n bs).length = n := by
  rw [pad, List.length_take, List.length_append, List.length_replicate]
  omega

def prim : Primitives Bytes Text where
  argon2id pin := pad 32 (pin.map fun c => UInt8.ofNat c.toNat)
  hexEncode := Hex.encode
  b64Encode := Base64.encode
  b64Decode := Base64.decode
  base64Decode := Base64.decode
  mlkemGenerate n := ([UInt8.ofNat n], [UInt8.ofNat n])
  mlkemEncapsulate ek r := some (ek ++ [UInt8.ofNat r], pad 32 (ek ++ [UInt8.ofNat r]))
  mlkemDecapsulate dk ct :=
    if ct.length = 2 then some (pad 32 (dk ++ ct.drop 1)) else none
  hmacSha256 key data := pad 32 (data.take 2 ++ key)
  b64Decode_b64Encode := Base64.decode_encode
  base64Decode_b64Encode := Base64.decode_encode

/-- The tag that the cipher appends. -/
def tag (key : Bytes) : Bytes := pad MAC_LEN key

def aead : Aead where
  encrypt key _ p := if p.length < 64 * (2 ^ 32 - 1) then some (p ++ tag key) else none
  decrypt key _ c :=
    if c.drop (c.length - MAC_LEN) = tag key then some (c.take (c.length - MAC_LEN)) else none
  nonce n := pad NONCE_LEN [UInt8.ofNat n]
  nonce_length n := length_pad _ _
  encrypt_isSome k n p h := by rw [if_pos h]; rfl
  encrypt_length k n p c h := by
    split at h
    · obtain rfl := Option.some.inj h
      rw [List.length_append, tag, length_pad]
    · cases h
  decrypt_encrypt k n p c h := by
    split at h
    · obtain rfl := Option.some.inj h
      have hlen : (p ++ tag k).length - MAC_LEN = p.length := by
        rw [List.length_append, tag, length_pad]
        omega
      rw [hlen, List.drop_left, List.take_left, if_pos rfl]
    · cases h

def crates (known : List Json) : Crates where
  prim := prim
  aead := aead
  hexEncode_eq _ := rfl
  json := .knowing known

def dart (known : List Json) : Client.Dart where
  prim := prim
  aead := aead
  jsonDecode := (SerdeJson.knowing known).fromStr
  utf8Decode bs := some (bs.map fun b => Char.ofNat b.toNat)

/-- A session key with its session id. -/
def key : Bytes := pad 32 [0, 7]

def sid : Text := sessionId prim key

/-- A keystroke or an output chunk `x` under the `n`-th nonce, as an envelope without relay token. -/
def chunk (n seq : Nat) : Option EncryptedEnvelope :=
  sealPacket (crates []) key sid none n seq "pty".toList [120]

/-- The text of an envelope. -/
def text (env : Option EncryptedEnvelope) : Text := (env.map fun env => env.toJson.encode).getD []

/-- The bytes `data` as chunk `n`, under the `n`-th nonce. -/
def output (n : Nat) (data : Bytes) : Option EncryptedEnvelope :=
  sealPacket (crates []) key sid none n n "pty".toList data

/-- The text of this chunk as the relay forwards it. -/
def frame (n : Nat) (data : Bytes) : Text := text (output n data)

/-- A terminal service of the client in the session. -/
def service : Client.TerminalService := .new { crypto := some key, sessionId := some sid }

/-- The join notification of a client. -/
def join : Json := .ofFields [("action", .str "join".toList), ("room_id", .str "r".toList)]

/-- The session of the PIN `12345678`. -/
def session (known : List Json) : Session where
  crates := crates known
  derivedKey := prim.argon2id "12345678".toList

end Ktty.Agent.Sample
