import Ktty.Lib.Base64
import Ktty.Wire.Json

/-!
# Cryptographic primitives and packing

`Primitives β τ` collects the functions of the crypto crates that the handshake calls, over a type `β`
of byte strings and a type `τ` of texts. `Aead` is XChaCha20-Poly1305 together with the nonce source.
Their fields carry what the code relies on: base64 decoding undoes encoding, the nonce has 24 bytes,
the ciphertext is 16 bytes longer than the plaintext and decryption undoes encryption.

Over them stand the functions of `crypto.rs`: `roomId`, `sessionId`, `computeHmac`, `encrypt` and
`decrypt` with the packing `nonce ‖ ciphertext ‖ tag`.
-/

set_option autoImplicit false

namespace Ktty.Crypto

open Ktty.Wire

/-! ## Constants -/

def NONCE_LEN : Nat := 24

def MAC_LEN : Nat := 16

/-! ## The crates -/

/-- The functions of the crypto crates over byte strings `β` and texts `τ`. -/
structure Primitives (β τ : Type) where
  /-- Argon2id of the PIN with the static salt and cost parameters. -/
  argon2id : τ → β
  hexEncode : β → τ
  /-- `BASE64.encode` and `base64Encode`. -/
  b64Encode : β → τ
  /-- `BASE64.decode` of the agent. -/
  b64Decode : τ → Option β
  /-- `base64Decode` of `dart:convert`. -/
  base64Decode : τ → Option β
  /-- The key pair `(dk, ek)` of the `n`-th call of `MlKem768::generate`. -/
  mlkemGenerate : Nat → β × β
  /-- `mlkem_encapsulate` with the `n`-th draw of randomness: `(ct, ss)`, or an error when the key
  does not have the right length. -/
  mlkemEncapsulate : β → Nat → Option (β × β)
  /-- `Ciphertext::from_slice` and `decapsulate`; `none` when the slice has the wrong length, on
  which `from_slice` panics. -/
  mlkemDecapsulate : β → β → Option β
  hmacSha256 : β → β → β
  b64Decode_b64Encode : ∀ b, b64Decode (b64Encode b) = some b
  base64Decode_b64Encode : ∀ b, base64Decode (b64Encode b) = some b

/-- XChaCha20-Poly1305 on key, nonce and text. Encryption fails only for a plaintext beyond the
cipher's block counter. -/
structure Aead where
  encrypt : Bytes → Bytes → Bytes → Option Bytes
  decrypt : Bytes → Bytes → Bytes → Option Bytes
  /-- The nonce of the `n`-th draw from `OsRng`. -/
  nonce : Nat → Bytes
  nonce_length : ∀ n, (nonce n).length = NONCE_LEN
  encrypt_isSome : ∀ k n p, p.length < 64 * (2 ^ 32 - 1) → (encrypt k n p).isSome = true
  encrypt_length : ∀ k n p c, encrypt k n p = some c → c.length = p.length + MAC_LEN
  decrypt_encrypt : ∀ k n p c, encrypt k n p = some c → decrypt k n c = some p

/-! ## `crypto.rs` -/

section Crypto

variable {β τ : Type} (P : Primitives β τ) (A : Aead)

/-- Room id: the hex string of the derived key. -/
def roomId (derivedKey : β) : τ := P.hexEncode derivedKey

/-- HMAC-SHA256 under the Argon2id-derived key. -/
def computeHmac (argon2Key data : β) : β := P.hmacSha256 argon2Key data

/-- Session identifier: the hex string of the first eight bytes of the session key. -/
def sessionId (P : Primitives Bytes Text) (sessionKey : Bytes) : Text :=
  P.hexEncode (sessionKey.take 8)

/-- `encrypt` with the `n`-th nonce: `nonce ‖ ciphertext ‖ tag`. -/
def encrypt (n : Nat) (key plaintext : Bytes) : Option Bytes :=
  (A.encrypt key (A.nonce n) plaintext).map fun ctWithTag => A.nonce n ++ ctWithTag

/-- `decrypt` of packed data; too short an input is an error. -/
def decrypt (key packed : Bytes) : Option Bytes :=
  if packed.length < NONCE_LEN + MAC_LEN then none
  else A.decrypt key (packed.take NONCE_LEN) (packed.drop NONCE_LEN)

variable {A}

/-- Unpacking and decrypting undoes encrypting and packing. -/
theorem decrypt_encrypt {n : Nat} {key plaintext packed : Bytes}
    (h : encrypt A n key plaintext = some packed) : decrypt A key packed = some plaintext := by
  simp only [encrypt, Option.map_eq_some_iff] at h
  obtain ⟨ct, hct, rfl⟩ := h
  have hn := A.nonce_length n
  have hlen := A.encrypt_length key (A.nonce n) plaintext ct hct
  have hlong : ¬ (A.nonce n ++ ct).length < NONCE_LEN + MAC_LEN := by
    rw [List.length_append, hn, hlen]
    omega
  rw [decrypt, if_neg hlong, List.take_left' hn, List.drop_left' hn]
  exact A.decrypt_encrypt key (A.nonce n) plaintext ct hct

/-- Everything the agent and the client encrypt is far below the length at which encryption
fails. -/
theorem encrypt_isSome (n : Nat) (key : Bytes) {plaintext : Bytes}
    (h : plaintext.length < 64 * (2 ^ 32 - 1)) : (encrypt A n key plaintext).isSome = true := by
  rw [encrypt, Option.isSome_map]
  exact A.encrypt_isSome key (A.nonce n) plaintext h

end Crypto

end Ktty.Crypto
