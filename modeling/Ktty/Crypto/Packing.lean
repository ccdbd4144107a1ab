import Ktty.Crypto.Primitives

/-!
# The two packing formats

The cipher with a detached tag, as `package:cryptography` has it: a nonce of 24 bytes, a tag of 16 bytes
and a ciphertext as long as the plaintext. The crate of the agent appends the tag to the ciphertext
(`joined`), so `encrypt` and `decrypt` of `crypto.rs` run on the same cipher as those of
`native_crypto_ffi.dart`, which write the three parts into one array and slice them apart again. The two
pack alike and unpack alike, on inputs of every length (`formats_agree`).
-/

set_option autoImplicit false

namespace Ktty.Crypto

open Ktty.Wire

/-! ## The cipher -/

/-- A nonce of XChaCha20. -/
abbrev Nonce : Type := { bs : Bytes // bs.length = NONCE_LEN }

/-- A Poly1305 tag. -/
abbrev Mac : Type := { bs : Bytes // bs.length = MAC_LEN }

/-- XChaCha20-Poly1305 with a detached tag. Encryption fails only for a plaintext beyond the cipher's
block counter, and decryption succeeds only on what encryption gives. -/
structure XChaCha20Poly1305 where
  encrypt : Bytes → Nonce → Bytes → Option (Bytes × Mac)
  decrypt : Bytes → Nonce → Bytes → Mac → Option Bytes
  encrypt_isSome : ∀ k n p, p.length < 64 * (2 ^ 32 - 1) → (encrypt k n p).isSome = true
  encrypt_length : ∀ k n p c mac, encrypt k n p = some (c, mac) → c.length = p.length
  decrypt_iff : ∀ k n p c mac, decrypt k n c mac = some p ↔ encrypt k n p = some (c, mac)

/-- A slice as a nonce; the slices that are used as one have 24 bytes. -/
def Nonce.fromSlice (bs : Bytes) : Nonce :=
  ⟨(bs ++ List.replicate NONCE_LEN 0).take NONCE_LEN, by
    rw [List.length_take, List.length_append, List.length_replicate]
    omega⟩

theorem Nonce.fromSlice_val (n : Nonce) : Nonce.fromSlice n.val = n := by
  apply Subtype.ext
  exact List.take_left' n.property

namespace XChaCha20Poly1305

variable (A : XChaCha20Poly1305)

/-- Ciphertext and tag in one, `ct ‖ tag`. -/
def encryptJoined (key nonce plaintext : Bytes) : Option Bytes :=
  (A.encrypt key (.fromSlice nonce) plaintext).map fun box => box.1 ++ box.2.val

/-- The last 16 bytes are the tag; a shorter input is an error. -/
def decryptJoined (key nonce ctWithTag : Bytes) : Option Bytes :=
  if h : MAC_LEN ≤ ctWithTag.length then
    A.decrypt key (.fromSlice nonce) (ctWithTag.take (ctWithTag.length - MAC_LEN))
      ⟨ctWithTag.drop (ctWithTag.length - MAC_LEN), by
        rw [List.length_drop]
        omega⟩
  else none

theorem decryptJoined_append (key nonce ct : Bytes) (mac : Mac) :
    A.decryptJoined key nonce (ct ++ mac.val) = A.decrypt key (.fromSlice nonce) ct mac := by
  have hmac := mac.property
  have hlen : (ct ++ mac.val).length - MAC_LEN = ct.length := by
    rw [List.length_append, hmac, Nat.add_sub_cancel]
  have hlong : MAC_LEN ≤ (ct ++ mac.val).length := by
    rw [List.length_append, hmac]
    omega
  rw [decryptJoined, dif_pos hlong]
  congr 1
  · rw [hlen, List.take_left]
  · apply Subtype.ext
    simp only [hlen, List.drop_left]

/-- The cipher as the `chacha20poly1305` crate has it, with a source of nonces. -/
def joined (nonces : Nat → Nonce) : Aead where
  encrypt := A.encryptJoined
  decrypt := A.decryptJoined
  nonce n := (nonces n).val
  nonce_length n := (nonces n).property
  encrypt_isSome k n p h := by
    rw [encryptJoined, Option.isSome_map]
    exact A.encrypt_isSome k (.fromSlice n) p h
  encrypt_length k n p c h := by
    obtain ⟨box, hbox, rfl⟩ := Option.map_eq_some_iff.1 h
    have hlen := A.encrypt_length k (.fromSlice n) p box.1 box.2 hbox
    rw [List.length_append, hlen, box.2.property]
  decrypt_encrypt k n p c h := by
    obtain ⟨box, hbox, rfl⟩ := Option.map_eq_some_iff.1 h
    rw [decryptJoined_append, A.decrypt_iff]
    exact hbox

end XChaCha20Poly1305

/-! ## `native_crypto_ffi.dart` -/

namespace NativeCryptoFfi

def nonceLen : Nat := 24

/-- `SecretBox` of `package:cryptography`. -/
structure SecretBox where
  cipherText : Bytes
  nonce : Bytes
  mac : Bytes

/-- `packed.setAll(index, bytes)`; bytes that do not fit throw. -/
def setAll (packed : Bytes) (index : Nat) (bytes : Bytes) : Option Bytes :=
  if index + bytes.length ≤ packed.length then
    some (packed.take index ++ bytes ++ packed.drop (index + bytes.length))
  else none

/-- `packed.sublist(start, end)`; a range outside of the list throws. -/
def sublist (packed : Bytes) (start stop : Nat) : Option Bytes :=
  if start ≤ stop ∧ stop ≤ packed.length then some ((packed.take stop).drop start) else none

variable (A : XChaCha20Poly1305)

/-- `algo.encrypt` with the nonce that it draws. -/
def algoEncrypt (key : Bytes) (nonce : Nonce) (plaintext : Bytes) : Option SecretBox :=
  (A.encrypt key nonce plaintext).map fun box =>
    { cipherText := box.1, nonce := nonce.val, mac := box.2.val }

/-- `algo.decrypt`; a nonce or a tag of another length throws, as a wrong tag does. -/
def algoDecrypt (key : Bytes) (box : SecretBox) : Option Bytes :=
  if h : box.nonce.length = NONCE_LEN ∧ box.mac.length = MAC_LEN then
    A.decrypt key ⟨box.nonce, h.1⟩ box.cipherText ⟨box.mac, h.2⟩
  else none

/-- `encrypt`. -/
def encrypt (key : Bytes) (nonce : Nonce) (plaintext : Bytes) : Option Bytes := do
  let secretBox ← algoEncrypt A key nonce plaintext
  let packed := List.replicate (nonceLen + secretBox.cipherText.length + secretBox.mac.length) 0
  let packed ← setAll packed 0 secretBox.nonce
  let packed ← setAll packed nonceLen secretBox.cipherText
  setAll packed (nonceLen + secretBox.cipherText.length) secretBox.mac

/-- `decrypt`. -/
def decrypt (key packed : Bytes) : Option Bytes :=
  if packed.length < nonceLen + 16 then none
  else do
    let nonce ← sublist packed 0 nonceLen
    let cipherText ← sublist packed nonceLen (packed.length - 16)
    let mac ← sublist packed (packed.length - 16) packed.length
    algoDecrypt A key { cipherText := cipherText, nonce := nonce, mac := mac }

/-! ## Writing and slicing -/

section Slices

/-- Bytes that are written over as many others. -/
theorem setAll_append (front old back bytes : Bytes) (h : old.length = bytes.length) :
    setAll (front ++ old ++ back) front.length bytes = some (front ++ bytes ++ back) := by
  have hfits : front.length + bytes.length ≤ (front ++ old ++ back).length := by
    rw [List.length_append, List.length_append, h]
    omega
  have hfront : (front ++ old ++ back).take front.length = front := by
    rw [List.append_assoc, List.take_left]
  have hback : (front ++ old ++ back).drop (front.length + bytes.length) = back := by
    rw [← h, ← List.length_append, List.drop_left]
  rw [setAll, if_pos hfits, hfront, hback]

theorem sublist_append (front mid back : Bytes) :
    sublist (front ++ mid ++ back) front.length (front.length + mid.length) = some mid := by
  have hrange : front.length ≤ front.length + mid.length ∧
      front.length + mid.length ≤ (front ++ mid ++ back).length := by
    rw [List.length_append, List.length_append]
    omega
  rw [sublist, if_pos hrange, ← List.length_append, List.take_left, List.drop_left]

/-- Three parts written into an array of zeros. -/
theorem setAll_parts (a b c : Bytes) :
    ((setAll (List.replicate (a.length + b.length + c.length) 0) 0 a).bind fun packed =>
        (setAll packed a.length b).bind fun packed => setAll packed (a.length + b.length) c) =
      some (a ++ b ++ c) := by
  have hzeros : List.replicate (a.length + b.length + c.length) (0 : UInt8) =
      [] ++ List.replicate a.length 0 ++ List.replicate (b.length + c.length) 0 := by
    rw [List.nil_append, List.replicate_append_replicate, Nat.add_assoc]
  have hfirst := setAll_append [] (List.replicate a.length 0)
    (List.replicate (b.length + c.length) 0) a List.length_replicate
  have hsecond := setAll_append a (List.replicate b.length 0) (List.replicate c.length 0) b
    List.length_replicate
  have hthird := setAll_append (a ++ b) (List.replicate c.length 0) [] c List.length_replicate
  rw [List.length_nil, List.nil_append] at hfirst
  rw [List.append_assoc, List.replicate_append_replicate] at hsecond
  rw [List.append_nil, List.append_nil, List.length_append] at hthird
  rw [hzeros, List.nil_append, hfirst, Option.bind_some, List.nil_append, hsecond, Option.bind_some, hthird]

end Slices

/-! ## The format -/

variable {A}

theorem encrypt_eq (key : Bytes) (nonce : Nonce) (plaintext : Bytes) :
    encrypt A key nonce plaintext =
      (A.encrypt key nonce plaintext).map fun box => nonce.val ++ box.1 ++ box.2.val := by
  cases hbox : A.encrypt key nonce plaintext with
  | none => simp [encrypt, algoEncrypt, hbox]
  | some box =>
      have hparts := setAll_parts nonce.val box.1 box.2.val
      rw [nonce.property] at hparts
      simpa [encrypt, algoEncrypt, hbox, nonceLen, NONCE_LEN] using hparts

/-- Packed data of sufficient length has the three parts. -/
theorem exists_parts {packed : Bytes} (h : NONCE_LEN + MAC_LEN ≤ packed.length) :
    ∃ (nonce : Nonce) (ct : Bytes) (mac : Mac), packed = nonce.val ++ ct ++ mac.val := by
  refine ⟨⟨packed.take NONCE_LEN, ?_⟩,
    (packed.drop NONCE_LEN).take (packed.length - MAC_LEN - NONCE_LEN),
    ⟨packed.drop (packed.length - MAC_LEN), ?_⟩, ?_⟩
  · rw [List.length_take]
    omega
  · rw [List.length_drop]
    omega
  · have hdrop : packed.drop (packed.length - MAC_LEN) =
        (packed.drop NONCE_LEN).drop (packed.length - MAC_LEN - NONCE_LEN) := by
      rw [List.drop_drop]
      congr 1
      omega
    simp only [hdrop, List.append_assoc, List.take_append_drop]

theorem decrypt_parts (key : Bytes) (nonce : Nonce) (ct : Bytes) (mac : Mac) :
    decrypt A key (nonce.val ++ ct ++ mac.val) = A.decrypt key nonce ct mac := by
  have hnonce : nonce.val.length = nonceLen := nonce.property
  have hmac : mac.val.length = 16 := mac.property
  have hlen : (nonce.val ++ ct ++ mac.val).length = nonceLen + ct.length + 16 := by
    rw [List.length_append, List.length_append, hnonce, hmac]
  have h1 := sublist_append [] nonce.val (ct ++ mac.val)
  have h2 := sublist_append nonce.val ct mac.val
  have h3 := sublist_append (nonce.val ++ ct) mac.val []
  rw [List.nil_append, ← List.append_assoc, List.length_nil, Nat.zero_add, hnonce] at h1
  rw [hnonce] at h2
  rw [List.append_nil, List.length_append, hnonce, hmac] at h3
  have hend : nonceLen + ct.length + 16 - 16 = nonceLen + ct.length := Nat.add_sub_cancel _ _
  rw [decrypt, hlen, if_neg (by omega), hend, h1, h2, h3]
  simp only [Option.bind_eq_bind, Option.bind_some, algoDecrypt]
  exact dif_pos ⟨nonce.property, mac.property⟩

end NativeCryptoFfi

/-! ## Agreement -/

section Agreement

variable {A : XChaCha20Poly1305} {nonces : Nat → Nonce}

theorem encrypt_joined (n : Nat) (key plaintext : Bytes) :
    encrypt (A.joined nonces) n key plaintext =
      NativeCryptoFfi.encrypt A key (nonces n) plaintext := by
  rw [NativeCryptoFfi.encrypt_eq]
  have hfrom : A.encryptJoined key (nonces n).val plaintext =
      (A.encrypt key (nonces n) plaintext).map fun box => box.1 ++ box.2.val := by
    rw [XChaCha20Poly1305.encryptJoined, Nonce.fromSlice_val]
  change (A.encryptJoined key (nonces n).val plaintext).map _ = _
  rw [hfrom, Option.map_map]
  congr 1
  funext box
  exact (List.append_assoc _ _ _).symm

theorem decrypt_joined (key packed : Bytes) :
    decrypt (A.joined nonces) key packed = NativeCryptoFfi.decrypt A key packed := by
  by_cases hshort : packed.length < NONCE_LEN + MAC_LEN
  · -- both guards are `24 + 16`
    rw [decrypt, if_pos hshort, NativeCryptoFfi.decrypt, if_pos]
    exact hshort
  · obtain ⟨nonce, ct, mac, rfl⟩ := NativeCryptoFfi.exists_parts (Nat.not_lt.1 hshort)
    rw [decrypt, if_neg hshort, NativeCryptoFfi.decrypt_parts, List.append_assoc,
      List.take_left' nonce.property, List.drop_left' nonce.property]
    change A.decryptJoined key nonce.val (ct ++ mac.val) = _
    rw [XChaCha20Poly1305.decryptJoined_append, Nonce.fromSlice_val]

/-- The agent and the client pack and unpack alike, and each undoes what the other packs. -/
theorem formats_agree (A : XChaCha20Poly1305) (nonces : Nat → Nonce) (key : Bytes) :
    (∀ n plaintext, encrypt (A.joined nonces) n key plaintext =
      NativeCryptoFfi.encrypt A key (nonces n) plaintext) ∧
    (∀ packed, decrypt (A.joined nonces) key packed = NativeCryptoFfi.decrypt A key packed) ∧
    (∀ n plaintext packed, encrypt (A.joined nonces) n key plaintext = some packed →
      NativeCryptoFfi.decrypt A key packed = some plaintext) ∧
    (∀ n plaintext packed, NativeCryptoFfi.encrypt A key (nonces n) plaintext = some packed →
      decrypt (A.joined nonces) key packed = some plaintext) := by
  refine ⟨fun n plaintext => encrypt_joined n key plaintext, fun packed => decrypt_joined key packed,
    ?_, ?_⟩
  · intro n plaintext packed h
    have hjoined : decrypt (A.joined nonces) key packed = some plaintext := decrypt_encrypt h
    rw [← hjoined, decrypt_joined]
  · intro n plaintext packed h
    rw [← encrypt_joined] at h
    exact decrypt_encrypt h

end Agreement

end Ktty.Crypto
