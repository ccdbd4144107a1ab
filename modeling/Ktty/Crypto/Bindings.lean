import Ktty.Crypto.Packing
import Ktty.Lib.Hex
import Ktty.Lib.Utf8

/-!
# The crypto of the two platforms

The client has its crypto twice. In the browser `native_crypto_web.dart` calls the agent's own
`crypto.rs` through the WASM bindings, which check the length of every key and return ciphertext and
shared secret in one array. Natively `native_crypto_ffi.dart` computes everything in Dart but ML-KEM, for
which it calls `crypto.rs` with three pointers.

The model of the handshake knows neither: it takes `Primitives` and `Aead`. Both platforms implement them
(`web_implements`, `ffi_implements`), for every PIN, offers of every length and every HMAC that may come.
-/

set_option autoImplicit false

namespace Ktty.Crypto

open Ktty.Wire Ktty.Lib

/-! ## The algorithms -/

/-- The cost parameters of Argon2id. -/
structure Argon2Params where
  mCost : Nat
  tCost : Nat
  pCost : Nat
  outputLen : Nat
  deriving DecidableEq

/-- The length of an encapsulation key of ML-KEM 768. -/
def EK_LEN : Nat := 1184

def CT_LEN : Nat := 1088

def SS_LEN : Nat := 32

/-- The algorithms, which the Rust crates and `package:cryptography` compute alike. -/
structure Algorithms where
  /-- Argon2id of salt and password; it fails on a password that is too long. -/
  argon2id : Argon2Params → Bytes → Bytes → Option Bytes
  hmacSha256 : Bytes → Bytes → Bytes
  /-- ML-KEM 768 with the `n`-th draw of randomness. -/
  encapsulate : { ek : Bytes // ek.length = EK_LEN } → Nat → Option (Bytes × Bytes)
  cipher : XChaCha20Poly1305
  /-- The nonce of the `n`-th encryption. -/
  nonces : Nat → Nonce
  argon2id_length : ∀ params salt password out, argon2id params salt password = some out →
    out.length = params.outputLen
  encapsulate_length : ∀ ek n ct ss, encapsulate ek n = some (ct, ss) →
    ct.length = CT_LEN ∧ ss.length = SS_LEN

/-! ## `crypto.rs` -/

namespace Common

def STATIC_SALT : Bytes := Utf8.encode "KTTY STATIC SALT VERSION 1".toList

def ARGON2_M_COST : Nat := 65536

def ARGON2_T_COST : Nat := 3

def ARGON2_P_COST : Nat := 4

def ARGON2_OUTPUT_LEN : Nat := 32

variable (C : Algorithms)

/-- `derive_key`. -/
def deriveKey (pin : Text) : Option Bytes :=
  C.argon2id { mCost := ARGON2_M_COST, tCost := ARGON2_T_COST, pCost := ARGON2_P_COST,
               outputLen := ARGON2_OUTPUT_LEN } STATIC_SALT (Utf8.encode pin)

/-- `room_id`. -/
def roomId (derivedKey : Bytes) : Text := Hex.encode derivedKey

/-- `compute_hmac`. -/
def computeHmac (argon2Key data : Bytes) : Bytes := C.hmacSha256 argon2Key data

/-- `verify_hmac`: `verify_slice` compares in constant time, lengths included. -/
def verifyHmac (argon2Key data expected : Bytes) : Bool :=
  decide (expected = C.hmacSha256 argon2Key data)

/-- `mlkem_encapsulate`: a key of another length is an error. -/
def mlkemEncapsulate (ekBytes : Bytes) (n : Nat) : Option (Bytes × Bytes) :=
  if h : ekBytes.length = EK_LEN then C.encapsulate ⟨ekBytes, h⟩ n else none

variable {C}

theorem length_deriveKey {pin : Text} {key : Bytes} (h : deriveKey C pin = some key) :
    key.length = 32 :=
  C.argon2id_length _ _ _ _ h

theorem length_mlkemEncapsulate {ekBytes ct ss : Bytes} {n : Nat}
    (h : mlkemEncapsulate C ekBytes n = some (ct, ss)) : ct.length = 1088 ∧ ss.length = 32 := by
  rw [mlkemEncapsulate] at h
  split_ifs at h
  exact C.encapsulate_length _ _ _ _ h

end Common

/-! ## The platforms -/

/-- `NativeCrypto`: the functions that the client calls; `none` where they throw. The number is that of
the draw of randomness. -/
structure NativeCrypto where
  deriveKey : Text → Option Bytes
  roomId : Bytes → Option Text
  encrypt : Bytes → Nat → Bytes → Option Bytes
  decrypt : Bytes → Bytes → Option Bytes
  mlkemEncapsulate : Bytes → Nat → Option (Bytes × Bytes)
  verifyHmac : Bytes → Bytes → Bytes → Option Bool
  computeHmac : Bytes → Bytes → Option Bytes

/-! ## In the browser -/

namespace WasmCrypto

variable (C : Algorithms)

/-- `try_into` for `[u8; 32]`. -/
def toArray (bs : Bytes) : Option Bytes := if bs.length = 32 then some bs else none

def deriveKey (pin : Text) : Option Bytes := Common.deriveKey C pin

def roomId (derivedKey : Bytes) : Option Text := do
  let arr ← toArray derivedKey
  return Common.roomId arr

def encrypt (key : Bytes) (n : Nat) (plaintext : Bytes) : Option Bytes := do
  let arr ← toArray key
  Crypto.encrypt (C.cipher.joined C.nonces) n arr plaintext

def decrypt (key packed : Bytes) : Option Bytes := do
  let arr ← toArray key
  Crypto.decrypt (C.cipher.joined C.nonces) arr packed

/-- `ciphertext ‖ shared_secret` in one array. -/
def mlkemEncapsulate (ekBytes : Bytes) (n : Nat) : Option Bytes := do
  let (ct, ss) ← Common.mlkemEncapsulate C ekBytes n
  return ct ++ ss

def computeHmac (argon2Key data : Bytes) : Option Bytes := do
  let arr ← toArray argon2Key
  return Common.computeHmac C arr data

def verifyHmac (argon2Key data expected : Bytes) : Option Bool := do
  let arr ← toArray argon2Key
  return Common.verifyHmac C arr data expected

end WasmCrypto

namespace NativeCryptoWeb

variable (C : Algorithms)

/-- `mlkemEncapsulate`: the last 32 bytes are the shared secret; an array that is shorter throws. -/
def mlkemEncapsulate (ekBytes : Bytes) (n : Nat) : Option (Bytes × Bytes) := do
  let combined ← WasmCrypto.mlkemEncapsulate C ekBytes n
  if combined.length < 32 then none
  else return (combined.take (combined.length - 32), combined.drop (combined.length - 32))

/-- `native_crypto_web.dart`; the other functions pass their arguments on. -/
def impl : NativeCrypto where
  deriveKey := WasmCrypto.deriveKey C
  roomId := WasmCrypto.roomId
  encrypt := WasmCrypto.encrypt C
  decrypt := WasmCrypto.decrypt C
  mlkemEncapsulate := mlkemEncapsulate C
  verifyHmac := WasmCrypto.verifyHmac C
  computeHmac := WasmCrypto.computeHmac C

end NativeCryptoWeb

/-! ## Natively -/

namespace FfiCrypto

/-- A pointer with the bytes from there to the end of its allocation, or the null pointer. -/
abbrev Pointer := Option Bytes

variable (C : Algorithms)

/-- `ktty_mlkem_encapsulate`: the return code and the two output buffers; `none` when the call reads or
writes outside of an allocation. -/
def ktty_mlkem_encapsulate (ek ctOut ssOut : Pointer) (n : Nat) : Option (Int × Pointer × Pointer) :=
  match ek, ctOut, ssOut with
  | some ekBytes, some ctBytes, some ssBytes =>
      if ekBytes.length < 1184 then none
      else
        match Common.mlkemEncapsulate C (ekBytes.take 1184) n with
        | some (ct, ss) =>
            if ct.length ≠ 1088 then some (-3, ctOut, ssOut)
            else if ctBytes.length < 1088 ∨ ssBytes.length < 32 then none
            else some (0, some (ct.take 1088 ++ ctBytes.drop 1088), some (ss.take 32 ++ ssBytes.drop 32))
        | none => some (-2, ctOut, ssOut)
  | _, _, _ => some (-1, ctOut, ssOut)

end FfiCrypto

namespace NativeCryptoFfi

def staticSalt : Text := "KTTY STATIC SALT VERSION 1".toList

def argon2MCost : Nat := 65536

def argon2TCost : Nat := 3

def argon2PCost : Nat := 4

def argon2OutputLen : Nat := 32

def mlkemEkLen : Nat := 1184

def mlkemCtLen : Nat := 1088

def mlkemSsLen : Nat := 32

variable (C : Algorithms)

def deriveKey (pin : Text) : Option Bytes :=
  C.argon2id { mCost := argon2MCost, tCost := argon2TCost, pCost := argon2PCost,
               outputLen := argon2OutputLen } (Utf8.encode staticSalt) (Utf8.encode pin)

/-- `b.toRadixString(16).padLeft(2, '0')`. -/
def hexByte (b : UInt8) : Text := (Nat.toDigits 16 b.toNat).leftpad 2 '0'

def roomId (derivedKey : Bytes) : Text := derivedKey.foldl (fun sb b => sb ++ hexByte b) []

def calloc (count : Nat) : Bytes := List.replicate count 0

/-- `mlkemEncapsulate`; a return code other than 0 throws. -/
def mlkemEncapsulate (ekBytes : Bytes) (n : Nat) : Option (Bytes × Bytes) :=
  if ekBytes.length ≠ mlkemEkLen then none
  else do
    let ekPtr ← setAll (calloc mlkemEkLen) 0 ekBytes
    let (rc, ctPtr, ssPtr) ← FfiCrypto.ktty_mlkem_encapsulate C (some ekPtr)
      (some (calloc mlkemCtLen)) (some (calloc mlkemSsLen)) n
    if rc ≠ 0 then none
    else
      let ct ← ctPtr
      let ss ← ssPtr
      return (ct.take mlkemCtLen, ss.take mlkemSsLen)

def computeHmac (argon2Key data : Bytes) : Bytes := C.hmacSha256 argon2Key data

/-- `verifyHmac` with its loop over the bytes. -/
def verifyHmac (argon2Key data expected : Bytes) : Bool :=
  let computed := C.hmacSha256 argon2Key data
  if computed.length ≠ expected.length then false
  else
    let result := (computed.zip expected).foldl (fun result p => result ||| (p.1.toNat ^^^ p.2.toNat)) 0
    result == 0

/-- `native_crypto_ffi.dart`. -/
def impl : NativeCrypto where
  deriveKey := deriveKey C
  roomId key := some (roomId key)
  encrypt key n plaintext := encrypt C.cipher key (C.nonces n) plaintext
  decrypt key packed := decrypt C.cipher key packed
  mlkemEncapsulate := mlkemEncapsulate C
  verifyHmac key data expected := some (verifyHmac C key data expected)
  computeHmac key data := some (computeHmac C key data)

/-! ## The loops -/

/-- A byte is written with two digits. -/
theorem hexByte_eq (b : UInt8) : hexByte b = [Hex.digit (b.toNat / 16), Hex.digit (b.toNat % 16)] := by
  have key : ∀ m : Fin 256, (Nat.toDigits 16 m.val).leftpad 2 '0' =
      [Hex.digit (m.val / 16), Hex.digit (m.val % 16)] := by
    decide +kernel
  exact key ⟨b.toNat, b.toNat_lt⟩

theorem roomId_eq (derivedKey : Bytes) : roomId derivedKey = Hex.encode derivedKey := by
  have hfold : ∀ (bs : Bytes) (sb : Text), bs.foldl (fun sb b => sb ++ hexByte b) sb =
      sb ++ Hex.encode bs := by
    intro bs
    induction bs with
    | nil =>
        intro sb
        exact (List.append_nil sb).symm
    | cons b bs ih =>
        intro sb
        rw [List.foldl_cons, ih, hexByte_eq, List.append_assoc]
        rfl
  rw [roomId, hfold, List.nil_append]

/-- What is or-ed together is zero only if every part is. -/
theorem foldl_or_eq_zero {α : Type} (f : α → Nat) (xs : List α) (acc : Nat) :
    xs.foldl (fun result x => result ||| f x) acc = 0 ↔ acc = 0 ∧ ∀ x ∈ xs, f x = 0 := by
  induction xs generalizing acc with
  | nil => simp
  | cons x xs ih =>
      rw [List.foldl_cons, ih, Nat.or_eq_zero_iff, List.forall_mem_cons, and_assoc]

/-- Lists of one length are equal if they are so byte by byte. -/
theorem forall_zip_iff {xs ys : Bytes} (h : xs.length = ys.length) :
    (∀ p ∈ xs.zip ys, p.1.toNat ^^^ p.2.toNat = 0) ↔ ys = xs := by
  induction xs generalizing ys with
  | nil =>
      cases ys with
      | nil => simp
      | cons y ys => cases h
  | cons x xs ih =>
      cases ys with
      | nil => cases h
      | cons y ys =>
          rw [List.zip_cons_cons, List.forall_mem_cons, ih (Nat.succ.inj h), List.cons.injEq]
          apply and_congr_left
          intro _
          rw [← UInt8.toNat_xor, eq_comm (a := y)]
          exact UInt8.toNat_inj.trans UInt8.xor_eq_zero_iff

/-- The loop compares. -/
theorem verifyHmac_eq (argon2Key data expected : Bytes) :
    verifyHmac C argon2Key data expected = Common.verifyHmac C argon2Key data expected := by
  rw [verifyHmac, Common.verifyHmac]
  dsimp only
  by_cases hlen : (C.hmacSha256 argon2Key data).length = expected.length
  · rw [if_neg (not_not_intro hlen), Bool.eq_iff_iff, beq_iff_eq, decide_eq_true_iff,
      foldl_or_eq_zero, forall_zip_iff hlen]
    exact and_iff_right rfl
  · rw [if_pos hlen, decide_eq_false]
    rintro rfl
    exact hlen rfl

/-! ## The buffers -/

/-- An array that is written over as a whole. -/
theorem setAll_calloc {bs : Bytes} {count : Nat} (h : bs.length = count) :
    setAll (calloc count) 0 bs = some bs := by
  have hwritten := setAll_append [] (calloc count) [] bs (by rw [calloc, List.length_replicate, h])
  simpa using hwritten

/-- The call stays inside of the three buffers. -/
theorem ktty_mlkem_encapsulate_calloc {ekBytes : Bytes} (h : ekBytes.length = 1184) (n : Nat) :
    FfiCrypto.ktty_mlkem_encapsulate C (some ekBytes) (some (calloc mlkemCtLen))
        (some (calloc mlkemSsLen)) n =
      match Common.mlkemEncapsulate C ekBytes n with
      | some (ct, ss) => some (0, some ct, some ss)
      | none => some (-2, some (calloc mlkemCtLen), some (calloc mlkemSsLen)) := by
  have htake : ekBytes.take 1184 = ekBytes := List.take_of_length_le (Nat.le_of_eq h)
  have hlong : ¬ ekBytes.length < 1184 := Nat.not_lt.2 (Nat.le_of_eq h.symm)
  rw [FfiCrypto.ktty_mlkem_encapsulate, if_neg hlong, htake]
  cases hresult : Common.mlkemEncapsulate C ekBytes n with
  | none => rfl
  | some r =>
      obtain ⟨ct, ss⟩ := r
      obtain ⟨hct, hss⟩ := Common.length_mlkemEncapsulate hresult
      have hroom : ¬ ((calloc mlkemCtLen).length < 1088 ∨ (calloc mlkemSsLen).length < 32) := by
        rw [calloc, calloc, List.length_replicate, List.length_replicate]
        decide
      have hleft : (calloc mlkemCtLen).drop 1088 = [] ∧ (calloc mlkemSsLen).drop 32 = [] := by
        constructor
        · rw [calloc, List.drop_replicate]
          rfl
        · rw [calloc, List.drop_replicate]
          rfl
      dsimp only
      rw [if_neg (not_not_intro hct), if_neg hroom, hleft.1, hleft.2, List.append_nil, List.append_nil,
        List.take_of_length_le (Nat.le_of_eq hct), List.take_of_length_le (Nat.le_of_eq hss)]

/-- What comes through the three pointers is what `crypto.rs` gives. -/
theorem mlkemEncapsulate_eq (ekBytes : Bytes) (n : Nat) :
    mlkemEncapsulate C ekBytes n = Common.mlkemEncapsulate C ekBytes n := by
  rw [mlkemEncapsulate]
  by_cases hlen : ekBytes.length = mlkemEkLen
  · rw [if_neg (not_not_intro hlen), setAll_calloc hlen]
    simp only [Option.bind_eq_bind, Option.bind_some, ktty_mlkem_encapsulate_calloc C hlen]
    cases hresult : Common.mlkemEncapsulate C ekBytes n with
    | none => rfl
    | some r =>
        obtain ⟨ct, ss⟩ := r
        obtain ⟨hct, hss⟩ := Common.length_mlkemEncapsulate hresult
        have htakeCt : ct.take mlkemCtLen = ct := List.take_of_length_le (Nat.le_of_eq hct)
        have htakeSs : ss.take mlkemSsLen = ss := List.take_of_length_le (Nat.le_of_eq hss)
        show some (ct.take mlkemCtLen, ss.take mlkemSsLen) = _
        rw [htakeCt, htakeSs]
  · have hother : ¬ ekBytes.length = EK_LEN := hlen
    rw [if_pos hlen, Common.mlkemEncapsulate, dif_neg hother]

end NativeCryptoFfi

namespace NativeCryptoWeb

variable (C : Algorithms)

/-- Ciphertext and shared secret are taken apart where they were put together. -/
theorem mlkemEncapsulate_eq (ekBytes : Bytes) (n : Nat) :
    mlkemEncapsulate C ekBytes n = Common.mlkemEncapsulate C ekBytes n := by
  rw [mlkemEncapsulate, WasmCrypto.mlkemEncapsulate]
  cases hresult : Common.mlkemEncapsulate C ekBytes n with
  | none => rfl
  | some r =>
      obtain ⟨ct, ss⟩ := r
      obtain ⟨hct, hss⟩ := Common.length_mlkemEncapsulate hresult
      have hlen : (ct ++ ss).length = ct.length + 32 := by
        rw [List.length_append, hss]
      show (if (ct ++ ss).length < 32 then none
        else some ((ct ++ ss).take ((ct ++ ss).length - 32), (ct ++ ss).drop ((ct ++ ss).length - 32))) = _
      rw [if_neg (by omega), hlen, Nat.add_sub_cancel, List.take_left, List.drop_left]

end NativeCryptoWeb

/-! ## Both implement the primitives -/

section Platforms

variable (C : Algorithms)

/-- The primitives are the algorithms of `crypto.rs`, on PINs that Argon2id takes. -/
structure Provides (P : Primitives Bytes Text) : Prop where
  argon2id : ∀ pin, Common.deriveKey C pin = some (P.argon2id pin)
  hexEncode : ∀ bs, P.hexEncode bs = Hex.encode bs
  hmacSha256 : ∀ key data, P.hmacSha256 key data = C.hmacSha256 key data
  mlkemEncapsulate : ∀ ek n, P.mlkemEncapsulate ek n = Common.mlkemEncapsulate C ek n

/-- What a client with a PIN computes on a platform is what the primitives give. -/
structure Implements (P : Primitives Bytes Text) (A : Aead) (N : NativeCrypto) : Prop where
  deriveKey : ∀ pin, N.deriveKey pin = some (P.argon2id pin)
  roomId : ∀ pin, N.roomId (P.argon2id pin) = some (Crypto.roomId P (P.argon2id pin))
  /-- On offers of every length. -/
  mlkemEncapsulate : ∀ ek n, N.mlkemEncapsulate ek n = P.mlkemEncapsulate ek n
  computeHmac : ∀ pin data, N.computeHmac (P.argon2id pin) data =
    some (Crypto.computeHmac P (P.argon2id pin) data)
  verifyHmac : ∀ pin data expected, N.verifyHmac (P.argon2id pin) data expected =
    some (decide (expected = Crypto.computeHmac P (P.argon2id pin) data))
  /-- Under the shared secret of an offer. -/
  encrypt : ∀ ek n ct ss, P.mlkemEncapsulate ek n = some (ct, ss) → ∀ m plaintext,
    N.encrypt ss m plaintext = Crypto.encrypt A m ss plaintext
  decrypt : ∀ ek n ct ss, P.mlkemEncapsulate ek n = some (ct, ss) → ∀ packed,
    N.decrypt ss packed = Crypto.decrypt A ss packed

variable {C} {P : Primitives Bytes Text}

theorem length_argon2id (h : Provides C P) (pin : Text) : (P.argon2id pin).length = 32 :=
  Common.length_deriveKey (h.argon2id pin)

theorem length_secret (h : Provides C P) {ek ct ss : Bytes} {n : Nat}
    (hss : P.mlkemEncapsulate ek n = some (ct, ss)) : ss.length = 32 := by
  rw [h.mlkemEncapsulate] at hss
  exact (Common.length_mlkemEncapsulate hss).2

theorem toArray_of_length {bs : Bytes} (h : bs.length = 32) : WasmCrypto.toArray bs = some bs := if_pos h

theorem web_implements (h : Provides C P) :
    Implements P (C.cipher.joined C.nonces) (NativeCryptoWeb.impl C) where
  deriveKey := h.argon2id
  roomId pin := by
    show WasmCrypto.roomId (P.argon2id pin) = _
    rw [WasmCrypto.roomId, toArray_of_length (length_argon2id h pin), Crypto.roomId, h.hexEncode]
    rfl
  mlkemEncapsulate ek n := by
    rw [h.mlkemEncapsulate]
    exact NativeCryptoWeb.mlkemEncapsulate_eq C ek n
  computeHmac pin data := by
    show WasmCrypto.computeHmac C (P.argon2id pin) data = _
    rw [WasmCrypto.computeHmac, toArray_of_length (length_argon2id h pin), Crypto.computeHmac,
      h.hmacSha256]
    rfl
  verifyHmac pin data expected := by
    show WasmCrypto.verifyHmac C (P.argon2id pin) data expected = _
    rw [WasmCrypto.verifyHmac, toArray_of_length (length_argon2id h pin), Crypto.computeHmac,
      h.hmacSha256]
    rfl
  encrypt ek n ct ss hss m plaintext := by
    show WasmCrypto.encrypt C ss m plaintext = _
    rw [WasmCrypto.encrypt, toArray_of_length (length_secret h hss)]
    rfl
  decrypt ek n ct ss hss packed := by
    show WasmCrypto.decrypt C ss packed = _
    rw [WasmCrypto.decrypt, toArray_of_length (length_secret h hss)]
    rfl

theorem ffi_implements (h : Provides C P) :
    Implements P (C.cipher.joined C.nonces) (NativeCryptoFfi.impl C) where
  deriveKey := h.argon2id
  roomId pin := by
    rw [Crypto.roomId, h.hexEncode]
    exact congrArg some (NativeCryptoFfi.roomId_eq _)
  mlkemEncapsulate ek n := by
    rw [h.mlkemEncapsulate]
    exact NativeCryptoFfi.mlkemEncapsulate_eq C ek n
  computeHmac pin data := by
    rw [Crypto.computeHmac, h.hmacSha256]
    rfl
  verifyHmac pin data expected := by
    rw [Crypto.computeHmac, h.hmacSha256]
    exact congrArg some (NativeCryptoFfi.verifyHmac_eq C _ _ _)
  encrypt ek n ct ss hss m plaintext := (encrypt_joined m ss plaintext).symm
  decrypt ek n ct ss hss packed := (decrypt_joined ss packed).symm

/-- Sixteen zeros. -/
def Sample.mac : Mac := ⟨List.replicate MAC_LEN 0, List.length_replicate⟩

/-- Algorithms for a concrete PIN: a key of copies of the length of the PIN, a cipher that leaves the text
readable, and the draw as the secret. -/
def Sample.algorithms : Algorithms where
  argon2id params _ password := some (List.replicate params.outputLen (UInt8.ofNat password.length))
  hmacSha256 key data := data ++ key
  encapsulate _ n := some (List.replicate CT_LEN 0, List.replicate SS_LEN (UInt8.ofNat n))
  cipher :=
    { encrypt := fun _ _ p => if p.length < 64 * (2 ^ 32 - 1) then some (p, Sample.mac) else none
      decrypt := fun _ _ c mac =>
        if mac = Sample.mac ∧ c.length < 64 * (2 ^ 32 - 1) then some c else none
      encrypt_isSome := fun k n p h => by rw [if_pos h]; rfl
      encrypt_length := fun k n p c mac h => by
        split_ifs at h
        cases h
        rfl
      decrypt_iff := fun k n p c mac => by
        constructor
        · intro h
          split_ifs at h with hgood
          cases h
          rw [if_pos hgood.2, hgood.1]
        · intro h
          split_ifs at h with hshort
          cases h
          exact if_pos ⟨rfl, hshort⟩ }
  nonces _ := .fromSlice []
  argon2id_length params salt password out h := by
    cases h
    exact List.length_replicate
  encapsulate_length ek n ct ss h := by
    cases h
    exact ⟨List.length_replicate, List.length_replicate⟩

def Sample.prim : Primitives Bytes Text where
  argon2id pin := List.replicate 32 (UInt8.ofNat (Utf8.encode pin).length)
  hexEncode := Hex.encode
  b64Encode := Base64.encode
  b64Decode := Base64.decode
  base64Decode := Base64.decode
  mlkemGenerate n := ([UInt8.ofNat n], [UInt8.ofNat n])
  mlkemEncapsulate := Common.mlkemEncapsulate Sample.algorithms
  mlkemDecapsulate _ _ := none
  hmacSha256 key data := data ++ key
  b64Decode_b64Encode := Base64.decode_encode
  base64Decode_b64Encode := Base64.decode_encode

end Platforms

end Ktty.Crypto
