import Ktty.Crypto.Primitives
import Ktty.Lib.Deduction

/-!
# Symbolic cryptography

Messages as terms, for an attacker who treats the crypto functions as abstract. `symbolic` reads the
functions of the crypto crates as constructors of terms: nothing else is known of them than that
decoding undoes encoding and that decapsulation under the right key gives the encapsulated secret.
`Rule` lists what the attacker can compute: every function of the crates on terms that he knows, and
the inverses that exist (decoding, decapsulation, decryption).

Two sets of terms bound his knowledge. Terms that satisfy `HidesSeeds` give no decapsulation key of the
agent away (`closed_hidesSeeds`). Terms that satisfy `Unforged` contain an HMAC under the key of the PIN
only on approved data; no rule leaves that set except the decoding of the room id, which is the hex
string of that very key (`closed_unforged`).
-/

set_option autoImplicit false

namespace Ktty.Crypto

open Ktty.Wire Ktty.Lib.Deduction

inductive Term where
  | pin (p : Text)
  /-- A value of the attacker's own choice. -/
  | pub (n : Nat)
  /-- The randomness of the agent's `n`-th key pair. -/
  | seed (n : Nat)
  /-- The randomness of the client's `n`-th encapsulation. -/
  | draw (n : Nat)
  | argon2id (t : Term)
  | hex (t : Term)
  | b64 (t : Term)
  | dk (seed : Term)
  | ek (seed : Term)
  | ct (ek draw : Term)
  | ss (ek draw : Term)
  /-- The secret of the implicit rejection of a ciphertext. -/
  | rejected (seed ct : Term)
  | hmac (key data : Term)
  | sessionId (key : Term)
  /-- A plaintext encrypted under a session key. -/
  | sealed (key plaintext : Term)
  deriving DecidableEq

namespace Term

def decode : Term → Option Term
  | .b64 t => some t
  | _ => none

/-- A ciphertext for another key is rejected implicitly: the secret is then a function of the
ciphertext and of the key pair. -/
def decapsulate (key c : Term) : Option Term :=
  match key with
  | .dk s =>
      match c with
      | .ct e r => if e = .ek s then some (.ss e r) else some (.rejected s (.ct e r))
      | _ => some (.rejected s c)
  | _ => none

theorem decapsulate_eq {s c d : Term} (h : decapsulate (.dk s) c = some d) :
    (∃ r, c = .ct (.ek s) r ∧ d = .ss (.ek s) r) ∨ d = .rejected s c := by
  cases c with
  | ct e r =>
      simp only [decapsulate] at h
      split_ifs at h with he
      · obtain rfl := Option.some.inj h
        exact Or.inl ⟨r, by rw [he], by rw [he]⟩
      · exact Or.inr (Option.some.inj h).symm
  | _ => exact Or.inr (Option.some.inj h).symm

theorem exists_dk_of_decapsulate {key c d : Term} (h : decapsulate key c = some d) :
    ∃ s, key = .dk s := by
  cases key with
  | dk s => exact ⟨s, rfl⟩
  | _ => cases h

end Term

/-- The crypto crates on terms. -/
def symbolic : Primitives Term Term where
  argon2id := .argon2id
  hexEncode := .hex
  b64Encode := .b64
  b64Decode := Term.decode
  base64Decode := Term.decode
  mlkemGenerate n := (.dk (.seed n), .ek (.seed n))
  mlkemEncapsulate e n := some (.ct e (.draw n), .ss e (.draw n))
  mlkemDecapsulate := Term.decapsulate
  hmacSha256 := .hmac
  b64Decode_b64Encode _ := rfl
  base64Decode_b64Encode _ := rfl

/-! ## The attacker -/

/-- What can be computed from what. -/
inductive Rule : List Term → Term → Prop
  | argon2id (t : Term) : Rule [t] (.argon2id t)
  | hexEncode (t : Term) : Rule [t] (.hex t)
  | hexDecode (t : Term) : Rule [.hex t] t
  | b64Encode (t : Term) : Rule [t] (.b64 t)
  | b64Decode (t : Term) : Rule [.b64 t] t
  | mlkemDk (s : Term) : Rule [s] (.dk s)
  | mlkemEk (s : Term) : Rule [s] (.ek s)
  | ekOfDk (s : Term) : Rule [.dk s] (.ek s)
  | encapsulatedCt (e r : Term) : Rule [e, r] (.ct e r)
  | encapsulatedSs (e r : Term) : Rule [e, r] (.ss e r)
  | mlkemDecapsulate {key c d : Term} : Term.decapsulate key c = some d → Rule [key, c] d
  | hmacSha256 (key data : Term) : Rule [key, data] (.hmac key data)
  | sessionId (key : Term) : Rule [key] (.sessionId key)
  | encrypt (key m : Term) : Rule [key, m] (.sealed key m)
  | decrypt (key m : Term) : Rule [key, .sealed key m] m

/-- What the attacker starts from when `p` is the PIN that he is not given. -/
def initialKnowledge (p : Text) : Set Term :=
  {t | (∃ n, t = .pub n) ∨ ∃ q, q ≠ p ∧ t = .pin q}

/-- The key that the agent and the client derive from the PIN. -/
def pinKey (p : Text) : Term := .argon2id (.pin p)

/-! ## Sets of terms closed under the rules -/

/-- Neither a seed nor the decapsulation key made from it can be read off the term. -/
def HidesSeeds : Term → Prop
  | .seed _ => False
  | .dk s => HidesSeeds s
  | .hex t => HidesSeeds t
  | .b64 t => HidesSeeds t
  | .sealed _ m => HidesSeeds m
  | _ => True

theorem closed_hidesSeeds : Closed Rule {t | HidesSeeds t} := by
  intro ts t hrule hts
  cases hrule with
  | hexEncode t => exact hts t List.mem_cons_self
  | hexDecode t => exact hts (.hex t) List.mem_cons_self
  | b64Encode t => exact hts t List.mem_cons_self
  | b64Decode t => exact hts (.b64 t) List.mem_cons_self
  | mlkemDk s => exact hts s List.mem_cons_self
  | encrypt key m => exact hts m (by simp)
  | decrypt key => exact hts (.sealed key t) (by simp)
  | @mlkemDecapsulate key c d hd =>
      obtain ⟨s, rfl⟩ := Term.exists_dk_of_decapsulate hd
      rcases Term.decapsulate_eq hd with ⟨r, -, rfl⟩ | rfl
      · exact trivial
      · exact trivial
  | _ => exact trivial

theorem hidesSeeds_of_initial {p : Text} {t : Term} (h : t ∈ initialKnowledge p) :
    HidesSeeds t := by
  rcases h with ⟨n, rfl⟩ | ⟨q, -, rfl⟩
  · exact trivial
  · exact trivial

/-- An HMAC under the key of the PIN `p` that can be read off the term is one of data that `D`
approves, and neither the PIN nor its key can be read off it without decoding the room id. -/
def Unforged (p : Text) (D : Term → Prop) : Term → Prop
  | .pin q => q ≠ p
  | .argon2id t => Unforged p D t
  | .hex t => Unforged p D t ∨ t = pinKey p
  | .b64 t => Unforged p D t
  | .hmac key data => Unforged p D key ∨ key = pinKey p ∧ D data
  | .sealed _ m => Unforged p D m
  | _ => True

section Unforged

variable {p : Text} {D : Term → Prop}

theorem not_unforged_pinKey : ¬ Unforged p D (pinKey p) := fun h => h rfl

/-- What the set is for: an HMAC under the key of the PIN is one of approved data. -/
theorem Unforged.approved {data : Term} (h : Unforged p D (.hmac (pinKey p) data)) : D data := by
  rcases h with hkey | ⟨-, hD⟩
  · exact absurd hkey not_unforged_pinKey
  · exact hD

theorem Unforged.mono {D' : Term → Prop} (hD : ∀ d, D d → D' d) {t : Term}
    (h : Unforged p D t) : Unforged p D' t := by
  induction t with
  | pin q => exact h
  | argon2id t ih => exact ih h
  | hex t ih => exact h.imp ih id
  | b64 t ih => exact ih h
  | hmac key data ih _ => exact h.imp ih (And.imp_right (hD data))
  | sealed key m _ ih => exact ih h
  | _ => exact trivial

theorem unforged_of_initial {t : Term} (h : t ∈ initialKnowledge p) : Unforged p D t := by
  rcases h with ⟨n, rfl⟩ | ⟨q, hq, rfl⟩
  · exact trivial
  · exact hq

/-- Only the decoding of the room id leads out of the set. -/
theorem closed_unforged :
    Closed (without Rule [.hex (pinKey p)] (pinKey p)) {t | Unforged p D t} := by
  intro ts t hrule hts
  obtain ⟨hrule, hne⟩ := hrule
  cases hrule with
  | argon2id t => exact hts t List.mem_cons_self
  | hexEncode t => exact Or.inl (hts t List.mem_cons_self)
  | hexDecode t =>
      rcases hts (.hex t) List.mem_cons_self with h | rfl
      · exact h
      · exact absurd ⟨rfl, rfl⟩ hne
  | b64Encode t => exact hts t List.mem_cons_self
  | b64Decode t => exact hts (.b64 t) List.mem_cons_self
  | hmacSha256 key data => exact Or.inl (hts key List.mem_cons_self)
  | encrypt key m => exact hts m (by simp)
  | decrypt key => exact hts (.sealed key t) (by simp)
  | @mlkemDecapsulate key c d hd =>
      obtain ⟨s, rfl⟩ := Term.exists_dk_of_decapsulate hd
      rcases Term.decapsulate_eq hd with ⟨r, -, rfl⟩ | rfl
      · exact trivial
      · exact trivial
  | _ => exact trivial

end Unforged

end Ktty.Crypto
