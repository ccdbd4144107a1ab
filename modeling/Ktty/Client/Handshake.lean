import Ktty.Crypto.Primitives
import Ktty.Wire.Messages

/-!
# The client's part of the handshake

`performHandshake` over any `Primitives`. A call waits twice for a message (`firstWhere` on the
broadcast stream `messages`) and goes on asynchronously after each: `hear` is the arrival of a message
at a call, `proceed` the code behind the `await`. A call that does not wait at the moment misses the
message. Reconnecting starts a new call while an older one may still wait for its timeout, so the state
holds a list of calls; they share `_pendingHmacVerification`. A timeout ends the call but not its closure
on the stream, which goes on to write that field when an HMAC comes (`abandoned`).

The log `encapsulated` keeps the ciphertexts sent with their secrets, `installed` the secrets with which
a call completed.
-/

set_option autoImplicit false

namespace Ktty.Client

open Ktty.Wire Ktty.Crypto

/-- Where a call of `performHandshake` stands. -/
inductive Call (β τ : Type) where
  | waitingOffer
  /-- The offer with this `mlkem_pub_key` has arrived. -/
  | offered (mlkemPubKeyB64 : τ)
  | waitingHmac (sharedSecret : β)
  /-- Timed out, with the closure still listening for the HMAC. -/
  | abandoned (sharedSecret : β)
  /-- The HMAC message has arrived. -/
  | verifying
  | established
  /-- An exception. -/
  | failed
  deriving DecidableEq

/-- The secret whose HMAC a call listens for. -/
def Call.awaited {β τ : Type} : Call β τ → Option β
  | .waitingHmac sharedSecret | .abandoned sharedSecret => some sharedSecret
  | _ => none

structure HandshakeClient (β τ : Type) where
  calls : List (Call β τ)
  /-- `_pendingHmacVerification`: Argon2id key, shared secret and `hmac` field. -/
  pendingHmacVerification : Option (β × β × τ)
  rng : Nat
  encapsulated : List (β × β)
  installed : List β
  deriving DecidableEq

inductive HandshakeClientEvent (τ : Type) where
  /-- `performHandshake` is called. -/
  | call
  /-- A parsed message reaches the `i`-th call. -/
  | hear (i : Nat) (raw : RawMessage τ)
  /-- The `i`-th call goes on behind its `await`. -/
  | proceed (i : Nat)
  | timeout (i : Nat)

namespace HandshakeClient

variable {β τ : Type}

def start : HandshakeClient β τ :=
  { calls := [], pendingHmacVerification := none, rng := 0, encapsulated := [], installed := [] }

/-- Move the `i`-th call. -/
def goto (c : HandshakeClient β τ) (i : Nat) (call : Call β τ) : HandshakeClient β τ :=
  { c with calls := c.calls.set i call }

/-- The closure that waits for the HMAC, with what the call does when it has come. -/
def hearHmac (derivedKey : β) (c : HandshakeClient β τ) (i : Nat) (raw : RawMessage τ)
    (sharedSecret : β) (next : Call β τ) : HandshakeClient β τ :=
  if raw.isHandshake then
    match raw.hmac with
    | some hmacB64 =>
        { c.goto i next with pendingHmacVerification := some (derivedKey, sharedSecret, hmacB64) }
    | none => c
  else c

/-- The closures passed to `firstWhere`. -/
def hear (derivedKey : β) (c : HandshakeClient β τ) (i : Nat) (raw : RawMessage τ) :
    Call β τ → HandshakeClient β τ
  | .waitingOffer =>
      if raw.isHandshake then
        match raw.mlkemPubKey with
        | some mlkemPubKeyB64 => c.goto i (.offered mlkemPubKeyB64)
        | none => c
      else c
  | .waitingHmac sharedSecret => hearHmac derivedKey c i raw sharedSecret .verifying
  | .abandoned sharedSecret => hearHmac derivedKey c i raw sharedSecret .failed
  | _ => c

/-- Encapsulate for the public key of the offer and send the ciphertext. -/
def encapsulate (P : Primitives β τ) (c : HandshakeClient β τ) (i : Nat) (mlkemPubKeyB64 : τ) :
    HandshakeClient β τ × List (RawMessage τ) :=
  match (P.base64Decode mlkemPubKeyB64).bind fun ek => P.mlkemEncapsulate ek c.rng with
  | some (ct, ss) =>
      ({ c.goto i (.waitingHmac ss) with
          rng := c.rng + 1
          encapsulated := (ct, ss) :: c.encapsulated },
        [.reply (P.b64Encode ct)])
  | none => (c.goto i .failed, [])

variable [DecidableEq β]

/-- `verifyHmac`, and `_crypto = CryptoService(ss)` when it succeeds. -/
def verify (P : Primitives β τ) (c : HandshakeClient β τ) (i : Nat) : HandshakeClient β τ :=
  match c.pendingHmacVerification with
  | none => c.goto i .failed
  | some (key, ss, hmacB64) =>
      let c := { c with pendingHmacVerification := none }
      if P.base64Decode hmacB64 = some (P.hmacSha256 key ss) then
        { c.goto i .established with installed := ss :: c.installed }
      else c.goto i .failed

/-- One step with the messages it sends. -/
def step (P : Primitives β τ) (derivedKey : β) (c : HandshakeClient β τ) :
    HandshakeClientEvent τ → Option (HandshakeClient β τ × List (RawMessage τ))
  | .call => some ({ c with calls := c.calls ++ [.waitingOffer] }, [.join (roomId P derivedKey)])
  | .hear i raw => c.calls[i]?.map fun call => (hear derivedKey c i raw call, [])
  | .proceed i =>
      match c.calls[i]? with
      | some (.offered mlkemPubKeyB64) => some (encapsulate P c i mlkemPubKeyB64)
      | some .verifying => some (verify P c i, [])
      | _ => none
  | .timeout i =>
      match c.calls[i]? with
      | some .waitingOffer => some (c.goto i .failed, [])
      | some (.waitingHmac ss) => some (c.goto i (.abandoned ss), [])
      | _ => none

/-- A call listens for the HMAC of this secret. -/
def Awaits (c : HandshakeClient β τ) (ss : β) : Prop := ∃ call ∈ c.calls, call.awaited = some ss

/-- The step completes a call with the secret `ss`: the HMAC that it verifies is the right one. -/
def Completes (P : Primitives β τ) (c : HandshakeClient β τ) (ev : HandshakeClientEvent τ)
    (ss : β) : Prop :=
  ∃ i key hmacB64, ev = .proceed i ∧ c.calls[i]? = some .verifying ∧
    c.pendingHmacVerification = some (key, ss, hmacB64) ∧
    P.base64Decode hmacB64 = some (P.hmacSha256 key ss)

/-- Nothing changes that the other fields of a handshake depend on: no secret is added. -/
structure Idles (c c' : HandshakeClient β τ) : Prop where
  awaits : ∀ ss, c'.Awaits ss → c.Awaits ss
  pending : c'.pendingHmacVerification = c.pendingHmacVerification ∨
    c'.pendingHmacVerification = none
  encapsulated : c'.encapsulated = c.encapsulated
  installed : c'.installed = c.installed

/-- What a step of the client can do. -/
inductive Change (P : Primitives β τ) (derivedKey : β) (c : HandshakeClient β τ) :
    HandshakeClientEvent τ → HandshakeClient β τ → List (RawMessage τ) → Prop
  | joins {c' : HandshakeClient β τ} : c.Idles c' →
      Change P derivedKey c .call c' [.join (roomId P derivedKey)]
  | idles {c' : HandshakeClient β τ} {ev : HandshakeClientEvent τ} : c.Idles c' →
      (∀ ss, ¬ c.Completes P ev ss) → Change P derivedKey c ev c' []
  | hearsHmac {i : Nat} {raw : RawMessage τ} {ss : β} {hmacB64 : τ} {call : Call β τ} :
      c.Awaits ss → raw.hmac = some hmacB64 → call.awaited = none →
      Change P derivedKey c (.hear i raw)
        { c.goto i call with pendingHmacVerification := some (derivedKey, ss, hmacB64) } []
  | encapsulates {i : Nat} {ek ct ss : β} {mlkemPubKeyB64 : τ} :
      c.calls[i]? = some (.offered mlkemPubKeyB64) →
      P.mlkemEncapsulate ek c.rng = some (ct, ss) → Change P derivedKey c (.proceed i)
        { c.goto i (.waitingHmac ss) with
          rng := c.rng + 1
          encapsulated := (ct, ss) :: c.encapsulated } [.reply (P.b64Encode ct)]
  | completes {i : Nat} {ss : β} : c.Completes P (.proceed i) ss → Change P derivedKey c (.proceed i)
      { c.goto i .established with
        pendingHmacVerification := none
        installed := ss :: c.installed } []

section Steps

omit [DecidableEq β]

theorem idles_rfl (c : HandshakeClient β τ) : c.Idles c :=
  ⟨fun _ => id, Or.inl rfl, rfl, rfl⟩

/-- Moving a call elsewhere adds no secret. -/
theorem awaits_goto {c : HandshakeClient β τ} {i : Nat} {call : Call β τ} {ss : β}
    (h : (c.goto i call).Awaits ss) : c.Awaits ss ∨ call.awaited = some ss := by
  obtain ⟨call', hmem, hss⟩ := h
  rcases List.mem_or_eq_of_mem_set hmem with hmem | rfl
  · exact Or.inl ⟨call', hmem, hss⟩
  · exact Or.inr hss

theorem idles_goto (c : HandshakeClient β τ) (i : Nat) {call : Call β τ}
    (hcall : ∀ ss, call.awaited = some ss → c.Awaits ss) : c.Idles (c.goto i call) := by
  refine ⟨fun ss h => ?_, Or.inl rfl, rfl, rfl⟩
  rcases awaits_goto h with h | h
  · exact h
  · exact hcall ss h

theorem idles_leave (c : HandshakeClient β τ) (i : Nat) {call : Call β τ}
    (hcall : call.awaited = none) : c.Idles (c.goto i call) := by
  apply idles_goto
  intro ss hss
  rw [hcall] at hss
  cases hss

theorem not_completes_of_call {P : Primitives β τ} {c : HandshakeClient β τ}
    {ev : HandshakeClientEvent τ}
    (h : ∀ i, ev = .proceed i → c.calls[i]? ≠ some .verifying) (ss : β) : ¬ c.Completes P ev ss := by
  rintro ⟨i, key, hmacB64, hev, hcall, -⟩
  exact h i hev hcall

theorem hearHmac_change {P : Primitives β τ} {derivedKey : β} {c : HandshakeClient β τ} {i : Nat}
    {raw : RawMessage τ} {call next : Call β τ} {ss : β} (hcall : c.calls[i]? = some call)
    (hss : call.awaited = some ss) (hnext : next.awaited = none) :
    Change P derivedKey c (.hear i raw) (hearHmac derivedKey c i raw ss next) [] := by
  have same : Change P derivedKey c (.hear i raw) c [] :=
    .idles (idles_rfl c) (not_completes_of_call (fun _ hev => by cases hev))
  rw [hearHmac]
  split_ifs
  · cases hhmac : raw.hmac with
    | none => exact same
    | some hmacB64 => exact .hearsHmac ⟨call, List.mem_of_getElem? hcall, hss⟩ hhmac hnext
  · exact same

theorem hear_change {P : Primitives β τ} {derivedKey : β} {c : HandshakeClient β τ} {i : Nat}
    {raw : RawMessage τ} {call : Call β τ} (hcall : c.calls[i]? = some call) :
    Change P derivedKey c (.hear i raw) (hear derivedKey c i raw call) [] := by
  have idle : ∀ {c'}, c.Idles c' → Change P derivedKey c (.hear i raw) c' [] :=
    fun hidle => .idles hidle (not_completes_of_call (fun _ hev => by cases hev))
  cases call with
  | waitingOffer =>
      rw [hear]
      split_ifs
      · cases raw.mlkemPubKey with
        | none => exact idle (idles_rfl c)
        | some pk => exact idle (idles_leave c i rfl)
      · exact idle (idles_rfl c)
  | waitingHmac ss => exact hearHmac_change hcall rfl rfl
  | abandoned ss => exact hearHmac_change hcall rfl rfl
  | _ => exact idle (idles_rfl c)

end Steps

theorem verify_change {P : Primitives β τ} {derivedKey : β} {c : HandshakeClient β τ} {i : Nat}
    (hcall : c.calls[i]? = some .verifying) :
    Change P derivedKey c (.proceed i) (verify P c i) [] := by
  have fails : (∀ ss, ¬ c.Completes P (.proceed i) ss) →
      Change P derivedKey c (.proceed i)
        { c.goto i .failed with pendingHmacVerification := none } [] := by
    intro hnot
    refine .idles ⟨fun ss h => ?_, Or.inr rfl, rfl, rfl⟩ hnot
    exact (idles_leave c i rfl).awaits ss h
  cases hpending : c.pendingHmacVerification with
  | none =>
      -- nothing waits for its verification
      have hc : verify P c i = { c.goto i .failed with pendingHmacVerification := none } := by
        rw [verify, hpending, goto, hpending]
      rw [hc]
      apply fails
      rintro ss ⟨j, key, hmacB64, -, -, hsome, -⟩
      rw [hpending] at hsome
      cases hsome
  | some pending =>
      obtain ⟨key, ss, hmacB64⟩ := pending
      rw [verify, hpending]
      dsimp only
      split_ifs with hmatch
      · -- the HMAC is the one the client computes
        exact .completes ⟨i, key, hmacB64, rfl, hcall, hpending, hmatch⟩
      · apply fails
        rintro ss' ⟨j, key', hmacB64', -, -, hsome, hmatch'⟩
        rw [hpending] at hsome
        cases hsome
        exact hmatch hmatch'

theorem step_change {P : Primitives β τ} {derivedKey : β} {c c' : HandshakeClient β τ}
    {ev : HandshakeClientEvent τ} {msgs : List (RawMessage τ)}
    (h : c.step P derivedKey ev = some (c', msgs)) : Change P derivedKey c ev c' msgs := by
  cases ev with
  | call =>
      cases h
      refine .joins ⟨fun ss h => ?_, Or.inl rfl, rfl, rfl⟩
      obtain ⟨call, hmem, hss⟩ := h
      rcases List.mem_append.1 hmem with hmem | hmem
      · exact ⟨call, hmem, hss⟩
      · obtain rfl := List.mem_singleton.1 hmem
        cases hss
  | hear i raw =>
      simp only [step, Option.map_eq_some_iff] at h
      obtain ⟨call, hcall, h⟩ := h
      cases h
      exact hear_change hcall
  | proceed i =>
      rw [step] at h
      split at h
      · -- the call has an offer
        rename_i pk hcall
        rw [encapsulate] at h
        split at h
        · rename_i ct ss hres
          obtain ⟨ek, -, hres⟩ := Option.bind_eq_some_iff.1 hres
          cases h
          exact .encapsulates hcall hres
        · cases h
          refine .idles (idles_leave c i rfl) (not_completes_of_call ?_)
          rintro j hj hverifying
          cases hj
          rw [hcall] at hverifying
          cases hverifying
      · -- the call has an HMAC
        rename_i hcall
        cases h
        exact verify_change hcall
      · cases h
  | timeout i =>
      have idle : ∀ call : Call β τ, (∀ ss, call.awaited = some ss → c.Awaits ss) →
          Change P derivedKey c (.timeout i) (c.goto i call) [] := fun call hcall =>
        .idles (idles_goto c i hcall) (not_completes_of_call (fun _ hev => by cases hev))
      rw [step] at h
      split at h
      · cases h
        exact idle _ (by rintro ss ⟨⟩)
      · -- the closure stays behind
        rename_i ss hcall
        cases h
        refine idle _ ?_
        rintro ss' ⟨⟩
        exact ⟨_, List.mem_of_getElem? hcall, rfl⟩
      · cases h

end HandshakeClient

end Ktty.Client
