import Ktty.Agent.SessionSteps
import Mathlib.Logic.Relation

/-!
# The agent's part of the handshake

`HandshakeRole` is what `Session::run` does in the handshake and nothing else: the join message, the
offer with a new key pair, the reply to a ciphertext with the HMAC, leaving the handshake. It runs over
any `Primitives`, so over symbolic terms as well as over bytes, and keeps a log of the secrets derived
together with their ciphertexts.

`step_plays` connects the two: every step of the session plays at most one step of the role over the
session's crates, with the same handshake messages sent.
-/

set_option autoImplicit false

namespace Ktty.Agent

open Ktty.Wire Ktty.Crypto

/-- The handshake state of an agent. -/
structure HandshakeRole (β : Type) where
  /-- The decapsulation key while `perform_handshake` waits for a ciphertext. -/
  dk : Option β
  /-- Key pairs below this number have been drawn. -/
  rng : Nat
  /-- The ciphertexts for which `perform_handshake` returned, with the secrets it returned. -/
  derived : List (β × β)
  deriving DecidableEq

inductive HandshakeEvent (τ : Type) where
  | join
  /-- Draw the `n`-th key pair and send the offer; the numbers between went to nonces. -/
  | offer (n : Nat)
  /-- A parsed message, received in the loop of `perform_handshake`; `alive` says whether the send
  channel is open. -/
  | recv (raw : RawMessage τ) (alive : Bool)
  | leave

namespace HandshakeRole

variable {β τ : Type}

def start : HandshakeRole β := { dk := none, rng := 0, derived := [] }

/-- The ciphertext in a message. -/
def ciphertextOf (P : Primitives β τ) (raw : RawMessage τ) : Option β :=
  raw.mlkemCiphertext.bind P.b64Decode

/-- The receive loop of `perform_handshake` on a parsed message. -/
def receive (P : Primitives β τ) (derivedKey : β) (a : HandshakeRole β) (dk : β)
    (raw : RawMessage τ) (alive : Bool) : HandshakeRole β × List (RawMessage τ) :=
  match handshakeReply P dk raw with
  | .ignored => (a, [])
  | .failed => ({ a with dk := none }, [])
  | .panicked => ({ a with dk := none }, [])
  | .derived key =>
      if alive then
        ({ a with
            dk := none
            derived := (ciphertextOf P raw).toList.map (fun ct => (ct, key)) ++ a.derived },
          [.hmacMsg (P.b64Encode (computeHmac P derivedKey key))])
      else ({ a with dk := none }, [])

/-- One step with the handshake messages it sends. -/
def step (P : Primitives β τ) (derivedKey : β) (a : HandshakeRole β) :
    HandshakeEvent τ → Option (HandshakeRole β × List (RawMessage τ))
  | .join => some (a, [.join (roomId P derivedKey)])
  | .offer n =>
      if a.rng ≤ n then
        let (dk, ek) := P.mlkemGenerate n
        some ({ a with dk := some dk, rng := n + 1 }, [.offer (P.b64Encode ek)])
      else none
  | .recv raw alive => a.dk.map fun dk => receive P derivedKey a dk raw alive
  | .leave => some ({ a with dk := none }, [])

end HandshakeRole

/-- A secret is only derived from a ciphertext that decodes and decapsulates. -/
theorem handshakeReply_derived {β τ : Type} {P : Primitives β τ} {dk key : β} {raw : RawMessage τ}
    (h : handshakeReply P dk raw = .derived key) :
    ∃ ct, HandshakeRole.ciphertextOf P raw = some ct ∧ P.mlkemDecapsulate dk ct = some key := by
  rw [handshakeReply] at h
  split_ifs at h
  cases hct : raw.mlkemCiphertext with
  | none =>
      rw [hct] at h
      cases h
  | some ctB64 =>
      rw [hct] at h
      dsimp only at h
      cases hb : P.b64Decode ctB64 with
      | none =>
          rw [hb] at h
          cases h
      | some ct =>
          rw [hb] at h
          dsimp only at h
          cases hd : P.mlkemDecapsulate dk ct with
          | none =>
              rw [hd] at h
              cases h
          | some key' =>
              rw [hd] at h
              cases h
              refine ⟨ct, ?_, hd⟩
              rw [HandshakeRole.ciphertextOf, hct, Option.bind_some, hb]

/-- A derivation with the send channel open. -/
theorem HandshakeRole.receive_derived {β τ : Type} {P : Primitives β τ} {derivedKey dk key ct : β}
    {a : HandshakeRole β} {raw : RawMessage τ} (h : handshakeReply P dk raw = .derived key)
    (hct : ciphertextOf P raw = some ct) :
    receive P derivedKey a dk raw true =
      ({ a with dk := none, derived := (ct, key) :: a.derived },
        [.hmacMsg (P.b64Encode (computeHmac P derivedKey key))]) := by
  rw [receive, h, hct]
  rfl

/-- What a step of the role can do. -/
inductive HandshakeRole.Change {β τ : Type} (P : Primitives β τ) (derivedKey : β)
    (a : HandshakeRole β) : HandshakeRole β → List (RawMessage τ) → Prop
  | joins : Change P derivedKey a a [.join (roomId P derivedKey)]
  | stays : Change P derivedKey a a []
  | leaves : Change P derivedKey a { a with dk := none } []
  | offers (n : Nat) : a.rng ≤ n → Change P derivedKey a
      { a with dk := some (P.mlkemGenerate n).1, rng := n + 1 }
      [.offer (P.b64Encode (P.mlkemGenerate n).2)]
  | derives {dk ct key : β} : a.dk = some dk → P.mlkemDecapsulate dk ct = some key →
      Change P derivedKey a { a with dk := none, derived := (ct, key) :: a.derived }
        [.hmacMsg (P.b64Encode (computeHmac P derivedKey key))]

theorem HandshakeRole.step_change {β τ : Type} {P : Primitives β τ} {derivedKey : β}
    {a a' : HandshakeRole β} {ev : HandshakeEvent τ} {msgs : List (RawMessage τ)}
    (h : a.step P derivedKey ev = some (a', msgs)) : Change P derivedKey a a' msgs := by
  cases ev with
  | join =>
      cases h
      exact .joins
  | leave =>
      cases h
      exact .leaves
  | offer n =>
      rw [step] at h
      split_ifs at h with hn
      cases h
      exact .offers n hn
  | recv raw alive =>
      simp only [step, Option.map_eq_some_iff] at h
      obtain ⟨dk, hdk, h⟩ := h
      cases hout : handshakeReply P dk raw with
      | ignored =>
          rw [receive, hout] at h
          cases h
          exact .stays
      | failed =>
          rw [receive, hout] at h
          cases h
          exact .leaves
      | panicked =>
          rw [receive, hout] at h
          cases h
          exact .leaves
      | derived key =>
          obtain ⟨ct, hct, hkey⟩ := handshakeReply_derived hout
          cases alive with
          | false =>
              rw [receive, hout] at h
              cases h
              exact .leaves
          | true =>
              rw [receive_derived hout hct] at h
              cases h
              exact .derives hdk hkey

/-! ## The session plays the role -/

/-- The key that the receive loop of `perform_handshake` holds. -/
def Phase.decapsulationKey : Phase → Option Bytes
  | .handshake dk => some dk
  | _ => none

/-- The session stands where the role stands, and the key of its bridge loop has been derived. -/
structure Plays (st : RunState) (a : HandshakeRole Bytes) : Prop where
  dk : a.dk = st.phase.decapsulationKey
  rng : a.rng ≤ st.rng
  key : ∀ key sid, st.phase = .bridge key sid → ∃ ct, (ct, key) ∈ a.derived

section Session

variable {L : Crates} {S : Session} {st : RunState} {a : HandshakeRole Bytes}

theorem decapsulationKey_eq_none {p : Phase} (h : p.inHandshake = false) :
    p.decapsulationKey = none := by
  cases p with
  | handshake dk => cases h
  | _ => rfl

/-- The role stays, or leaves the handshake. -/
theorem Plays.aside {r : RunState × List Effect} (ha : Plays st a) (hr : Aside st r) :
    Plays r.1 a ∨ Plays r.1 { a with dk := none } := by
  rcases hr.phase with hphase | ⟨hhandshake, hbridge⟩
  · left
    refine ⟨?_, ha.rng.trans hr.rng, ?_⟩
    · rw [hphase]
      exact ha.dk
    · rw [hphase]
      exact ha.key
  · right
    refine ⟨(decapsulationKey_eq_none hhandshake).symm, ha.rng.trans hr.rng, ?_⟩
    intro key sid hkey
    rw [hkey] at hbridge
    cases hbridge

/-- One step of the role, or none, that sends the messages `msgs`. -/
def HandshakeRole.Moves (S : Session) (a : HandshakeRole Bytes) (msgs : List (RawMessage Text))
    (a' : HandshakeRole Bytes) : Prop :=
  a' = a ∧ msgs = [] ∨ ∃ ev, step S.crates.prim S.derivedKey a ev = some (a', msgs)

/-- An item in the receive loop of the handshake. -/
theorem handshakeRecv_plays {dk : Bytes} (hp : st.phase = .handshake dk) (ha : Plays st a)
    (item : WsItem) :
    ∃ a', Plays (handshakeRecv S st dk item).1 a' ∧
      a.Moves S (handshakeMsgs (handshakeRecv S st dk item).2) a' := by
  have hdk : a.dk = some dk := by rw [ha.dk, hp, Phase.decapsulationKey]
  have stays : ∃ a', Plays st a' ∧ a.Moves S [] a' := ⟨a, ha, Or.inl ⟨rfl, rfl⟩⟩
  have leaves : ∀ p : Phase, p.inHandshake = false → p.inBridge = false →
      ∃ a', Plays (st.goto p) a' ∧ a.Moves S [] a' := by
    intro p hh hb
    refine ⟨{ a with dk := none }, ⟨(decapsulationKey_eq_none hh).symm, ha.rng, ?_⟩,
      Or.inr ⟨.leave, rfl⟩⟩
    intro key sid hkey
    rw [RunState.goto_phase] at hkey
    rw [hkey] at hb
    cases hb
  cases item with
  | text t =>
      rw [handshakeRecv]
      split
      · -- the log line panics
        exact leaves _ rfl rfl
      · cases (S.crates.json.fromStr t).bind RawMessage.deserialize with
        | none => exact stays
        | some raw =>
            dsimp only
            cases hout : handshakeReply S.crates.prim dk raw with
            | ignored => exact stays
            | failed => exact leaves _ rfl rfl
            | panicked => exact leaves _ rfl rfl
            | derived key =>
                dsimp only
                cases halive : st.writerAlive with
                | false => exact leaves _ rfl rfl
                | true =>
                    -- the HMAC is sent and the bridge loop entered under the key
                    obtain ⟨ct, hct, -⟩ := handshakeReply_derived hout
                    refine ⟨{ a with dk := none, derived := (ct, key) :: a.derived },
                      ⟨rfl, ha.rng, ?_⟩, Or.inr ⟨.recv raw true, ?_⟩⟩
                    · intro key' sid hkey
                      cases hkey
                      exact ⟨ct, List.mem_cons_self⟩
                    · rw [HandshakeRole.step, hdk, Option.map_some,
                        HandshakeRole.receive_derived hout hct]
                      rfl
  | ping d =>
      rw [handshakeRecv, handshakeMsgs_trySend rfl]
      exact stays
  | error => exact leaves _ rfl rfl
  | ended => exact leaves _ rfl rfl
  | _ => exact stays

/-- Every step of the session plays the role. -/
theorem step_plays {e : Event} {r : RunState × List Effect} (h : S.step st e = some r)
    (ha : Plays st a) : ∃ a', Plays r.1 a' ∧ a.Moves S (handshakeMsgs r.2) a' := by
  have aside : Aside st r → ∃ a', Plays r.1 a' ∧ a.Moves S (handshakeMsgs r.2) a' := by
    intro hr
    rw [hr.msgs]
    rcases ha.aside hr with hstay | hleave
    · exact ⟨a, hstay, Or.inl ⟨rfl, rfl⟩⟩
    · exact ⟨_, hleave, Or.inr ⟨.leave, rfl⟩⟩
  by_cases he : e = .writerExit
  · subst he
    obtain ⟨-, rfl⟩ := step_writerExit h
    exact aside ⟨rfl, le_rfl, Or.inl rfl⟩
  rw [step_eq_react he] at h
  generalize hp : st.phase = p at h
  cases reacts_of_react h with
  | join =>
      have hnone : a.dk = none := by rw [ha.dk, hp]; rfl
      rw [sendJoin]
      split
      · exact ⟨a, ⟨hnone, ha.rng, fun _ _ hkey => by cases hkey⟩, Or.inr ⟨.join, rfl⟩⟩
      · exact ⟨a, ⟨hnone, ha.rng, fun _ _ hkey => by cases hkey⟩, Or.inl ⟨rfl, rfl⟩⟩
  | offer =>
      have hnone : a.dk = none := by rw [ha.dk, hp]; rfl
      rw [sendOffer]
      dsimp only
      split
      · refine ⟨{ a with dk := some (S.crates.prim.mlkemGenerate st.rng).1, rng := st.rng + 1 },
          ⟨rfl, le_rfl, fun _ _ hkey => by cases hkey⟩, Or.inr ⟨.offer st.rng, ?_⟩⟩
        rw [HandshakeRole.step, if_pos ha.rng]
        rfl
      · -- the key pair is dropped with the failed send
        exact ⟨a, ⟨hnone, ha.rng.trans (Nat.le_succ _), fun _ _ hkey => by cases hkey⟩,
          Or.inl ⟨rfl, rfl⟩⟩
  | handshakeRecv dk item => exact handshakeRecv_plays hp ha item
  | _ => exact aside (react_aside (by simp) (by simp) rfl h)

/-- Every reachable state of the session plays a reachable state of the role. In particular the key of
the bridge loop is a secret that `perform_handshake` derived. -/
theorem reachable_plays
    (h : Relation.ReflTransGen (fun s t => ∃ e effs, S.step s e = some (t, effs)) Session.start st) :
    ∃ a, Relation.ReflTransGen (fun a a' => ∃ msgs, a.Moves S msgs a') .start a ∧ Plays st a := by
  induction h with
  | refl => exact ⟨.start, .refl, rfl, le_rfl, fun _ _ hkey => by cases hkey⟩
  | tail _ hstep ih =>
      obtain ⟨e, effs, hstep⟩ := hstep
      obtain ⟨a, hreach, ha⟩ := ih
      obtain ⟨a', ha', hmoves⟩ := step_plays hstep ha
      exact ⟨a', hreach.tail ⟨_, hmoves⟩, ha'⟩

end Session

end Ktty.Agent
