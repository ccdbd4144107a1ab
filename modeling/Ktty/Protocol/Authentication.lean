import Ktty.Agent.Handshake
import Ktty.Client.Handshake
import Ktty.Crypto.Symbolic
import Ktty.Lib.Execution
import Mathlib.Data.List.ReduceOption

/-!
# The handshake against an active relay

Agent and client run their parts of the handshake on symbolic terms, any number of times each. The
relay is the network: it sees every frame (`frames`), and it delivers to either side any message whose
contents it can compute (`Knows`) from the frames and from values of its own. It is not given the PIN or
the key derived from it.

`Authentic` says that a secret with which the client completed was derived by the agent from the
client's ciphertext, `RejectsOwnKeys` that the relay knows no decapsulation key for it. The HMAC is
keyed with the Argon2id key, and the room id of the join frame is the hex string of that key
(`room_id`). `handshake_authentic_iff` shows that the handshake is secure in exactly the runs in which
every matching HMAC could be computed without decoding the room id, `authentic_apart` that a relay which
never decodes it breaks nothing, and `forged_hmac_is_accepted` what one that does can reach.
-/

set_option autoImplicit false

namespace Ktty.Protocol.Authentication

open Ktty.Wire Ktty.Crypto Ktty.Agent Ktty.Client Ktty.Lib.Execution Ktty.Lib.Deduction

/-- Agent, client and what the relay has seen. -/
structure World where
  agent : HandshakeRole Term
  client : HandshakeClient Term Term
  frames : List Term
  deriving DecidableEq

inductive Event where
  | agent (ev : HandshakeEvent Term)
  | client (ev : HandshakeClientEvent Term)
  /-- The holder of a session key sends an envelope with the `n`-th plaintext. -/
  | envelope (key : Term) (n : Nat)

/-- The contents of a message. -/
def contents (raw : RawMessage Term) : List Term :=
  [raw.roomId, raw.mlkemPubKey, raw.mlkemCiphertext, raw.sessionId, raw.payload, raw.hmac].reduceOption

/-- What the relay has to compute for the event. -/
def Event.delivered : Event → List Term
  | .agent (.recv raw _) => contents raw
  | .client (.hear _ raw) => contents raw
  | _ => []

namespace World

def start : World := { agent := .start, client := .start, frames := [] }

/-- One step of the agent or of the client under their key; what they send becomes known. -/
def step (key : Term) (w : World) : Event → Option World
  | .agent ev =>
      (w.agent.step symbolic key ev).map fun r =>
        { w with agent := r.1, frames := r.2.flatMap contents ++ w.frames }
  | .client ev =>
      (w.client.step symbolic key ev).map fun r =>
        { w with client := r.1, frames := r.2.flatMap contents ++ w.frames }
  | .envelope ss n =>
      if ss ∈ w.client.installed ∨ ss ∈ w.agent.derived.map Prod.snd then
        some { w with frames := .sessionId ss :: .b64 (.sealed ss (.pub n)) :: w.frames }
      else none

/-- The terms from which the relay computes when `p` is the PIN. -/
def knowledge (p : Text) (w : World) : Set Term := {t | t ∈ initialKnowledge p ∨ t ∈ w.frames}

/-- What the relay can compute. -/
def Knows (p : Text) (w : World) (t : Term) : Prop := Deducible Rule (w.knowledge p) t

/-- What the relay can compute without decoding the room id. -/
def KnowsApart (p : Text) (w : World) (t : Term) : Prop :=
  Deducible (without Rule [.hex (pinKey p)] (pinKey p)) (w.knowledge p) t

/-- A step against the relay: it delivers only what it can compute. -/
def attacked (p : Text) (w : World) (e : Event) (w' : World) : Prop :=
  (∀ t ∈ e.delivered, w.Knows p t) ∧ w.step (pinKey p) e = some w'

/-- The agent derived the secret `d`. -/
def Derived (w : World) (d : Term) : Prop := ∃ ct, (ct, d) ∈ w.agent.derived

/-- A secret with which the client completed was derived by the agent from the client's
ciphertext. -/
def Authentic (w : World) : Prop :=
  ∀ ss ∈ w.client.installed, ∃ ct, (ct, ss) ∈ w.client.encapsulated ∧ (ct, ss) ∈ w.agent.derived

/-- The client did not complete with a secret for a key pair whose decapsulation key the relay
knows. -/
def RejectsOwnKeys (p : Text) (w : World) : Prop :=
  ∀ s r, .ss (.ek s) r ∈ w.client.installed → ¬ w.Knows p (.dk s)

/-- The condition on a step: when a call is about to verify an HMAC that matches, the relay can compute
that HMAC without decoding the room id. -/
def HmacApart (p : Text) (w : World) (e : Event) : Prop :=
  ∀ i ss, e = .client (.proceed i) → w.client.calls[i]? = some .verifying →
    w.client.pendingHmacVerification = some (pinKey p, ss, .b64 (.hmac (pinKey p) ss)) →
      w.KnowsApart p (.b64 (.hmac (pinKey p) ss))

/-! ## The invariant -/

/-- What holds whatever the relay does. -/
structure Invariant (p : Text) (w : World) : Prop where
  frames : ∀ t ∈ w.frames, HidesSeeds t ∧ Unforged p w.Derived t
  dk : ∀ dk, w.agent.dk = some dk → ∃ n, dk = .dk (.seed n)
  derived : ∀ ct d, (ct, d) ∈ w.agent.derived →
    ∃ n, (∃ r, ct = .ct (.ek (.seed n)) r ∧ d = .ss (.ek (.seed n)) r) ∨ d = .rejected (.seed n) ct
  encapsulated : ∀ ct ss, (ct, ss) ∈ w.client.encapsulated →
    ∃ e m, ct = .ct e (.draw m) ∧ ss = .ss e (.draw m)
  awaits : ∀ ss, w.client.Awaits ss → ∃ ct, (ct, ss) ∈ w.client.encapsulated
  pending : ∀ k ss hmacB64, w.client.pendingHmacVerification = some (k, ss, hmacB64) →
    k = pinKey p ∧ ∃ ct, (ct, ss) ∈ w.client.encapsulated
  /-- The agent has sent the HMAC of what it derived. -/
  answered : ∀ d, w.Derived d → .b64 (.hmac (pinKey p) d) ∈ w.frames

section Steps

variable {p : Text} {w w' : World}

theorem invariant_start : Invariant p start where
  frames _ h := nomatch h
  dk _ h := nomatch h
  derived _ _ h := nomatch h
  encapsulated _ _ h := nomatch h
  awaits _ h := nomatch h
  pending _ _ _ h := nomatch h
  answered := by
    rintro d ⟨ct, h⟩
    cases h

/-- Without decoding the room id the relay computes only unforged terms. -/
theorem Invariant.unforged (hI : Invariant p w) {t : Term} (h : w.KnowsApart p t) :
    Unforged p w.Derived t := by
  refine h.mem_of_closed (T := {t | Unforged p w.Derived t}) ?_ closed_unforged
  rintro t (hinit | hframe)
  · exact unforged_of_initial hinit
  · exact (hI.frames t hframe).2

/-- The relay knows no decapsulation key of the agent. -/
theorem Invariant.not_knows_dk (hI : Invariant p w) (n : Nat) : ¬ w.Knows p (.dk (.seed n)) := by
  intro h
  have hhides : HidesSeeds (.dk (.seed n)) := by
    refine h.mem_of_closed (T := {t | HidesSeeds t}) ?_ closed_hidesSeeds
    rintro t (hinit | hframe)
    · exact hidesSeeds_of_initial hinit
    · exact (hI.frames t hframe).1
  exact hhides

/-- A secret that the client encapsulated and the agent derived was derived from the client's
ciphertext: a rejected ciphertext gives no encapsulated secret. -/
theorem Invariant.same_ciphertext (hI : Invariant p w) {ct ss : Term}
    (henc : (ct, ss) ∈ w.client.encapsulated) (hd : w.Derived ss) : (ct, ss) ∈ w.agent.derived := by
  obtain ⟨ct', hd⟩ := hd
  obtain ⟨e, m, rfl, rfl⟩ := hI.encapsulated ct ss henc
  obtain ⟨n, ⟨r, rfl, hss⟩ | hrej⟩ := hI.derived ct' _ hd
  · obtain ⟨rfl, rfl⟩ := Term.ss.inj hss
    exact hd
  · cases hrej

/-- The matching HMAC can be computed without decoding the room id exactly when the agent derived the
secret. -/
theorem Invariant.knowsApart_iff (hI : Invariant p w) {d : Term} :
    w.KnowsApart p (.b64 (.hmac (pinKey p) d)) ↔ w.Derived d := by
  constructor
  · intro h
    have hunforged : Unforged p w.Derived (.b64 (.hmac (pinKey p) d)) := hI.unforged h
    exact Unforged.approved hunforged
  · intro hd
    exact .base (Or.inr (hI.answered d hd))

/-- A secret for the agent's own key pair, so none for a key pair of the relay. -/
theorem Invariant.rejectsOwnKeys (hI : Invariant p w) (hA : w.Authentic) : w.RejectsOwnKeys p := by
  intro s r hss
  obtain ⟨ct, -, hd⟩ := hA _ hss
  obtain ⟨n, ⟨r', -, heq⟩ | hrej⟩ := hI.derived ct _ hd
  · obtain ⟨hek, -⟩ := Term.ss.inj heq
    obtain rfl := Term.ek.inj hek
    exact hI.not_knows_dk n
  · cases hrej

/-! ## Steps -/

theorem step_agent {key : Term} {ev : HandshakeEvent Term} (h : w.step key (.agent ev) = some w') :
    ∃ a msgs, HandshakeRole.Change symbolic key w.agent a msgs ∧
      w' = { w with agent := a, frames := msgs.flatMap contents ++ w.frames } := by
  simp only [step, Option.map_eq_some_iff] at h
  obtain ⟨r, hr, rfl⟩ := h
  exact ⟨r.1, r.2, HandshakeRole.step_change hr, rfl⟩

theorem step_client {key : Term} {ev : HandshakeClientEvent Term}
    (h : w.step key (.client ev) = some w') :
    ∃ c msgs, HandshakeClient.Change symbolic key w.client ev c msgs ∧
      w' = { w with client := c, frames := msgs.flatMap contents ++ w.frames } := by
  simp only [step, Option.map_eq_some_iff] at h
  obtain ⟨r, hr, rfl⟩ := h
  exact ⟨r.1, r.2, HandshakeClient.step_change hr, rfl⟩

theorem step_envelope {key ss : Term} {n : Nat} (h : w.step key (.envelope ss n) = some w') :
    w' = { w with frames := .sessionId ss :: .b64 (.sealed ss (.pub n)) :: w.frames } := by
  rw [step] at h
  split_ifs at h
  exact (Option.some.inj h).symm

/-- What a step of the agent keeps. -/
theorem invariant_agent (hI : Invariant p w) {a : HandshakeRole Term}
    {msgs : List (RawMessage Term)}
    (h : HandshakeRole.Change symbolic (pinKey p) w.agent a msgs) :
    Invariant p { w with agent := a, frames := msgs.flatMap contents ++ w.frames } := by
  cases h with
  | joins =>
      refine { hI with frames := ?_, answered := fun d hd => List.mem_cons_of_mem _ (hI.answered d hd) }
      intro t ht
      rcases List.mem_cons.1 ht with rfl | ht
      · exact ⟨trivial, Or.inr rfl⟩
      · exact hI.frames t ht
  | stays => exact hI
  | leaves => exact { hI with dk := by rintro dk ⟨⟩ }
  | offers n hn =>
      refine { hI with frames := ?_, dk := ?_, answered := fun d hd =>
        List.mem_cons_of_mem _ (hI.answered d hd) }
      · intro t ht
        rcases List.mem_cons.1 ht with rfl | ht
        · exact ⟨trivial, trivial⟩
        · exact hI.frames t ht
      · intro dk hdk
        exact ⟨n, (Option.some.inj hdk).symm⟩
  | @derives dk ct key hdk hkey =>
      have hgrow : ∀ d, w.Derived d → ∃ ct', (ct', d) ∈ (ct, key) :: w.agent.derived := by
        rintro d ⟨ct', hd⟩
        exact ⟨ct', List.mem_cons_of_mem _ hd⟩
      refine { hI with frames := ?_, dk := by rintro dk ⟨⟩, derived := ?_, answered := ?_ }
      · -- the HMAC on the new secret is approved by its own derivation
        intro t ht
        rcases List.mem_cons.1 ht with rfl | ht
        · exact ⟨trivial, Or.inr ⟨rfl, ct, List.mem_cons_self⟩⟩
        · obtain ⟨hhides, hunforged⟩ := hI.frames t ht
          exact ⟨hhides, hunforged.mono hgrow⟩
      · -- its ciphertext is for the agent's key pair, or gives a secret of its own
        intro ct' d hd
        rcases List.mem_cons.1 hd with heq | hd
        · cases heq
          obtain ⟨n, rfl⟩ := hI.dk dk hdk
          rcases Term.decapsulate_eq hkey with ⟨r, hct, hd⟩ | hrej
          · exact ⟨n, Or.inl ⟨r, hct, hd⟩⟩
          · exact ⟨n, Or.inr hrej⟩
        · exact hI.derived ct' d hd
      · rintro d ⟨ct', hd⟩
        rcases List.mem_cons.1 hd with heq | hd
        · cases heq
          exact List.mem_cons_self
        · exact List.mem_cons_of_mem _ (hI.answered d ⟨ct', hd⟩)

/-- A client that derives nothing new keeps the invariant. -/
theorem Invariant.idles (hI : Invariant p w) {c : HandshakeClient Term Term}
    (hidle : w.client.Idles c) : Invariant p { w with client := c } := by
  refine { hI with encapsulated := ?_, awaits := ?_, pending := ?_ }
  · rw [hidle.encapsulated]
    exact hI.encapsulated
  · intro ss hss
    rw [hidle.encapsulated]
    exact hI.awaits ss (hidle.awaits ss hss)
  · intro k ss hmacB64 hpending
    rw [hidle.encapsulated]
    rcases hidle.pending with hsame | hnone
    · rw [hsame] at hpending
      exact hI.pending k ss hmacB64 hpending
    · rw [hnone] at hpending
      cases hpending

/-- What a step of the client keeps. -/
theorem invariant_client (hI : Invariant p w) {c : HandshakeClient Term Term}
    {ev : HandshakeClientEvent Term} {msgs : List (RawMessage Term)}
    (h : HandshakeClient.Change symbolic (pinKey p) w.client ev c msgs) :
    Invariant p { w with client := c, frames := msgs.flatMap contents ++ w.frames } := by
  cases h with
  | joins hidle =>
      have hI' := hI.idles hidle
      refine { hI' with frames := ?_, answered := fun d hd =>
        List.mem_cons_of_mem _ (hI'.answered d hd) }
      intro t ht
      rcases List.mem_cons.1 ht with rfl | ht
      · exact ⟨trivial, Or.inr rfl⟩
      · exact hI'.frames t ht
  | idles hidle hnot => exact hI.idles hidle
  | @hearsHmac i raw ss hmacB64 call hawaits hhmac hcall =>
      refine { hI with awaits := ?_, pending := ?_ }
      · intro ss' hss'
        rcases HandshakeClient.awaits_goto hss' with h | h
        · exact hI.awaits ss' h
        · rw [hcall] at h
          cases h
      · intro k ss' hmacB64' hpending
        cases hpending
        exact ⟨rfl, hI.awaits ss hawaits⟩
  | @encapsulates i ek ct ss pk hcall hres =>
      cases hres
      refine { hI with
        frames := ?_, encapsulated := ?_, awaits := ?_, pending := ?_,
        answered := fun d hd => List.mem_cons_of_mem _ (hI.answered d hd) }
      · intro t ht
        rcases List.mem_cons.1 ht with rfl | ht
        · exact ⟨trivial, trivial⟩
        · exact hI.frames t ht
      · intro ct' ss' henc
        rcases List.mem_cons.1 henc with heq | henc
        · cases heq
          exact ⟨ek, w.client.rng, rfl, rfl⟩
        · exact hI.encapsulated ct' ss' henc
      · intro ss' hss'
        rcases HandshakeClient.awaits_goto hss' with h | h
        · obtain ⟨ct', hct'⟩ := hI.awaits ss' h
          exact ⟨ct', List.mem_cons_of_mem _ hct'⟩
        · cases h
          exact ⟨_, List.mem_cons_self⟩
      · intro k ss' hmacB64 hpending
        obtain ⟨hk, ct', hct'⟩ := hI.pending k ss' hmacB64 hpending
        exact ⟨hk, ct', List.mem_cons_of_mem _ hct'⟩
  | @completes i ss hcompletes =>
      refine { hI with awaits := ?_, pending := by rintro k ss hmacB64 ⟨⟩ }
      intro ss' hss'
      rcases HandshakeClient.awaits_goto hss' with h | h
      · exact hI.awaits ss' h
      · cases h

theorem invariant_step {e : Event} (hI : Invariant p w) (h : w.step (pinKey p) e = some w') :
    Invariant p w' := by
  cases e with
  | agent ev =>
      obtain ⟨a, msgs, hchange, rfl⟩ := step_agent h
      exact invariant_agent hI hchange
  | client ev =>
      obtain ⟨c, msgs, hchange, rfl⟩ := step_client h
      exact invariant_client hI hchange
  | envelope ss n =>
      obtain rfl := step_envelope h
      refine { hI with frames := ?_, answered := fun d hd =>
        List.mem_cons_of_mem _ (List.mem_cons_of_mem _ (hI.answered d hd)) }
      intro t ht
      rcases List.mem_cons.1 ht with rfl | ht
      · exact ⟨trivial, trivial⟩
      rcases List.mem_cons.1 ht with rfl | ht
      · exact ⟨trivial, trivial⟩
      · exact hI.frames t ht

/-- The agent only adds to what it derived. -/
theorem authentic_agent (hA : w.Authentic) {a : HandshakeRole Term} {msgs : List (RawMessage Term)}
    {frames : List Term} (h : HandshakeRole.Change symbolic (pinKey p) w.agent a msgs) :
    Authentic { w with agent := a, frames := frames } := by
  cases h with
  | derives hdk hkey =>
      intro ss hss
      obtain ⟨ct, henc, hd⟩ := hA ss hss
      exact ⟨ct, henc, List.mem_cons_of_mem _ hd⟩
  | _ => exact hA

/-- A step of the client keeps the secrets authentic exactly when it meets the condition. -/
theorem authentic_client (hI : Invariant p w) (hA : w.Authentic) {c : HandshakeClient Term Term}
    {ev : HandshakeClientEvent Term} {msgs : List (RawMessage Term)} {frames : List Term}
    (h : HandshakeClient.Change symbolic (pinKey p) w.client ev c msgs) :
    Authentic { w with client := c, frames := frames } ↔ w.HmacApart p (.client ev) := by
  have idle : w.client.Idles c → (∀ ss, ¬ w.client.Completes symbolic ev ss) →
      (Authentic { w with client := c, frames := frames } ↔ w.HmacApart p (.client ev)) := by
    intro hidle hnot
    constructor
    · intro _ i ss he hcall hpending
      cases he
      exact absurd ⟨i, _, _, rfl, hcall, hpending, rfl⟩ (hnot ss)
    · intro _
      rw [Authentic, hidle.installed, hidle.encapsulated]
      exact hA
  cases h with
  | joins hidle => exact idle hidle fun ss => HandshakeClient.not_completes_of_call (by simp) ss
  | idles hidle hnot => exact idle hidle hnot
  | hearsHmac hawaits hhmac hcall => exact ⟨fun _ i ss he => (by cases he), fun _ => hA⟩
  | encapsulates hoffered hres =>
      constructor
      · intro _ i ss he hcall
        cases he
        rw [hoffered] at hcall
        cases hcall
      · intro _ ss hss
        obtain ⟨ct, henc, hd⟩ := hA ss hss
        exact ⟨ct, List.mem_cons_of_mem _ henc, hd⟩
  | @completes i ss hcompletes =>
      obtain ⟨j, key, hmacB64, hj, hcall, hpending, hmatch⟩ := hcompletes
      cases hj
      obtain ⟨rfl, ct, henc⟩ := hI.pending key ss hmacB64 hpending
      -- only base64 of the HMAC itself decodes to it
      obtain rfl : hmacB64 = .b64 (.hmac (pinKey p) ss) := by
        cases hmacB64 with
        | b64 t => rw [Option.some.inj hmatch]; rfl
        | _ => cases hmatch
      constructor
      · intro hA' i' ss' he _ hpending'
        cases he
        rw [hpending] at hpending'
        cases hpending'
        obtain ⟨ct', -, hd⟩ := hA' ss List.mem_cons_self
        exact hI.knowsApart_iff.2 ⟨ct', hd⟩
      · intro hC ss' hss'
        rcases List.mem_cons.1 hss' with rfl | hss'
        · have hd : w.Derived ss' := hI.knowsApart_iff.1 (hC i ss' rfl hcall hpending)
          exact ⟨ct, henc, hI.same_ciphertext henc hd⟩
        · exact hA ss' hss'

/-- One step keeps the secrets authentic exactly when it meets the condition. -/
theorem authentic_step {e : Event} (hI : Invariant p w) (hA : w.Authentic)
    (h : w.step (pinKey p) e = some w') : w'.Authentic ↔ w.HmacApart p e := by
  cases e with
  | agent ev =>
      obtain ⟨a, msgs, hchange, rfl⟩ := step_agent h
      exact ⟨fun _ i ss he => (by cases he), fun _ => authentic_agent hA hchange⟩
  | client ev =>
      obtain ⟨c, msgs, hchange, rfl⟩ := step_client h
      exact authentic_client hI hA hchange
  | envelope ss n =>
      obtain rfl := step_envelope h
      exact ⟨fun _ i ss he => (by cases he), fun _ => hA⟩

end Steps

/-- For every PIN and every relay: the handshake stays authentic, and the client rejects the key pairs
of the relay, in exactly the runs in which no call verifies a matching HMAC that the relay could only
compute by decoding the room id. -/
theorem handshake_authentic_iff (p : Text) (es : List Event) :
    Along (attacked p) (fun w => w.Authentic ∧ w.RejectsOwnKeys p) start es ↔
      Guarded (attacked p) (HmacApart p) start es := by
  apply along_iff_guarded (I := Invariant p)
  · intro w e w' hI h
    exact invariant_step hI h.2
  · intro w e w' hI hP h
    rw [← authentic_step hI hP.1 h.2]
    exact ⟨And.left, fun hA => ⟨hA, (invariant_step hI h.2).rejectsOwnKeys hA⟩⟩
  · exact invariant_start
  · exact ⟨fun _ h => (nomatch h), fun _ _ h => (nomatch h)⟩

/-- An honest relay: the agent's offer, the client's reply and the agent's HMAC are passed on. -/
example :
    let key := pinKey "12345678".toList
    let ek := Term.ek (.seed 0)
    let ss := Term.ss ek (.draw 0)
    (exec (step key) start
        [.client .call, .agent .join, .agent (.offer 0), .client (.hear 0 (.offer (.b64 ek))),
          .client (.proceed 0), .agent (.recv (.reply (.b64 (.ct ek (.draw 0)))) true),
          .client (.hear 0 (.hmacMsg (.b64 (.hmac key ss)))), .client (.proceed 0)]).map
      (fun w => (w.client.installed, w.agent.derived)) = some ([ss], [(.ct ek (.draw 0), ss)]) := by
  decide

/-! ## A relay that does not decode the room id -/

/-- A step against a relay that computes what it delivers without decoding the room id. -/
def attackedApart (p : Text) (w : World) (e : Event) (w' : World) : Prop :=
  (∀ t ∈ e.delivered, w.KnowsApart p t) ∧ w.step (pinKey p) e = some w'

/-- The HMAC field that waits for its verification was computed without decoding the room id. -/
def PendingApart (p : Text) (w : World) : Prop :=
  ∀ k ss hmacB64, w.client.pendingHmacVerification = some (k, ss, hmacB64) → w.KnowsApart p hmacB64

section Apart

variable {p : Text} {w w' : World}

theorem mem_frames_step {key : Term} {e : Event} (h : w.step key e = some w') {t : Term}
    (ht : t ∈ w.frames) : t ∈ w'.frames := by
  cases e with
  | agent ev =>
      obtain ⟨a, msgs, -, rfl⟩ := step_agent h
      exact List.mem_append_right _ ht
  | client ev =>
      obtain ⟨c, msgs, -, rfl⟩ := step_client h
      exact List.mem_append_right _ ht
  | envelope ss n =>
      obtain rfl := step_envelope h
      exact List.mem_cons_of_mem _ (List.mem_cons_of_mem _ ht)

/-- The relay forgets nothing. -/
theorem KnowsApart.step {key : Term} {e : Event} (h : w.step key e = some w') {t : Term}
    (ht : w.KnowsApart p t) : w'.KnowsApart p t :=
  ht.mono fun _ hs => hs.imp id (mem_frames_step h)

theorem pendingApart_step {e : Event} (hp : w.PendingApart p) (h : w.attackedApart p e w') :
    w'.PendingApart p := by
  intro k ss hmacB64 hpending
  obtain ⟨hdelivered, hstep⟩ := h
  -- unless an HMAC message arrives, what waits in `w'` has waited in `w`
  have waited : w.client.pendingHmacVerification = some (k, ss, hmacB64) →
      w'.KnowsApart p hmacB64 := fun hold => (hp k ss hmacB64 hold).step hstep
  cases e with
  | agent ev =>
      apply waited
      obtain ⟨a, msgs, -, rfl⟩ := step_agent hstep
      exact hpending
  | envelope key n =>
      apply waited
      obtain rfl := step_envelope hstep
      exact hpending
  | client ev =>
      obtain ⟨c, msgs, hchange, hw⟩ := step_client hstep
      have hclient : w'.client = c := by rw [hw]
      rw [hclient] at hpending
      have idle : w.client.Idles c → w'.KnowsApart p hmacB64 := by
        intro hidle
        apply waited
        rcases hidle.pending with hsame | hnone
        · rw [← hsame]
          exact hpending
        · rw [hnone] at hpending
          cases hpending
      cases hchange with
      | joins hidle => exact idle hidle
      | idles hidle hnot => exact idle hidle
      | @hearsHmac i raw ss hmacB64 call hawaits hhmac hcall =>
          cases hpending
          have hmem : hmacB64 ∈ contents raw := List.reduceOption_mem_iff.2 (by simp [hhmac])
          exact (hdelivered hmacB64 hmem).step hstep
      | encapsulates hoffered hres => exact waited hpending
      | completes hcompletes => cases hpending

end Apart

/-- If the room id did not give the key away, the handshake would be authentic against every relay. -/
theorem authentic_apart (p : Text) (es : List Event) :
    Along (attackedApart p) (fun w => w.Authentic ∧ w.RejectsOwnKeys p) start es := by
  apply along_of_guarded (I := Invariant p) (C := HmacApart p)
  · intro w e w' hI h
    exact invariant_step hI h.2
  · intro w e w' hI hP h hC
    have hA : w'.Authentic := (authentic_step hI hP.1 h.2).2 hC
    exact ⟨hA, (invariant_step hI h.2).rejectsOwnKeys hA⟩
  · exact invariant_start
  · exact ⟨fun _ h => (nomatch h), fun _ _ h => (nomatch h)⟩
  · apply guarded_of_invariant (I := PendingApart p)
    · intro w e w' hp h
      exact pendingApart_step hp h
    · intro w e w' hp h i ss _ _ hpending
      exact hp _ ss _ hpending
    · rintro k ss hmacB64 ⟨⟩

/-- A relay whose key pair has the seed `pub 0` passes itself off as the agent, which is not even there.
From the join frame it decodes the key for the HMAC. -/
theorem forged_hmac_is_accepted :
    let p := "12345678".toList
    let ss := Term.ss (.ek (.pub 0)) (.draw 0)
    ∃ w, Run (attacked p) start
        [.client .call, .client (.hear 0 (.offer (.b64 (.ek (.pub 0))))), .client (.proceed 0),
          .client (.hear 0 (.hmacMsg (.b64 (.hmac (pinKey p) ss)))), .client (.proceed 0)] w ∧
      ¬ (w.Authentic ∧ w.RejectsOwnKeys p) := by
  intro p ss
  have own : ∀ w : World, w.Knows p (.pub 0) := fun w => .base (Or.inl (Or.inl ⟨0, rfl⟩))
  have hoffer : ∀ w : World, w.Knows p (.b64 (.ek (.pub 0))) := fun w =>
    .unary (.b64Encode _) (.unary (.mlkemEk _) (own w))
  have hforge : ∀ w : World, .hex (pinKey p) ∈ w.frames →
      .b64 (.ct (.ek (.pub 0)) (.draw 0)) ∈ w.frames → w.Knows p (.b64 (.hmac (pinKey p) ss)) := by
    intro w hjoin hreply
    have hkey : w.Knows p (pinKey p) := .unary (.hexDecode _) (.base (Or.inr hjoin))
    have hct : w.Knows p (.ct (.ek (.pub 0)) (.draw 0)) :=
      .unary (.b64Decode _) (.base (Or.inr hreply))
    have hss : w.Knows p ss := .binary (.mlkemDecapsulate rfl) (.unary (.mlkemDk _) (own w)) hct
    exact .unary (.b64Encode _) (.binary (.hmacSha256 _ _) hkey hss)
  refine ⟨_, .cons ⟨by simp [Event.delivered], rfl⟩ (.cons ⟨?_, rfl⟩ (.cons
    ⟨by simp [Event.delivered], rfl⟩ (.cons ⟨?_, rfl⟩ (.cons ⟨by simp [Event.delivered], rfl⟩
      (.nil _))))), ?_⟩
  · intro t ht
    obtain rfl := List.mem_singleton.1 ht
    exact hoffer _
  · intro t ht
    obtain rfl := List.mem_singleton.1 ht
    -- the relay has seen the join frame and, after it, the reply
    apply hforge
    · exact List.mem_cons_of_mem _ List.mem_cons_self
    · exact List.mem_cons_self
  · rintro ⟨hA, -⟩
    obtain ⟨ct, -, hd⟩ := hA ss List.mem_cons_self
    cases hd

end World

end Ktty.Protocol.Authentication
