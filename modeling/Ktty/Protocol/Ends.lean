import Ktty.Agent.Output
import Ktty.Client.TerminalSteps

/-!
# The two ends of a session

What connects a run of the agent with a client's terminal service: the envelopes under way to the client
(`Flight`) with the text in which the relay forwards them, and the sync requests under way to the agent.
The relay removes the relay token from a text and writes it anew, so a text is tied to its envelope by
what it parses to.
-/

set_option autoImplicit false

namespace Ktty.Protocol

open Ktty.Wire Ktty.Crypto Ktty.Agent Ktty.Client

/-- The programs at the two ends, on the same crypto. -/
structure Ends where
  session : Session
  dart : Dart
  prim_eq : dart.prim = session.crates.prim
  aead_eq : dart.aead = session.crates.aead

/-- An envelope under way to the client, with the session key that the agent sealed it under. -/
structure Flight where
  key : Bytes
  env : EncryptedEnvelope

/-- The envelope opens under its key to `data`. -/
def Flight.Opens (L : Crates) (f : Flight) (data : Bytes) : Prop :=
  ∃ packed, f.env.payload = L.prim.b64Encode packed ∧ decrypt L.aead f.key packed = some data

/-- The text parses to the envelope. -/
def carries (parse : Text → Option Json) (t : Text) (env : EncryptedEnvelope) : Bool :=
  (parse t).bind EncryptedEnvelope.deserialize == some env

/-- The text is the client's frame of the envelope: an object with its members and without `action`. -/
def isFrame (parse : Text → Option Json) (t : Text) (env : EncryptedEnvelope) : Bool :=
  match parse t with
  | some (.obj ms) =>
      EncryptedEnvelope.deserialize (.obj ms) == some env && ((Json.obj ms).get? "action").isNone
  | _ => false

namespace Ends

variable (E : Ends)

/-- The envelopes of the sync requests among the effects of the client. -/
def requests (ws : WebSocketService) (n : Nat) (effs : List TerminalEffect) :
    List EncryptedEnvelope :=
  effs.filterMap fun eff =>
    match eff with
    | .syncRequest lastSeq => do
        let key ← ws.crypto
        let sid ← ws.sessionId
        -- `_lastGoodSeq` is 0 or the `seq` of a frame, so it is not negative
        let r ← sendEncrypted E.dart.aead key n lastSeq.toNat "sync_req".toList
          (toVec (syncReqJson lastSeq sid))
        some (r.envelope E.dart.prim sid)
    | _ => none

/-- The event is not a sync request that the bridge loop answers. -/
def notSync (st : RunState) : Event → Bool
  | .ws (.text t) =>
      match st.phase with
      | .bridge key sid => (syncLast E.session.crates key sid t).isNone
      | _ => true
  | _ => true

/-- Ideal AEAD: under another key than its own an envelope does not decrypt. -/
def ideal (ws : WebSocketService) (f : Flight) : Bool :=
  ws.crypto.all fun key => key == f.key || (decryptPayload E.dart ws f.env.payload).isNone

end Ends

section Facts

variable {E : Ends}

/-- Without a sync request a step sends only what is behind the last chunk. -/
theorem sendsBehind_of_notSync {st : RunState} {e : Event} (h : E.notSync st e = true) :
    sendsBehind E.session.crates st e = st.seq := by
  cases e with
  | ws item =>
      cases item with
      | text t =>
          simp only [Ends.notSync] at h
          simp only [sendsBehind]
          cases hp : st.phase with
          | bridge key sid =>
              rw [hp] at h
              have hnone : syncLast E.session.crates key sid t = none := by simpa using h
              dsimp only
              rw [hnone]
              rfl
          | _ => rfl
      | _ => rfl
  | _ => rfl

/-- A frame parses to its envelope. -/
theorem parse_of_isFrame {parse : Text → Option Json} {t : Text} {env : EncryptedEnvelope}
    (h : isFrame parse t env = true) : (parse t).bind EncryptedEnvelope.deserialize = some env := by
  unfold isFrame at h
  split at h
  · rename_i ms hparse
    rw [hparse]
    simp only [Bool.and_eq_true, beq_iff_eq] at h
    exact h.1
  · cases h

end Facts

end Ktty.Protocol
