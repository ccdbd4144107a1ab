import Ktty.Agent.SessionSteps

/-!
# The relay token of a run

`relay_auth_token` is taken from a text that the init loop reads, and nowhere else (`token_step`).
-/

set_option autoImplicit false

namespace Ktty.Agent

open Ktty.Wire Ktty.Crypto

/-- The token that a run takes from an event. -/
def takesToken (L : Crates) : Phase → Event → Option Text
  | .init, .ws (.text t) => if previewOk 100 t then interceptAuth L t else none
  | _, _ => none

section Step

variable {S : Session} {L : Crates} {st : RunState} {e : Event} {r : RunState × List Effect}

theorem initRecv_token (item : WsItem) :
    (initRecv L st item).1.relayAuthToken =
      (takesToken L .init (.ws item)).or st.relayAuthToken := by
  cases item with
  | text t =>
      rw [initRecv, takesToken]
      cases hok : previewOk 100 t with
      | false => rfl
      | true =>
          simp only [Bool.not_true, Bool.false_eq_true, if_false, if_true]
          cases interceptAuth L t with
          | some token => rfl
          | none =>
              dsimp only
              split
              · rfl
              · rfl
  | _ => rfl

theorem waitRecv_token (item : WsItem) : (waitRecv st item).1.relayAuthToken = st.relayAuthToken := by
  cases item with
  | text t =>
      rw [waitRecv]
      split
      · rfl
      · split
        · rfl
        · rfl
  | _ => rfl

theorem handshakeRecv_token (dk : Bytes) (item : WsItem) :
    (handshakeRecv S st dk item).1.relayAuthToken = st.relayAuthToken := by
  cases item with
  | text t =>
      rw [handshakeRecv]
      split
      · rfl
      · cases (S.crates.json.fromStr t).bind RawMessage.deserialize with
        | none => rfl
        | some raw =>
            dsimp only
            cases handshakeReply S.crates.prim dk raw with
            | derived key => cases st.writerAlive <;> rfl
            | _ => rfl
  | _ => rfl

theorem afterBridge_token (exit : BridgeExit) :
    (afterBridge st exit).relayAuthToken = st.relayAuthToken := by
  cases exit with
  | _ => rfl

theorem bridgePty_token (key : Bytes) (sid : Text) (result : Option Bytes) :
    (bridgePty L key sid st result).state.relayAuthToken = st.relayAuthToken := by
  cases result with
  | none => rfl
  | some data =>
      rw [bridgePty]
      cases sealPacket L key sid st.relayAuthToken st.rng (st.seq + 1) "pty".toList data with
      | none => rfl
      | some env => cases hw : st.writerAlive <;> simp [storeChunk, hw]

theorem bridgeTurn_token {key : Bytes} {sid : Text} {turn : BridgeTurn}
    (h : bridgeTurn L key sid st e = some turn) :
    turn.resume.1.relayAuthToken = st.relayAuthToken := by
  have hstate : turn.state.relayAuthToken = st.relayAuthToken := by
    cases e with
    | ws item =>
        obtain rfl := Option.some.inj h
        cases item with
        | text t =>
            rcases bridgeText_state L st key sid t with ⟨n, -, hn⟩ | hcrash
            · rw [bridgeRecv, hn]
            · rw [bridgeRecv, hcrash]
              rfl
        | _ => rfl
    | pty result =>
        obtain rfl := Option.some.inj h
        exact bridgePty_token key sid result
    | tick elapsed =>
        obtain rfl := Option.some.inj h
        rw [bridgeTick]
        split
        · rfl
        · rfl
    | connected ok => cases h
    | proceed => cases h
    | writerExit => cases h
  rw [BridgeTurn.resume]
  cases turn.exit with
  | none => exact hstate
  | some exit => exact (afterBridge_token exit).trans hstate

/-- A run takes its token from a text in the init loop, and keeps it otherwise. -/
theorem token_step (h : S.step st e = some r) :
    r.1.relayAuthToken = (takesToken S.crates st.phase e).or st.relayAuthToken := by
  by_cases he : e = .writerExit
  · subst he
    obtain ⟨-, rfl⟩ := step_writerExit h
    cases st.phase <;> rfl
  · rw [step_eq_react he] at h
    have hreacts := reacts_of_react h
    generalize st.phase = p at hreacts
    cases hreacts with
    | initRecv item => exact initRecv_token item
    | initTick elapsed => rfl
    | connected ok => cases ok <;> rfl
    | join =>
        rw [sendJoin]
        split
        · rfl
        · rfl
    | waitPty result => cases result <;> rfl
    | waitRecv alive item => exact waitRecv_token item
    | waitTick alive elapsed =>
        rw [waitTick]
        split
        · rfl
        · rfl
    | boot =>
        rw [sendBoot]
        split
        · rfl
        · rfl
    | offer =>
        rw [sendOffer]
        cases st.writerAlive <;> rfl
    | handshakeRecv dk item => exact handshakeRecv_token dk item
    | bridge hturn => exact bridgeTurn_token hturn

end Step

end Ktty.Agent
