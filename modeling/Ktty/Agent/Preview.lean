import Ktty.Agent.SessionSteps
import Ktty.Agent.SampleCrates
import Ktty.Lib.Execution

/-!
# Previews in log lines

Four loops of `Session::run` log the first bytes of a text with a slice like
`&text[..text.len().min(100)]`, which panics when the offset is not on a character boundary.
`uncrashed_iff` says which texts a run survives: the init loop, the wait loop and the receive loop of
`perform_handshake` slice every text, the bridge loop only a text that is no control message and no
envelope. In `perform_handshake`, `from_slice` panics too, on a ciphertext of the wrong length.
-/

set_option autoImplicit false

namespace Ktty.Agent

open Ktty.Wire Ktty.Crypto Ktty.Lib.Execution

section Preview

variable (S : Session)

def Uncrashed (st : RunState) : Prop := st.phase ≠ .crashed

/-- A ciphertext in the text has the right length. -/
def CiphertextFits (dk : Bytes) (t : Text) : Prop :=
  ∀ raw ctB64 ctBytes, (S.crates.json.fromStr t).bind RawMessage.deserialize = some raw →
    raw.isHandshake = true → raw.mlkemCiphertext = some ctB64 →
    S.crates.prim.b64Decode ctB64 = some ctBytes →
    (S.crates.prim.mlkemDecapsulate dk ctBytes).isSome = true

/-- A text does no harm in a phase. -/
def HarmlessText : Phase → Text → Prop
  | .init, t => previewOk 100 t = true
  | .wait _, t => previewOk 120 t = true
  | .handshake dk, t => previewOk 80 t = true ∧ CiphertextFits S dk t
  | .bridge _ _, t => controlExit t = none →
      (S.crates.json.fromStr t).bind EncryptedEnvelope.deserialize = none → previewOk 80 t = true
  | _, _ => True

/-- The condition on a step: a text that is read does no harm in the phase of the run. -/
def Harmless (st : RunState) : Event → Prop
  | .ws (.text t) => HarmlessText S st.phase t
  | _ => True

end Preview

/-! ## One step -/

section Step

variable {S : Session} {st : RunState}

theorem initRecv_uncrashed (hp : st.phase = .init) (item : WsItem) :
    Uncrashed (initRecv S.crates st item).1 ↔ Harmless S st (.ws item) := by
  cases item with
  | text t =>
      rw [Harmless, hp, HarmlessText, initRecv]
      cases hok : previewOk 100 t with
      | false => simp [Uncrashed]
      | true =>
          rw [Bool.not_true, if_neg (by simp)]
          cases interceptAuth S.crates t with
          | some token => simp [Uncrashed, hp]
          -- a text without a token moves on or is passed over:
          | none =>
              dsimp only
              split <;> simp [Uncrashed, hp]
  | _ => simp [initRecv, Uncrashed, Harmless, hp]

theorem waitRecv_uncrashed {alive : Bool} (hp : st.phase = .wait alive) (item : WsItem) :
    Uncrashed (waitRecv st item).1 ↔ Harmless S st (.ws item) := by
  cases item with
  | text t =>
      rw [Harmless, hp, HarmlessText, waitRecv]
      cases hok : previewOk 120 t with
      | false => simp [Uncrashed]
      | true =>
          rw [Bool.not_true, if_neg (by simp)]
          split <;> simp [Uncrashed, hp]
  | _ => simp [waitRecv, Uncrashed, Harmless, hp]

theorem handshakeReply_panicked {P : Primitives Bytes Text} {dk : Bytes} {raw : RawMessage Text} :
    handshakeReply P dk raw = .panicked ↔ ∃ ctB64 ctBytes, raw.isHandshake = true ∧
      raw.mlkemCiphertext = some ctB64 ∧ P.b64Decode ctB64 = some ctBytes ∧
      P.mlkemDecapsulate dk ctBytes = none := by
  rw [handshakeReply]
  cases raw.isHandshake with
  | false => simp
  | true =>
      cases raw.mlkemCiphertext with
      | none => simp
      | some ctB64 =>
          cases hdec : P.b64Decode ctB64 with
          | none => simp [hdec]
          | some ctBytes => cases hkey : P.mlkemDecapsulate dk ctBytes <;> simp [hdec, hkey]

theorem ciphertextFits_iff {dk : Bytes} {t : Text} :
    CiphertextFits S dk t ↔ ∀ raw, (S.crates.json.fromStr t).bind RawMessage.deserialize = some raw →
      handshakeReply S.crates.prim dk raw ≠ .panicked := by
  constructor
  · intro h raw hraw hpanic
    obtain ⟨ctB64, ctBytes, hshake, hct, hdec, hnone⟩ := handshakeReply_panicked.1 hpanic
    have hsome := h raw ctB64 ctBytes hraw hshake hct hdec
    rw [hnone] at hsome
    cases hsome
  · intro h raw ctB64 ctBytes hraw hshake hct hdec
    rw [Option.isSome_iff_ne_none]
    intro hnone
    exact h raw hraw (handshakeReply_panicked.2 ⟨ctB64, ctBytes, hshake, hct, hdec, hnone⟩)

theorem handshakeRecv_uncrashed {dk : Bytes} (hp : st.phase = .handshake dk) (item : WsItem) :
    Uncrashed (handshakeRecv S st dk item).1 ↔ Harmless S st (.ws item) := by
  cases item with
  | text t =>
      rw [Harmless, hp, HarmlessText, handshakeRecv]
      cases hok : previewOk 80 t with
      | false => simp [Uncrashed]
      | true =>
          rw [Bool.not_true, if_neg (by simp), ciphertextFits_iff]
          cases (S.crates.json.fromStr t).bind RawMessage.deserialize with
          | none => simp [Uncrashed, hp]
          | some raw =>
              dsimp only
              cases hreply : handshakeReply S.crates.prim dk raw with
              | ignored => simp [Uncrashed, hp, hreply]
              | failed => simp [Uncrashed, hreply]
              | panicked => simp [Uncrashed, hreply]
              | derived key => cases st.writerAlive <;> simp [Uncrashed, hreply]
  | _ => simp [handshakeRecv, Uncrashed, Harmless, hp]

theorem bridgeText_uncrashed {key : Bytes} {sid : Text} (hp : st.phase = .bridge key sid) (t : Text) :
    Uncrashed (bridgeText S.crates key sid st t).resume.1 ↔ Harmless S st (.ws (.text t)) := by
  rw [Harmless, hp, HarmlessText, bridgeText]
  cases hexit : controlExit t with
  | some exit => cases exit <;> simp [BridgeTurn.resume, afterBridge, Uncrashed]
  | none =>
      cases (S.crates.json.fromStr t).bind EncryptedEnvelope.deserialize with
      | none =>
          cases hok : previewOk 80 t with
          | true => simp [BridgeTurn.resume, Uncrashed, hp]
          | false => simp [BridgeTurn.resume, Uncrashed]
      | some env =>
          -- whatever an envelope does, it leaves the phase:
          obtain ⟨n, -, hn⟩ : ∃ n, st.rng ≤ n ∧
              (bridgeEnvelope S.crates key sid st env).1 = { st with rng := n } :=
            bridgeEnvelope_state key sid env
          simp [BridgeTurn.resume, Uncrashed, hn, hp]

theorem bridgeTurn_uncrashed {key : Bytes} {sid : Text} (hp : st.phase = .bridge key sid)
    {e : Event} {turn : BridgeTurn} (h : bridgeTurn S.crates key sid st e = some turn) :
    Uncrashed turn.resume.1 ↔ Harmless S st e := by
  cases e with
  | ws item =>
      obtain rfl := Option.some.inj h
      cases item with
      | text t => exact bridgeText_uncrashed hp t
      -- only a text is sliced:
      | _ => simp [bridgeRecv, BridgeTurn.resume, afterBridge, Uncrashed, Harmless, hp]
  | pty result =>
      obtain rfl := Option.some.inj h
      cases result with
      | none => simp [bridgePty, BridgeTurn.resume, afterBridge, Uncrashed, Harmless]
      | some data =>
          rw [bridgePty]
          cases sealPacket S.crates key sid st.relayAuthToken st.rng (st.seq + 1) "pty".toList data with
          | none => simp [BridgeTurn.resume, storeChunk, Uncrashed, Harmless, hp]
          | some env =>
              cases hw : st.writerAlive <;>
                simp [BridgeTurn.resume, afterBridge, storeChunk, Uncrashed, Harmless, hp, hw]
  | tick elapsed =>
      obtain rfl := Option.some.inj h
      rw [bridgeTick]
      split <;> simp [BridgeTurn.resume, afterBridge, Uncrashed, Harmless, hp]
  | connected ok => cases h
  | proceed => cases h
  | writerExit => cases h

/-- A step crashes the agent exactly when it reads a text that does harm. -/
theorem uncrashed_step {e : Event} {m : RunState} (hst : Uncrashed st) (h : S.next st e = some m) :
    Uncrashed m ↔ Harmless S st e := by
  obtain ⟨r, hr, rfl⟩ := Option.map_eq_some_iff.1 h
  by_cases he : e = .writerExit
  · subst he
    -- the end of the writer task leaves the phase:
    obtain ⟨-, rfl⟩ := step_writerExit hr
    exact ⟨fun _ => trivial, fun _ => hst⟩
  · rw [step_eq_react he] at hr
    have hreacts := reacts_of_react hr
    generalize hp : st.phase = p at hreacts
    cases hreacts with
    | connected ok => cases ok <;> simp [Agent.connected, Uncrashed, Harmless]
    | join =>
        rw [sendJoin]
        split <;> simp [Uncrashed, Harmless]
    | initRecv item => exact initRecv_uncrashed hp item
    | initTick elapsed => simp [Uncrashed, Harmless, hp]
    | waitPty result => cases result <;> simp [waitPty, storeChunk, Uncrashed, Harmless, hp]
    | waitRecv alive item => exact waitRecv_uncrashed hp item
    | waitTick alive elapsed =>
        rw [waitTick]
        split <;> simp [Uncrashed, Harmless, hp]
    | boot =>
        rw [sendBoot]
        split <;> simp [Uncrashed, Harmless]
    | offer =>
        rw [sendOffer]
        cases st.writerAlive <;> simp [Uncrashed, Harmless]
    | handshakeRecv dk item => exact handshakeRecv_uncrashed hp item
    | bridge hturn => exact bridgeTurn_uncrashed hp hturn

end Step

/-! ## Runs -/

/-- The runs that do not crash are those in which every text that is read does no harm in its phase. -/
theorem uncrashed_iff (S : Session) (es : List Event) :
    Along (stepRel S.next) Uncrashed Session.start es ↔
      Guarded (stepRel S.next) (Harmless S) Session.start es := by
  apply along_iff_guarded (I := fun _ => True)
  · intro st e m _ _
    trivial
  · intro st e m _ hst h
    exact uncrashed_step hst h
  · trivial
  · intro h
    cases h

/-- A text of 99 ASCII characters and a character of two bytes. -/
def Sample.cut : Text := List.replicate 99 'a' ++ ['é']

/-- A text whose hundredth byte is the first of two crashes the init loop. -/
theorem cut_character_crashes :
    ∃ st, Run (stepRel (Sample.session []).next) Session.start
        [.connected true, .proceed, .ws (.text Sample.cut)] st ∧ ¬ Uncrashed st := by
  refine ⟨_, run_of_exec rfl, fun h => h ?_⟩
  -- byte 100 is the second one of the last character:
  have hcut : previewOk 100 Sample.cut = false := by decide +kernel
  simp [initRecv, hcut]

end Ktty.Agent
