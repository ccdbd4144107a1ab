import Ktty.Agent.Session

/-!
# What one step of the session can do

`Session.Reacts` lists the code of the phases event by event. From it follow the answers to what the
invariants ask of a step: with which result it ends the run (`step_result`), and how the run can come to
stand in the receive loop of the handshake (`step_inHandshake`). Outside the handshake a step sends no
handshake message and enters neither that loop nor the bridge loop (`react_aside`). Each is put together
from a lemma per loop.
-/

set_option autoImplicit false

namespace Ktty.Agent

open Ktty.Wire Ktty.Crypto

/-- The buffer of the PTY reader thread. -/
def READ_BUF_SIZE : Nat := 4096

/-- The next state of a run, without the effects. -/
def Session.next (S : Session) (st : RunState) (e : Event) : Option RunState := (S.step st e).map (·.1)

/-- Apart from the end of the writer task, a step is the code of the phase. -/
theorem step_eq_react {S : Session} {st : RunState} {e : Event} (he : e ≠ .writerExit) :
    S.step st e = S.react st st.phase e := by
  cases e with
  | writerExit => exact absurd rfl he
  | _ => rfl

/-- The writer task ends in a step of its own. -/
theorem step_writerExit {S : Session} {st : RunState} {r : RunState × List Effect}
    (h : S.step st .writerExit = some r) :
    st.phase.hasWriter = true ∧ r = ({ st with writerAlive := false }, []) := by
  rw [Session.step] at h
  split at h
  · exact ⟨by assumption, (Option.some.inj h).symm⟩
  · cases h

/-- The code of the phases, event by event. -/
inductive Session.Reacts (S : Session) (st : RunState) :
    Phase → Event → RunState × List Effect → Prop
  | connected (ok : Bool) : Reacts S st .connecting (.connected ok) (connected st ok)
  | join : Reacts S st .joining .proceed (sendJoin S st)
  | initRecv (item : WsItem) : Reacts S st .init (.ws item) (initRecv S.crates st item)
  | initTick (elapsed : Nat) : Reacts S st .init (.tick elapsed) (st, st.trySend .ping)
  | waitPty (result : Option Bytes) :
      Reacts S st (.wait true) (.pty result) (waitPty st result)
  | waitRecv (alive : Bool) (item : WsItem) :
      Reacts S st (.wait alive) (.ws item) (waitRecv st item)
  | waitTick (alive : Bool) (elapsed : Nat) :
      Reacts S st (.wait alive) (.tick elapsed) (waitTick st elapsed)
  | boot : Reacts S st .boot .proceed (sendBoot st)
  | offer : Reacts S st .offer .proceed (sendOffer S.crates st)
  | handshakeRecv (dk : Bytes) (item : WsItem) :
      Reacts S st (.handshake dk) (.ws item) (handshakeRecv S st dk item)
  | bridge {key : Bytes} {sid : Text} {e : Event} {turn : BridgeTurn} :
      bridgeTurn S.crates key sid st e = some turn →
      Reacts S st (.bridge key sid) e turn.resume

/-- A phase reacts to the events it waits for, and in no other way. -/
theorem reacts_of_react {S : Session} {st : RunState} {p : Phase} {e : Event}
    {r : RunState × List Effect} (h : S.react st p e = some r) : S.Reacts st p e r := by
  cases p with
  | connecting =>
      cases e with
      | connected ok =>
          obtain rfl := Option.some.inj h
          exact .connected ok
      | _ => cases h
  | joining =>
      cases e with
      | proceed =>
          obtain rfl := Option.some.inj h
          exact .join
      | _ => cases h
  | init =>
      cases e with
      | ws item =>
          obtain rfl := Option.some.inj h
          exact .initRecv item
      | tick elapsed =>
          obtain rfl := Option.some.inj h
          exact .initTick elapsed
      | _ => cases h
  | wait alive =>
      cases e with
      | pty result =>
          -- the reader is only polled while it is alive
          cases alive with
          | false => cases h
          | true =>
              obtain rfl := Option.some.inj h
              exact .waitPty result
      | ws item =>
          have hr : some (waitRecv st item) = some r := by cases alive <;> exact h
          obtain rfl := Option.some.inj hr
          exact .waitRecv alive item
      | tick elapsed =>
          have hr : some (waitTick st elapsed) = some r := by cases alive <;> exact h
          obtain rfl := Option.some.inj hr
          exact .waitTick alive elapsed
      | _ => cases alive <;> cases h
  | boot =>
      cases e with
      | proceed =>
          obtain rfl := Option.some.inj h
          exact .boot
      | _ => cases h
  | offer =>
      cases e with
      | proceed =>
          obtain rfl := Option.some.inj h
          exact .offer
      | _ => cases h
  | handshake dk =>
      cases e with
      | ws item =>
          obtain rfl := Option.some.inj h
          exact .handshakeRecv dk item
      | _ => cases h
  | bridge key sid =>
      simp only [Session.react, Option.map_eq_some_iff] at h
      obtain ⟨turn, hturn, rfl⟩ := h
      exact .bridge hturn
  | returned result => cases e <;> cases h
  | crashed => cases e <;> cases h

/-- A chunk of the PTY reader fits its buffer. -/
def Event.fitsBuffer : Event → Bool
  | .pty (some data) => decide (data.length ≤ READ_BUF_SIZE)
  | _ => true

theorem sealPacket_isSome (L : Crates) (key : Bytes) (sid : Text) (auth : Option Text)
    (n seq : Nat) (msgType : Text) {data : Bytes} (hfit : data.length ≤ READ_BUF_SIZE) :
    (sealPacket L key sid auth n seq msgType data).isSome = true := by
  rw [sealPacket, Option.isSome_map]
  apply encrypt_isSome
  rw [READ_BUF_SIZE] at hfit
  omega

/-! ## The result of a run -/

/-- The result of a run that has returned. -/
def Phase.result : Phase → Option RunResult
  | .returned r => some r
  | _ => none

/-- The events on which the code gives the relay connection up and hands the PTY back. -/
def handsBack (st : RunState) (e : Event) : Bool :=
  match st.phase, e with
  | .init, .ws .ended => true
  | .init, .ws .error => true
  | .wait _, .ws .ended => true
  | .wait _, .ws .error => true
  | .wait _, .tick elapsed => decide (45 < elapsed)
  | .bridge _ _, .ws .ended => true
  | .bridge _ _, .ws .error => true
  | .bridge _ _, .ws .close => true
  | .bridge _ _, .tick elapsed => decide (45 < elapsed)
  -- the live send fails
  | .bridge _ _, .pty (some _) => !st.writerAlive
  | _, _ => false

/-- The events on which a `?` returns from `run`. -/
def failsWithErr (st : RunState) (e : Event) : Bool :=
  match st.phase, e with
  | .connecting, .connected ok => !ok
  | .joining, .proceed => !st.writerAlive
  | .boot, .proceed => !st.writerAlive
  | _, _ => false

/-- The end of the PTY reader, received in the bridge loop. -/
def seesExit (st : RunState) (e : Event) : Bool :=
  match st.phase, e with
  | .bridge _ _, .pty none => true
  | _, _ => false

/-- The result with which an event ends the run, if it ends it. -/
def resultOn (st : RunState) (e : Event) : Option RunResult :=
  if handsBack st e then some .ptyHandedBack
  else if failsWithErr st e then some .err
  else if seesExit st e then some .shellExited
  else none

section Results

variable {L : Crates} {S : Session} {st : RunState}

theorem initRecv_result (hp : st.phase = .init) (item : WsItem) :
    (initRecv L st item).1.phase.result = resultOn st (.ws item) := by
  cases item with
  | text t =>
      -- no text ends the run in the init loop:
      have hnone : resultOn st (.ws (.text t)) = none := by
        simp [resultOn, handsBack, failsWithErr, seesExit, hp]
      rw [hnone, initRecv]
      split
      · rfl
      · cases interceptAuth L t with
        | some token => simp [hp, Phase.result]
        | none => cases isJoinText t <;> simp [hp, Phase.result]
  | _ => simp [initRecv, hp, Phase.result, resultOn, handsBack, failsWithErr, seesExit]

theorem waitRecv_result {alive : Bool} (hp : st.phase = .wait alive) (item : WsItem) :
    (waitRecv st item).1.phase.result = resultOn st (.ws item) := by
  cases item with
  | text t =>
      have hnone : resultOn st (.ws (.text t)) = none := by
        simp [resultOn, handsBack, failsWithErr, seesExit, hp]
      rw [hnone, waitRecv]
      split
      · rfl
      · cases isJoinText t <;> simp [hp, Phase.result]
  | _ => simp [waitRecv, hp, Phase.result, resultOn, handsBack, failsWithErr, seesExit]

theorem handshakeRecv_result {dk : Bytes} (hp : st.phase = .handshake dk) (item : WsItem) :
    (handshakeRecv S st dk item).1.phase.result = resultOn st (.ws item) := by
  -- nothing ends the run from the handshake; a failure leads to the wait loop:
  have hnone : resultOn st (.ws item) = none := by
    simp [resultOn, handsBack, failsWithErr, seesExit, hp]
  rw [hnone]
  cases item with
  | text t =>
      rw [handshakeRecv]
      split
      · rfl
      · cases (S.crates.json.fromStr t).bind RawMessage.deserialize with
        | none => simp [hp, Phase.result]
        | some raw =>
            dsimp only
            cases handshakeReply S.crates.prim dk raw with
            | derived key => cases st.writerAlive <;> rfl
            -- the loop keeps waiting
            | ignored => simp [hp, Phase.result]
            | failed => rfl
            | panicked => rfl
  | _ => simp [handshakeRecv, hp, Phase.result]

/-- Dispatching an envelope only draws nonces. -/
theorem dispatch_state (key : Bytes) (sid type : Text) (plain : Bytes) :
    ∃ n, st.rng ≤ n ∧ (dispatch L key sid st type plain).1 = { st with rng := n } := by
  -- only a sync request draws anything:
  have same : ∃ n, st.rng ≤ n ∧ st = { st with rng := n } := ⟨st.rng, le_rfl, rfl⟩
  rw [dispatch]
  split_ifs
  · exact same
  · cases (L.json.fromSlice plain).bind ResizePayload.deserialize with
    | some r => exact same
    | none => exact same
  · exact same
  · rw [handleSyncReq]
    cases (L.json.fromSlice plain).bind SyncReqPayload.deserialize with
    | none => exact same
    | some syncData =>
        dsimp only
        split_ifs
        · exact same
        · -- the warning and the packets take a nonce each
          exact ⟨_, (Nat.le_add_right _ _).trans (Nat.le_add_right _ _), rfl⟩
  · exact same

theorem bridgeEnvelope_state (key : Bytes) (sid : Text) (env : EncryptedEnvelope) :
    ∃ n, st.rng ≤ n ∧ (bridgeEnvelope L key sid st env).1 = { st with rng := n } := by
  rw [bridgeEnvelope]
  cases openEnvelope L key sid env with
  | none => exact ⟨st.rng, le_rfl, rfl⟩
  | some plain => exact dispatch_state key sid env.type plain

/-- A text leaves the bridge loop exactly when it is a control message. -/
theorem bridgeText_exit (key : Bytes) (sid t : Text) :
    (bridgeText L key sid st t).exit = controlExit t := by
  rw [bridgeText]
  cases controlExit t with
  | some e => rfl
  | none =>
      cases (L.json.fromStr t).bind EncryptedEnvelope.deserialize with
      | none => rfl
      | some env => rfl

/-- A text of the bridge loop draws nonces or makes the agent panic. -/
theorem bridgeText_state (L : Crates) (st : RunState) (key : Bytes) (sid t : Text) :
    (∃ n, st.rng ≤ n ∧ (bridgeText L key sid st t).state = { st with rng := n }) ∨
      (bridgeText L key sid st t).state = st.goto .crashed := by
  rw [bridgeText]
  cases controlExit t with
  | some e => exact Or.inl ⟨st.rng, le_rfl, rfl⟩
  | none =>
      cases (L.json.fromStr t).bind EncryptedEnvelope.deserialize with
      | none =>
          dsimp only
          split
          · exact Or.inl ⟨st.rng, le_rfl, rfl⟩
          · -- the log line cuts a character in two
            exact Or.inr rfl
      | some env => exact Or.inl (bridgeEnvelope_state key sid env)

theorem bridgeText_result {key : Bytes} {sid : Text} (hp : st.phase = .bridge key sid) (t : Text) :
    (bridgeText L key sid st t).resume.1.phase.result = none := by
  rw [BridgeTurn.resume, bridgeText_exit]
  cases hexit : controlExit t with
  | some e =>
      rw [controlExit] at hexit
      -- a control message leads to the wait loop or to a new boot signal:
      split_ifs at hexit <;> cases hexit <;> rfl
  | none =>
      rcases bridgeText_state L st key sid t with ⟨n, -, hn⟩ | hcrash
      · simp [hn, hp, Phase.result]
      · simp [hcrash, Phase.result]

theorem bridgePty_result {key : Bytes} {sid : Text} (hp : st.phase = .bridge key sid)
    (result : Option Bytes) (hfit : (Event.pty result).fitsBuffer = true) :
    (bridgePty L key sid st result).resume.1.phase.result = resultOn st (.pty result) := by
  cases result with
  | none => simp [bridgePty, BridgeTurn.resume, afterBridge, resultOn, handsBack, failsWithErr,
      seesExit, hp, Phase.result]
  | some data =>
      -- a chunk that fits the buffer is sealed, so all depends on the send:
      obtain ⟨env, henv⟩ := Option.isSome_iff_exists.1
        (sealPacket_isSome L key sid st.relayAuthToken st.rng (st.seq + 1) "pty".toList
          (of_decide_eq_true hfit))
      simp only [bridgePty, henv]
      -- a failed send ends the bridge loop, and with it the run
      cases hw : st.writerAlive with
      | true => simp [BridgeTurn.resume, storeChunk, resultOn, handsBack, failsWithErr, seesExit, hp,
          hw, Phase.result]
      | false => simp [BridgeTurn.resume, afterBridge, resultOn, handsBack, hp, hw, Phase.result]

/-- The result with which a turn of the bridge loop ends the run. -/
theorem bridgeTurn_result {key : Bytes} {sid : Text} (hp : st.phase = .bridge key sid) {e : Event}
    (hfit : e.fitsBuffer = true) {turn : BridgeTurn} (h : bridgeTurn L key sid st e = some turn) :
    turn.resume.1.phase.result = resultOn st e := by
  cases e with
  | ws item =>
      obtain rfl := Option.some.inj h
      cases item with
      | text t =>
          have hnone : resultOn st (.ws (.text t)) = none := by
            simp [resultOn, handsBack, failsWithErr, seesExit, hp]
          rw [hnone]
          exact bridgeText_result hp t
      | _ => simp [bridgeRecv, BridgeTurn.resume, afterBridge, hp, Phase.result, resultOn, handsBack,
          failsWithErr, seesExit]
  | pty result =>
      obtain rfl := Option.some.inj h
      exact bridgePty_result hp result hfit
  | tick elapsed =>
      obtain rfl := Option.some.inj h
      rw [bridgeTick]
      split_ifs with hlong <;>
        simp [BridgeTurn.resume, afterBridge, hp, Phase.result, resultOn, handsBack, failsWithErr,
          seesExit, hlong]
  | connected ok => cases h
  | proceed => cases h
  | writerExit => cases h

/-- An event handled by the code of a phase ends the run as `resultOn` says. -/
theorem react_result {p : Phase} (hp : st.phase = p) {e : Event} {r : RunState × List Effect}
    (hfit : e.fitsBuffer = true) (h : S.react st p e = some r) : r.1.phase.result = resultOn st e := by
  cases reacts_of_react h with
  | bridge hturn => exact bridgeTurn_result hp hfit hturn
  | handshakeRecv dk item => exact handshakeRecv_result hp item
  | initRecv item => exact initRecv_result hp item
  | initTick elapsed => simp [hp, Phase.result, resultOn, handsBack, failsWithErr, seesExit]
  | waitRecv alive item => exact waitRecv_result hp item
  | waitTick alive elapsed =>
      rw [waitTick]
      split_ifs with hlong <;>
        simp [hp, Phase.result, resultOn, handsBack, failsWithErr, seesExit, hlong]
  | waitPty result =>
      cases result <;>
        simp [waitPty, storeChunk, hp, Phase.result, resultOn, handsBack, failsWithErr, seesExit]
  | connected ok =>
      cases ok <;> simp [connected, hp, Phase.result, resultOn, handsBack, failsWithErr, seesExit]
  | join =>
      cases hw : st.writerAlive <;>
        simp [sendJoin, hp, hw, Phase.result, resultOn, handsBack, failsWithErr, seesExit]
  | boot =>
      cases hw : st.writerAlive <;>
        simp [sendBoot, hp, hw, Phase.result, resultOn, handsBack, failsWithErr, seesExit]
  | offer =>
      cases hw : st.writerAlive <;>
        simp [sendOffer, hp, hw, Phase.result, resultOn, handsBack, failsWithErr, seesExit]

/-- A step ends the run on the events that `resultOn` lists and with the result it gives. -/
theorem step_result {e : Event} {r : RunState × List Effect} (hfit : e.fitsBuffer = true)
    (h : S.step st e = some r) : r.1.phase.result = resultOn st e := by
  by_cases he : e = .writerExit
  · subst he
    -- no phase that has a writer task has returned:
    obtain ⟨hwriter, rfl⟩ := step_writerExit h
    cases hp : st.phase <;>
      simp_all [Phase.result, Phase.hasWriter, resultOn, handsBack, failsWithErr, seesExit]
  · rw [step_eq_react he] at h
    exact react_result rfl hfit h

end Results

/-! ## Steps beside the handshake -/

/-- The run stands in the bridge loop. -/
def Phase.inBridge : Phase → Bool
  | .bridge _ _ => true
  | _ => false

/-- The run stands in the receive loop of `perform_handshake`. -/
def Phase.inHandshake : Phase → Bool
  | .handshake _ => true
  | _ => false

/-- The message of an effect as far as it belongs to the handshake, without the relay token. -/
def Effect.handshakeMsg : Effect → Option (RawMessage Text)
  | .send (.join roomId) => some (.join roomId)
  | .send (.offer pubKeyB64 _) => some (.offer pubKeyB64)
  | .send (.hmac hmacB64 _) => some (.hmacMsg hmacB64)
  | _ => none

/-- The handshake messages among the effects of a step. -/
def handshakeMsgs (effs : List Effect) : List (RawMessage Text) := effs.filterMap Effect.handshakeMsg

/-- A step outside the handshake: no handshake message is sent, and neither the receive loop of the
handshake nor the bridge loop is entered. -/
structure Aside (st : RunState) (r : RunState × List Effect) : Prop where
  msgs : handshakeMsgs r.2 = []
  rng : st.rng ≤ r.1.rng
  phase : r.1.phase = st.phase ∨ r.1.phase.inHandshake = false ∧ r.1.phase.inBridge = false

section Aside

variable {L : Crates} {S : Session} {st : RunState}

theorem handshakeMsgs_trySend {m : AgentMsg} (h : (Effect.send m).handshakeMsg = none) :
    handshakeMsgs (st.trySend m) = [] := by
  rw [RunState.trySend]
  split
  · simp [handshakeMsgs, h]
  · rfl

theorem initRecv_aside (item : WsItem) : Aside st (initRecv L st item) := by
  cases item with
  | text t =>
      rw [initRecv]
      split
      · -- the log line panics
        exact ⟨rfl, le_rfl, Or.inr ⟨rfl, rfl⟩⟩
      · cases interceptAuth L t with
        | some token => exact ⟨rfl, le_rfl, Or.inl rfl⟩
        | none =>
            dsimp only
            split
            · exact ⟨rfl, le_rfl, Or.inr ⟨rfl, rfl⟩⟩
            · exact ⟨rfl, le_rfl, Or.inl rfl⟩
  | ping d => exact ⟨handshakeMsgs_trySend rfl, le_rfl, Or.inl rfl⟩
  | error => exact ⟨rfl, le_rfl, Or.inr ⟨rfl, rfl⟩⟩
  | ended => exact ⟨rfl, le_rfl, Or.inr ⟨rfl, rfl⟩⟩
  | _ => exact ⟨rfl, le_rfl, Or.inl rfl⟩

theorem waitRecv_aside (item : WsItem) : Aside st (waitRecv st item) := by
  cases item with
  | text t =>
      rw [waitRecv]
      split_ifs
      · exact ⟨rfl, le_rfl, Or.inr ⟨rfl, rfl⟩⟩
      · exact ⟨rfl, le_rfl, Or.inr ⟨rfl, rfl⟩⟩
      · exact ⟨rfl, le_rfl, Or.inl rfl⟩
  | ping d => exact ⟨handshakeMsgs_trySend rfl, le_rfl, Or.inl rfl⟩
  | error => exact ⟨rfl, le_rfl, Or.inr ⟨rfl, rfl⟩⟩
  | ended => exact ⟨rfl, le_rfl, Or.inr ⟨rfl, rfl⟩⟩
  | _ => exact ⟨rfl, le_rfl, Or.inl rfl⟩

theorem sendAll_quiet (envs : List EncryptedEnvelope) :
    handshakeMsgs (envs.flatMap fun env => st.trySend (.envelope env)) = [] := by
  induction envs with
  | nil => rfl
  | cons env envs ih =>
      rw [List.flatMap_cons, handshakeMsgs, List.filterMap_append]
      -- the messages of the first envelope and those of the others:
      change handshakeMsgs _ ++ handshakeMsgs _ = _
      rw [ih, handshakeMsgs_trySend rfl]
      rfl

/-- The dispatch answers with envelopes and acts on the PTY. -/
theorem dispatch_quiet (key : Bytes) (sid type : Text) (plain : Bytes) :
    handshakeMsgs (dispatch L key sid st type plain).2 = [] := by
  rw [dispatch]
  split_ifs
  · rfl
  · cases (L.json.fromSlice plain).bind ResizePayload.deserialize <;> rfl
  · rfl
  · rw [handleSyncReq]
    cases (L.json.fromSlice plain).bind SyncReqPayload.deserialize with
    | none => rfl
    | some syncData =>
        dsimp only
        split_ifs
        · rfl
        · exact sendAll_quiet _
  · rfl

theorem bridgeText_quiet (st : RunState) (key : Bytes) (sid t : Text) :
    handshakeMsgs (bridgeText L key sid st t).effects = [] := by
  rw [bridgeText]
  cases controlExit t with
  | some e => rfl
  | none =>
      cases (L.json.fromStr t).bind EncryptedEnvelope.deserialize with
      | none => rfl
      | some env =>
          dsimp only
          rw [bridgeEnvelope]
          cases openEnvelope L key sid env with
          | none => rfl
          | some plain => exact dispatch_quiet key sid env.type plain

/-- How the run goes on after a turn of the bridge loop. -/
theorem resume_aside {turn : BridgeTurn} (h : Aside st (turn.state, turn.effects)) :
    Aside st turn.resume := by
  rw [BridgeTurn.resume]
  cases turn.exit with
  | none => exact h
  | some e =>
      -- every exit leads out of the bridge loop and none into the handshake:
      refine ⟨h.msgs, h.rng.trans ?_, Or.inr ?_⟩
      · cases e <;> exact le_rfl
      · cases e <;> exact ⟨rfl, rfl⟩

theorem bridgeTurn_aside (key : Bytes) (sid : Text) {e : Event} {turn : BridgeTurn}
    (h : bridgeTurn L key sid st e = some turn) : Aside st turn.resume := by
  apply resume_aside
  cases e with
  | ws item =>
      obtain rfl := Option.some.inj h
      cases item with
      | text t =>
          -- the text draws nonces, or its log line panics:
          have hquiet := bridgeText_quiet (L := L) st key sid t
          rcases bridgeText_state L st key sid t with ⟨n, hn, hstate⟩ | hcrash
          · refine ⟨hquiet, ?_, Or.inl ?_⟩
            · rw [bridgeRecv, hstate]
              exact hn
            · rw [bridgeRecv, hstate]
          · refine ⟨hquiet, ?_, Or.inr ?_⟩
            · rw [bridgeRecv, hcrash]
              exact le_rfl
            · rw [bridgeRecv, hcrash]
              exact ⟨rfl, rfl⟩
      | ping d => exact ⟨handshakeMsgs_trySend rfl, le_rfl, Or.inl rfl⟩
      | _ => exact ⟨rfl, le_rfl, Or.inl rfl⟩
  | pty result =>
      obtain rfl := Option.some.inj h
      cases result with
      | none => exact ⟨rfl, le_rfl, Or.inl rfl⟩
      | some data =>
          rw [bridgePty]
          cases sealPacket L key sid st.relayAuthToken st.rng (st.seq + 1) "pty".toList data with
          | none => exact ⟨rfl, Nat.le_succ _, Or.inl rfl⟩
          | some env =>
              dsimp only
              split
              · exact ⟨rfl, Nat.le_succ _, Or.inl rfl⟩
              · exact ⟨rfl, Nat.le_succ _, Or.inl rfl⟩
  | tick elapsed =>
      obtain rfl := Option.some.inj h
      rw [bridgeTick]
      split
      · exact ⟨rfl, le_rfl, Or.inl rfl⟩
      · exact ⟨handshakeMsgs_trySend rfl, le_rfl, Or.inl rfl⟩
  | _ => cases h

/-- Outside the handshake and apart from the join message, a step is aside. -/
theorem react_aside {p : Phase} (hjoining : p ≠ .joining) (hoffer : p ≠ .offer)
    (hhandshake : p.inHandshake = false) {e : Event} {r : RunState × List Effect}
    (h : S.react st p e = some r) : Aside st r := by
  cases reacts_of_react h with
  | join => exact absurd rfl hjoining
  | offer => exact absurd rfl hoffer
  | handshakeRecv dk item => cases hhandshake
  | connected ok =>
      cases ok with
      | true => exact ⟨rfl, le_rfl, Or.inr ⟨rfl, rfl⟩⟩
      | false => exact ⟨rfl, le_rfl, Or.inr ⟨rfl, rfl⟩⟩
  | initRecv item => exact initRecv_aside item
  | initTick elapsed => exact ⟨handshakeMsgs_trySend rfl, le_rfl, Or.inl rfl⟩
  | waitRecv alive item => exact waitRecv_aside item
  | waitTick alive elapsed =>
      rw [waitTick]
      split
      · exact ⟨rfl, le_rfl, Or.inr ⟨rfl, rfl⟩⟩
      · exact ⟨handshakeMsgs_trySend rfl, le_rfl, Or.inl rfl⟩
  | waitPty result =>
      cases result with
      | none => exact ⟨rfl, le_rfl, Or.inr ⟨rfl, rfl⟩⟩
      | some data => exact ⟨rfl, le_rfl, Or.inl rfl⟩
  | boot =>
      rw [sendBoot]
      split
      · exact ⟨rfl, le_rfl, Or.inr ⟨rfl, rfl⟩⟩
      · exact ⟨rfl, le_rfl, Or.inr ⟨rfl, rfl⟩⟩
  | bridge hturn => exact bridgeTurn_aside _ _ hturn

end Aside

/-! ## The receive loop of the handshake -/

/-- The event is a text message. -/
def Event.isText : Event → Bool
  | .ws (.text _) => true
  | _ => false

/-- The text is a handshake message with a ciphertext. -/
def carriesCiphertext (L : Crates) (t : Text) : Bool :=
  match (L.json.fromStr t).bind RawMessage.deserialize with
  | some raw => raw.isHandshake && raw.mlkemCiphertext.isSome
  | none => false

def Effect.isOffer : Effect → Bool
  | .send (.offer _ _) => true
  | _ => false

section Handshake

variable {L : Crates} {S : Session} {st : RunState}

theorem handshakeReply_eq_ignored {β τ : Type} {P : Primitives β τ} {dk : β} {raw : RawMessage τ} :
    handshakeReply P dk raw = .ignored ↔ (raw.isHandshake && raw.mlkemCiphertext.isSome) = false := by
  rw [handshakeReply]
  cases raw.isHandshake with
  | false => simp
  | true =>
      cases raw.mlkemCiphertext with
      | none => simp
      | some ctB64 =>
          cases hb : P.b64Decode ctB64 with
          | none => simp [hb]
          | some ctBytes => cases hd : P.mlkemDecapsulate dk ctBytes <;> simp [hb, hd]

/-- The loop keeps waiting after a text exactly when the log line does not panic and the text carries
no ciphertext. -/
theorem handshakeRecv_text {dk : Bytes} (hp : st.phase = .handshake dk) (t : Text) :
    (handshakeRecv S st dk (.text t)).1.phase.inHandshake =
      (previewOk 80 t && !carriesCiphertext S.crates t) := by
  rw [handshakeRecv, carriesCiphertext]
  cases previewOk 80 t with
  | false => rfl
  | true =>
      cases (S.crates.json.fromStr t).bind RawMessage.deserialize with
      | none => simp [hp, Phase.inHandshake]
      | some raw =>
          have hign : handshakeReply S.crates.prim dk raw = .ignored ↔
              (raw.isHandshake && raw.mlkemCiphertext.isSome) = false := handshakeReply_eq_ignored
          cases hout : handshakeReply S.crates.prim dk raw with
          | ignored => simp [hp, hout, hign.1 hout, Phase.inHandshake]
          | _ =>
              -- the loop stops waiting, so the text carries a ciphertext:
              have hreply : (raw.isHandshake && raw.mlkemCiphertext.isSome) = true := by
                rw [← Bool.not_eq_false, ← hign, hout]
                simp
              cases st.writerAlive <;> simp [hout, hreply, Phase.inHandshake]

/-- The receive loop sends no offer. -/
theorem handshakeRecv_noOffer (dk : Bytes) (item : WsItem) :
    ∀ eff ∈ (handshakeRecv S st dk item).2, eff.isOffer = false := by
  cases item with
  | text t =>
      rw [handshakeRecv]
      split
      · simp
      · cases (S.crates.json.fromStr t).bind RawMessage.deserialize with
        | none => simp
        | some raw =>
            dsimp only
            cases handshakeReply S.crates.prim dk raw with
            | derived key => cases st.writerAlive <;> simp [Effect.isOffer]
            | _ => simp
  | ping d => cases hw : st.writerAlive <;> simp [handshakeRecv, RunState.trySend, hw, Effect.isOffer]
  | _ => simp [handshakeRecv]

/-- The receive loop of the handshake is entered by sending an offer, and by nothing else. -/
theorem react_inHandshake {p : Phase} (hp : st.phase = p) {e : Event} {r : RunState × List Effect}
    (h : S.react st p e = some r) (hr : r.1.phase.inHandshake = true) :
    (p = .offer ∧ ∃ pk auth, r.2 = [.send (.offer pk auth)]) ∨ p.inHandshake = true := by
  cases hin : p.inHandshake with
  | true => exact Or.inr rfl
  | false =>
      left
      cases reacts_of_react h with
      | offer =>
          cases hw : st.writerAlive with
          | true =>
              refine ⟨rfl, S.crates.prim.b64Encode (S.crates.prim.mlkemGenerate st.rng).2,
                st.relayAuthToken, ?_⟩
              simp [sendOffer, hw]
          | false => simp [sendOffer, hw, Phase.inHandshake] at hr
      | join => cases hw : st.writerAlive <;> simp [sendJoin, hw, Phase.inHandshake] at hr
      | _ =>
          -- every other phase leaves the handshake aside
          rcases (react_aside (by simp) (by simp) hin h).phase with hsame | ⟨hnot, -⟩
          · rw [hsame, hp, hin] at hr
            cases hr
          · rw [hnot] at hr
            cases hr

/-- A step ends in the receive loop of the handshake in three ways: the offer was sent, the writer
task ended meanwhile, or the loop received an item and keeps waiting. -/
theorem step_inHandshake {e : Event} {r : RunState × List Effect} (h : S.step st e = some r)
    (hr : r.1.phase.inHandshake = true) :
    (∃ pk auth, st.phase = .offer ∧ r.2 = [.send (.offer pk auth)]) ∨
      (st.phase.inHandshake = true ∧ e = .writerExit ∧ r.2 = []) ∨
        ∃ dk item, st.phase = .handshake dk ∧ e = .ws item ∧ r = handshakeRecv S st dk item := by
  by_cases he : e = .writerExit
  · subst he
    -- the phase is what it was:
    obtain ⟨-, rfl⟩ := step_writerExit h
    exact Or.inr (Or.inl ⟨hr, rfl, rfl⟩)
  · rw [step_eq_react he] at h
    rcases react_inHandshake rfl h hr with ⟨hoffer, pk, auth, heff⟩ | hin
    · exact Or.inl ⟨pk, auth, hoffer, heff⟩
    · cases hp : st.phase with
      | handshake dk =>
          rw [hp] at h
          cases e with
          | ws item => exact Or.inr (Or.inr ⟨dk, item, rfl, rfl, (Option.some.inj h).symm⟩)
          | _ => cases h
      | _ => simp [hp, Phase.inHandshake] at hin

end Handshake

end Ktty.Agent
