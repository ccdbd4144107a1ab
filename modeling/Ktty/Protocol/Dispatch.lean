import Ktty.Agent.SessionSteps
import Ktty.Agent.SampleCrates
import Ktty.Client.WebSocketService
import Ktty.Lib.Execution

/-!
# What the agent does for inbound envelopes

One session of the bridge loop, with the client on the other side of a relay that controls the frames.
The client's `sendEncrypted` makes envelopes under the session key, and so does the agent.

`Origin` gives the relay all frames whose payload decrypts only if the client or the agent made it, and
records what the bridge loop does for each text that it delivers. Every effect is one that a message of
the client asks for (`Orders`) exactly when no text of which something comes carries a ciphertext of the
agent, or one of the client under another type (`authentic_iff`): the type of an envelope is not under
the cipher, and both directions share the key.

`Replay` gives the relay the client's own envelopes, any number of times and in any order. Every
envelope is acted on once, and keystrokes in their order, exactly when the relay delivers them so
(`fresh_iff`): nothing compares the `seq` of an envelope with anything.
-/

set_option autoImplicit false

namespace Ktty.Protocol.Dispatch

open Ktty.Wire Ktty.Crypto Ktty.Lib.Execution Ktty.Agent Ktty.Client

/-! ## The agent side -/

section Agent

variable (L : Crates) (key : Bytes) (sid : Text)

/-- The dispatch comes to an action for a decrypted envelope: its type is known, and its body parses
where the action needs it. -/
def actsFor (type : Text) (plain : Bytes) : Bool :=
  if type = "pty".toList then true
  else if type = "resize".toList then
    ((L.json.fromSlice plain).bind ResizePayload.deserialize).isSome
  else if type = "sys_kill".toList then true
  else if type = "sync_req".toList then
    ((L.json.fromSlice plain).bind SyncReqPayload.deserialize).any fun d => d.sessionId = sid
  else false

/-- An action of the agent: the type of the envelope, the plaintext and the packed payload. -/
structure Act where
  type : Text
  plain : Bytes
  packed : Bytes
  deriving DecidableEq

/-- The action for an envelope. -/
def actOfEnvelope (env : EncryptedEnvelope) : Option Act := do
  let packed ← L.prim.b64Decode env.payload
  let plain ← openEnvelope L key sid env
  if actsFor L sid env.type plain then some { type := env.type, plain := plain, packed := packed }
  else none

/-- The action for a text in the bridge loop. -/
def actOf (t : Text) : Option Act :=
  match controlExit t with
  | some _ => none
  | none => ((L.json.fromStr t).bind EncryptedEnvelope.deserialize).bind (actOfEnvelope L key sid)

/-- The bytes that effects write to the PTY. -/
def written (effs : List Effect) : List Bytes :=
  effs.filterMap fun eff =>
    match eff with
    | .pty (.writeInput data) => some data
    | _ => none

/-- The ciphertexts that the agent sends. -/
def sealedBy (effs : List Effect) : List Bytes :=
  effs.filterMap fun eff =>
    match eff with
    | .send (.envelope env) => L.prim.b64Decode env.payload
    | _ => none

variable {L key sid}

/-- Without an action the dispatch has no effect. -/
theorem dispatch_noAction {st : RunState} {type : Text} {plain : Bytes}
    (h : actsFor L sid type plain = false) : dispatch L key sid st type plain = (st, []) := by
  rw [actsFor] at h
  rw [dispatch]
  split_ifs at h ⊢ with hpty hresize hkill hsync
  · -- a size that does not parse
    cases hr : (L.json.fromSlice plain).bind ResizePayload.deserialize with
    | none => rfl
    | some r => simp [hr] at h
  · -- a sync request that does not parse, or for another session
    rw [handleSyncReq]
    cases hr : (L.json.fromSlice plain).bind SyncReqPayload.deserialize with
    | none => rfl
    | some d =>
        rw [hr] at h
        have hsid : d.sessionId ≠ sid := by simpa using h
        dsimp only
        rw [if_pos hsid]
  · rfl

/-- A dispatch writes to the PTY for a `pty` envelope, and then its plaintext. -/
theorem dispatch_written (st : RunState) (type : Text) (plain : Bytes) :
    written (dispatch L key sid st type plain).2 =
      if type = "pty".toList then [plain] else [] := by
  rw [dispatch]
  split_ifs with hpty hresize hkill hsync
  · rfl
  · cases (L.json.fromSlice plain).bind ResizePayload.deserialize <;> rfl
  · rfl
  · rw [handleSyncReq]
    cases (L.json.fromSlice plain).bind SyncReqPayload.deserialize with
    | none => rfl
    | some d =>
        dsimp only
        split_ifs
        · rfl
        · -- a replay only sends
          rw [written, List.filterMap_eq_nil_iff]
          intro eff heff
          obtain ⟨env, -, hmem⟩ := List.mem_flatMap.1 heff
          rw [RunState.trySend] at hmem
          split at hmem
          · rw [List.mem_singleton.1 hmem]
          · cases hmem
  · rfl

end Agent

/-! ## Facts about actions -/

section Acts

variable {L : Crates} {key : Bytes} {sid : Text}

theorem actOfEnvelope_eq_some {env : EncryptedEnvelope} {act : Act}
    (h : actOfEnvelope L key sid env = some act) :
    L.prim.b64Decode env.payload = some act.packed ∧
      openEnvelope L key sid env = some act.plain ∧ env.type = act.type ∧
      actsFor L sid act.type act.plain = true := by
  simp only [actOfEnvelope, Option.bind_eq_bind, Option.bind_eq_some_iff] at h
  obtain ⟨packed, hpacked, plain, hplain, h⟩ := h
  split at h
  · rename_i hacts
    obtain rfl := Option.some.inj h
    exact ⟨hpacked, hplain, rfl, hacts⟩
  · cases h

/-- An action is for an envelope of its type, with its ciphertext and its plaintext. -/
theorem actOf_eq_some {t : Text} {act : Act} (h : actOf L key sid t = some act) :
    ∃ env, controlExit t = none ∧
      (L.json.fromStr t).bind EncryptedEnvelope.deserialize = some env ∧
      env.type = act.type ∧ L.prim.b64Decode env.payload = some act.packed ∧
      openEnvelope L key sid env = some act.plain ∧ actsFor L sid act.type act.plain = true := by
  rw [actOf] at h
  cases hexit : controlExit t with
  | some e =>
      rw [hexit] at h
      cases h
  | none =>
      rw [hexit] at h
      obtain ⟨env, hparse, henv⟩ := Option.bind_eq_some_iff.1 h
      obtain ⟨hpacked, hplain, htype, hacts⟩ := actOfEnvelope_eq_some henv
      exact ⟨env, rfl, hparse, htype, hpacked, hplain, hacts⟩

/-- The payload of an action decrypts to its plaintext. -/
theorem actOf_opens {t : Text} {act : Act} (h : actOf L key sid t = some act) :
    decrypt L.aead key act.packed = some act.plain := by
  obtain ⟨env, -, -, -, hpacked, hplain, -⟩ := actOf_eq_some h
  rw [openEnvelope] at hplain
  split at hplain
  · cases hplain
  · rw [hpacked] at hplain
    exact hplain

/-- An envelope without an action leaves the state and has no effect. -/
theorem bridgeEnvelope_noAction {st : RunState} {env : EncryptedEnvelope}
    (h : actOfEnvelope L key sid env = none) : bridgeEnvelope L key sid st env = (st, []) := by
  rw [bridgeEnvelope]
  cases hopen : openEnvelope L key sid env with
  | none => rfl
  | some plain =>
      apply dispatch_noAction
      cases hacts : actsFor L sid env.type plain with
      | false => rfl
      | true =>
          cases hdec : L.prim.b64Decode env.payload with
          | none => simp [openEnvelope, hdec] at hopen
          | some packed => simp [actOfEnvelope, hdec, hopen, hacts] at h

/-- A text without an action has no effect. -/
theorem bridgeText_noAction {st : RunState} {t : Text} (h : actOf L key sid t = none) :
    (bridgeText L key sid st t).effects = [] := by
  rw [actOf] at h
  rw [bridgeText]
  cases hexit : controlExit t with
  | some e => rfl
  | none =>
      rw [hexit] at h
      cases hparse : (L.json.fromStr t).bind EncryptedEnvelope.deserialize with
      | none => rfl
      | some env =>
          rw [hparse] at h
          dsimp only
          rw [bridgeEnvelope_noAction h]

/-- The effects for a text with an action are those of its dispatch. -/
theorem bridgeText_effects {st : RunState} {t : Text} {act : Act} (h : actOf L key sid t = some act) :
    (bridgeText L key sid st t).effects = (dispatch L key sid st act.type act.plain).2 := by
  obtain ⟨env, hexit, hparse, htype, -, hplain, -⟩ := actOf_eq_some h
  rw [bridgeText, hexit, hparse]
  dsimp only
  rw [bridgeEnvelope, hplain, ← htype]

/-- What a text with an action writes to the PTY. -/
theorem bridgeText_written {st : RunState} {t : Text} {act : Act}
    (h : actOf L key sid t = some act) :
    written (bridgeText L key sid st t).effects =
      if act.type = "pty".toList then [act.plain] else [] := by
  rw [bridgeText_effects h]
  exact dispatch_written st act.type act.plain

end Acts

/-! ## A sample session -/

namespace Sample

open Agent.Sample (chunk)

/-- The text of the first chunk. -/
def text : Text := Agent.Sample.text (chunk 0 1)

/-- Crates that read this text. -/
def crates : Crates := Agent.Sample.crates ((chunk 0 1).map EncryptedEnvelope.toJson).toList

end Sample

/-! ## Origin -/

/-- What a message of this type and plaintext asks of the agent. -/
inductive Orders (L : Crates) (key : Bytes) (sid : Text) (st : RunState) (type : Text) (plain : Bytes) :
    Effect → Prop
  | writeInput : type = "pty".toList → Orders L key sid st type plain (.pty (.writeInput plain))
  | resize {r : ResizePayload} : type = "resize".toList →
      (L.json.fromSlice plain).bind ResizePayload.deserialize = some r →
      Orders L key sid st type plain (.pty (.resize r.cols r.rows))
  | killProcessGroup : type = "sys_kill".toList →
      Orders L key sid st type plain (.pty .killProcessGroup)
  /-- A packet of the buffer or the warning, in answer to the request. -/
  | replay {d : SyncReqPayload} {env : EncryptedEnvelope} : type = "sync_req".toList →
      (L.json.fromSlice plain).bind SyncReqPayload.deserialize = some d → d.sessionId = sid →
      env ∈ (answerSync L key sid st d.lastSeq).2 →
      Orders L key sid st type plain (.send (.envelope env))

/-- The text is an envelope with the ciphertext of the client, under the type that the client gave it. -/
def Carries (L : Crates) (t : Text) (r : Sent) : Prop :=
  ∃ env, (L.json.fromStr t).bind EncryptedEnvelope.deserialize = some env ∧
    env.type = r.type ∧ L.prim.b64Decode env.payload = some r.packed

/-- Something comes of the action in this state: to a sync request there is something to send. -/
def takesEffect (L : Crates) (key : Bytes) (sid : Text) (st : RunState) (act : Act) : Bool :=
  if act.type = "sync_req".toList then
    st.writerAlive && ((L.json.fromSlice act.plain).bind SyncReqPayload.deserialize).any fun d =>
      !(answerSync L key sid st d.lastSeq).2.isEmpty
  else true

section Orders

variable {L : Crates} {key : Bytes} {sid : Text} {st : RunState}

/-- Whatever the dispatch does is what the message asks for. -/
theorem dispatch_orders {type : Text} {plain : Bytes} {eff : Effect}
    (h : eff ∈ (dispatch L key sid st type plain).2) : Orders L key sid st type plain eff := by
  rw [dispatch] at h
  split_ifs at h with hpty hresize hkill hsync
  · obtain rfl := List.mem_singleton.1 h
    exact .writeInput hpty
  · cases hr : (L.json.fromSlice plain).bind ResizePayload.deserialize with
    | none =>
        rw [hr] at h
        cases h
    | some r =>
        rw [hr] at h
        obtain rfl := List.mem_singleton.1 h
        exact .resize hresize hr
  · obtain rfl := List.mem_singleton.1 h
    exact .killProcessGroup hkill
  · rw [handleSyncReq] at h
    cases hd : (L.json.fromSlice plain).bind SyncReqPayload.deserialize with
    | none =>
        rw [hd] at h
        cases h
    | some d =>
        rw [hd] at h
        dsimp only at h
        split_ifs at h with hsid
        · cases h
        · obtain ⟨env, henv, heff⟩ := List.mem_flatMap.1 h
          rw [RunState.trySend] at heff
          split_ifs at heff
          · obtain rfl := List.mem_singleton.1 heff
            exact .replay hsync hd (not_not.1 hsid) henv
          · cases heff
  · cases h

/-- The dispatch for an action does something exactly when something comes of the action. -/
theorem dispatch_effects_iff {act : Act} (hacts : actsFor L sid act.type act.plain = true) :
    (dispatch L key sid st act.type act.plain).2 ≠ [] ↔ takesEffect L key sid st act = true := by
  rw [takesEffect]
  split_ifs with hsync
  · -- a sync request for this session: what is sent is the answer
    rw [hsync, actsFor, if_neg (by decide), if_neg (by decide), if_neg (by decide), if_pos rfl,
      Option.any_eq_true] at hacts
    obtain ⟨d, hd, hsid⟩ := hacts
    have hsid : d.sessionId = sid := of_decide_eq_true hsid
    rw [hsync, dispatch, if_neg (by decide), if_neg (by decide), if_neg (by decide), if_pos rfl,
      handleSyncReq, hd]
    dsimp only
    rw [if_neg (not_not.2 hsid), Option.any_some]
    cases halive : st.writerAlive with
    | false => simp [RunState.trySend, halive]
    | true => simp [RunState.trySend, halive, List.eq_nil_iff_forall_not_mem]
  · -- every other action is one call on the PTY
    rw [actsFor] at hacts
    rw [dispatch]
    split_ifs at hacts ⊢ with hpty hresize hkill
    · simp
    · cases hr : (L.json.fromSlice act.plain).bind ResizePayload.deserialize with
      | none => simp [hr] at hacts
      | some r => simp
    · simp

/-- What the bridge loop does for a text is asked by the message of an action of which something
comes. -/
theorem bridgeText_orders {t : Text} {eff : Effect}
    (h : eff ∈ (bridgeText L key sid st t).effects) :
    ∃ act, actOf L key sid t = some act ∧ takesEffect L key sid st act = true ∧
      Orders L key sid st act.type act.plain eff := by
  cases hact : actOf L key sid t with
  | none =>
      rw [bridgeText_noAction hact] at h
      cases h
  | some act =>
      rw [bridgeText_effects hact] at h
      obtain ⟨-, -, -, -, -, -, hacts⟩ := actOf_eq_some hact
      exact ⟨act, rfl, (dispatch_effects_iff hacts).1 (List.ne_nil_of_mem h), dispatch_orders h⟩

/-- Of an action that takes effect comes an effect. -/
theorem exists_effect {t : Text} {act : Act} (h : actOf L key sid t = some act)
    (htakes : takesEffect L key sid st act = true) :
    ∃ eff, eff ∈ (bridgeText L key sid st t).effects := by
  obtain ⟨-, -, -, -, -, -, hacts⟩ := actOf_eq_some h
  rw [bridgeText_effects h]
  exact List.exists_mem_of_ne_nil _ ((dispatch_effects_iff hacts).2 htakes)

end Orders

/-- A text that was delivered, with the state before it and what the bridge loop did for it. -/
structure Turn where
  text : Text
  before : RunState
  effects : List Effect

/-- A session under a relay that controls all frames. -/
structure Origin where
  run : RunState
  clientSent : List Sent
  /-- The ciphertexts that the agent has made. -/
  agentSent : List Bytes
  turns : List Turn

inductive OriginEvent where
  /-- The client calls `sendEncrypted`; the `n`-th nonce is drawn. -/
  | client (n seq : Nat) (type : Text) (payload : Bytes)
  /-- The agent takes a step without reading a text. -/
  | agent (e : Event)
  /-- The relay delivers a text of its choice. -/
  | deliver (t : Text)

namespace Origin

variable (L : Crates) (key : Bytes) (sid : Text)

/-- The bridge loop is entered with some buffer and counters. -/
def start (st : RunState) : Origin :=
  { run := st.goto (.bridge key sid), clientSent := [], agentSent := [], turns := [] }

/-- Ideal AEAD: if the payload of the text decrypts, the client or the agent made it. -/
def genuine (w : Origin) (t : Text) : Bool :=
  match ((L.json.fromStr t).bind EncryptedEnvelope.deserialize).bind
    fun env => L.prim.b64Decode env.payload with
  | some packed =>
      (decrypt L.aead key packed).isNone ||
        decide (packed ∈ w.clientSent.map Sent.packed ++ w.agentSent)
  | none => true

def step (w : Origin) : OriginEvent → Option Origin
  | .client n seq type payload =>
      (sendEncrypted L.aead key n seq type payload).map fun r =>
        { w with clientSent := w.clientSent ++ [r] }
  | .agent e =>
      if w.run.phase.inBridge && !e.isText then
        (bridgeTurn L key sid w.run e).map fun turn =>
          { w with run := turn.resume.1, agentSent := w.agentSent ++ sealedBy L turn.effects }
      else none
  | .deliver t =>
      if w.run.phase.inBridge && genuine L key w t then
        let turn := bridgeText L key sid w.run t
        some { w with
          run := turn.resume.1
          agentSent := w.agentSent ++ sealedBy L turn.effects
          turns := w.turns ++ [{ text := t, before := w.run, effects := turn.effects }] }
      else none

/-- Whatever the agent did for a text was asked by a message that the client passed to `sendEncrypted`,
by its type and its plaintext, and the text carried the ciphertext of that message. -/
def Authentic (w : Origin) : Prop :=
  ∀ turn ∈ w.turns, ∀ eff ∈ turn.effects, ∃ r ∈ w.clientSent,
    Carries L turn.text r ∧ Orders L key sid turn.before r.type r.plaintext eff

/-- The ciphertext is one of the agent's and none of the client's. -/
def Reflected (w : Origin) (packed : Bytes) : Prop :=
  packed ∈ w.agentSent ∧ ∀ r ∈ w.clientSent, r.packed ≠ packed

/-- The ciphertext is one of the client's, but none that it sent under this type. -/
def Relabelled (w : Origin) (type : Text) (packed : Bytes) : Prop :=
  (∃ r ∈ w.clientSent, r.packed = packed) ∧ ∀ r ∈ w.clientSent, r.packed = packed → r.type ≠ type

/-- The condition on a step: a text of which something comes carries no ciphertext of the agent, and none
of the client under another type. -/
def Unaltered (w : Origin) : OriginEvent → Prop
  | .deliver t => ∀ act, actOf L key sid t = some act → takesEffect L key sid w.run act = true →
      ¬ w.Reflected act.packed ∧ ¬ w.Relabelled act.type act.packed
  | _ => True

/-- The client's payloads open. -/
def Opening (w : Origin) : Prop := ∀ r ∈ w.clientSent, r.Opens L.aead key

variable {L key sid}

theorem step_client {w m : Origin} {n seq : Nat} {type : Text} {payload : Bytes}
    (h : step L key sid w (.client n seq type payload) = some m) :
    ∃ r, sendEncrypted L.aead key n seq type payload = some r ∧
      m = { w with clientSent := w.clientSent ++ [r] } := by
  simp only [step, Option.map_eq_some_iff] at h
  obtain ⟨r, hr, rfl⟩ := h
  exact ⟨r, hr, rfl⟩

/-- What the agent does by itself is for no text and nothing that the client sent. -/
theorem step_agent {w m : Origin} {e : Event} (h : step L key sid w (.agent e) = some m) :
    m.clientSent = w.clientSent ∧ m.turns = w.turns := by
  rw [step] at h
  split at h
  · simp only [Option.map_eq_some_iff] at h
    obtain ⟨turn, -, rfl⟩ := h
    exact ⟨rfl, rfl⟩
  · cases h

theorem step_deliver {w m : Origin} {t : Text} (h : step L key sid w (.deliver t) = some m) :
    genuine L key w t = true ∧ m.clientSent = w.clientSent ∧
      m.turns = w.turns ++
        [{ text := t, before := w.run, effects := (bridgeText L key sid w.run t).effects }] := by
  rw [step] at h
  split at h
  · rename_i hguard
    obtain rfl := Option.some.inj h
    exact ⟨(Bool.and_eq_true_iff.1 hguard).2, rfl, rfl⟩
  · cases h

theorem opening_step {w m : Origin} {e : OriginEvent} (hw : w.Opening L key)
    (h : step L key sid w e = some m) : m.Opening L key := by
  cases e with
  | client n seq type payload =>
      obtain ⟨r, hr, rfl⟩ := step_client h
      intro q hq
      rcases List.mem_append.1 hq with hq | hq
      · exact hw q hq
      · obtain rfl := List.mem_singleton.1 hq
        exact sendEncrypted_opens hr
  | agent e =>
      rw [Opening, (step_agent h).1]
      exact hw
  | deliver t =>
      rw [Opening, (step_deliver h).2.1]
      exact hw

/-- What the ideal AEAD leaves to the relay: the ciphertext of an action was made by the client or by
the agent. -/
theorem made_of_genuine {w : Origin} {t : Text} {act : Act} (hg : genuine L key w t = true)
    (h : actOf L key sid t = some act) :
    (∃ r ∈ w.clientSent, r.packed = act.packed) ∨ act.packed ∈ w.agentSent := by
  obtain ⟨env, -, hparse, -, hpacked, -⟩ := actOf_eq_some h
  rw [genuine, hparse, Option.bind_some, hpacked] at hg
  dsimp only at hg
  rw [actOf_opens h, Option.isNone_some, Bool.false_or, decide_eq_true_iff, List.mem_append,
    List.mem_map] at hg
  exact hg

/-- So one that is neither reflected nor relabelled was made by the client under this type. -/
theorem sent_iff {w : Origin} {t : Text} {act : Act} (hg : genuine L key w t = true)
    (h : actOf L key sid t = some act) :
    (∃ r ∈ w.clientSent, r.packed = act.packed ∧ r.type = act.type) ↔
      ¬ w.Reflected act.packed ∧ ¬ w.Relabelled act.type act.packed := by
  constructor
  · rintro ⟨r, hr, hpacked, htype⟩
    exact ⟨fun hreflected => hreflected.2 r hr hpacked,
      fun hrelabelled => hrelabelled.2 r hr hpacked htype⟩
  · rintro ⟨hreflected, hrelabelled⟩
    by_contra hnone
    have hother : ∀ r ∈ w.clientSent, r.packed = act.packed → r.type ≠ act.type :=
      fun r hr hpacked htype => hnone ⟨r, hr, hpacked, htype⟩
    rcases made_of_genuine hg h with hclient | hagent
    · exact hrelabelled ⟨hclient, hother⟩
    · refine hreflected ⟨hagent, fun r hr hpacked => ?_⟩
      exact hrelabelled ⟨⟨r, hr, hpacked⟩, hother⟩

/-- A delivered text is authentic exactly when it is unaltered. -/
theorem deliver_iff {w : Origin} {t : Text} (hw : w.Opening L key) (hg : genuine L key w t = true) :
    (∀ eff ∈ (bridgeText L key sid w.run t).effects, ∃ r ∈ w.clientSent,
      Carries L t r ∧ Orders L key sid w.run r.type r.plaintext eff) ↔
      w.Unaltered L key sid (.deliver t) := by
  constructor
  · intro hauthentic act hact htakes
    obtain ⟨eff, heff⟩ := exists_effect hact htakes
    obtain ⟨r, hr, ⟨env, hparse, htype, hpacked⟩, -⟩ := hauthentic eff heff
    obtain ⟨env', -, hparse', htype', hpacked', -⟩ := actOf_eq_some hact
    -- it is the envelope of the action that carries the client's ciphertext
    obtain rfl := Option.some.inj (hparse.symm.trans hparse')
    refine (sent_iff hg hact).1 ⟨r, hr, ?_, htype.symm.trans htype'⟩
    exact Option.some.inj (hpacked.symm.trans hpacked')
  · intro hunaltered eff heff
    obtain ⟨act, hact, htakes, horders⟩ := bridgeText_orders heff
    obtain ⟨r, hr, hpacked, htype⟩ := (sent_iff hg hact).2 (hunaltered act hact htakes)
    obtain ⟨env, -, hparse, henvType, henvPacked, -⟩ := actOf_eq_some hact
    -- the ciphertext of the client opens to the client's plaintext
    have hopen : decrypt L.aead key r.packed = some act.plain := by
      rw [hpacked]
      exact actOf_opens hact
    have hplain : r.plaintext = act.plain := Option.some.inj ((hw r hr).symm.trans hopen)
    refine ⟨r, hr, ⟨env, hparse, henvType.trans htype.symm, ?_⟩, ?_⟩
    · rw [hpacked]
      exact henvPacked
    · rw [htype, hplain]
      exact horders

/-- One step keeps what the agent does authentic exactly when it delivers an unaltered text. -/
theorem authentic_step {w m : Origin} {e : OriginEvent} (hw : w.Opening L key)
    (ha : w.Authentic L key sid) (h : step L key sid w e = some m) :
    m.Authentic L key sid ↔ w.Unaltered L key sid e := by
  cases e with
  | client n seq type payload =>
      obtain ⟨r, -, rfl⟩ := step_client h
      refine ⟨fun _ => trivial, fun _ turn hturn eff heff => ?_⟩
      obtain ⟨q, hq, hsame⟩ := ha turn hturn eff heff
      exact ⟨q, List.mem_append_left _ hq, hsame⟩
  | agent e =>
      obtain ⟨hsent, hturns⟩ := step_agent h
      rw [Authentic, hsent, hturns]
      exact ⟨fun _ => trivial, fun _ => ha⟩
  | deliver t =>
      obtain ⟨hg, hsent, hturns⟩ := step_deliver h
      rw [Authentic, hsent, hturns, ← deliver_iff hw hg]
      constructor
      · intro hm
        exact hm _ (List.mem_append_right _ (List.mem_singleton_self _))
      · intro hnew turn hturn
        rcases List.mem_append.1 hturn with hold | hlast
        · exact ha turn hold
        · obtain rfl := List.mem_singleton.1 hlast
          exact hnew

/-- The runs in which the agent only does what a message of the client asks, by the type and the
plaintext that the client passed together, are those in which no text of which something comes carries
a ciphertext of the agent, or of the client under another type. -/
theorem authentic_iff (L : Crates) (key : Bytes) (sid : Text) (st : RunState)
    (es : List OriginEvent) :
    Along (stepRel (step L key sid)) (Authentic L key sid) (start key sid st) es ↔
      Guarded (stepRel (step L key sid)) (Unaltered L key sid) (start key sid st) es := by
  apply along_iff_guarded (I := Opening L key)
  · intro w e m hw h
    exact opening_step hw h
  · intro w e m hw ha h
    exact authentic_step hw ha h
  · intro r hr
    cases hr
  · intro turn hturn
    cases hturn

/-- The relay returns the agent's own output to it, and the agent types it into the shell. -/
theorem reflected_output_is_typed :
    ∃ w, Run (stepRel (step Sample.crates Agent.Sample.key Agent.Sample.sid))
        (start Agent.Sample.key Agent.Sample.sid Session.start)
        [.agent (.pty (some [120])), .deliver Sample.text] w ∧
      w.turns.map (fun turn => written turn.effects) = [[[120]]] ∧
      ¬ w.Authentic Sample.crates Agent.Sample.key Agent.Sample.sid := by
  obtain ⟨w, hrun, hsent, hwritten⟩ : ∃ w,
      Run (stepRel (step Sample.crates Agent.Sample.key Agent.Sample.sid))
        (start Agent.Sample.key Agent.Sample.sid Session.start)
        [.agent (.pty (some [120])), .deliver Sample.text] w ∧
        w.clientSent = [] ∧ w.turns.map (fun turn => written turn.effects) = [[[120]]] :=
    exists_run_of_exec (by decide +kernel)
  refine ⟨w, hrun, hwritten, fun ha => ?_⟩
  -- some effect was recorded, and the client has sent nothing
  have hmem : [[120]] ∈ w.turns.map fun turn => written turn.effects := by
    rw [hwritten]
    exact List.mem_singleton_self _
  obtain ⟨turn, hturn, hbytes⟩ := List.mem_map.1 hmem
  have htyped : [120] ∈ written turn.effects := by
    rw [hbytes]
    exact List.mem_singleton_self _
  obtain ⟨eff, heff, -⟩ := List.mem_filterMap.1 htyped
  obtain ⟨r, hr, -⟩ := ha turn hturn eff heff
  rw [hsent] at hr
  cases hr

end Origin

/-! ## Replay -/

/-- A session under a relay that delivers the client's own envelopes. -/
structure Replay where
  run : RunState
  clientSent : List Sent
  /-- The positions in `clientSent` of the envelopes that were acted on, in the order of the actions. -/
  acted : List Nat
  /-- What was written to the PTY for them. -/
  writes : List Bytes

inductive ReplayEvent where
  | client (n seq : Nat) (type : Text) (payload : Bytes)
  | agent (e : Event)
  /-- The relay delivers the `i`-th envelope of the client as the text `t`. -/
  | deliver (i : Nat) (t : Text)

namespace Replay

section Step

variable (L : Crates) (key : Bytes) (sid : Text)

def start (st : RunState) : Replay :=
  { run := st.goto (.bridge key sid), clientSent := [], acted := [], writes := [] }

/-- The text parses to the `i`-th envelope. -/
def carries (w : Replay) (i : Nat) (t : Text) : Bool :=
  (w.clientSent[i]?).any fun r =>
    (L.json.fromStr t).bind EncryptedEnvelope.deserialize == some (r.envelope L.prim sid)

def step (w : Replay) : ReplayEvent → Option Replay
  | .client n seq type payload =>
      (sendEncrypted L.aead key n seq type payload).map fun r =>
        { w with clientSent := w.clientSent ++ [r] }
  | .agent e =>
      if w.run.phase.inBridge && !e.isText then
        (bridgeTurn L key sid w.run e).map fun turn => { w with run := turn.resume.1 }
      else none
  | .deliver i t =>
      if w.run.phase.inBridge && carries L sid w i t then
        let turn := bridgeText L key sid w.run t
        some { w with
          run := turn.resume.1
          acted := if (actOf L key sid t).isSome then w.acted ++ [i] else w.acted
          writes := w.writes ++ written turn.effects }
      else none

/-- The `i`-th envelope of the client carries keystrokes. -/
def isPty (w : Replay) (i : Nat) : Bool := (w.clientSent[i]?).any fun r => r.type == "pty".toList

/-- The plaintexts of the client's keystroke envelopes, in the order they were sent. -/
def keystrokes (w : Replay) : List Bytes :=
  (w.clientSent.filter fun r => r.type == "pty".toList).map Sent.plaintext

/-- No envelope was acted on twice, keystroke envelopes were acted on in the order they were sent, and
what was written to the PTY are the plaintexts of a subsequence of them. -/
structure Fresh (w : Replay) : Prop where
  once : w.acted.Nodup
  ordered : (w.acted.filter w.isPty).Pairwise (· < ·)
  subsequence : w.writes.Sublist w.keystrokes

/-- The condition on a step: an envelope that the agent acts on is delivered for the first time, and a
keystroke envelope not after a later one. -/
def InOrder (w : Replay) : ReplayEvent → Prop
  | .deliver i t => (actOf L key sid t).isSome = true →
      i ∉ w.acted ∧ (w.isPty i = true → ∀ j ∈ w.acted, w.isPty j = true → j < i)
  | _ => True

/-- The writes are the plaintexts of the keystroke envelopes acted on. -/
structure Tracked (w : Replay) : Prop where
  opening : ∀ r ∈ w.clientSent, r.Opens L.aead key
  sent : ∀ i ∈ w.acted, i < w.clientSent.length
  writes : w.writes = (w.acted.filter w.isPty).filterMap fun i => (w.clientSent[i]?).map Sent.plaintext

end Step

section Facts

variable {L : Crates} {key : Bytes} {sid : Text}

/-- Reading a list at increasing positions gives a subsequence. -/
theorem filterMap_getElem_sublist {α : Type} {l : List α} {is : List Nat}
    (h : is.Pairwise (· < ·)) : (is.filterMap (l[·]?)).Sublist l := by
  let pos : Nat → Option (Fin l.length) := fun i => if hi : i < l.length then some ⟨i, hi⟩ else none
  have hread : is.filterMap (l[·]?) = (is.filterMap pos).map (l[·]) := by
    rw [List.map_filterMap]
    congr
    funext i
    by_cases hi : i < l.length
    · simp [pos, hi]
    · simp [pos, hi]
  rw [hread]
  apply List.map_getElem_sublist
  apply List.Pairwise.filterMap pos _ h
  intro i j hij x hx y hy
  simp only [pos] at hx hy
  split at hx
  · split at hy
    · obtain rfl := Option.some.inj hx
      obtain rfl := Option.some.inj hy
      exact hij
    · cases hy
  · cases hx

/-- The envelope of the client opens. -/
theorem openEnvelope_sent {r : Sent} (h : r.Opens L.aead key) :
    openEnvelope L key sid (r.envelope L.prim sid) = some r.plaintext := by
  simp only [openEnvelope, Sent.envelope, EncryptedEnvelope.new, ne_eq, not_true, if_false,
    L.prim.b64Decode_b64Encode, Option.bind_some]
  exact h

/-- The action for a delivered envelope is that of the envelope the client sent. -/
theorem act_of_carries {w : Replay} {i : Nat} {t : Text} {act : Act}
    (hw : ∀ r ∈ w.clientSent, r.Opens L.aead key) (hc : carries L sid w i t = true)
    (h : actOf L key sid t = some act) :
    ∃ r, w.clientSent[i]? = some r ∧ r.type = act.type ∧ r.plaintext = act.plain := by
  rw [carries, Option.any_eq_true] at hc
  obtain ⟨r, hr, hsame⟩ := hc
  obtain ⟨env, -, hparse, htype, -, hplain, -⟩ := actOf_eq_some h
  obtain rfl : env = r.envelope L.prim sid :=
    Option.some.inj (hparse.symm.trans (beq_iff_eq.1 hsame))
  rw [openEnvelope_sent (hw r (List.mem_of_getElem? hr))] at hplain
  exact ⟨r, hr, htype, Option.some.inj hplain⟩

/-- Keystrokes that were acted on in their order are a subsequence of those sent. -/
theorem subsequence_of_ordered {w : Replay} (hw : w.Tracked L key)
    (ho : (w.acted.filter w.isPty).Pairwise (· < ·)) : w.writes.Sublist w.keystrokes := by
  have hwrites : w.writes =
      ((w.acted.filter w.isPty).filterMap (w.clientSent[·]?)).map Sent.plaintext := by
    rw [hw.writes, List.map_filterMap]
  have hpty : ∀ r ∈ (w.acted.filter w.isPty).filterMap (w.clientSent[·]?),
      (r.type == "pty".toList) = true := by
    intro r hr
    obtain ⟨i, hi, hget⟩ := List.mem_filterMap.1 hr
    have hi := (List.mem_filter.1 hi).2
    simpa [isPty, hget] using hi
  rw [hwrites, keystrokes]
  apply List.Sublist.map
  rw [← List.filter_eq_self.2 hpty]
  exact (filterMap_getElem_sublist ho).filter _

/-- An envelope sent later does not change the earlier ones. -/
theorem isPty_send {w : Replay} (r : Sent) {i : Nat} (hi : i < w.clientSent.length) :
    isPty { w with clientSent := w.clientSent ++ [r] } i = w.isPty i := by
  simp only [isPty, List.getElem?_append_left hi]

theorem filter_isPty_send {w : Replay} (r : Sent) (hw : ∀ i ∈ w.acted, i < w.clientSent.length) :
    w.acted.filter (isPty { w with clientSent := w.clientSent ++ [r] }) =
      w.acted.filter w.isPty := by
  apply List.filter_congr
  intro i hi
  exact isPty_send r (hw i hi)

theorem isPty_congr {w m : Replay} (h : m.clientSent = w.clientSent) : m.isPty = w.isPty := by
  funext i
  rw [isPty, isPty, h]

theorem step_client {w m : Replay} {n seq : Nat} {type : Text} {payload : Bytes}
    (h : step L key sid w (.client n seq type payload) = some m) :
    ∃ r, sendEncrypted L.aead key n seq type payload = some r ∧
      m = { w with clientSent := w.clientSent ++ [r] } := by
  simp only [step, Option.map_eq_some_iff] at h
  obtain ⟨r, hr, rfl⟩ := h
  exact ⟨r, hr, rfl⟩

/-- What the agent does by itself is not tracked. -/
theorem step_agent {w m : Replay} {e : Event} (h : step L key sid w (.agent e) = some m) :
    ∃ run, m = { w with run := run } := by
  rw [step] at h
  split at h
  · simp only [Option.map_eq_some_iff] at h
    obtain ⟨turn, -, rfl⟩ := h
    exact ⟨turn.resume.1, rfl⟩
  · cases h

/-- What a delivery changes: nothing that is tracked, or the position and the keystrokes of the
envelope. -/
theorem step_deliver {w m : Replay} {i : Nat} {t : Text} (hw : w.Tracked L key)
    (h : step L key sid w (.deliver i t) = some m) :
    m.clientSent = w.clientSent ∧
      ((actOf L key sid t = none ∧ m.acted = w.acted ∧ m.writes = w.writes) ∨
        ∃ r, (actOf L key sid t).isSome = true ∧ w.clientSent[i]? = some r ∧
          m.acted = w.acted ++ [i] ∧
          m.writes = w.writes ++ if w.isPty i then [r.plaintext] else []) := by
  rw [step] at h
  split at h
  · rename_i hguard
    obtain rfl := Option.some.inj h
    refine ⟨rfl, ?_⟩
    cases hact : actOf L key sid t with
    | none =>
        left
        simp [bridgeText_noAction hact, written]
    | some act =>
        right
        simp only [Bool.and_eq_true] at hguard
        obtain ⟨r, hr, htype, hplain⟩ := act_of_carries hw.opening hguard.2 hact
        refine ⟨r, rfl, hr, by simp, ?_⟩
        have hpty : w.isPty i = decide (act.type = "pty".toList) := by
          rw [isPty, hr, Option.any_some, htype, beq_eq_decide]
        dsimp only
        rw [bridgeText_written hact, hpty, hplain]
        simp
  · cases h

theorem tracked_step {w m : Replay} {e : ReplayEvent} (hw : w.Tracked L key)
    (h : step L key sid w e = some m) : m.Tracked L key := by
  cases e with
  | client n seq type payload =>
      obtain ⟨r, hr, rfl⟩ := step_client h
      refine ⟨?_, ?_, ?_⟩
      · intro q hq
        rcases List.mem_append.1 hq with hq | hq
        · exact hw.opening q hq
        · obtain rfl := List.mem_singleton.1 hq
          exact sendEncrypted_opens hr
      · intro i hi
        have hlt := hw.sent i hi
        simp only [List.length_append, List.length_singleton]
        omega
      · rw [filter_isPty_send r hw.sent, hw.writes]
        apply List.filterMap_congr
        intro i hi
        rw [List.getElem?_append_left (hw.sent i (List.mem_of_mem_filter hi))]
  | agent e =>
      obtain ⟨run, rfl⟩ := step_agent h
      exact { hw with }
  | deliver i t =>
      obtain ⟨hsent, hcase⟩ := step_deliver hw h
      have hispty := isPty_congr hsent
      rcases hcase with ⟨-, hacted, hwrites⟩ | ⟨r, -, hr, hacted, hwrites⟩
      · -- the envelope is dropped
        refine ⟨hsent ▸ hw.opening, ?_, ?_⟩
        · rw [hacted, hsent]
          exact hw.sent
        · rw [hacted, hwrites, hispty, hsent]
          exact hw.writes
      · -- the agent acts on it
        refine ⟨hsent ▸ hw.opening, ?_, ?_⟩
        · intro j hj
          rw [hsent]
          rw [hacted] at hj
          rcases List.mem_append.1 hj with hj | hj
          · exact hw.sent j hj
          · obtain rfl := List.mem_singleton.1 hj
            exact (List.getElem?_eq_some_iff.1 hr).1
        · rw [hacted, hwrites, hispty, hsent, List.filter_append, List.filterMap_append, ← hw.writes]
          cases hpty : w.isPty i <;> simp [hpty, hr]

/-- One step keeps the input fresh exactly when it delivers in order. -/
theorem fresh_step {w m : Replay} {e : ReplayEvent} (hw : w.Tracked L key) (hf : w.Fresh)
    (h : step L key sid w e = some m) : m.Fresh ↔ w.InOrder L key sid e := by
  have hm := tracked_step hw h
  cases e with
  | client n seq type payload =>
      obtain ⟨r, -, rfl⟩ := step_client h
      have hordered := hf.ordered
      rw [← filter_isPty_send r hw.sent] at hordered
      exact ⟨fun _ => trivial, fun _ => ⟨hf.once, hordered, subsequence_of_ordered hm hordered⟩⟩
  | agent e =>
      obtain ⟨run, rfl⟩ := step_agent h
      exact ⟨fun _ => trivial, fun _ => { hf with }⟩
  | deliver i t =>
      obtain ⟨hsent, hcase⟩ := step_deliver hw h
      have hispty := isPty_congr hsent
      rcases hcase with ⟨hnone, hacted, hwrites⟩ | ⟨r, hsome, -, hacted, -⟩
      · -- a dropped envelope meets the condition and changes nothing
        refine ⟨fun _ hact => ?_, fun _ => ⟨?_, ?_, ?_⟩⟩
        · rw [hnone] at hact
          cases hact
        · exact hacted ▸ hf.once
        · rw [hacted, hispty]
          exact hf.ordered
        · rw [hwrites, keystrokes, hsent]
          exact hf.subsequence
      · -- the envelope is acted on: its position comes behind the earlier ones
        have honce : m.acted.Nodup ↔ i ∉ w.acted := by
          rw [hacted, List.nodup_append]
          refine ⟨fun hn hi => hn.2.2 i hi i (List.mem_singleton_self i) rfl, fun hi => ?_⟩
          refine ⟨hf.once, List.nodup_singleton i, ?_⟩
          intro j hj k hk hjk
          rw [hjk, List.mem_singleton.1 hk] at hj
          exact hi hj
        have hordered : (m.acted.filter m.isPty).Pairwise (· < ·) ↔
            (w.isPty i = true → ∀ j ∈ w.acted, w.isPty j = true → j < i) := by
          rw [hacted, hispty, List.filter_append, List.pairwise_append]
          cases hpty : w.isPty i with
          | false => simp [hpty, hf.ordered]
          | true =>
              simp only [List.filter_cons, hpty, if_true, List.filter_nil, List.mem_filter,
                List.mem_singleton, forall_eq, and_imp, List.pairwise_singleton, true_and,
                hf.ordered, forall_const]
        constructor
        · intro hfresh _
          exact ⟨honce.1 hfresh.once, hordered.1 hfresh.ordered⟩
        · intro horder
          obtain ⟨hnew, hlater⟩ := horder hsome
          have ho := hordered.2 hlater
          exact ⟨honce.2 hnew, ho, subsequence_of_ordered hm ho⟩

end Facts

/-- The runs in which the client's input is applied at most once and in order are those in which the
relay delivers it so. -/
theorem fresh_iff (L : Crates) (key : Bytes) (sid : Text) (st : RunState) (es : List ReplayEvent) :
    Along (stepRel (step L key sid)) Fresh (start key sid st) es ↔
      Guarded (stepRel (step L key sid)) (InOrder L key sid) (start key sid st) es := by
  apply along_iff_guarded (I := Tracked L key)
  · intro w e m hw h
    exact tracked_step hw h
  · intro w e m hw hf h
    exact fresh_step hw hf h
  · refine ⟨?_, ?_, rfl⟩
    · intro r hr
      cases hr
    · intro i hi
      cases hi
  · exact ⟨List.nodup_nil, List.Pairwise.nil, List.nil_sublist _⟩

/-- The relay delivers one keystroke twice, and it is typed twice. -/
theorem replayed_keystroke_is_typed_twice :
    ∃ w, Run (stepRel (step Sample.crates Agent.Sample.key Agent.Sample.sid))
        (start Agent.Sample.key Agent.Sample.sid Session.start)
        [.client 0 1 "pty".toList [120], .deliver 0 Sample.text, .deliver 0 Sample.text] w ∧
      w.keystrokes = [[120]] ∧ w.writes = [[120], [120]] ∧ ¬ w.Fresh := by
  obtain ⟨w, hrun, hkeys, hwrites⟩ : ∃ w,
      Run (stepRel (step Sample.crates Agent.Sample.key Agent.Sample.sid))
        (start Agent.Sample.key Agent.Sample.sid Session.start)
        [.client 0 1 "pty".toList [120], .deliver 0 Sample.text, .deliver 0 Sample.text] w ∧
        w.keystrokes = [[120]] ∧ w.writes = [[120], [120]] :=
    exists_run_of_exec (by decide +kernel)
  refine ⟨w, hrun, hkeys, hwrites, fun hf => ?_⟩
  have hsub := hf.subsequence.length_le
  rw [hkeys, hwrites] at hsub
  simp at hsub

end Replay

end Ktty.Protocol.Dispatch
