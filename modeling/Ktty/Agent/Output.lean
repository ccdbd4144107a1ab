import Ktty.Agent.SessionSteps

/-!
# PTY output of a session

What `Session::run` makes of the chunks that it reads from the PTY. Every chunk is numbered and stored
in the wait loop and in the bridge loop (`step_stores`), so the ring buffer holds the latest packets of
the run (`Stores`). Envelopes leave the run in two ways only (`step_outputs`): the bridge loop sends
the chunk it has just stored, and it answers a sync request with the stored packets behind the number
in the request.
-/

set_option autoImplicit false

namespace Ktty.Agent

open Ktty.Wire Ktty.Crypto

/-! ## Chunks and packets -/

/-- The packet of the chunk with number `seq`. -/
def ptyPacket (seq : Nat) (data : Bytes) : Packet :=
  { seq := seq, msgType := "pty".toList, payload := data }

/-- The packets of the chunks that a run has read so far. -/
def packetsOf (chunks : List Bytes) : List Packet :=
  chunks.mapIdx fun i data => ptyPacket (i + 1) data

theorem packetsOf_append (chunks : List Bytes) (data : Bytes) :
    packetsOf (chunks ++ [data]) = packetsOf chunks ++ [ptyPacket (chunks.length + 1) data] := by
  simp [packetsOf, List.mapIdx_append]

/-- Packet `seq` carries chunk `seq`, counted from one. -/
theorem mem_packetsOf {chunks : List Bytes} {p : Packet} (h : p ∈ packetsOf chunks) :
    1 ≤ p.seq ∧ p.msgType = "pty".toList ∧ chunks[p.seq - 1]? = some p.payload := by
  rw [packetsOf, List.mem_mapIdx] at h
  obtain ⟨i, hi, rfl⟩ := h
  refine ⟨Nat.succ_pos i, rfl, ?_⟩
  exact List.getElem?_eq_getElem hi

theorem length_packetsOf (chunks : List Bytes) : (packetsOf chunks).length = chunks.length := by
  rw [packetsOf, List.length_mapIdx]

theorem block_packetsOf (chunks : List Bytes) : RingBuffer.Block 1 (packetsOf chunks) := by
  apply List.ext_getElem
  · simp
  · intro i hi hi'
    simp [packetsOf, ptyPacket, Nat.add_comm]

theorem packetsOf_increasing (chunks : List Bytes) :
    ((packetsOf chunks).map Packet.seq).Pairwise (· < ·) :=
  (block_packetsOf chunks).increasing

/-- The counter and the ring buffer of a run that has read `chunks`. -/
structure Stores (st : RunState) (chunks : List Bytes) : Prop where
  seq : st.seq = chunks.length
  buf : st.ringBuffer.buf <:+ packetsOf chunks

/-- The chunk that an event brings. -/
def Event.chunk : Event → List Bytes
  | .pty (some data) => [data]
  | _ => []

/-- Two states with the same counter and buffer. -/
structure SameStore (st st' : RunState) : Prop where
  seq : st'.seq = st.seq
  ringBuffer : st'.ringBuffer = st.ringBuffer

theorem Stores.same {st st' : RunState} {chunks : List Bytes} (h : Stores st chunks)
    (hs : SameStore st st') : Stores st' chunks := by
  refine ⟨hs.seq.trans h.seq, ?_⟩
  rw [hs.ringBuffer]
  exact h.buf

/-- Storing a chunk. -/
theorem Stores.storeChunk {st : RunState} {chunks : List Bytes} (h : Stores st chunks) (data : Bytes) :
    Stores (storeChunk st data) (chunks ++ [data]) := by
  refine ⟨?_, ?_⟩
  · rw [Agent.storeChunk, List.length_append, List.length_singleton, h.seq]
  · rw [packetsOf_append, ← h.seq]
    refine (RingBuffer.push_buf _ _).trans ?_
    -- what was evicted before stays in front:
    obtain ⟨l, hl⟩ := h.buf
    exact ⟨l, by rw [← List.append_assoc, hl]; rfl⟩

/-- The counter and the buffer after an event: a chunk is stored, nothing else touches them. -/
def stored (st : RunState) : Event → RunState
  | .pty (some data) => storeChunk st data
  | _ => st

theorem Stores.stored {st : RunState} {chunks : List Bytes} (h : Stores st chunks) (e : Event) :
    Stores (stored st e) (chunks ++ e.chunk) := by
  -- no other event brings a chunk:
  have hnone : Stores st (chunks ++ []) := by
    rw [List.append_nil]
    exact h
  cases e with
  | pty result =>
      cases result with
      | some data => exact h.storeChunk data
      | none => exact hnone
  | _ => exact hnone

/-! ## Envelopes -/

/-- The envelopes among the effects of a step. -/
def envelopes (effs : List Effect) : List EncryptedEnvelope :=
  effs.filterMap fun eff =>
    match eff with
    | .send (.envelope env) => some env
    | _ => none

/-- The `last_seq` of the sync request that a text asks the bridge loop to answer. -/
def syncLast (L : Crates) (key : Bytes) (sid t : Text) : Option Nat :=
  match controlExit t with
  | some _ => none
  | none => do
      let env ← (L.json.fromStr t).bind EncryptedEnvelope.deserialize
      let plain ← openEnvelope L key sid env
      if env.type = "sync_req".toList then
        let syncData ← (L.json.fromSlice plain).bind SyncReqPayload.deserialize
        if syncData.sessionId = sid then some syncData.lastSeq else none
      else none

/-- The envelopes that the bridge loop puts on the send channel on an event: the chunk it reads, and the
answer to a sync request. -/
def bridgeEmits (L : Crates) (key : Bytes) (sid : Text) (st : RunState) :
    Event → List EncryptedEnvelope
  | .pty (some data) =>
      if st.writerAlive then
        (sealPacket L key sid st.relayAuthToken st.rng (st.seq + 1) "pty".toList data).toList
      else []
  | .ws (.text t) =>
      match syncLast L key sid t with
      | some lastSeq => if st.writerAlive then (answerSync L key sid st lastSeq).2 else []
      | none => []
  | _ => []

/-- The envelopes that the run puts on the send channel on an event. -/
def emits (L : Crates) (st : RunState) (e : Event) : List EncryptedEnvelope :=
  match st.phase with
  | .bridge key sid => bridgeEmits L key sid st e
  | _ => []

/-- What a step does to the store and which envelopes it sends. -/
structure Outputs (st : RunState) (envs : List EncryptedEnvelope) (r : RunState × List Effect) :
    Prop where
  store : SameStore st r.1
  envelopes : envelopes r.2 = envs

section Steps

variable {L : Crates} {S : Session} {st : RunState}

theorem envelopes_trySend (st : RunState) (env : EncryptedEnvelope) :
    envelopes (st.trySend (.envelope env)) = if st.writerAlive then [env] else [] := by
  rw [RunState.trySend]
  split <;> rfl

/-- Envelopes sent one after the other. -/
theorem envelopes_sendAll (st : RunState) (envs : List EncryptedEnvelope) :
    envelopes (envs.flatMap fun env => st.trySend (.envelope env)) =
      if st.writerAlive then envs else [] := by
  induction envs with
  | nil => simp [envelopes]
  | cons env envs ih =>
      rw [List.flatMap_cons, envelopes, List.filterMap_append]
      -- the first envelope and the others:
      change envelopes _ ++ envelopes _ = _
      rw [ih, envelopes_trySend]
      split <;> rfl

theorem outputs_ping (st : RunState) : Outputs st [] (st, st.trySend .ping) := by
  refine ⟨⟨rfl, rfl⟩, ?_⟩
  rw [RunState.trySend]
  split <;> rfl

theorem outputs_pong (st : RunState) (d : Bytes) : Outputs st [] (st, st.trySend (.pong d)) := by
  refine ⟨⟨rfl, rfl⟩, ?_⟩
  rw [RunState.trySend]
  split <;> rfl

theorem initRecv_outputs (item : WsItem) : Outputs st [] (initRecv L st item) := by
  cases item with
  | text t =>
      rw [initRecv]
      split
      · exact ⟨⟨rfl, rfl⟩, rfl⟩
      · split
        · exact ⟨⟨rfl, rfl⟩, rfl⟩
        · split <;> exact ⟨⟨rfl, rfl⟩, rfl⟩
  | ping d => exact outputs_pong st d
  | _ => exact ⟨⟨rfl, rfl⟩, rfl⟩

theorem waitRecv_outputs (item : WsItem) : Outputs st [] (waitRecv st item) := by
  cases item with
  | text t =>
      rw [waitRecv]
      split_ifs <;> exact ⟨⟨rfl, rfl⟩, rfl⟩
  | ping d => exact outputs_pong st d
  | _ => exact ⟨⟨rfl, rfl⟩, rfl⟩

theorem handshakeRecv_outputs (dk : Bytes) (item : WsItem) :
    Outputs st [] (handshakeRecv S st dk item) := by
  cases item with
  | text t =>
      rw [handshakeRecv]
      split
      · exact ⟨⟨rfl, rfl⟩, rfl⟩
      · split
        · exact ⟨⟨rfl, rfl⟩, rfl⟩
        · split
          · exact ⟨⟨rfl, rfl⟩, rfl⟩
          · exact ⟨⟨rfl, rfl⟩, rfl⟩
          · exact ⟨⟨rfl, rfl⟩, rfl⟩
          · split <;> exact ⟨⟨rfl, rfl⟩, rfl⟩
  | ping d => exact outputs_pong st d
  | _ => exact ⟨⟨rfl, rfl⟩, rfl⟩

/-- The dispatch sends envelopes for sync requests only. -/
theorem dispatch_envelopes {type : Text} (key : Bytes) (sid : Text) (plain : Bytes)
    (htype : type ≠ "sync_req".toList) : envelopes (dispatch L key sid st type plain).2 = [] := by
  rw [dispatch]
  split_ifs
  · rfl
  · split <;> rfl
  · rfl
  · rfl

/-- The answer to a sync request of the session. -/
theorem handleSyncReq_envelopes (key : Bytes) (sid : Text) (plain : Bytes) :
    envelopes (handleSyncReq L key sid st plain).2 =
      match (L.json.fromSlice plain).bind SyncReqPayload.deserialize with
      | none => []
      | some syncData =>
          if syncData.sessionId = sid then
            if st.writerAlive then (answerSync L key sid st syncData.lastSeq).2 else []
          else [] := by
  rw [handleSyncReq]
  cases (L.json.fromSlice plain).bind SyncReqPayload.deserialize with
  | none => rfl
  | some syncData =>
      by_cases hsid : syncData.sessionId = sid
      · simp only [hsid, ne_eq, not_true, if_false, if_true]
        exact envelopes_sendAll st _
      · simp only [hsid, ne_eq, not_false_eq_true, if_false, if_true]
        rfl

/-- A text in the bridge loop is answered with envelopes exactly when it is a sync request. -/
theorem bridgeText_envelopes (key : Bytes) (sid t : Text) :
    envelopes (bridgeText L key sid st t).effects =
      match syncLast L key sid t with
      | some lastSeq => if st.writerAlive then (answerSync L key sid st lastSeq).2 else []
      | none => [] := by
  rw [bridgeText, syncLast]
  cases controlExit t with
  | some e => rfl
  | none =>
      cases hparse : (L.json.fromStr t).bind EncryptedEnvelope.deserialize with
      | none => rfl
      | some env =>
          simp only [Option.bind_eq_bind, Option.bind_some]
          rw [bridgeEnvelope]
          cases openEnvelope L key sid env with
          | none => rfl
          | some plain =>
              simp only [Option.bind_some]
              by_cases htype : env.type = "sync_req".toList
              -- the dispatch takes its last branch:
              · have hdispatch : dispatch L key sid st env.type plain =
                    handleSyncReq L key sid st plain := by
                  rw [htype]
                  rfl
                rw [hdispatch, handleSyncReq_envelopes, if_pos htype]
                cases (L.json.fromSlice plain).bind SyncReqPayload.deserialize with
                | none => rfl
                | some syncData =>
                    simp only [Option.bind_some]
                    by_cases hsid : syncData.sessionId = sid
                    · rw [if_pos hsid, if_pos hsid]
                    · rw [if_neg hsid, if_neg hsid]
              · rw [dispatch_envelopes key sid plain htype, if_neg htype]

theorem afterBridge_sameStore (st : RunState) (e : BridgeExit) : SameStore st (afterBridge st e) := by
  cases e <;> exact ⟨rfl, rfl⟩

/-- Going on after a turn sends nothing and keeps the store. -/
theorem resume_outputs {st' : RunState} {turn : BridgeTurn} (h : SameStore st' turn.state) :
    Outputs st' (envelopes turn.effects) turn.resume := by
  rw [BridgeTurn.resume]
  cases turn.exit with
  | none => exact ⟨h, rfl⟩
  | some e =>
      -- the exit keeps the store of the turn:
      have hafter := afterBridge_sameStore turn.state e
      exact ⟨⟨hafter.seq.trans h.seq, hafter.ringBuffer.trans h.ringBuffer⟩, rfl⟩

theorem bridgeText_sameStore (L : Crates) (st : RunState) (key : Bytes) (sid t : Text) :
    SameStore st (bridgeText L key sid st t).state := by
  rcases bridgeText_state L st key sid t with ⟨n, -, hstate⟩ | hstate
  · rw [hstate]
    exact ⟨rfl, rfl⟩
  · rw [hstate]
    exact ⟨rfl, rfl⟩

/-- A turn of the bridge loop. -/
theorem bridgeTurn_outputs (key : Bytes) (sid : Text) {e : Event} {turn : BridgeTurn}
    (h : bridgeTurn L key sid st e = some turn) :
    Outputs (stored st e) (bridgeEmits L key sid st e) turn.resume := by
  cases e with
  | ws item =>
      obtain rfl := Option.some.inj h
      cases item with
      | text t =>
          -- a text stores nothing, and its envelopes are those of `syncLast`:
          have hout := resume_outputs (bridgeText_sameStore L st key sid t)
          rw [bridgeText_envelopes] at hout
          exact hout
      | ping d => exact outputs_pong st d
      | _ => exact ⟨⟨rfl, rfl⟩, rfl⟩
  | pty result =>
      obtain rfl := Option.some.inj h
      cases result with
      | none => exact ⟨⟨rfl, rfl⟩, rfl⟩
      | some data =>
          rw [bridgeEmits, bridgePty]
          cases sealPacket L key sid st.relayAuthToken st.rng (st.seq + 1) "pty".toList data with
          | none =>
              -- the chunk is stored although it is not sent
              exact ⟨⟨rfl, rfl⟩, (ite_self _).symm⟩
          | some env =>
              dsimp only
              split_ifs <;> exact ⟨⟨rfl, rfl⟩, rfl⟩
  | tick elapsed =>
      obtain rfl := Option.some.inj h
      rw [bridgeTick]
      split_ifs
      · exact ⟨⟨rfl, rfl⟩, rfl⟩
      · exact outputs_ping st
  | _ => cases h

/-- The code of a phase stores the chunk of the event, if it reads one, and sends what `emits` says. -/
theorem react_outputs {p : Phase} (hp : st.phase = p) {e : Event} {r : RunState × List Effect}
    (h : S.react st p e = some r) : Outputs (stored st e) (emits S.crates st e) r := by
  rw [emits, hp]
  cases reacts_of_react h with
  | bridge hturn => exact bridgeTurn_outputs _ _ hturn
  | handshakeRecv dk item => exact handshakeRecv_outputs dk item
  | initRecv item => exact initRecv_outputs item
  | initTick elapsed => exact outputs_ping st
  | waitRecv alive item => exact waitRecv_outputs item
  | waitTick alive elapsed =>
      rw [waitTick]
      split_ifs
      · exact ⟨⟨rfl, rfl⟩, rfl⟩
      · exact outputs_ping st
  | waitPty result => cases result <;> exact ⟨⟨rfl, rfl⟩, rfl⟩
  | connected ok => cases ok <;> exact ⟨⟨rfl, rfl⟩, rfl⟩
  | join =>
      rw [sendJoin]
      split_ifs <;> exact ⟨⟨rfl, rfl⟩, rfl⟩
  | boot =>
      rw [sendBoot]
      split_ifs <;> exact ⟨⟨rfl, rfl⟩, rfl⟩
  | offer =>
      rw [sendOffer]
      dsimp only
      split_ifs <;> exact ⟨⟨rfl, rfl⟩, rfl⟩

/-- A step stores the chunk of its event and sends what `emits` says. -/
theorem step_outputs {e : Event} {r : RunState × List Effect} (h : S.step st e = some r) :
    Outputs (stored st e) (emits S.crates st e) r := by
  by_cases he : e = .writerExit
  · subst he
    obtain ⟨-, rfl⟩ := step_writerExit h
    refine ⟨⟨rfl, rfl⟩, ?_⟩
    rw [emits]
    -- no phase sends on the end of the writer task:
    cases st.phase <;> rfl
  · rw [step_eq_react he] at h
    exact react_outputs rfl h

/-- A step keeps the store in line with the chunks read. -/
theorem step_stores {e : Event} {r : RunState × List Effect} {chunks : List Bytes}
    (hst : Stores st chunks) (h : S.step st e = some r) : Stores r.1 (chunks ++ e.chunk) :=
  (hst.stored e).same (step_outputs h).store

end Steps

/-! ## What the envelopes carry -/

/-- The envelope carries the packet, sealed under the key. -/
structure Seals (L : Crates) (key : Bytes) (env : EncryptedEnvelope) (pkt : Packet) : Prop where
  seq : env.seq = pkt.seq
  type : env.type = pkt.msgType
  payload : ∃ packed, env.payload = L.prim.b64Encode packed ∧
    decrypt L.aead key packed = some pkt.payload

/-- The envelopes with output, as opposed to warnings. -/
def ptyEnvelopes (envs : List EncryptedEnvelope) : List EncryptedEnvelope :=
  envs.filter fun env => env.type = "pty".toList

/-- The session key of the bridge loop. -/
def Phase.sessionKey : Phase → Bytes
  | .bridge key _ => key
  | _ => []

/-- The number behind which the packets start that an event sends: the requested one for a sync request,
the number of the last chunk for a new chunk. -/
def sendsBehind (L : Crates) (st : RunState) : Event → Nat
  | .ws (.text t) =>
      match st.phase with
      | .bridge key sid => (syncLast L key sid t).getD st.seq
      | _ => st.seq
  | _ => st.seq

section Packets

variable {L : Crates} {st : RunState} {key : Bytes} {sid : Text}

theorem sealPacket_seals {auth : Option Text} {n seq : Nat} {msgType : Text} {payload : Bytes}
    {env : EncryptedEnvelope} (h : sealPacket L key sid auth n seq msgType payload = some env) :
    Seals L key env { seq := seq, msgType := msgType, payload := payload } := by
  simp only [sealPacket, Option.map_eq_some_iff] at h
  obtain ⟨packed, hpacked, rfl⟩ := h
  exact ⟨rfl, rfl, packed, rfl, decrypt_encrypt hpacked⟩

/-- A replay carries the packets in their order, apart from those that failed to encrypt. -/
theorem replay_seals (key : Bytes) (sid : Text) (auth : Option Text) (n : Nat) (pkts : List Packet) :
    ∃ sub, List.Forall₂ (Seals L key) (replay L key sid auth n pkts) sub ∧ sub.Sublist pkts := by
  induction pkts generalizing n with
  | nil => exact ⟨[], .nil, List.Sublist.slnil⟩
  | cons pkt pkts ih =>
      obtain ⟨sub, hseals, hsub⟩ := ih (n + 1)
      rw [replay]
      cases hseal : sealPacket L key sid auth n pkt.seq pkt.msgType pkt.payload with
      -- the skipped packet is left out of the sublist:
      | none => exact ⟨sub, hseals, hsub.cons pkt⟩
      | some env => exact ⟨pkt :: sub, .cons (sealPacket_seals hseal) hseals, hsub.cons_cons pkt⟩

theorem syncWarn_type {auth : Option Text} {n : Nat} {dropped : Option (Nat × Nat)}
    {env : EncryptedEnvelope} (h : env ∈ syncWarn L key sid auth n dropped) :
    env.type = "sync_warn".toList := by
  unfold syncWarn at h
  split at h
  · exact (sealPacket_seals (Option.mem_toList.1 h)).type
  · cases h

/-- Every output envelope carries output. -/
theorem ptyEnvelopes_eq_self {envs : List EncryptedEnvelope} {pkts : List Packet}
    (h : List.Forall₂ (Seals L key) envs pkts) (hp : ∀ p ∈ pkts, p.msgType = "pty".toList) :
    ptyEnvelopes envs = envs := by
  rw [ptyEnvelopes, List.filter_eq_self]
  intro env henv
  -- each envelope has the type of the packet at its place:
  obtain ⟨i, hi, rfl⟩ := List.getElem_of_mem henv
  have hi' : i < pkts.length := h.length_eq ▸ hi
  have hseal := h.get hi hi'
  exact decide_eq_true (hseal.type.trans (hp _ (List.get_mem pkts ⟨i, hi'⟩)))

/-- The output in the answer to a sync request: stored packets behind the requested number, in their
order. -/
theorem answerSync_seals {chunks : List Bytes} (hst : Stores st chunks) (lastSeq : Nat) :
    ∃ pkts, List.Forall₂ (Seals L key) (ptyEnvelopes (answerSync L key sid st lastSeq).2) pkts ∧
      pkts.Sublist (packetsOf chunks) ∧ ∀ p ∈ pkts, lastSeq < p.seq := by
  let kept := st.ringBuffer.buf.filter fun p => lastSeq < p.seq
  let warned := if (st.ringBuffer.packetsSince lastSeq).2.isSome then 1 else 0
  obtain ⟨pkts, hseals, hsub⟩ :=
    replay_seals (L := L) key sid st.relayAuthToken (st.rng + warned) kept
  have hchunks : pkts.Sublist (packetsOf chunks) :=
    hsub.trans (List.filter_sublist.trans hst.buf.sublist)
  -- all that is stored is output:
  have hpty := ptyEnvelopes_eq_self hseals fun p hp => (mem_packetsOf (hchunks.subset hp)).2.1
  refine ⟨pkts, ?_, hchunks, ?_⟩
  · -- the warning in front is no output
    have hwarn : ptyEnvelopes (syncWarn L key sid st.relayAuthToken st.rng
        (st.ringBuffer.packetsSince lastSeq).2) = [] := by
      rw [ptyEnvelopes, List.filter_eq_nil_iff]
      intro env henv
      rw [syncWarn_type henv]
      decide
    have hanswer : (answerSync L key sid st lastSeq).2 =
        syncWarn L key sid st.relayAuthToken st.rng (st.ringBuffer.packetsSince lastSeq).2 ++
          replay L key sid st.relayAuthToken (st.rng + warned) kept := rfl
    rw [hanswer, ptyEnvelopes, List.filter_append]
    change List.Forall₂ _ (ptyEnvelopes _ ++ ptyEnvelopes _) pkts
    rw [hwarn, hpty]
    exact hseals
  · intro p hp
    have hkept : p ∈ kept := hsub.subset hp
    exact of_decide_eq_true (List.mem_filter.1 hkept).2

/-- The output that a step sends: packets of the run in their order, all behind `sendsBehind`. -/
theorem emits_seals {chunks : List Bytes} (hst : Stores st chunks) (e : Event) :
    ∃ pkts, List.Forall₂ (Seals L st.phase.sessionKey) (ptyEnvelopes (emits L st e)) pkts ∧
      pkts.Sublist (packetsOf (chunks ++ e.chunk)) ∧ ∀ p ∈ pkts, sendsBehind L st e < p.seq := by
  have hnone : ∃ pkts, List.Forall₂ (Seals L st.phase.sessionKey) (ptyEnvelopes []) pkts ∧
      pkts.Sublist (packetsOf (chunks ++ e.chunk)) ∧ ∀ p ∈ pkts, sendsBehind L st e < p.seq :=
    ⟨[], .nil, List.nil_sublist _, fun p hp => absurd hp List.not_mem_nil⟩
  cases hp : st.phase with
  | bridge key sid =>
      rw [hp] at hnone
      simp only [emits, hp]
      cases e with
      | pty result =>
          cases result with
          | none => exact hnone
          | some data =>
              rw [bridgeEmits]
              split_ifs
              · -- the new chunk, sent live
                cases hseal : sealPacket L key sid st.relayAuthToken st.rng (st.seq + 1)
                    "pty".toList data with
                | none => exact hnone
                | some env =>
                    have hseals := sealPacket_seals hseal
                    refine ⟨[ptyPacket (st.seq + 1) data], ?_, ?_, ?_⟩
                    · have hself : ptyEnvelopes [env] = [env] :=
                        ptyEnvelopes_eq_self (.cons hseals .nil) fun p hp => by
                          rw [List.mem_singleton.1 hp]
                      rw [Option.toList_some, hself]
                      exact .cons hseals .nil
                    · rw [Event.chunk, packetsOf_append, hst.seq]
                      exact List.sublist_append_right _ _
                    · intro p hp
                      rw [List.mem_singleton.1 hp]
                      exact Nat.lt_succ_self st.seq
              · exact hnone
      | ws item =>
          cases item with
          | text t =>
              rw [bridgeEmits]
              -- the number in front depends on the request:
              have hbehind : sendsBehind L st (.ws (.text t)) = (syncLast L key sid t).getD st.seq := by
                simp only [sendsBehind, hp]
              rw [hbehind]
              cases syncLast L key sid t with
              | none => exact ⟨[], .nil, List.nil_sublist _, fun p hp => absurd hp List.not_mem_nil⟩
              | some lastSeq =>
                  dsimp only
                  split_ifs
                  · -- the answer to a sync request
                    have hchunks : chunks ++ (Event.ws (.text t)).chunk = chunks := List.append_nil _
                    rw [hchunks]
                    exact answerSync_seals hst lastSeq
                  · exact ⟨[], .nil, List.nil_sublist _, fun p hp => absurd hp List.not_mem_nil⟩
          | _ => exact hnone
      | _ => exact hnone
  | _ =>
      simp only [emits, hp]
      rw [hp] at hnone
      exact hnone

end Packets

end Ktty.Agent
