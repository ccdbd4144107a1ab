import Ktty.Agent.Replay
import Ktty.Agent.SampleCrates
import Ktty.Client.WebSocketService
import Ktty.Lib.Execution

/-!
# The answer to a sync request is complete

In every run the ring buffer holds the chunks from some number on up to the counter. So the answer to a
request for what follows `lastSeq` has a simple shape (`Answers`): the chunks behind some number `d` in
their order, sealed under the current key, and in front of them one warning of the range from
`lastSeq + 1` to `d`, if there is anything in it. `sync_complete` says so for the requests of every run
in which the counter and `last_seq + 1` fit a `u64`. At the last number of a `u64` the sum wraps, and
the agent warns of a range that it has not lost (`last_number_warned`).
-/

set_option autoImplicit false

namespace Ktty.Agent

open Ktty.Wire Ktty.Crypto Ktty.Lib.Execution

/-! ## The buffer -/

/-- The buffer holds the packets of the chunks behind the first `d`; with chunks read, at least one. -/
structure HoldsFrom (st : RunState) (chunks : List Bytes) (d : Nat) : Prop where
  counter : st.seq = chunks.length
  le : d ≤ chunks.length
  buf : st.ringBuffer.buf = (packetsOf chunks).drop d
  some_left : chunks ≠ [] → d < chunks.length

theorem Recent.holdsFrom {st : RunState} {chunks : List Bytes} (h : Recent st chunks) :
    ∃ d, HoldsFrom st chunks d := by
  obtain ⟨older, hsplit⟩ := h.buf
  have hlen : older.length + st.ringBuffer.buf.length = chunks.length := by
    rw [← List.length_append, hsplit, length_packetsOf]
  refine ⟨older.length, h.seq, by omega, ?_, fun hne => ?_⟩
  · rw [← hsplit, List.drop_left]
  · have hpos := List.length_pos_of_ne_nil (h.last hne)
    omega

theorem HoldsFrom.block {st : RunState} {chunks : List Bytes} {d : Nat} (h : HoldsFrom st chunks d) :
    RingBuffer.Block (d + 1) st.ringBuffer.buf := by
  rw [h.buf, Nat.add_comm]
  exact (block_packetsOf chunks).drop d

/-- The buffer holds a block of consecutive numbers that ends at the counter. -/
theorem HoldsFrom.seqs {st : RunState} {chunks : List Bytes} {d : Nat} (h : HoldsFrom st chunks d) :
    st.ringBuffer.buf.map Packet.seq = List.range' (d + 1) (st.seq - d) := by
  rw [h.block, h.counter, h.buf, List.length_drop, length_packetsOf]

theorem HoldsFrom.buf_ne_nil {st : RunState} {chunks : List Bytes} {d : Nat}
    (h : HoldsFrom st chunks d) (hne : chunks ≠ []) : st.ringBuffer.buf ≠ [] := by
  apply List.ne_nil_of_length_pos
  have hlt := h.some_left hne
  rw [h.buf, List.length_drop, length_packetsOf]
  omega

/-! ## The answer -/

/-- The envelope is the warning of the range from `start` to `stop`. -/
def Warns (L : Crates) (key : Bytes) (start stop : Nat) (env : EncryptedEnvelope) : Prop :=
  Seals L key env
    { seq := 0, msgType := "sync_warn".toList, payload := toVec (syncWarnJson start stop) }

/-- The answer to a request for what follows `lastSeq`: the chunks behind some number `d` in their
order, and in front of them one warning of the range from `lastSeq + 1` to `d`, if it is not empty. -/
def Answers (L : Crates) (key : Bytes) (chunks : List Bytes) (lastSeq : Nat)
    (envs : List EncryptedEnvelope) : Prop :=
  ∃ d warning replayed, envs = warning ++ replayed ∧ lastSeq ≤ d ∧ d ≤ chunks.length ∧
    List.Forall₂ (Seals L key) replayed ((packetsOf chunks).drop d) ∧
    (d = lastSeq ∧ warning = [] ∨
      lastSeq < d ∧ ∃ env, warning = [env] ∧ Warns L key (lastSeq + 1) d env)

section Answer

variable {L : Crates} {st : RunState} {chunks : List Bytes}

/-- A replay of packets that fit carries all of them, in their order. -/
theorem replay_all (key : Bytes) (sid : Text) (auth : Option Text) (n : Nat) {pkts : List Packet}
    (hfits : ∀ p ∈ pkts, p.payload.length ≤ READ_BUF_SIZE) :
    List.Forall₂ (Seals L key) (replay L key sid auth n pkts) pkts := by
  induction pkts generalizing n with
  | nil => exact .nil
  | cons p pkts ih =>
      -- a packet that fits is sealed, so none is skipped:
      obtain ⟨env, henv⟩ := Option.isSome_iff_exists.1
        (sealPacket_isSome L key sid auth n p.seq p.msgType (hfits p List.mem_cons_self))
      rw [replay, henv]
      exact .cons (sealPacket_seals henv) (ih (n + 1) fun q hq => hfits q (List.mem_cons_of_mem _ hq))

theorem syncWarn_some (key : Bytes) (sid : Text) (auth : Option Text) (n : Nat) {start stop : Nat}
    (hstart : start < 2 ^ 64) (hstop : stop < 2 ^ 64) :
    ∃ env, syncWarn L key sid auth n (some (start, stop)) = [env] ∧ Warns L key start stop env := by
  obtain ⟨enc, henc⟩ := Option.isSome_iff_exists.1
    (encrypt_isSome (A := L.aead) n key (length_syncWarn hstart hstop))
  have hseal : sealPacket L key sid auth n 0 "sync_warn".toList (toVec (syncWarnJson start stop)) =
      some ((EncryptedEnvelope.new 0 sid "sync_warn".toList (L.prim.b64Encode enc)).withAuth auth) := by
    rw [sealPacket, henc]
    rfl
  refine ⟨_, ?_, sealPacket_seals hseal⟩
  rw [syncWarn, hseal]
  rfl

theorem answerSync_eq (key : Bytes) (sid : Text) (lastSeq : Nat) :
    (answerSync L key sid st lastSeq).2 =
      syncWarn L key sid st.relayAuthToken st.rng (st.ringBuffer.packetsSince lastSeq).2 ++
        replay L key sid st.relayAuthToken
          (st.rng + if (st.ringBuffer.packetsSince lastSeq).2.isSome then 1 else 0)
          (st.ringBuffer.packetsSince lastSeq).1 := rfl

/-- The answer is complete if the counter and the number behind the requested one fit a `u64`. -/
theorem answerSync_answers (hst : Recent st chunks) (key : Bytes) (sid : Text) {lastSeq : Nat}
    (hle : lastSeq ≤ st.seq) (hcount : chunks.length < 2 ^ 64) (hnext : lastSeq + 1 < 2 ^ 64) :
    Answers L key chunks lastSeq (answerSync L key sid st lastSeq).2 := by
  obtain ⟨d, hd⟩ := hst.holdsFrom
  -- of what the buffer holds, the packets behind the requested number:
  have hkept : (st.ringBuffer.packetsSince lastSeq).1 = (packetsOf chunks).drop (max d lastSeq) := by
    have hmax : d + (lastSeq + 1 - (d + 1)) = max d lastSeq := by omega
    rw [RingBuffer.packetsSince, hd.block.filter, hd.buf, List.drop_drop, hmax]
  have hfits : ∀ p ∈ (packetsOf chunks).drop (max d lastSeq), p.payload.length ≤ READ_BUF_SIZE := by
    intro p hp
    exact hst.fits _ (List.mem_of_getElem? (mem_packetsOf (List.mem_of_mem_drop hp)).2.2)
  rw [answerSync_eq, hkept]
  rw [hd.counter] at hle
  by_cases hlost : lastSeq < d
  · -- what lies between the requested number and the buffer has been evicted
    have hne : chunks ≠ [] := by
      rintro rfl
      have hzero := hd.le
      rw [List.length_nil] at hzero
      omega
    have hdropped : (st.ringBuffer.packetsSince lastSeq).2 = some (lastSeq + 1, d) := by
      rw [hd.block.packetsSince (hd.buf_ne_nil hne) hnext]
      exact if_pos hlost
    obtain ⟨env, hwarn, hwarns⟩ := syncWarn_some (L := L) key sid st.relayAuthToken st.rng hnext
      (show d < 2 ^ 64 by have := hd.le; omega)
    rw [Nat.max_eq_left hlost.le] at hfits ⊢
    rw [hdropped, hwarn]
    exact ⟨d, [env], _, rfl, hlost.le, hd.le, replay_all key sid _ _ hfits,
      Or.inr ⟨hlost, env, rfl, hwarns⟩⟩
  · -- the buffer reaches back to the requested number
    have hdropped : (st.ringBuffer.packetsSince lastSeq).2 = none := by
      by_cases hne : chunks = []
      -- nothing has been read yet, so nothing can be lost:
      · have hbuf : st.ringBuffer.oldestSeq = none := by
          rw [RingBuffer.oldestSeq, hd.buf, hne]
          simp [packetsOf]
        rw [RingBuffer.packetsSince, hbuf]
      · rw [hd.block.packetsSince (hd.buf_ne_nil hne) hnext]
        exact if_neg hlost
    rw [Nat.max_eq_right (Nat.le_of_not_lt hlost)] at hfits ⊢
    rw [hdropped]
    exact ⟨lastSeq, [], _, rfl, le_rfl, hle, replay_all key sid _ _ hfits, Or.inl ⟨rfl, rfl⟩⟩

end Answer

/-! ## Runs -/

theorem recent_run {S : Session} {st t : RunState} {es : List Event} {chunks : List Bytes}
    (hrun : Run (stepRel S.next) st es t) (hfit : ∀ e ∈ es, e.fitsBuffer = true)
    (hst : Recent st chunks) : Recent t (chunks ++ es.flatMap Event.chunk) := by
  induction hrun generalizing chunks with
  | nil s =>
      rw [List.flatMap_nil, List.append_nil]
      exact hst
  | @cons s m t e es hstep _ ih =>
      obtain ⟨r, hr, rfl⟩ := Option.map_eq_some_iff.1 hstep
      have hm := step_recent hst (hfit e (List.mem_cons_self ..)) hr
      have ht := ih (fun e' he' => hfit e' (List.mem_cons_of_mem _ he')) hm
      rw [List.flatMap_cons, ← List.append_assoc]
      exact ht

/-- The agent answers the request in `plain` for what follows `lastSeq` completely. -/
def AnswersRequest (S : Session) (st : RunState) (chunks : List Bytes) (key : Bytes) (sid : Text)
    (plain : Bytes) (lastSeq : Nat) : Prop :=
  ∃ envs, (handleSyncReq S.crates key sid st plain).2 =
      envs.flatMap (fun env => st.trySend (.envelope env)) ∧
    Answers S.crates key chunks lastSeq envs

theorem handleSyncReq_eq {L : Crates} {st : RunState} {key plain : Bytes} {sid : Text}
    {req : SyncReqPayload} (hreq : (L.json.fromSlice plain).bind SyncReqPayload.deserialize = some req)
    (hsid : req.sessionId = sid) :
    (handleSyncReq L key sid st plain).2 =
      (answerSync L key sid st req.lastSeq).2.flatMap fun env => st.trySend (.envelope env) := by
  rw [handleSyncReq, hreq]
  simp only [hsid, ne_eq, not_true, if_false]

/-- In every run whose chunks fit the read buffer, the ring buffer holds the chunks behind some number
up to the counter, and every sync request of the current session for what follows a number up to the
counter is answered completely, if the counter and the next number fit a `u64`. -/
theorem sync_complete (S : Session) (es : List Event) (st : RunState)
    (hrun : Run (stepRel S.next) Session.start es st) (hfit : ∀ e ∈ es, e.fitsBuffer = true) :
    (∃ d, HoldsFrom st (es.flatMap Event.chunk) d ∧
      st.ringBuffer.buf.map Packet.seq = List.range' (d + 1) (st.seq - d)) ∧
    ∀ key sid plain req, st.phase = .bridge key sid →
      (S.crates.json.fromSlice plain).bind SyncReqPayload.deserialize = some req →
      req.sessionId = sid → req.lastSeq ≤ st.seq → st.seq < 2 ^ 64 → req.lastSeq + 1 < 2 ^ 64 →
      AnswersRequest S st (es.flatMap Event.chunk) key sid plain req.lastSeq := by
  have hst : Recent st (es.flatMap Event.chunk) := recent_run hrun hfit recent_start
  constructor
  · obtain ⟨d, hd⟩ := hst.holdsFrom
    exact ⟨d, hd, hd.seqs⟩
  · intro key sid plain req _ hreq hsid hle hcount hnext
    refine ⟨_, handleSyncReq_eq hreq hsid, ?_⟩
    exact answerSync_answers hst key sid hle (hst.seq ▸ hcount) hnext

/-! ## The last number of a `u64` -/

/-- The bridge loop reads `n` chunks. -/
theorem exists_bridgeRun {S : Session} {st : RunState} {key : Bytes} {sid : Text}
    (hp : st.phase = .bridge key sid) (hw : st.writerAlive = true) (n : Nat) :
    ∃ t, Run (stepRel S.next) st (List.replicate n (.pty (some [120]))) t ∧
      t.phase = .bridge key sid ∧ t.writerAlive = true := by
  induction n generalizing st with
  | zero => exact ⟨st, Run.nil st, hp, hw⟩
  | succ n ih =>
      have hlen : ([120] : Bytes).length ≤ READ_BUF_SIZE := by decide
      obtain ⟨env, henv⟩ := Option.isSome_iff_exists.1
        (sealPacket_isSome S.crates key sid st.relayAuthToken st.rng (st.seq + 1) "pty".toList hlen)
      have hstep : S.next st (.pty (some [120])) =
          some { storeChunk st [120] with rng := st.rng + 1 } := by
        rw [Session.next, step_eq_react (by simp), hp]
        simp only [Session.react, bridgeTurn, bridgePty, henv, hw, if_true]
        rfl
      have hphase : ({ storeChunk st [120] with rng := st.rng + 1 } : RunState).phase =
          .bridge key sid := hp
      obtain ⟨t, hrun, ht⟩ := ih hphase hw
      exact ⟨t, Run.cons hstep hrun, ht⟩

namespace Sample

/-- The client's ciphertext, from which the agent derives `key`. -/
def reply : Json := .ofFields [("type", .str "handshake".toList),
  ("mlkem_ciphertext", .str (Lib.Base64.encode [0, 7]))]

/-- The request for what follows the last number of a `u64`. -/
def lastRequest : Json := Client.syncReqJson (2 ^ 64 - 1) sid

/-- The request for everything. -/
def firstRequest : Json := Client.syncReqJson 0 sid

def handshaken : Session := session [join, reply, firstRequest, lastRequest]

/-- The run up to the bridge loop. -/
def bridging : List Event :=
  [.connected true, .proceed, .ws (.text join.encode), .proceed, .proceed, .ws (.text reply.encode)]

end Sample

/-- The run stands in the bridge loop of the session `sid`. -/
def Phase.bridges (p : Phase) (sid : Text) : Bool :=
  match p with
  | .bridge _ sid' => sid' == sid
  | _ => false

/-- At the last number of a `u64`, a complete answer to a client that has everything is empty. -/
theorem Answers.nil_of_last {L : Crates} {key : Bytes} {chunks : List Bytes} {lastSeq : Nat}
    {envs : List EncryptedEnvelope} (h : Answers L key chunks lastSeq envs)
    (hlast : chunks.length ≤ lastSeq) : envs = [] := by
  obtain ⟨d, warning, replayed, rfl, hle, hd, hreplayed, ⟨rfl, rfl⟩ | ⟨hlt, -⟩⟩ := h
  · rw [List.drop_of_length_le (by rw [length_packetsOf]; exact hlast)] at hreplayed
    rw [List.forall₂_nil_right_iff.1 hreplayed, List.nil_append]
  · omega

/-- The run that reads `n` chunks in the bridge loop. -/
def Sample.reading (n : Nat) : List Event := Sample.bridging ++ List.replicate n (.pty (some [120]))

theorem chunks_reading (n : Nat) : (Sample.reading n).flatMap Event.chunk = List.replicate n [120] := by
  -- no chunk is read before the bridge loop:
  have hnone : Sample.bridging.flatMap Event.chunk = [] := rfl
  rw [Sample.reading, List.flatMap_append, hnone, List.nil_append]
  induction n with
  | zero => rfl
  | succ n ih =>
      rw [List.replicate_succ, List.flatMap_cons, ih]
      rfl

theorem fits_reading (n : Nat) : ∀ e ∈ Sample.reading n, e.fitsBuffer = true := by
  intro e he
  rcases List.mem_append.1 he with he | he
  · exact List.all_eq_true.1 (show Sample.bridging.all Event.fitsBuffer = true from rfl) e he
  · rw [List.eq_of_mem_replicate he]
    rfl

theorem exists_reading (n : Nat) :
    ∃ st key, Run (stepRel Sample.handshaken.next) Session.start (Sample.reading n) st ∧
      st.phase = .bridge key Sample.sid ∧ st.writerAlive = true ∧
      Recent st (List.replicate n [120]) := by
  obtain ⟨st₀, hstart, hbridges, hw₀⟩ : ∃ st,
      Run (stepRel Sample.handshaken.next) Session.start Sample.bridging st ∧
        st.phase.bridges Sample.sid = true ∧ st.writerAlive = true :=
    exists_run_of_exec (by decide +kernel)
  obtain ⟨key, hp₀⟩ : ∃ key, st₀.phase = .bridge key Sample.sid := by
    cases hp : st₀.phase with
    | bridge key sid =>
        rw [hp] at hbridges
        exact ⟨key, by rw [eq_of_beq hbridges]⟩
    | _ =>
        rw [hp] at hbridges
        cases hbridges
  obtain ⟨st, hchunks, hp, hw⟩ := exists_bridgeRun hp₀ hw₀ n
  have hrun : Run (stepRel Sample.handshaken.next) Session.start (Sample.reading n) st :=
    hstart.append hchunks
  have hst := recent_run hrun (fits_reading n) recent_start
  rw [chunks_reading, List.nil_append] at hst
  exact ⟨st, key, hrun, hp, hw, hst⟩

/-- After `2 ^ 64 - 1` chunks a client that has all of them asks for what follows the last one, and the
agent warns it of a lost range. -/
theorem last_number_warned :
    ∃ es st key sid plain req, Run (stepRel Sample.handshaken.next) Session.start es st ∧
      (∀ e ∈ es, e.fitsBuffer = true) ∧ st.phase = .bridge key sid ∧
      (Sample.handshaken.crates.json.fromSlice plain).bind SyncReqPayload.deserialize = some req ∧
      req.sessionId = sid ∧ req.lastSeq ≤ st.seq ∧
      ¬ AnswersRequest Sample.handshaken st (es.flatMap Event.chunk) key sid plain req.lastSeq := by
  have hreq : (Sample.handshaken.crates.json.fromSlice (toVec Sample.lastRequest)).bind
      SyncReqPayload.deserialize = some { lastSeq := 2 ^ 64 - 1, sessionId := Sample.sid } := by
    rfl
  -- the number stays a variable, so that nothing evaluates a run of this length:
  obtain ⟨n, hn⟩ : ∃ n, n = 2 ^ 64 - 1 := ⟨_, rfl⟩
  rw [← hn] at hreq
  obtain ⟨st, key, hrun, hp, hw, hst⟩ := exists_reading n
  have hseq : st.seq = n := by rw [hst.seq, List.length_replicate]
  refine ⟨_, st, key, Sample.sid, toVec Sample.lastRequest, _, hrun, fits_reading n, hp, hreq, rfl,
    hseq.ge, ?_⟩
  rintro ⟨envs, heq, hanswers⟩
  rw [chunks_reading] at hanswers
  have hnil := hanswers.nil_of_last (by rw [List.length_replicate])
  -- the sum wraps to zero, so the agent warns of everything in front of the buffer
  obtain ⟨d, hd⟩ := hst.holdsFrom
  have hne : List.replicate n ([120] : Bytes) ≠ [] := by
    apply List.ne_nil_of_length_pos
    rw [List.length_replicate, hn]
    omega
  have hsucc : RingBuffer.u64Succ n = 0 := by
    rw [RingBuffer.u64Succ, hn]
    omega
  have hdropped : (st.ringBuffer.packetsSince n).2 = some (0, d) := by
    rw [RingBuffer.packetsSince, hd.block.oldestSeq (hd.buf_ne_nil hne), hsucc]
    simp
  obtain ⟨env, hwarn, -⟩ := syncWarn_some (L := Sample.handshaken.crates) key Sample.sid
    st.relayAuthToken st.rng (show 0 < 2 ^ 64 by omega)
    (show d < 2 ^ 64 by have := hd.le; rw [List.length_replicate] at this; omega)
  rw [handleSyncReq_eq hreq rfl, answerSync_eq, hdropped, hwarn, hnil] at heq
  simp [RunState.trySend, hw] at heq

/-- After two chunks, the request for everything is answered completely. -/
theorem sync_complete_two :
    ∃ st key, Run (stepRel Sample.handshaken.next) Session.start (Sample.reading 2) st ∧
      AnswersRequest Sample.handshaken st [[120], [120]] key Sample.sid (toVec Sample.firstRequest) 0 := by
  obtain ⟨st, key, hrun, hp, -, hst⟩ := exists_reading 2
  have hreq : (Sample.handshaken.crates.json.fromSlice (toVec Sample.firstRequest)).bind
      SyncReqPayload.deserialize = some { lastSeq := 0, sessionId := Sample.sid } := by
    rfl
  have hcount : st.seq < 2 ^ 64 := by
    rw [hst.seq]
    decide
  have hanswer := (sync_complete Sample.handshaken (Sample.reading 2) st hrun (fits_reading 2)).2
    key Sample.sid _ _ hp hreq rfl (Nat.zero_le _) hcount (by decide)
  rw [chunks_reading] at hanswer
  exact ⟨st, key, hrun, hanswer⟩

end Ktty.Agent
