import Ktty.Agent.Output
import Ktty.Agent.RingBuffer

/-!
# What a sync request gets back

The ring buffer holds the latest chunks of the run without a gap (`Recent`). So the answer to a sync
request for what follows `lastSeq` accounts for every chunk behind that number: either the chunk is sent
again, or it lies in the range of the warning (`answerSync_covers`). Chunks up to `lastSeq` are not in
the answer, whether the client has them or not.
-/

set_option autoImplicit false

namespace Ktty.Agent

open Ktty.Wire Ktty.Crypto

/-- The ring buffer of a run whose chunks fit the read buffer holds the last ones. -/
structure Recent (st : RunState) (chunks : List Bytes) : Prop extends Stores st chunks where
  sized : st.ringBuffer.Sized
  bound : st.ringBuffer.maxBytes = RING_BUFFER_SIZE
  fits : ∀ data ∈ chunks, data.length ≤ READ_BUF_SIZE
  last : chunks ≠ [] → st.ringBuffer.buf ≠ []

theorem recent_start : Recent Session.start [] where
  seq := rfl
  buf := List.suffix_refl []
  sized := RingBuffer.sized_new
  bound := rfl
  fits _ h := by cases h
  last h := absurd rfl h

/-- An envelope accounts for chunk `n`: it carries the chunk, or it warns about the dropped range and
the chunk lies in it. -/
def Accounts (L : Crates) (key : Bytes) (chunks : List Bytes) (dropped : Option (Nat × Nat)) (n : Nat)
    (env : EncryptedEnvelope) : Prop :=
  (∃ data, chunks[n - 1]? = some data ∧ Seals L key env (ptyPacket n data)) ∨
    ∃ start stop, dropped = some (start, stop) ∧ start ≤ n ∧ n ≤ stop ∧
      Seals L key env
        { seq := 0, msgType := "sync_warn".toList, payload := toVec (syncWarnJson start stop) }

section Recent

variable {L : Crates} {S : Session} {st : RunState} {chunks : List Bytes}

theorem byteSize_ptyPacket (n : Nat) {data : Bytes} (h : data.length ≤ READ_BUF_SIZE) :
    (ptyPacket n data).byteSize ≤ RING_BUFFER_SIZE := by
  have hsize : (ptyPacket n data).byteSize = 3 + data.length + 16 := rfl
  have hread : READ_BUF_SIZE = 4096 := rfl
  have hring : RING_BUFFER_SIZE = 2097152 := rfl
  omega

theorem Recent.same {st' : RunState} (h : Recent st chunks) (hs : SameStore st st') :
    Recent st' chunks where
  toStores := h.toStores.same hs
  sized := hs.ringBuffer ▸ h.sized
  bound := hs.ringBuffer ▸ h.bound
  fits := h.fits
  last hne := hs.ringBuffer ▸ h.last hne

theorem Recent.storeChunk (h : Recent st chunks) {data : Bytes} (hfit : data.length ≤ READ_BUF_SIZE) :
    Recent (storeChunk st data) (chunks ++ [data]) := by
  have hbyte : (ptyPacket (st.seq + 1) data).byteSize ≤ st.ringBuffer.maxBytes := by
    rw [h.bound]
    exact byteSize_ptyPacket _ hfit
  obtain ⟨hsized, hne⟩ := RingBuffer.push_sized h.sized hbyte
  refine ⟨h.toStores.storeChunk data, hsized, h.bound, ?_, fun _ => hne⟩
  intro d hd
  rcases List.mem_append.1 hd with hd | hd
  · exact h.fits d hd
  · rw [List.mem_singleton.1 hd]
    exact hfit

/-- A step keeps the ring buffer recent. -/
theorem step_recent {e : Event} {r : RunState × List Effect} (hst : Recent st chunks)
    (hfit : e.fitsBuffer = true) (h : S.step st e = some r) : Recent r.1 (chunks ++ e.chunk) := by
  have hstore := (step_outputs h).store
  have hnone : Recent st (chunks ++ []) := by
    rw [List.append_nil]
    exact hst
  cases e with
  | pty result =>
      cases result with
      | some data => exact (hst.storeChunk (of_decide_eq_true hfit)).same hstore
      | none => exact hnone.same hstore
  | _ => exact hnone.same hstore

/-! ## The answer -/

/-- A character takes at most four bytes. -/
theorem length_toVec_le (v : Json) : (toVec v).length ≤ 4 * v.encode.length := by
  rw [toVec]
  induction v.encode with
  | nil => exact Nat.le_refl 0
  | cons c cs ih =>
      have hc : (String.utf8EncodeChar c).length ≤ 4 := by
        rw [String.length_utf8EncodeChar]
        exact Char.utf8Size_le_four c
      rw [List.flatMap_cons, List.length_append, List.length_cons]
      omega

/-- The decimal digits of a `u64`. -/
theorem length_encodeInt {n : Nat} (h : n < 2 ^ 64) : (Json.encodeInt n).length ≤ 20 := by
  have hnonneg : ¬ (n : Int) < 0 := by omega
  rw [Json.encodeInt, if_neg hnonneg, Int.natAbs_natCast,
    Nat.length_toDigits_le_iff (by omega) (by omega)]
  omega

/-- The body of a warning is short. -/
theorem length_syncWarn_le {start stop : Nat} (hstart : start < 2 ^ 64) (hstop : stop < 2 ^ 64) :
    (toVec (syncWarnJson start stop)).length ≤ 292 := by
  have hvec := length_toVec_le (syncWarnJson start stop)
  have hend := length_encodeInt hstop
  have hbegin := length_encodeInt hstart
  have hencode : (syncWarnJson start stop).encode.length =
      33 + (Json.encodeInt stop).length + (Json.encodeInt start).length := by
    have hk1 : (Json.quote "dropped_end".toList).length = 13 := by decide
    have hk2 : (Json.quote "dropped_start".toList).length = 15 := by decide
    simp only [syncWarnJson, Json.ofFields, List.map_cons, List.map_nil, Json.encode,
      Json.encodeMembers, List.length_cons, List.length_append, List.length_nil, hk1, hk2]
    omega
  omega

/-- It is short enough for the cipher. -/
theorem length_syncWarn {start stop : Nat} (hstart : start < 2 ^ 64) (hstop : stop < 2 ^ 64) :
    (toVec (syncWarnJson start stop)).length < 64 * (2 ^ 32 - 1) := by
  have hle := length_syncWarn_le hstart hstop
  omega

/-- A replay of packets that fit carries each of them. -/
theorem mem_replay (key : Bytes) (sid : Text) (auth : Option Text) (n : Nat) {pkts : List Packet}
    (hfits : ∀ p ∈ pkts, p.payload.length ≤ READ_BUF_SIZE) {p : Packet} (hp : p ∈ pkts) :
    ∃ env ∈ replay L key sid auth n pkts, Seals L key env p := by
  induction pkts generalizing n with
  | nil => cases hp
  | cons q pkts ih =>
      rw [replay]
      rcases List.mem_cons.1 hp with rfl | hp
      · -- its payload is short enough to be encrypted
        have hsome := sealPacket_isSome L key sid auth n p.seq p.msgType
          (hfits p List.mem_cons_self)
        obtain ⟨env, henv⟩ := Option.isSome_iff_exists.1 hsome
        refine ⟨env, ?_, sealPacket_seals henv⟩
        rw [henv]
        exact List.mem_cons_self
      · obtain ⟨env, henv, hseal⟩ := ih (n + 1) (fun q hq => hfits q (List.mem_cons_of_mem _ hq)) hp
        exact ⟨env, List.mem_append_right _ henv, hseal⟩

/-- The packets in the buffer are those from the oldest number on. -/
theorem mem_buf (hst : Recent st chunks) {n oldest : Nat} {data : Bytes}
    (holdest : st.ringBuffer.oldestSeq = some oldest) (hn : oldest ≤ n)
    (hget : chunks[n - 1]? = some data) (hpos : 1 ≤ n) : ptyPacket n data ∈ st.ringBuffer.buf := by
  obtain ⟨older, hsplit⟩ := hst.buf
  have hall : ptyPacket n data ∈ older ++ st.ringBuffer.buf := by
    obtain ⟨hlt, hdata⟩ := List.getElem?_eq_some_iff.1 hget
    rw [hsplit, packetsOf, List.mem_mapIdx]
    refine ⟨n - 1, hlt, ?_⟩
    rw [hdata, Nat.sub_add_cancel hpos]
  rcases List.mem_append.1 hall with hmem | hmem
  · -- an evicted packet is older than the oldest one in the buffer
    have hinc := packetsOf_increasing chunks
    rw [← hsplit, List.map_append, List.pairwise_append] at hinc
    rw [RingBuffer.oldestSeq, Option.map_eq_some_iff] at holdest
    obtain ⟨p, hp, rfl⟩ := holdest
    have hlt : n < p.seq := hinc.2.2 n (List.mem_map.2 ⟨_, hmem, rfl⟩) p.seq
      (List.mem_map_of_mem (List.mem_of_mem_head? hp))
    omega
  · exact hmem

/-- Every chunk behind the requested number is accounted for in the answer. -/
theorem answerSync_covers (hst : Recent st chunks) (key : Bytes) (sid : Text) {lastSeq n : Nat}
    (hcount : chunks.length < 2 ^ 64) (hn : lastSeq < n) (hle : n ≤ chunks.length) :
    ∃ env ∈ (answerSync L key sid st lastSeq).2,
      Accounts L key chunks (st.ringBuffer.packetsSince lastSeq).2 n env := by
  have hpos : 1 ≤ n := by omega
  have hlt : n - 1 < chunks.length := by omega
  have hget : chunks[n - 1]? = some chunks[n - 1] := List.getElem?_eq_getElem hlt
  have hne : chunks ≠ [] := List.ne_nil_of_length_pos (by omega)
  obtain ⟨p, hp⟩ : ∃ p, st.ringBuffer.buf.head? = some p := by
    obtain ⟨p, rest, hbuf⟩ := List.exists_cons_of_ne_nil (hst.last hne)
    exact ⟨p, by rw [hbuf]; rfl⟩
  have holdest : st.ringBuffer.oldestSeq = some p.seq := by rw [RingBuffer.oldestSeq, hp]; rfl
  let dropped := (st.ringBuffer.packetsSince lastSeq).2
  let warned := if dropped.isSome then 1 else 0
  let kept := st.ringBuffer.buf.filter fun q => lastSeq < q.seq
  have hanswer : (answerSync L key sid st lastSeq).2 =
      syncWarn L key sid st.relayAuthToken st.rng dropped ++
        replay L key sid st.relayAuthToken (st.rng + warned) kept := rfl
  rw [hanswer]
  by_cases hold : p.seq ≤ n
  · -- the chunk is still in the buffer and is sent again
    have hbuf := mem_buf hst holdest hold hget hpos
    have hkept : ptyPacket n chunks[n - 1] ∈ kept := List.mem_filter.2 ⟨hbuf, decide_eq_true hn⟩
    have hfits : ∀ q ∈ kept, q.payload.length ≤ READ_BUF_SIZE := by
      intro q hq
      have hmem := hst.buf.subset (List.mem_of_mem_filter hq)
      exact hst.fits _ (List.mem_of_getElem? (mem_packetsOf hmem).2.2)
    obtain ⟨env, henv, hseal⟩ := mem_replay (L := L) key sid st.relayAuthToken
      (st.rng + warned) hfits hkept
    exact ⟨env, List.mem_append_right _ henv, Or.inl ⟨_, hget, hseal⟩⟩
  · -- it has been evicted and lies in the range of the warning
    have hsucc : RingBuffer.u64Succ lastSeq ≤ lastSeq + 1 := Nat.mod_le _ _
    have hgap : RingBuffer.u64Succ lastSeq < p.seq := by omega
    have hdropped : dropped = some (RingBuffer.u64Succ lastSeq, p.seq - 1) := by
      simp only [dropped, RingBuffer.packetsSince, holdest, if_pos hgap]
    have hseq : p.seq ≤ chunks.length := by
      have hmem := hst.buf.subset (List.mem_of_mem_head? hp)
      obtain ⟨hp1, -, hdata⟩ := mem_packetsOf hmem
      have := (List.getElem?_eq_some_iff.1 hdata).1
      omega
    have hstart : RingBuffer.u64Succ lastSeq < 2 ^ 64 := Nat.mod_lt _ (by omega)
    have hsome := encrypt_isSome (A := L.aead) st.rng key
      (length_syncWarn hstart (show p.seq - 1 < 2 ^ 64 by omega))
    obtain ⟨enc, henc⟩ := Option.isSome_iff_exists.1 hsome
    have hseal : sealPacket L key sid st.relayAuthToken st.rng 0 "sync_warn".toList
        (toVec (syncWarnJson (RingBuffer.u64Succ lastSeq) (p.seq - 1))) =
          some ((EncryptedEnvelope.new 0 sid "sync_warn".toList (L.prim.b64Encode enc)).withAuth
            st.relayAuthToken) := by
      rw [sealPacket, henc]
      rfl
    refine ⟨_, List.mem_append_left _ ?_, Or.inr ⟨_, _, hdropped, ?_, ?_, sealPacket_seals hseal⟩⟩
    · rw [hdropped, syncWarn, hseal]
      exact List.mem_singleton_self _
    · omega
    · omega

/-! ## Where the envelopes belong -/

theorem sealPacket_sessionId {key : Bytes} {sid : Text} {auth : Option Text} {n seq : Nat}
    {msgType : Text} {payload : Bytes} {env : EncryptedEnvelope}
    (h : sealPacket L key sid auth n seq msgType payload = some env) : env.sessionId = sid := by
  simp only [sealPacket, Option.map_eq_some_iff] at h
  obtain ⟨packed, -, rfl⟩ := h
  rfl

theorem replay_sessionId {key : Bytes} {sid : Text} {auth : Option Text} {n : Nat}
    {pkts : List Packet} {env : EncryptedEnvelope} (h : env ∈ replay L key sid auth n pkts) :
    env.sessionId = sid := by
  induction pkts generalizing n with
  | nil => cases h
  | cons p pkts ih =>
      rw [replay] at h
      rcases List.mem_append.1 h with h | h
      · exact sealPacket_sessionId (Option.mem_toList.1 h)
      · exact ih h

/-- The answer to a sync request is for the session of the request. -/
theorem answerSync_sessionId {key : Bytes} {sid : Text} {lastSeq : Nat} {env : EncryptedEnvelope}
    (h : env ∈ (answerSync L key sid st lastSeq).2) : env.sessionId = sid := by
  rcases List.mem_append.1 h with h | h
  · unfold syncWarn at h
    split at h
    · exact sealPacket_sessionId (Option.mem_toList.1 h)
    · cases h
  · exact replay_sessionId h

/-! ## Phases -/

/-- The bridge loop is left or goes on in the same session. -/
theorem step_bridge {key : Bytes} {sid : Text} {e : Event} {r : RunState × List Effect}
    (hp : st.phase = .bridge key sid) (h : S.step st e = some r) (hr : r.1.phase.inBridge = true) :
    r.1.phase = .bridge key sid := by
  by_cases he : e = .writerExit
  · subst he
    obtain ⟨-, rfl⟩ := step_writerExit h
    exact hp
  · rw [step_eq_react he, hp] at h
    rcases (react_aside (by simp) (by simp) rfl h).phase with hsame | ⟨-, hleft⟩
    · exact hsame.trans hp
    · -- the loop was left
      rw [hleft] at hr
      cases hr

/-- A run that hands the PTY back has given the connection up. -/
theorem handsBack_of_returned {e : Event} {r : RunState × List Effect} (hfit : e.fitsBuffer = true)
    (h : S.step st e = some r) (hr : r.1.phase = .returned .ptyHandedBack) :
    handsBack st e = true := by
  have hres := step_result hfit h
  rw [hr, resultOn] at hres
  split_ifs at hres with hback hfail hexit
  · exact hback
  · cases hres
  · cases hres
  · cases hres

end Recent

end Ktty.Agent
