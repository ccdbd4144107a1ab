import Ktty.Agent.Replay
import Ktty.Agent.SampleCrates
import Ktty.Lib.Execution
import Ktty.Protocol.Ends
import Mathlib.Data.List.InsertIdx

/-!
# PTY output across reconnects of the agent

`Chain` follows the output of one PTY through consecutive runs of `Session::run` and a client that keeps
`_lastGoodSeq`. Each run has its own reader thread, channel, counter and ring buffer; when a run hands
the PTY back its channel is dropped, and its reader thread stays behind in a blocking read, where it can
still take a chunk that no run will see.

The client's number belongs to no particular run. `noLoss_of_careful`: output is accounted for at
every moment of rest if a run is given up only when all its chunks have reached the client, no reader
left behind takes a chunk, and a sync request is answered only when all chunks up to the number in it
have reached the client or are under way.
-/

set_option autoImplicit false

namespace Ktty.Protocol.Reconnect

open Ktty.Wire Ktty.Crypto Ktty.Lib.Execution Ktty.Agent Ktty.Client

/-! ## Phases -/

/-- The run has taken the reader out of the PTY handle. -/
def hasReader : Phase → Bool
  | .wait _ => true
  | .boot => true
  | .offer => true
  | .handshake _ => true
  | .bridge _ _ => true
  | _ => false

/-- The run is over. -/
def isOver : Phase → Bool
  | .returned _ => true
  | .crashed => true
  | _ => false

/-- The run is over and the PTY is gone with it. -/
def isLost : Phase → Bool
  | .returned r => r != .ptyHandedBack
  | .crashed => true
  | _ => false

def sessionSid : Phase → Text
  | .bridge _ sid => sid
  | _ => []

/-! ## The chain of runs -/

/-- A chunk: the run that has read it and its number there. -/
abbrev ChunkId := Nat × Nat

structure Chain where
  /-- The number of the present run. -/
  run : Nat
  agent : RunState
  /-- What the reader thread of the run has put on its channel. -/
  channel : List Bytes
  /-- The chunks that the run has read from the channel. -/
  chunks : List Bytes
  /-- Reader threads of earlier runs. -/
  staleReaders : Nat
  client : TerminalService
  clientRng : Nat
  toAgent : List EncryptedEnvelope
  /-- The envelopes under way to the client, with the run that has sent them. -/
  toClient : List (Nat × Flight)
  /-- The client's waiting frames, with the run that has sent them. -/
  waiting : List (Nat × Pending)
  /-- A sync request of the present session has been answered. -/
  answered : Bool
  /-- All chunks that a run has read. -/
  reads : List ChunkId
  /-- The chunks that no run has read and none will. -/
  lost : List Bytes
  /-- The outputs and the warnings of the client: the run and the first and last number. -/
  reported : List (Nat × Int × Int)

inductive ChainEvent where
  /-- The run takes a step that neither reads a chunk nor answers a sync request. -/
  | agent (e : Event)
  /-- The run reads the next chunk of its channel. -/
  | read
  /-- The relay forwards the next sync request to the agent as the text `t`. -/
  | request (t : Text)
  /-- The relay forwards the next envelope to the client as the text `t`. -/
  | forward (t : Text)
  /-- The client takes a step of its own, or gets a text that is no frame of the agent. -/
  | client (e : TerminalEvent)
  /-- The connection of the client is lost. -/
  | disconnect
  /-- The reader thread of the run takes a chunk of output. -/
  | output (data : Bytes)
  /-- The reader thread of an earlier run takes a chunk of output; its channel is closed. -/
  | stale (data : Bytes)
  /-- The main loop starts the next run on the PTY that was handed back. -/
  | again

namespace Chain

section Step

variable (E : Ends)

/-- The agent starts, and the client is attached but not connected. -/
def start : Chain :=
  { run := 0, agent := Session.start, channel := [], chunks := [], staleReaders := 0,
    client := .new { crypto := none, sessionId := none }, clientRng := 0, toAgent := [],
    toClient := [], waiting := [], answered := false, reads := [], lost := [], reported := [] }

/-- The number in a sync request that reaches the client's present session. -/
def answers (w : Chain) (t : Text) : Option Nat :=
  match w.agent.phase with
  | .bridge key sid =>
      -- the client must be in the session in which the run bridges:
      if w.agent.writerAlive ∧ w.client.ws = { crypto := some key, sessionId := some sid } then
        syncLast E.session.crates key sid t
      else none
  | _ => none

/-- The client's libraries read the body of a warning as it was written. -/
def readsWarning (dropped : Option (Nat × Nat)) : Bool :=
  match dropped with
  | some (start, stop) =>
      (Pending.range E.dart
        { kind := .syncWarn, seq := none, outcome := some (toVec (syncWarnJson start stop)) }) ==
          some ((start : Int), (stop : Int))
  | none => true

/-- The run has taken a step on `e` with the result `r`. At its end the channel is dropped, and the
reader thread stays behind. -/
def ran (w : Chain) (e : Event) (r : RunState × List Effect) : Chain :=
  { w with
    agent := r.1
    channel := if isOver r.1.phase then [] else w.channel
    chunks := w.chunks ++ e.chunk
    staleReaders :=
      if isOver r.1.phase && hasReader w.agent.phase then w.staleReaders + 1 else w.staleReaders
    toClient := w.toClient ++
      (envelopes r.2).map fun env => (w.run, ⟨w.agent.phase.sessionKey, env⟩)
    answered := w.answered && r.1.phase.inBridge
    reads := w.reads ++ e.chunk.map fun _ => (w.run, w.agent.seq + 1)
    lost := if isOver r.1.phase then w.lost ++ w.channel else w.lost }

/-- The client has taken a step with the given result; its reports are about run `run`. -/
def acted (w : Chain) (run : Nat) (r : TerminalService × List TerminalEffect) : Chain :=
  { w with
    client := r.1
    clientRng := w.clientRng + 1
    toAgent := w.toAgent ++ E.requests w.client.ws w.clientRng r.2
    reported := w.reported ++ (r.2.filterMap TerminalEffect.range).map fun x => (run, x) }

/-- The events of the client beside frames. -/
def clientStep (w : Chain) : TerminalEvent → Option Chain
  | .message raw =>
      -- frames come over `forward` only:
      if (w.client.arrival E.dart raw).waiting.isEmpty then
        (w.client.step E.dart (.message raw)).map (w.acted E w.run)
      else none
  | .decrypted i =>
      match w.waiting[i]? with
      | some (run, _) =>
          (w.client.step E.dart (.decrypted i)).map
            ({ w with waiting := w.waiting.eraseIdx i }.acted E run)
      | none => none
  | .session ws =>
      -- a new session has not been answered yet
      (w.client.step E.dart (.session ws)).map ({ w with answered := false }.acted E w.run)
  | e => (w.client.step E.dart e).map (w.acted E w.run)

/-- The event reads no chunk. `recv` sees the end of the reader only behind the last one. -/
def noChunk (w : Chain) : Event → Bool
  | .pty (some _) => false
  | .pty none => w.channel.isEmpty
  | _ => true

def step (w : Chain) : ChainEvent → Option Chain
  | .agent e =>
      if E.notSync w.agent e && w.noChunk e then (E.session.step w.agent e).map (w.ran e) else none
  | .read =>
      match w.channel with
      | [] => none
      | data :: rest =>
          -- the counter is a `u64`
          if w.agent.seq + 1 < 2 ^ 64 then
            (E.session.step w.agent (.pty (some data))).map
              ({ w with channel := rest }.ran (.pty (some data)))
          else none
  | .request t =>
      match w.toAgent with
      | [] => none
      | env :: rest =>
          if carries E.session.crates.json.fromStr t env &&
              (w.answers E t).all (fun l => readsWarning E (w.agent.ringBuffer.packetsSince l).2) then
            (E.session.step w.agent (.ws (.text t))).map fun r =>
              { w with toAgent := rest, answered := w.answered || (w.answers E t).isSome }.ran
                (.ws (.text t)) r
          else none
  | .forward t =>
      match w.toClient with
      | [] => none
      | (run, f) :: rest =>
          if isFrame E.dart.jsonDecode t { f.env with auth := none } && E.ideal w.client.ws f then
            let frames := (w.client.arrival E.dart t).waiting.map fun p => (run, p)
            (w.client.step E.dart (.message t)).map
              ({ w with toClient := rest, waiting := w.waiting ++ frames }.acted E run)
          else none
  | .client e => w.clientStep E e
  | .disconnect =>
      some { w with
        client := { w.client with ws := { crypto := none, sessionId := none } }
        toClient := []
        answered := false }
  | .output data =>
      -- there is no reader thread before the first client has joined:
      if hasReader w.agent.phase && decide (data.length ≤ READ_BUF_SIZE) then
        some { w with channel := w.channel ++ [data] }
      else none
  | .stale data =>
      if 0 < w.staleReaders then
        some { w with staleReaders := w.staleReaders - 1, lost := w.lost ++ [data] }
      else none
  | .again =>
      match w.agent.phase with
      | .returned .ptyHandedBack =>
          some { w with
            run := w.run + 1
            -- ring buffer and counter start anew with the run
            agent := { Session.start with rng := w.agent.rng }
            chunks := []
            toAgent := [] }
      | _ => none

end Step

/-! ## Accounting -/

/-- A chunk was displayed, or lies in a range that a warning has reported. -/
def Reported (w : Chain) (c : ChunkId) : Prop :=
  ∃ x ∈ w.reported, x.1 = c.1 ∧ x.2.1 ≤ c.2 ∧ (c.2 : Int) ≤ x.2.2

instance (w : Chain) (c : ChunkId) : Decidable (w.Reported c) :=
  inferInstanceAs (Decidable (∃ x ∈ w.reported, x.1 = c.1 ∧ x.2.1 ≤ c.2 ∧ (c.2 : Int) ≤ x.2.2))

/-- The moments of rest: the client is in session and has been answered, and no output is under way. -/
structure AtRest (w : Chain) : Prop where
  answered : w.answered = true
  channel : w.channel = []
  toClient : w.toClient = []
  waiting : w.client.pending = []

/-- No output is lost silently: at rest every chunk that a reader thread has taken was read by a run and
reported. -/
def NoLoss (w : Chain) : Prop := w.AtRest → w.lost = [] ∧ ∀ c ∈ w.reads, w.Reported c

/-- A frame will report chunk `n`. -/
def willReport (E : Ends) (n : Nat) (p : Pending) : Bool :=
  (p.range E.dart).any fun x => decide (x.1 ≤ (n : Int) ∧ (n : Int) ≤ x.2)

/-- Chunk `n` of the present run is in a frame of the present session that waits at the client or is
under way to it. -/
def OnWay (E : Ends) (w : Chain) (n : Nat) : Prop :=
  (∃ x ∈ w.waiting, x.1 = w.run ∧ willReport E n x.2 = true) ∨
    ∃ x ∈ w.toClient, x.1 = w.run ∧ x.2.key = w.agent.phase.sessionKey ∧
      x.2.env.sessionId = sessionSid w.agent.phase ∧
        (frameOf E.dart x.2.key x.2.env).any (willReport E n) = true

instance (E : Ends) (w : Chain) (n : Nat) : Decidable (w.OnWay E n) := by
  unfold OnWay
  infer_instance

/-- The condition on a step. -/
def Careful (E : Ends) (w : Chain) : ChainEvent → Prop
  | .agent e => handsBack w.agent e = true → w.channel = [] ∧ ∀ c ∈ w.reads, w.Reported c
  | .read => ∀ data ∈ w.channel.head?, handsBack w.agent (.pty (some data)) = false
  | .request t => ∀ lastSeq ∈ w.answers E t, ∀ n < w.chunks.length + 1, 1 ≤ n → n ≤ lastSeq →
      w.Reported (w.run, n) ∨ w.OnWay E n
  | .stale _ => False
  | _ => True

instance (E : Ends) (w : Chain) (e : ChainEvent) : Decidable (w.Careful E e) := by
  cases e <;> unfold Careful <;> infer_instance

/-! ## Invariants -/

/-- What holds while the PTY is not lost. -/
structure Base (w : Chain) : Prop where
  recent : Recent w.agent w.chunks
  fits : ∀ data ∈ w.channel, data.length ≤ READ_BUF_SIZE
  count : w.chunks.length < 2 ^ 64
  lost : w.lost = []
  reads : ∀ c ∈ w.reads,
    w.Reported c ∨ (c.1 = w.run ∧ 1 ≤ c.2 ∧ c.2 ≤ w.chunks.length)
  handedBack : isOver w.agent.phase = true → ∀ c ∈ w.reads, w.Reported c

/-- After the answer to a sync request every chunk of the run has been reported or is on its way. -/
def Served (E : Ends) (w : Chain) : Prop :=
  w.answered = true → ∃ key sid, w.agent.phase = .bridge key sid ∧
    w.client.ws = { crypto := some key, sessionId := some sid } ∧
    ∀ n, 1 ≤ n → n ≤ w.chunks.length → w.Reported (w.run, n) ∨ w.OnWay E n

/-- The PTY is lost and no client is in session, or the output is accounted for. -/
structure Inv (E : Ends) (w : Chain) : Prop where
  queue : w.waiting.map Prod.snd = w.client.pending
  output : (isLost w.agent.phase = true ∧ w.answered = false) ∨ (w.Base ∧ w.Served E)

section Facts

variable {E : Ends} {w v : Chain}

theorem step_isOver {S : Session} {st : RunState} (h : isOver st.phase = true) (e : Event) :
    S.step st e = none := by
  cases hp : st.phase with
  | returned r => cases e <;> simp [Session.step, Session.react, Phase.hasWriter, hp]
  | crashed => cases e <;> simp [Session.step, Session.react, Phase.hasWriter, hp]
  | _ =>
      rw [hp] at h
      cases h

/-- Where nobody is in session nobody has to be served. -/
theorem Inv.served (h : w.Inv E) : w.Served E := by
  rcases h.output with ⟨-, hans⟩ | ⟨-, hserved⟩
  · intro hans'
    rw [hans] at hans'
    cases hans'
  · exact hserved

theorem isOver_of_isLost {p : Phase} (h : isLost p = true) : isOver p = true := by
  cases p with
  | returned r => rfl
  | crashed => rfl
  | _ => cases h

theorem inBridge_of_isLost {p : Phase} (h : isLost p = true) : p.inBridge = false := by
  cases p with
  | bridge key sid => cases h
  | _ => rfl

theorem Reported.mono {c : ChunkId} (h : w.Reported c) (hsub : ∀ x ∈ w.reported, x ∈ v.reported) :
    v.Reported c := by
  obtain ⟨x, hx, hrange⟩ := h
  exact ⟨x, hsub x hx, hrange⟩

/-- At rest nothing is on its way. -/
theorem noLoss_of_inv (h : w.Inv E) : w.NoLoss := by
  intro hrest
  rcases h.output with ⟨-, hanswered⟩ | ⟨hbase, hserved⟩
  · -- nobody is in session, so this is no moment of rest
    rw [hrest.answered] at hanswered
    cases hanswered
  · refine ⟨hbase.lost, fun c hc => ?_⟩
    rcases hbase.reads c hc with hrep | ⟨hrun, hpos, hle⟩
    · exact hrep
    -- a chunk of the present run is reported or on its way, and at rest there is no way:
    · obtain ⟨key, sid, -, -, hall⟩ := hserved hrest.answered
      rcases hall c.2 hpos hle with hrep | ⟨x, hx, -⟩ | ⟨x, hx, -⟩
      · rw [← hrun] at hrep
        exact hrep
      · have hqueue := h.queue
        rw [hrest.waiting, List.map_eq_nil_iff] at hqueue
        rw [hqueue] at hx
        cases hx
      · rw [hrest.toClient] at hx
        cases hx

/-! ## Steps of the agent -/

/-- An envelope that accounts for a chunk becomes a frame that reports it. -/
theorem willReport_of_accounts {key : Bytes} {dropped : Option (Nat × Nat)} {n : Nat}
    {env : EncryptedEnvelope} (h : Accounts E.session.crates key w.chunks dropped n env)
    (hread : readsWarning E dropped = true) :
    (frameOf E.dart key env).any (willReport E n) = true := by
  rcases h with ⟨data, -, hseal⟩ | ⟨start, stop, rfl, hstart, hstop, hseal⟩
  · -- the chunk itself
    obtain ⟨packed, hpayload, hdec⟩ := hseal.payload
    have htype : env.type = "pty".toList := hseal.type
    have hseq : env.seq = n := hseal.seq
    -- the client's libraries undo what the agent's have done:
    have hout : (E.dart.prim.base64Decode env.payload).bind (decrypt E.dart.aead key) = some data := by
      rw [hpayload, E.prim_eq, E.aead_eq, E.session.crates.prim.base64Decode_b64Encode]
      exact hdec
    rw [frameOf, if_pos htype, hout, Option.any_some, willReport, Pending.range, Option.any_some, hseq]
    simp
  · -- a warning whose range contains the chunk
    obtain ⟨packed, hpayload, hdec⟩ := hseal.payload
    have htype : env.type = "sync_warn".toList := hseal.type
    have hpty : env.type ≠ "pty".toList := by
      rw [htype]
      decide
    have hout : (E.dart.prim.base64Decode env.payload).bind (decrypt E.dart.aead key) =
        some (toVec (syncWarnJson start stop)) := by
      rw [hpayload, E.prim_eq, E.aead_eq, E.session.crates.prim.base64Decode_b64Encode]
      exact hdec
    rw [readsWarning, beq_iff_eq] at hread
    rw [frameOf, if_neg hpty, if_pos htype, hout, Option.any_some, willReport]
    -- the range of a warning does not depend on the `seq` of its frame
    have hrange : ∀ seq, Pending.range E.dart
        ⟨.syncWarn, seq, some (toVec (syncWarnJson start stop))⟩ =
          some ((start : Int), (stop : Int)) := by
      intro seq
      rw [← hread, Pending.range, Pending.range]
    rw [hrange, Option.any_some, decide_eq_true_eq]
    omega

/-- An envelope that the bridge loop has just sent is on its way. -/
theorem onWay_sent {key : Bytes} {sid : Text} {e : Event} {r : RunState × List Effect} {n : Nat}
    {env : EncryptedEnvelope} (hp : w.agent.phase = .bridge key sid)
    (hr : r.1.phase = .bridge key sid) (henv : env ∈ envelopes r.2) (hsid : env.sessionId = sid)
    (hreport : (frameOf E.dart key env).any (willReport E n) = true) : (w.ran e r).OnWay E n := by
  -- behind what is under way, under the present key and session:
  refine Or.inr ⟨(w.run, ⟨key, env⟩), ?_, rfl, ?_, ?_, hreport⟩
  · refine List.mem_append_right _ (List.mem_map.2 ⟨env, henv, ?_⟩)
    rw [hp]
    rfl
  · change key = r.1.phase.sessionKey
    rw [hr]
    rfl
  · change env.sessionId = sessionSid r.1.phase
    rw [hr, hsid]
    rfl

/-- What is on its way stays so while the session lasts. -/
theorem onWay_ran {e : Event} {r : RunState × List Effect} {n : Nat}
    (hr : r.1.phase = w.agent.phase) (h : w.OnWay E n) : (w.ran e r).OnWay E n := by
  rcases h with ⟨x, hx, hrun, hreport⟩ | ⟨x, hx, hrun, hkey, hsid, hreport⟩
  · exact Or.inl ⟨x, hx, hrun, hreport⟩
  · refine Or.inr ⟨x, List.mem_append_left _ hx, hrun, ?_, ?_, hreport⟩
    · change x.2.key = r.1.phase.sessionKey
      rw [hr]
      exact hkey
    · change x.2.env.sessionId = sessionSid r.1.phase
      rw [hr]
      exact hsid

/-- A step of the run loses no output, unless it loses the PTY. -/
theorem ran_base {e : Event} {r : RunState × List Effect} (hw : w.Base) (hfit : e.fitsBuffer = true)
    (h : E.session.step w.agent e = some r) (hcount : (w.chunks ++ e.chunk).length < 2 ^ 64)
    (hback : handsBack w.agent e = true →
      w.channel = [] ∧ e.chunk = [] ∧ ∀ c ∈ w.reads, w.Reported c) :
    isLost r.1.phase = true ∨ (w.ran e r).Base := by
  by_cases hlost : isLost r.1.phase = true
  · exact Or.inl hlost
  right
  have hends : (w.ran e r).lost = [] ∧ (∀ data ∈ (w.ran e r).channel, data.length ≤ READ_BUF_SIZE) ∧
      (isOver r.1.phase = true → ∀ c ∈ (w.ran e r).reads, w.Reported c) := by
    by_cases hover : isOver r.1.phase = true
    · -- the run ends with a PTY that is handed back
      have hreturned : r.1.phase = .returned .ptyHandedBack := by
        cases hp : r.1.phase with
        | returned res =>
            rw [hp] at hlost
            cases res with
            | ptyHandedBack => rfl
            | _ => exact absurd rfl hlost
        | crashed =>
            rw [hp] at hlost
            exact absurd rfl hlost
        | _ =>
            rw [hp] at hover
            cases hover
      obtain ⟨hchannel, hchunk, hreads⟩ := hback (handsBack_of_returned hfit h hreturned)
      refine ⟨?_, ?_, ?_⟩
      · simp only [ran, hover, if_true, hw.lost, hchannel, List.append_nil]
      · intro data hdata
        simp only [ran, hover, if_true] at hdata
        cases hdata
      · intro _ c hc
        simp only [ran, hchunk, List.map_nil, List.append_nil] at hc
        exact hreads c hc
    · -- the run goes on with its channel
      refine ⟨?_, ?_, fun h => absurd h hover⟩
      · simp only [ran, hover]
        exact hw.lost
      · intro data hdata
        simp only [ran, hover] at hdata
        exact hw.fits data hdata
  refine ⟨step_recent hw.recent hfit h, hends.2.1, hcount, hends.1, ?_, hends.2.2⟩
  intro c hc
  rcases List.mem_append.1 hc with hc | hc
  · -- a chunk read earlier keeps its number
    rcases hw.reads c hc with hrep | ⟨hrun, hpos, hle⟩
    · exact Or.inl hrep
    · refine Or.inr ⟨hrun, hpos, ?_⟩
      change c.2 ≤ (w.chunks ++ e.chunk).length
      rw [List.length_append]
      omega
  · -- the chunk that was just read has the next number
    obtain ⟨data, hdata, rfl⟩ := List.mem_map.1 hc
    -- its number is the counter after this step:
    have hone : 1 ≤ e.chunk.length := List.length_pos_of_mem hdata
    refine Or.inr ⟨rfl, by omega, ?_⟩
    change w.agent.seq + 1 ≤ (w.chunks ++ e.chunk).length
    rw [List.length_append, hw.recent.seq]
    omega

/-- A chunk that a step adds was read from the PTY, and is the last one. -/
theorem pty_of_newChunk {e : Event} {chunks : List Bytes} {n : Nat} (hold : ¬ n ≤ chunks.length)
    (hle : n ≤ (chunks ++ e.chunk).length) :
    ∃ data, e = .pty (some data) ∧ n = chunks.length + 1 := by
  cases e with
  | pty result =>
      cases result with
      | some data =>
          rw [Event.chunk, List.length_append, List.length_singleton] at hle
          exact ⟨data, rfl, by omega⟩
      | none =>
          change n ≤ (chunks ++ []).length at hle
          rw [List.append_nil] at hle
          exact absurd hle hold
  | _ =>
      change n ≤ (chunks ++ []).length at hle
      rw [List.append_nil] at hle
      exact absurd hle hold

/-- A live run that sends each chunk it reads keeps what it has served. -/
theorem ran_served {e : Event} {r : RunState × List Effect} (hw : w.Base) (hserved : w.Served E)
    (hfit : e.fitsBuffer = true) (h : E.session.step w.agent e = some r)
    (hwriter : ∀ data, e = .pty (some data) → handsBack w.agent e = false) :
    (w.ran e r).Served E := by
  intro hanswered
  obtain ⟨hanswered, hbridge⟩ := Bool.and_eq_true_iff.1 hanswered
  obtain ⟨key, sid, hp, hws, hall⟩ := hserved hanswered
  -- the run has stayed in the session:
  have hr := step_bridge hp h hbridge
  refine ⟨key, sid, hr, hws, ?_⟩
  intro n hpos hle
  by_cases hold : n ≤ w.chunks.length
  · rcases hall n hpos hold with hrep | hway
    · exact Or.inl hrep
    · exact Or.inr (onWay_ran (hr.trans hp.symm) hway)
  · -- the chunk of this very step, sent live
    obtain ⟨data, rfl, hn⟩ := pty_of_newChunk hold hle
    rw [← hw.recent.seq] at hn
    -- without the writer task the run would hand the PTY back:
    have halive : w.agent.writerAlive = true := by
      have hback := hwriter data rfl
      simp only [handsBack, hp] at hback
      simpa using hback
    obtain ⟨env, henv⟩ := Option.isSome_iff_exists.1
      (sealPacket_isSome E.session.crates key sid w.agent.relayAuthToken w.agent.rng
        (w.agent.seq + 1) "pty".toList (of_decide_eq_true hfit))
    have hsent : env ∈ envelopes r.2 := by
      rw [(step_outputs h).envelopes, emits, hp]
      change env ∈ bridgeEmits E.session.crates key sid w.agent (.pty (some data))
      rw [bridgeEmits, if_pos halive, henv]
      exact List.mem_singleton_self env
    right
    apply onWay_sent hp hr hsent (sealPacket_sessionId henv)
    -- the envelope carries the chunk with its number:
    have hacc : Accounts E.session.crates key (w.ran (.pty (some data)) r).chunks none n env := by
      left
      refine ⟨data, ?_, ?_⟩
      · change (w.chunks ++ [data])[n - 1]? = some data
        rw [hn, Nat.add_sub_cancel, hw.recent.seq, List.getElem?_append_right (Nat.le_refl _),
          Nat.sub_self]
        rfl
      · rw [hn]
        exact sealPacket_seals henv
    exact willReport_of_accounts hacc rfl

/-- The answer to a sync request serves every chunk of the run. -/
theorem request_served (rest : List EncryptedEnvelope) {t : Text}
    {r : RunState × List Effect} (hw : w.Base) (hserved : w.Served E)
    (hread : (w.answers E t).all
      (fun l => readsWarning E (w.agent.ringBuffer.packetsSince l).2) = true)
    (hc : w.Careful E (.request t))
    (h : E.session.step w.agent (.ws (.text t)) = some r) :
    Served E ({ w with toAgent := rest, answered := w.answered || (w.answers E t).isSome }.ran
      (.ws (.text t)) r) := by
  cases hans : w.answers E t with
  | none =>
      -- no answer to the present session: the run serves as much as before
      rw [Option.isSome_none, Bool.or_false]
      have hbase : Base { w with toAgent := rest } := { hw with }
      have hsame : Served E { w with toAgent := rest } := hserved
      exact ran_served hbase hsame rfl h (fun data he => by cases he)
  | some lastSeq =>
      intro hanswered
      have hbridge : r.1.phase.inBridge = true := (Bool.and_eq_true_iff.1 hanswered).2
      -- the session of the request is the present one
      obtain ⟨key, sid, hp, halive, hws, hlast⟩ : ∃ key sid, w.agent.phase = .bridge key sid ∧
          w.agent.writerAlive = true ∧ w.client.ws = { crypto := some key, sessionId := some sid } ∧
            syncLast E.session.crates key sid t = some lastSeq := by
        unfold answers at hans
        split at hans
        · rename_i key sid hp
          split at hans
          · rename_i hguard
            exact ⟨key, sid, hp, hguard.1, hguard.2, hans⟩
          · cases hans
        · cases hans
      have hr := step_bridge hp h hbridge
      refine ⟨key, sid, hr, hws, ?_⟩
      intro n hpos hle
      have hle : n ≤ w.chunks.length := by
        have hle : n ≤ (w.chunks ++ []).length := hle
        rwa [List.append_nil] at hle
      by_cases hbefore : n ≤ lastSeq
      · -- up to the number in the request the condition answers for the chunk
        rcases hc lastSeq hans n (by omega) hpos hbefore with hrep | hway
        · exact Or.inl hrep
        · exact Or.inr (onWay_ran (w := { w with toAgent := rest, answered := _ })
            (hr.trans hp.symm) hway)
      · -- beyond it the answer itself carries the chunk, or a warning about it
        obtain ⟨answer, hmem, hacc⟩ := answerSync_covers (L := E.session.crates) hw.recent
          key sid hw.count (Nat.lt_of_not_le hbefore) hle
        have hsent : answer ∈ envelopes r.2 := by
          rw [(step_outputs h).envelopes, emits, hp]
          change answer ∈ bridgeEmits E.session.crates key sid w.agent (.ws (.text t))
          rw [bridgeEmits, hlast]
          dsimp only
          rw [if_pos halive]
          exact hmem
        rw [hans, Option.all_some] at hread
        exact Or.inr (onWay_sent (w := { w with toAgent := rest, answered := _ }) hp hr hsent
          (answerSync_sessionId hmem) (willReport_of_accounts hacc hread))

/-! ## Steps of the client -/

/-- A list entry is the one at position `i`, or it is still there without that position. -/
theorem mem_eraseIdx_of_mem {α : Type} {l : List α} {x y : α} {i : Nat} (hx : x ∈ l)
    (hi : l[i]? = some y) : x = y ∨ x ∈ l.eraseIdx i := by
  obtain ⟨j, hj⟩ := List.mem_iff_getElem?.1 hx
  by_cases hij : j = i
  · subst hij
    rw [hj] at hi
    exact Or.inl (Option.some.inj hi)
  · exact Or.inr (List.mem_eraseIdx_iff_getElem?.2 ⟨j, hij, hj⟩)

/-- What a step of the client must preserve: it may move frames on and report them. -/
structure ClientStep (E : Ends) (w v : Chain) : Prop where
  run : v.run = w.run
  agent : v.agent = w.agent
  channel : v.channel = w.channel
  chunks : v.chunks = w.chunks
  reads : v.reads = w.reads
  lost : v.lost = w.lost
  queue : v.waiting.map Prod.snd = v.client.pending
  reported : ∀ x ∈ w.reported, x ∈ v.reported
  /-- While the client stays in session nothing that was on its way is dropped. -/
  session : v.answered = true → w.answered = true ∧ v.client.ws = w.client.ws
  onWay : v.answered = true → ∀ n, w.OnWay E n → v.OnWay E n ∨ v.Reported (w.run, n)

theorem ClientStep.inv (h : ClientStep E w v) (hw : w.Inv E) : v.Inv E := by
  refine ⟨h.queue, ?_⟩
  rcases hw.output with ⟨hlost, hans⟩ | ⟨hbase, hserved⟩
  · refine Or.inl ⟨h.agent ▸ hlost, ?_⟩
    cases hv : v.answered with
    | false => rfl
    | true =>
        rw [(h.session hv).1] at hans
        cases hans
  · refine Or.inr ⟨⟨?_, ?_, ?_, ?_, ?_, ?_⟩, ?_⟩
    · rw [h.agent, h.chunks]
      exact hbase.recent
    · rw [h.channel]
      exact hbase.fits
    · rw [h.chunks]
      exact hbase.count
    · rw [h.lost]
      exact hbase.lost
    · intro c hc
      rw [h.reads] at hc
      rw [h.run, h.chunks]
      rcases hbase.reads c hc with hrep | hnum
      · exact Or.inl (hrep.mono h.reported)
      · exact Or.inr hnum
    · intro hover c hc
      rw [h.reads] at hc
      rw [h.agent] at hover
      exact (hbase.handedBack hover c hc).mono h.reported
    · intro hv
      obtain ⟨hans, hsame⟩ := h.session hv
      obtain ⟨key, sid, hp, hws, hall⟩ := hserved hans
      refine ⟨key, sid, h.agent ▸ hp, hsame.trans hws, ?_⟩
      intro n hpos hle
      rw [h.chunks] at hle
      rw [h.run]
      rcases hall n hpos hle with hrep | hway
      · exact Or.inl (hrep.mono h.reported)
      · exact (h.onWay hv n hway).symm

/-- A step of the client beside frames. -/
theorem idle_clientStep {r : TerminalService × List TerminalEffect} (answered : Bool)
    (hq : w.waiting.map Prod.snd = w.client.pending) (hpending : r.1.pending = w.client.pending)
    (hans : answered = true → w.answered = true ∧ r.1.ws = w.client.ws) :
    ClientStep E w ({ w with answered := answered }.acted E w.run r) where
  run := rfl
  agent := rfl
  channel := rfl
  chunks := rfl
  reads := rfl
  lost := rfl
  queue := hq.trans hpending.symm
  reported _ hx := List.mem_append_left _ hx
  session := hans
  onWay _ _ hn := Or.inl hn

/-- A completed decryption reports the frame. -/
theorem decrypted_clientStep {i run : Nat} {p : Pending} {r : TerminalService × List TerminalEffect}
    (hq : w.waiting.map Prod.snd = w.client.pending) (hi : w.waiting[i]? = some (run, p))
    (h : w.client.step E.dart (.decrypted i) = some r) :
    ClientStep E w ({ w with waiting := w.waiting.eraseIdx i }.acted E run r) := by
  obtain ⟨d, effs⟩ := r
  obtain ⟨q, hget, hpending, -, hrange⟩ := TerminalService.step_decrypted h
  -- the frame in the list is the one that the service decrypts:
  have hpq : p = q := by
    rw [← hq, List.getElem?_map, hi] at hget
    exact Option.some.inj hget
  subst hpq
  refine ⟨rfl, rfl, rfl, rfl, rfl, rfl, ?_, ?_, ?_, ?_⟩
  · change (w.waiting.eraseIdx i).map Prod.snd = d.pending
    rw [hpending, ← hq, List.eraseIdx_map]
  · intro x hx
    exact List.mem_append_left _ hx
  · intro hans
    exact ⟨hans, TerminalService.step_ws h fun ws he => by cases he⟩
  · intro _ n hn
    rcases hn with ⟨x, hx, hrun, hreport⟩ | hflying
    · rcases mem_eraseIdx_of_mem hx hi with rfl | hx
      · -- the frame that has just been reported
        right
        rw [willReport, Option.any_eq_true] at hreport
        obtain ⟨y, hy, hbounds⟩ := hreport
        refine ⟨(run, y), List.mem_append_right _ (List.mem_map.2 ⟨y, ?_, rfl⟩), hrun,
          of_decide_eq_true hbounds⟩
        rw [hrange, hy]
        exact List.mem_singleton_self y
      · exact Or.inl (Or.inl ⟨x, hx, hrun, hreport⟩)
    · -- what is under way to the client stays under way
      exact Or.inl (Or.inr hflying)

/-- The client's own steps. -/
theorem client_clientStep {e : TerminalEvent} (hq : w.waiting.map Prod.snd = w.client.pending)
    (h : step E w (.client e) = some v) : ClientStep E w v := by
  have idle : ∀ r, (∀ raw, e ≠ .message raw) → (∀ i, e ≠ .decrypted i) → (∀ ws, e ≠ .session ws) →
      w.client.step E.dart e = some r → ClientStep E w (w.acted E w.run r) := by
    intro r hm hd hs hr
    -- the service leaves its waiting frames alone:
    have hidle := TerminalService.step_idle hr hm hd
    exact idle_clientStep w.answered hq hidle.pending fun hans => ⟨hans, hidle.ws hs⟩
  change w.clientStep E e = some v at h
  cases e with
  | message raw =>
      simp only [clientStep] at h
      split at h
      · rename_i hnone
        simp only [Option.map_eq_some_iff] at h
        obtain ⟨r, hr, rfl⟩ := h
        obtain ⟨hpending, -⟩ := TerminalService.step_message hr
        -- the text is no frame, so nothing is added:
        rw [List.isEmpty_iff.1 hnone, List.append_nil] at hpending
        exact idle_clientStep w.answered hq hpending fun hans =>
          ⟨hans, TerminalService.step_ws hr fun ws he => by cases he⟩
      · cases h
  | decrypted i =>
      simp only [clientStep] at h
      split at h
      · rename_i run p hi
        simp only [Option.map_eq_some_iff] at h
        obtain ⟨r, hr, rfl⟩ := h
        exact decrypted_clientStep hq hi hr
      · cases h
  | session ws =>
      simp only [clientStep, Option.map_eq_some_iff] at h
      obtain ⟨r, hr, rfl⟩ := h
      have hidle :=
        TerminalService.step_idle hr (fun raw he => by cases he) (fun i he => by cases he)
      exact idle_clientStep false hq hidle.pending fun hans => by cases hans
  | _ =>
      simp only [clientStep, Option.map_eq_some_iff] at h
      obtain ⟨r, hr, rfl⟩ := h
      exact idle r (fun raw he => by cases he) (fun i he => by cases he) (fun ws he => by cases he) hr

/-- A text adds its frame to the waiting ones. -/
theorem message_clientStep {run : Nat} {f : Flight} {rest : List (Nat × Flight)} {t : Text}
    {r : TerminalService × List TerminalEffect} (hserved : w.Served E)
    (hq : w.waiting.map Prod.snd = w.client.pending) (hflying : w.toClient = (run, f) :: rest)
    (ht : isFrame E.dart.jsonDecode t { f.env with auth := none } = true)
    (h : w.client.step E.dart (.message t) = some r) :
    ClientStep E w ({ w with
      toClient := rest
      waiting := w.waiting ++ (w.client.arrival E.dart t).waiting.map fun p => (run, p) }.acted
        E run r) := by
  obtain ⟨d, effs⟩ := r
  obtain ⟨hpending, rfl⟩ := TerminalService.step_message h
  refine ⟨rfl, rfl, rfl, rfl, rfl, rfl, ?_, ?_, ?_, ?_⟩
  · change (w.waiting ++ (w.client.arrival E.dart t).waiting.map fun p => (run, p)).map Prod.snd =
      d.pending
    rw [hpending, List.map_append, hq, List.map_map]
    exact congrArg _ (List.map_id _)
  · intro x hx
    exact List.mem_append_left _ hx
  · intro hans
    exact ⟨hans, TerminalService.step_ws h fun ws he => by cases he⟩
  · intro hans n hn
    left
    rcases hn with ⟨x, hx, hrun, hreport⟩ | ⟨x, hx, hrun, hkey, hsid, hreport⟩
    · -- a frame that waits at the client goes on waiting
      exact Or.inl ⟨x, List.mem_append_left _ hx, hrun, hreport⟩
    · rw [hflying] at hx
      rcases List.mem_cons.1 hx with rfl | hx
      · -- the client is in the session of the frame, so the frame is accepted
        obtain ⟨key, sid, hp, hws, -⟩ := hserved hans
        have hkey : f.key = key := by
          rw [hp] at hkey
          exact hkey
        have hsid : f.env.sessionId = sid := by
          rw [hp] at hsid
          exact hsid
        have harrives : (w.client.arrival E.dart t).waiting =
            (frameOf E.dart f.key { f.env with auth := none }).toList := by
          unfold isFrame at ht
          split at ht
          · rename_i ms hms
            simp only [Bool.and_eq_true, beq_iff_eq, Option.isNone_iff_eq_none] at ht
            apply TerminalService.arrival_frame hms ht.1 ht.2
            rw [hws, hkey, hsid]
          · cases ht
        -- the token plays no part for the frame:
        have hframe : frameOf E.dart f.key { f.env with auth := none } =
            frameOf E.dart f.key f.env := rfl
        rw [Option.any_eq_true] at hreport
        obtain ⟨p, hp', hreport⟩ := hreport
        refine Or.inl ⟨(run, p), List.mem_append_right _ (List.mem_map.2 ⟨p, ?_, rfl⟩), hrun, hreport⟩
        rw [harrives, hframe, hp']
        exact List.mem_singleton_self p
      · exact Or.inr ⟨x, hx, hrun, hkey, hsid, hreport⟩

/-! ## All steps -/

/-- A step of the run keeps the invariants if it is careful. -/
theorem ran_inv {e : Event} {r : RunState × List Effect} {rest : List Bytes}
    (hqueue : w.waiting.map Prod.snd = w.client.pending)
    (hw : w.Base) (hserved : w.Served E) (hfit : e.fitsBuffer = true)
    (hrest : ∀ data ∈ rest, data.length ≤ READ_BUF_SIZE)
    (h : E.session.step w.agent e = some r) (hcount : (w.chunks ++ e.chunk).length < 2 ^ 64)
    (hback : handsBack w.agent e = true →
      rest = [] ∧ e.chunk = [] ∧ ∀ c ∈ w.reads, w.Reported c)
    (hwriter : ∀ data, e = .pty (some data) → handsBack w.agent e = false) :
    Inv E ({ w with channel := rest }.ran e r) := by
  have hbase : Base { w with channel := rest } := { hw with fits := hrest }
  have hsame : Served E { w with channel := rest } := hserved
  refine ⟨hqueue, ?_⟩
  rcases ran_base hbase hfit h hcount hback with hlost | hbase'
  · refine Or.inl ⟨hlost, ?_⟩
    change (w.answered && r.1.phase.inBridge) = false
    rw [inBridge_of_isLost hlost, Bool.and_false]
  · exact Or.inr ⟨hbase', ran_served hbase hsame hfit h hwriter⟩

/-- No step of the run can be taken once the PTY is lost. -/
theorem base_of_step {e : Event} {r : RunState × List Effect} (hw : w.Inv E)
    (h : E.session.step w.agent e = some r) : w.Base := by
  rcases hw.output with ⟨hlost, -⟩ | ⟨hbase, -⟩
  · rw [step_isOver (isOver_of_isLost hlost)] at h
    cases h
  · exact hbase

/-- An event without a chunk fits the read buffer. -/
theorem noChunk_fits {e : Event} (h : w.noChunk e = true) : e.fitsBuffer = true ∧ e.chunk = [] := by
  cases e with
  | pty result =>
      cases result with
      | none => exact ⟨rfl, rfl⟩
      | some data => cases h
  | _ => exact ⟨rfl, rfl⟩

theorem agent_inv {e : Event} (hw : w.Inv E) (h : step E w (.agent e) = some v)
    (hc : w.Careful E (.agent e)) : v.Inv E := by
  simp only [step] at h
  split at h
  · rename_i hguard
    simp only [Bool.and_eq_true] at hguard
    simp only [Option.map_eq_some_iff] at h
    obtain ⟨r, hr, rfl⟩ := h
    have hbase := base_of_step hw hr
    obtain ⟨hfit, hchunk⟩ := noChunk_fits hguard.2
    apply ran_inv hw.queue hbase hw.served hfit hbase.fits hr
    · rw [hchunk, List.append_nil]
      exact hbase.count
    · intro hback
      obtain ⟨hchannel, hreads⟩ := hc hback
      exact ⟨hchannel, hchunk, hreads⟩
    · intro data he
      rw [he] at hchunk
      cases hchunk
  · cases h

theorem read_inv (hw : w.Inv E) (h : step E w .read = some v) (hc : w.Careful E .read) :
    v.Inv E := by
  simp only [step] at h
  split at h
  · cases h
  · rename_i data rest hchannel
    split at h
    · rename_i hcount
      simp only [Option.map_eq_some_iff] at h
      obtain ⟨r, hr, rfl⟩ := h
      have hbase := base_of_step hw hr
      have hnoback : handsBack w.agent (.pty (some data)) = false := by
        apply hc data
        rw [hchannel]
        rfl
      -- the chunk read and those that are left fit:
      have hfits : ∀ d ∈ data :: rest, d.length ≤ READ_BUF_SIZE := hchannel ▸ hbase.fits
      apply ran_inv (e := .pty (some data)) hw.queue hbase hw.served
        (decide_eq_true (hfits data List.mem_cons_self))
        (fun d hd => hfits d (List.mem_cons_of_mem data hd)) hr
      · rw [Event.chunk, List.length_append, List.length_singleton, ← hbase.recent.seq]
        exact hcount
      · intro hback
        rw [hnoback] at hback
        cases hback
      · intro d hd
        exact hnoback
    · cases h

/-- A text does not make the run give the PTY back. -/
theorem handsBack_text (st : RunState) (t : Text) : handsBack st (.ws (.text t)) = false := by
  cases hp : st.phase with
  | wait alive => cases alive <;> simp [handsBack, hp]
  | _ => simp [handsBack, hp]

theorem request_inv {t : Text} (hw : w.Inv E) (h : step E w (.request t) = some v)
    (hc : w.Careful E (.request t)) : v.Inv E := by
  simp only [step] at h
  split at h
  · cases h
  · rename_i env rest hrequests
    split at h
    · rename_i hguard
      simp only [Bool.and_eq_true] at hguard
      simp only [Option.map_eq_some_iff] at h
      obtain ⟨r, hr, rfl⟩ := h
      have hbase := base_of_step hw hr
      -- the request is off the queue, and the run serves what it answers:
      have hserved := request_served rest hbase hw.served hguard.2 hc hr
      let w' : Chain := { w with toAgent := rest, answered := w.answered || (w.answers E t).isSome }
      have hbase' : Base w' := { hbase with }
      have hcount : (w.chunks ++ (Event.ws (.text t)).chunk).length < 2 ^ 64 := by
        change (w.chunks ++ []).length < 2 ^ 64
        rw [List.append_nil]
        exact hbase.count
      have hran := ran_base (w := w') (E := E) hbase' rfl hr hcount fun hback => by
        rw [handsBack_text] at hback
        cases hback
      refine ⟨hw.queue, ?_⟩
      rcases hran with hlost | hbase''
      · refine Or.inl ⟨hlost, ?_⟩
        change (_ && r.1.phase.inBridge) = false
        rw [inBridge_of_isLost hlost, Bool.and_false]
      · exact Or.inr ⟨hbase'', hserved⟩
    · cases h

/-- The next run starts with everything reported, an empty buffer and nobody in session. -/
theorem again_inv (hw : w.Inv E) (h : step E w .again = some v) : v.Inv E := by
  simp only [step] at h
  split at h
  · rename_i hp
    obtain rfl := Option.some.inj h
    refine ⟨hw.queue, ?_⟩
    rcases hw.output with ⟨hlost, -⟩ | ⟨hbase, hserved⟩
    · rw [hp] at hlost
      cases hlost
    · have hall : ∀ c ∈ w.reads, w.Reported c := hbase.handedBack (by rw [hp]; rfl)
      refine Or.inr ⟨⟨recent_start.same ⟨rfl, rfl⟩, hbase.fits, ?_, hbase.lost, ?_, ?_⟩, ?_⟩
      · exact Nat.two_pow_pos 64
      · intro c hc
        exact Or.inl (hall c hc)
      · rintro ⟨⟩
      · intro hans
        obtain ⟨key, sid, hbridge, -⟩ := hserved hans
        rw [hp] at hbridge
        cases hbridge
  · cases h

/-- A step that meets the condition keeps the invariants. -/
theorem inv_step {e : ChainEvent} (hw : w.Inv E) (h : step E w e = some v) (hc : w.Careful E e) :
    v.Inv E := by
  cases e with
  | agent e => exact agent_inv hw h hc
  | read => exact read_inv hw h hc
  | request t => exact request_inv hw h hc
  | forward t =>
      simp only [step] at h
      split at h
      · cases h
      · rename_i run f rest hflying
        split at h
        · rename_i hguard
          simp only [Bool.and_eq_true] at hguard
          simp only [Option.map_eq_some_iff] at h
          obtain ⟨r, hr, rfl⟩ := h
          exact (message_clientStep hw.served hw.queue hflying hguard.1 hr).inv hw
        · cases h
  | client e => exact (client_clientStep hw.queue h).inv hw
  | disconnect =>
      -- what is under way gets lost, but nobody is in session any more
      obtain rfl := Option.some.inj h
      refine ⟨hw.queue, ?_⟩
      rcases hw.output with ⟨hlost, -⟩ | ⟨hbase, -⟩
      · exact Or.inl ⟨hlost, rfl⟩
      · exact Or.inr ⟨{ hbase with }, by rintro ⟨⟩⟩
  | output data =>
      simp only [step] at h
      split at h
      · rename_i hguard
        simp only [Bool.and_eq_true, decide_eq_true_eq] at hguard
        obtain rfl := Option.some.inj h
        refine ⟨hw.queue, ?_⟩
        -- the reader's buffer bounds the new chunk
        rcases hw.output with hlost | ⟨hbase, hserved⟩
        · exact Or.inl hlost
        · refine Or.inr ⟨{ hbase with fits := ?_ }, hserved⟩
          intro d hd
          rcases List.mem_append.1 hd with hd | hd
          · exact hbase.fits d hd
          · rw [List.mem_singleton.1 hd]
            exact hguard.2
      · cases h
  | stale data => exact hc.elim
  | again => exact again_inv hw h

theorem inv_start : start.Inv E := by
  refine ⟨rfl, Or.inr ⟨⟨recent_start, ?_, Nat.two_pow_pos 64, rfl, ?_, ?_⟩, ?_⟩⟩
  · rintro data ⟨⟩
  · rintro c ⟨⟩
  · rintro ⟨⟩
  · rintro ⟨⟩

end Facts

/-- In a run all of whose steps are careful no output is lost silently. -/
theorem noLoss_of_careful (E : Ends) (es : List ChainEvent)
    (h : Guarded (stepRel (step E)) (Careful E) start es) :
    Along (stepRel (step E)) NoLoss start es := by
  apply along_of_inductive (I := Inv E) (C := Careful E)
  · intro w e v hw hstep hc
    exact inv_step hw hstep hc
  · intro w hw
    exact noLoss_of_inv hw
  · exact inv_start
  · exact h

/-! ## A number of an earlier run -/

namespace Sample

open Agent.Sample (aead crates join pad prim text)

/-- A session: the key pair of the agent and the randomness of the client. -/
structure Key where
  pair : UInt8
  draw : UInt8

def first : Key := ⟨0, 7⟩

def second : Key := ⟨2, 9⟩

def Key.key (k : Key) : Bytes := pad 32 [k.pair, k.draw]

def Key.sid (k : Key) : Text := sessionId prim k.key

def Key.ws (k : Key) : WebSocketService := { crypto := some k.key, sessionId := some k.sid }

def Key.reply (k : Key) : Json := .ofFields [("type", .str "handshake".toList),
  ("mlkem_ciphertext", .str (Lib.Base64.encode [k.pair, k.draw]))]

def Key.syncReq (k : Key) (n lastSeq : Nat) : Option EncryptedEnvelope :=
  (sendEncrypted aead k.key n lastSeq "sync_req".toList (toVec (syncReqJson lastSeq k.sid))).map
    (·.envelope prim k.sid)

/-- The first chunk of a run, `x`, under the `n`-th nonce. -/
def Key.chunk (k : Key) (n : Nat) : Option EncryptedEnvelope :=
  sealPacket (crates []) k.key k.sid none n 1 "pty".toList [120]

def known : List Json :=
  [join, first.reply, second.reply, syncReqJson 0 first.sid, syncReqJson 1 second.sid] ++
    ((first.syncReq 1 0).toList ++ (second.syncReq 5 1).toList ++ (second.syncReq 6 1).toList ++
      (first.chunk 1).toList ++ (second.chunk 3).toList).map EncryptedEnvelope.toJson

def ends : Ends where
  session := Agent.Sample.session known
  dart := Agent.Sample.dart known
  prim_eq := rfl
  aead_eq := rfl

/-- A run connects, finds the client in the room and completes the handshake. -/
def Key.handshake (k : Key) : List ChainEvent :=
  [.agent (.connected true), .agent .proceed, .agent (.ws (.text join.encode)), .agent .proceed,
    .agent .proceed, .agent (.ws (.text k.reply.encode))]

/-- The client completes the handshake and sends its sync request, which the agent handles. -/
def Key.syncs (k : Key) (n lastSeq : Nat) : List ChainEvent :=
  [.client (.session k.ws), .client .reattachAfterReconnect, .request (text (k.syncReq n lastSeq))]

/-- The shell prints the chunk, and the run reads it. -/
def prints : List ChainEvent := [.output [120], .read]

def Key.shows (k : Key) (n : Nat) : List ChainEvent :=
  [.forward (text (k.chunk n)), .client (.decrypted 0)]

/-- A run whose one chunk is displayed before the relay connection fails, and the start of the next. -/
def restart : List ChainEvent :=
  first.handshake ++ first.syncs 1 0 ++ prints ++ first.shows 1 ++
    [.agent (.ws .ended), .again, .disconnect] ++ second.handshake

/-- The sync request of the second run is handled before its first chunk. -/
def careful : List ChainEvent := restart ++ second.syncs 5 1 ++ prints ++ second.shows 3

/-- The first chunk of the second run is sent before the client has the session key. -/
def early : List ChainEvent :=
  restart ++ prints ++ [.forward (text (second.chunk 3))] ++ second.syncs 6 1

end Sample

theorem noLoss_across_restart :
    Along (stepRel (step Sample.ends)) NoLoss start Sample.careful ∧
      ∃ w, Run (stepRel (step Sample.ends)) start Sample.careful w ∧
        w.reported = [(0, 1, 1), (1, 1, 1)] := by
  refine ⟨?_, exists_run_of_exec (by decide +kernel)⟩
  exact noLoss_of_careful Sample.ends Sample.careful (guarded_of_checkAll (by decide +kernel))

/-- The chunk of the second run that the client could not read has the number 1, up to which the client
asks for nothing: it stays lost. -/
theorem early_chunk_is_lost :
    ∃ w, Run (stepRel (step Sample.ends)) start Sample.early w ∧ w.reads = [(0, 1), (1, 1)] ∧
      w.reported = [(0, 1, 1)] ∧ ¬ w.NoLoss := by
  obtain ⟨w, hrun, hans, hchannel, hflying, hwaiting, hreads, hreported⟩ : ∃ w,
      Run (stepRel (step Sample.ends)) start Sample.early w ∧ w.answered = true ∧ w.channel = [] ∧
        w.toClient.length = 0 ∧ w.client.pending.length = 0 ∧ w.reads = [(0, 1), (1, 1)] ∧
          w.reported = [(0, 1, 1)] := exists_run_of_exec (by decide +kernel)
  refine ⟨w, hrun, hreads, hreported, fun hw => ?_⟩
  have hrest : w.AtRest :=
    ⟨hans, hchannel, List.length_eq_zero_iff.1 hflying, List.length_eq_zero_iff.1 hwaiting⟩
  -- the first chunk of the second run was read, but only that of the first run was reported:
  have hmem : ((1, 1) : ChunkId) ∈ w.reads := by
    rw [hreads]
    exact List.mem_cons_of_mem _ (List.mem_singleton_self _)
  obtain ⟨x, hx, hrun1, -⟩ := (hw hrest).2 (1, 1) hmem
  rw [hreported] at hx
  rw [List.mem_singleton.1 hx] at hrun1
  cases hrun1

end Chain

end Ktty.Protocol.Reconnect
