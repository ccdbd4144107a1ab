import Ktty.Agent.SampleCrates
import Ktty.Lib.Execution
import Ktty.Lib.Trace
import Ktty.Protocol.Ends

/-!
# Output between one agent run and one attached client

`Link` connects a run of the agent to a client over a relay that keeps the order of the frames and loses
none. The agent stores its chunks, sends them live and answers sync requests; the client sends sync
requests on attach, reattach and recovery, and its decryptions complete in the order of arrival. A
reconnect of the client closes its old connection with the frames that are under way on it.

The packets of a replay are chosen when the agent handles the request, so a chunk that was sent live
after the client sent the request is sent again. `displayed_once`: if the agent handles a sync request
only when the client side has no chunk beyond the number in it, the client displays each chunk at most
once, in order and with its own bytes; and what has arrived in an attach and decrypts is displayed once or
waits for its decryption, in the order of arrival.
-/

set_option autoImplicit false

namespace Ktty.Protocol.Display

open Ktty.Wire Ktty.Crypto Ktty.Lib.Execution Ktty.Lib.Trace Ktty.Agent Ktty.Client

/-! ## The link -/

/-- The number of an envelope with output. -/
def numberOf (f : Flight) : Option Int :=
  if f.env.type = "pty".toList then some f.env.seq else none

structure Link where
  agent : RunState
  client : TerminalService
  attached : Bool
  /-- The next nonce of the client. -/
  clientRng : Nat
  /-- The sync requests under way to the agent. -/
  toAgent : List EncryptedEnvelope
  toClient : List Flight
  /-- The chunks that the run has read from the PTY. -/
  chunks : List Bytes
  /-- What the client has passed on for display. -/
  displayed : List Shown

inductive LinkEvent where
  /-- The run takes a step other than the answer to a sync request. -/
  | agent (e : Event)
  /-- The relay forwards the next sync request to the agent as the text `t`. -/
  | request (t : Text)
  /-- The relay forwards the next envelope to the client as the text `t`. -/
  | forward (t : Text)
  /-- `attach(syncExisting: true)`. -/
  | attach
  /-- The client takes a step of its own, or gets a text that is no frame of the agent's session. -/
  | client (e : TerminalEvent)
  /-- The connection of the client is lost. -/
  | disconnect

namespace Link

section Step

variable (E : Ends)

def start (ws : WebSocketService) : Link :=
  { agent := Session.start, client := .new ws, attached := false, clientRng := 0, toAgent := [],
    toClient := [], chunks := [], displayed := [] }

/-- The run has taken a step on `e` with the result `r`. -/
def ran (w : Link) (e : Event) (r : RunState × List Effect) : Link :=
  { w with
    agent := r.1
    toClient := w.toClient ++ (envelopes r.2).map fun env => ⟨w.agent.phase.sessionKey, env⟩
    chunks := w.chunks ++ e.chunk }

/-- The client has taken a step with the given result. -/
def acted (w : Link) (r : TerminalService × List TerminalEffect) : Link :=
  { w with
    client := r.1
    clientRng := w.clientRng + 1
    toAgent := w.toAgent ++ E.requests w.client.ws w.clientRng r.2
    displayed := w.displayed ++ r.2.filterMap TerminalEffect.shown }

/-- The events of the client that are its own: decryptions complete in the order of arrival, and a text
is not a frame to decrypt. -/
def ownEvent (c : TerminalService) : TerminalEvent → Bool
  | .message raw => (c.arrival E.dart raw).waiting.isEmpty
  | .decrypted i => i == 0
  | _ => true

/-- Before the attach only the handshake touches the client. -/
def isSession : TerminalEvent → Bool
  | .session _ => true
  | _ => false

def step (w : Link) : LinkEvent → Option Link
  | .agent e => if E.notSync w.agent e then (E.session.step w.agent e).map (w.ran e) else none
  | .request t =>
      match w.toAgent with
      | [] => none
      | env :: rest =>
          if carries E.session.crates.json.fromStr t env then
            (E.session.step w.agent (.ws (.text t))).map
              ({ w with toAgent := rest }.ran (.ws (.text t)))
          else none
  | .forward t =>
      match w.toClient with
      | [] => none
      | f :: rest =>
          if isFrame E.dart.jsonDecode t { f.env with auth := none } && E.ideal w.client.ws f then
            -- without a listener the text is dropped
            if w.attached then
              (w.client.step E.dart (.message t)).map ({ w with toClient := rest }.acted E)
            else some { w with toClient := rest }
          else none
  | .attach =>
      if w.attached then none
      else some ({ w with attached := true }.acted E (w.client.attach true))
  | .client e =>
      if (w.attached || isSession e) && ownEvent E w.client e then
        (w.client.step E.dart e).map (w.acted E)
      else none
  | .disconnect =>
      some { w with
        client := { w.client with ws := { crypto := none, sessionId := none } }
        toClient := [] }

end Step

/-- What a step of the link changes. -/
inductive Change (E : Ends) (w : Link) : LinkEvent → Link → Prop where
  | runs {e : Event} {r : RunState × List Effect} : E.notSync w.agent e = true →
      E.session.step w.agent e = some r → Change E w (.agent e) (w.ran e r)
  | answers {t : Text} {rest : List EncryptedEnvelope} {r : RunState × List Effect} :
      E.session.step w.agent (.ws (.text t)) = some r →
      Change E w (.request t) ({ w with toAgent := rest }.ran (.ws (.text t)) r)
  | arrives {t : Text} {f : Flight} {rest : List Flight} {r : TerminalService × List TerminalEffect} :
      w.attached = true → w.toClient = f :: rest →
      isFrame E.dart.jsonDecode t { f.env with auth := none } = true →
      E.ideal w.client.ws f = true → w.client.step E.dart (.message t) = some r →
      Change E w (.forward t) ({ w with toClient := rest }.acted E r)
  | misses {t : Text} {f : Flight} {rest : List Flight} : w.attached = false →
      w.toClient = f :: rest → Change E w (.forward t) { w with toClient := rest }
  | attaches : Change E w .attach ({ w with attached := true }.acted E (w.client.attach true))
  | acts {e : TerminalEvent} {r : TerminalService × List TerminalEffect} :
      ownEvent E w.client e = true → w.client.step E.dart e = some r →
      Change E w (.client e) (w.acted E r)
  | disconnects : Change E w .disconnect
      { w with
        client := { w.client with ws := { crypto := none, sessionId := none } }
        toClient := [] }

theorem step_change {E : Ends} {w v : Link} {e : LinkEvent} (h : step E w e = some v) :
    Change E w e v := by
  cases e with
  | agent e =>
      simp only [step] at h
      split at h
      · rename_i hsync
        obtain ⟨r, hr, rfl⟩ := Option.map_eq_some_iff.1 h
        exact .runs hsync hr
      · cases h
  | request t =>
      simp only [step] at h
      split at h
      · cases h
      · split at h
        · obtain ⟨r, hr, rfl⟩ := Option.map_eq_some_iff.1 h
          exact .answers hr
        · cases h
  | forward t =>
      simp only [step] at h
      split at h
      · cases h
      · rename_i f rest hflying
        split at h
        · rename_i hguard
          simp only [Bool.and_eq_true] at hguard
          split at h
          · rename_i hattached
            obtain ⟨r, hr, rfl⟩ := Option.map_eq_some_iff.1 h
            exact .arrives hattached hflying hguard.1 hguard.2 hr
          · rename_i hdetached
            obtain rfl := Option.some.inj h
            exact .misses (Bool.not_eq_true _ ▸ hdetached) hflying
        · cases h
  | attach =>
      simp only [step] at h
      split at h
      · cases h
      · obtain rfl := Option.some.inj h
        exact .attaches
  | client e =>
      simp only [step] at h
      split at h
      · rename_i hguard
        simp only [Bool.and_eq_true] at hguard
        obtain ⟨r, hr, rfl⟩ := Option.map_eq_some_iff.1 h
        exact .acts hguard.2 hr
      · cases h
  | disconnect =>
      obtain rfl := Option.some.inj h
      exact .disconnects

/-! ## The stream to the display -/

/-- Chunk `n`, counted from one. -/
def ChunkAt (chunks : List Bytes) (n : Nat) (data : Bytes) : Prop :=
  1 ≤ n ∧ chunks[n - 1]? = some data

/-- The client has displayed chunks with their own bytes, each at most once and in order. -/
structure Once (w : Link) : Prop where
  bytes : ∀ x ∈ w.displayed, ∃ n : Nat, x.seq = some (n : Int) ∧ ChunkAt w.chunks n x.payload
  increasing : (w.displayed.filterMap Shown.seq).Pairwise (· < ·)

/-- The number of a waiting frame with output. -/
def pendingNumber : Pending → Option Int
  | { kind := .pty, seq := some (.int n), outcome := _ } => some n
  | _ => none

/-- The numbers of the output at the client and under way to it, oldest first. -/
def stream (w : Link) : List Int :=
  w.displayed.filterMap Shown.seq ++ w.client.pending.filterMap pendingNumber ++
    w.toClient.filterMap numberOf

/-- The condition on a step: when the agent handles a sync request, no output at the client or under way
to it has a number beyond the one in the request. -/
def Settled (E : Ends) (w : Link) : LinkEvent → Prop
  | .request t => ∀ n ∈ w.stream, n ≤ sendsBehind E.session.crates w.agent (.ws (.text t))
  | _ => True

instance (E : Ends) (w : Link) (e : LinkEvent) : Decidable (w.Settled E e) := by
  cases e <;> unfold Settled <;> infer_instance

/-! ## Invariants -/

/-- All output in the link carries chunks under their numbers. -/
structure Carried (E : Ends) (w : Link) : Prop where
  store : Stores w.agent w.chunks
  shown : ∀ x ∈ w.displayed, ∃ n : Nat, x.seq = some (n : Int) ∧ ChunkAt w.chunks n x.payload
  waiting : ∀ p ∈ w.client.pending, p.kind = .pty → ∃ (n : Nat) (data : Bytes),
    p.seq = some (.int n) ∧ ChunkAt w.chunks n data ∧ ∀ b, p.outcome = some b → b = data
  flying : ∀ f ∈ w.toClient, f.env.type = "pty".toList → ∃ data,
    ChunkAt w.chunks f.env.seq data ∧ f.Opens E.session.crates data

section Facts

variable {E : Ends} {w v : Link}

theorem ChunkAt.append {chunks more : List Bytes} {n : Nat} {data : Bytes}
    (h : ChunkAt chunks n data) : ChunkAt (chunks ++ more) n data := by
  obtain ⟨hpos, hget⟩ := h
  refine ⟨hpos, ?_⟩
  rw [List.getElem?_append_left (List.getElem?_eq_some_iff.1 hget).1]
  exact hget

theorem ChunkAt.le {chunks : List Bytes} {n : Nat} {data : Bytes} (h : ChunkAt chunks n data) :
    n ≤ chunks.length := by
  obtain ⟨hpos, hget⟩ := h
  have hlt := (List.getElem?_eq_some_iff.1 hget).1
  omega

theorem pendingNumber_eq {p : Pending} {n : Int} (h : pendingNumber p = some n) :
    p.kind = .pty ∧ p.seq = some (.int n) := by
  unfold pendingNumber at h
  split at h
  · obtain rfl := Option.some.inj h
    exact ⟨rfl, rfl⟩
  · cases h

/-- All numbers in the stream are those of chunks read so far. -/
theorem stream_le (hw : w.Carried E) : ∀ n ∈ w.stream, n ≤ (w.agent.seq : Int) := by
  intro n hn
  rw [hw.store.seq]
  simp only [stream, List.mem_append, List.mem_filterMap] at hn
  rcases hn with (⟨x, hx, hnum⟩ | ⟨p, hp, hnum⟩) | ⟨f, hf, hnum⟩
  · -- a displayed chunk
    obtain ⟨m, hseq, hchunk⟩ := hw.shown x hx
    rw [hseq] at hnum
    obtain rfl := Option.some.inj hnum
    exact Int.ofNat_le.2 hchunk.le
  · -- a waiting frame
    obtain ⟨hkind, hseq⟩ := pendingNumber_eq hnum
    obtain ⟨m, data, hm, hchunk, -⟩ := hw.waiting p hp hkind
    rw [hseq] at hm
    obtain rfl := Json.int.inj (Option.some.inj hm)
    exact Int.ofNat_le.2 hchunk.le
  · -- an envelope under way
    rw [numberOf] at hnum
    split_ifs at hnum with htype
    obtain rfl := Option.some.inj hnum
    obtain ⟨data, hchunk, -⟩ := hw.flying f hf htype
    exact Int.ofNat_le.2 hchunk.le

/-- The numbers of envelopes just sent. -/
theorem numbers_sent (key : Bytes) (envs : List EncryptedEnvelope) :
    (envs.map fun env => (⟨key, env⟩ : Flight)).filterMap numberOf =
      (ptyEnvelopes envs).map fun env => (env.seq : Int) := by
  induction envs with
  | nil => rfl
  | cons env envs ih =>
      have hrest := ih
      rw [ptyEnvelopes] at hrest ⊢
      by_cases htype : env.type = "pty".toList
      · have hnum : numberOf ⟨key, env⟩ = some (env.seq : Int) := if_pos htype
        rw [List.map_cons, List.filterMap_cons_some hnum, hrest,
          List.filter_cons_of_pos (by simpa using htype), List.map_cons]
      · have hnum : numberOf ⟨key, env⟩ = none := if_neg htype
        rw [List.map_cons, List.filterMap_cons_none hnum, hrest,
          List.filter_cons_of_neg (by simpa using htype)]

theorem seq_of_seals {L : Crates} {key : Bytes} {envs : List EncryptedEnvelope} {pkts : List Packet}
    (h : List.Forall₂ (Seals L key) envs pkts) :
    (envs.map fun env => (env.seq : Int)) = pkts.map fun p => (p.seq : Int) := by
  induction h with
  | nil => rfl
  | cons hseal _ ih => rw [List.map_cons, List.map_cons, ih, hseal.seq]

/-- A step of the run that sends only packets beyond the stream keeps the stream in order. -/
theorem ran_inv {e : Event} {r : RunState × List Effect} (hw : w.Carried E)
    (hinc : w.stream.Pairwise (· < ·)) (h : E.session.step w.agent e = some r)
    (hbehind : ∀ n ∈ w.stream, n ≤ (sendsBehind E.session.crates w.agent e : Int)) :
    (w.ran e r).Carried E ∧ (w.ran e r).stream.Pairwise (· < ·) := by
  obtain ⟨pkts, hseals, hsub, habove⟩ := emits_seals (L := E.session.crates) hw.store e
  rw [← (step_outputs h).envelopes] at hseals
  constructor
  · refine ⟨step_stores hw.store h, ?_, ?_, ?_⟩
    · intro x hx
      obtain ⟨n, hseq, hchunk⟩ := hw.shown x hx
      exact ⟨n, hseq, hchunk.append⟩
    · intro p hp hkind
      obtain ⟨n, data, hseq, hchunk, hout⟩ := hw.waiting p hp hkind
      exact ⟨n, data, hseq, hchunk.append, hout⟩
    · intro f hf htype
      rcases List.mem_append.1 hf with hf | hf
      · obtain ⟨data, hchunk, hopens⟩ := hw.flying f hf htype
        exact ⟨data, hchunk.append, hopens⟩
      · -- an envelope of this step seals one of its packets
        obtain ⟨env, henv, rfl⟩ := List.mem_map.1 hf
        have hpty : env ∈ ptyEnvelopes (envelopes r.2) :=
          List.mem_filter.2 ⟨henv, decide_eq_true htype⟩
        obtain ⟨i, hi, rfl⟩ := List.getElem_of_mem hpty
        have hi' : i < pkts.length := hseals.length_eq ▸ hi
        have hseal := hseals.get hi hi'
        obtain ⟨hpos, -, hdata⟩ := mem_packetsOf (hsub.subset (List.get_mem pkts ⟨i, hi'⟩))
        refine ⟨(pkts.get ⟨i, hi'⟩).payload, ⟨?_, ?_⟩, hseal.payload⟩
        · exact hseal.seq ▸ hpos
        · exact hseal.seq ▸ hdata
  · -- the packets of this step come behind the stream
    have hnew : (w.ran e r).stream = w.stream ++ pkts.map fun p => (p.seq : Int) := by
      rw [← seq_of_seals hseals]
      simp only [stream, ran, List.filterMap_append, numbers_sent, List.append_assoc]
    rw [hnew, List.pairwise_append]
    refine ⟨hinc, ?_, ?_⟩
    · -- among themselves they are in the order of the store
      have hpairs := (packetsOf_increasing (w.chunks ++ e.chunk)).sublist (hsub.map Packet.seq)
      rw [List.pairwise_map] at hpairs ⊢
      exact hpairs.imp fun hlt => Int.ofNat_lt.2 hlt
    · intro n hn m hm
      obtain ⟨p, hp, rfl⟩ := List.mem_map.1 hm
      have hlt := habove p hp
      have hle := hbehind n hn
      omega

/-- A frame that arrives carries the number and the bytes of its envelope. -/
theorem arrives {f : Flight} {t : Text} {p : Pending} (hf : f.env.type = "pty".toList →
      ∃ data, ChunkAt w.chunks f.env.seq data ∧ f.Opens E.session.crates data)
    (ht : isFrame E.dart.jsonDecode t { f.env with auth := none } = true)
    (hideal : E.ideal w.client.ws f = true)
    (hp : p ∈ (w.client.arrival E.dart t).waiting) (hkind : p.kind = .pty) :
    f.env.type = "pty".toList ∧ p.seq = some (.int f.env.seq) ∧
      ∃ data, ChunkAt w.chunks f.env.seq data ∧ ∀ b, p.outcome = some b → b = data := by
  cases harr : w.client.arrival E.dart t with
  | decrypt q =>
      rw [harr] at hp
      obtain rfl := List.mem_singleton.1 hp
      obtain ⟨htype, hseq, hout⟩ :=
        TerminalService.arrival_envelope (parse_of_isFrame ht) harr
      have htype := htype hkind
      obtain ⟨data, hchunk, packed, hpayload, hopens⟩ := hf htype
      refine ⟨htype, hseq, data, hchunk, ?_⟩
      intro b hb
      rw [hout] at hb
      -- the session key of the client is the one the envelope was sealed under
      cases hkey : w.client.ws.crypto with
      | none => simp [decryptPayload, hkey] at hb
      | some key =>
          rw [Ends.ideal, hkey, Option.all_some, hb] at hideal
          have hsame : key = f.key := by simpa using hideal
          have hdec : decryptPayload E.dart w.client.ws f.env.payload = some data := by
            rw [decryptPayload, hkey, hpayload, E.prim_eq, E.aead_eq, hsame]
            simp only [Option.bind_some, E.session.crates.prim.base64Decode_b64Encode]
            exact hopens
          rw [hdec] at hb
          exact (Option.some.inj hb).symm
  | _ =>
      rw [harr] at hp
      cases hp

/-- The invariants of the link: its output carries chunks, in order. -/
structure Inv (E : Ends) (w : Link) : Prop where
  carried : w.Carried E
  increasing : w.stream.Pairwise (· < ·)

/-- A text moves the frame it carries from the relay to the waiting ones. -/
theorem forward_inv {f : Flight} {rest : List Flight} {t : Text}
    {r : TerminalService × List TerminalEffect} (hw : w.Inv E) (hflying : w.toClient = f :: rest)
    (ht : isFrame E.dart.jsonDecode t { f.env with auth := none } = true)
    (hideal : E.ideal w.client.ws f = true) (h : w.client.step E.dart (.message t) = some r) :
    Inv E ({ w with toClient := rest }.acted E r) := by
  obtain ⟨hcarried, hinc⟩ := hw
  obtain ⟨d, effs⟩ := r
  obtain ⟨hpending, rfl⟩ := TerminalService.step_message h
  have hf := hcarried.flying f (hflying ▸ List.mem_cons_self)
  have harrives := fun p => arrives (p := p) hf ht hideal
  constructor
  · refine ⟨hcarried.store, ?_, ?_, ?_⟩
    · intro x hx
      rcases List.mem_append.1 hx with hx | hx
      · exact hcarried.shown x hx
      · cases hx
    · intro p hp hkind
      have hp : p ∈ w.client.pending ++ (w.client.arrival E.dart t).waiting := hpending ▸ hp
      rcases List.mem_append.1 hp with hp | hp
      · exact hcarried.waiting p hp hkind
      · -- the frame of the text now waits for its decryption
        obtain ⟨-, hseq, data, hchunk, hout⟩ := harrives p hp hkind
        exact ⟨f.env.seq, data, hseq, hchunk, hout⟩
    · intro g hg htype
      exact hcarried.flying g (hflying ▸ List.mem_cons_of_mem f hg) htype
  · -- the frame keeps its place between the waiting ones and those still under way
    have hnew : ((w.client.arrival E.dart t).waiting.filterMap pendingNumber).Sublist
        ([f].filterMap numberOf) := by
      cases harr : w.client.arrival E.dart t with
      | decrypt p =>
          change ([p].filterMap pendingNumber).Sublist _
          cases hnum : pendingNumber p with
          | none =>
              rw [List.filterMap_cons_none hnum]
              exact List.nil_sublist _
          | some n =>
              obtain ⟨hkind, hseq⟩ := pendingNumber_eq hnum
              have hmem : p ∈ (w.client.arrival E.dart t).waiting := by
                rw [harr]
                exact List.mem_singleton_self p
              obtain ⟨htype, hseq', -⟩ := harrives p hmem hkind
              rw [hseq] at hseq'
              obtain rfl := Json.int.inj (Option.some.inj hseq')
              have hfnum : numberOf f = some (f.env.seq : Int) := if_pos htype
              rw [List.filterMap_cons_some hnum, List.filterMap_cons_some hfnum]
              exact List.Sublist.refl _
      | _ => exact List.nil_sublist _
    refine hinc.sublist ?_
    simp only [stream, acted, hpending, hflying, List.filterMap_append, List.filterMap_nil,
      List.append_nil, List.append_assoc]
    rw [← List.singleton_append, List.filterMap_append]
    apply List.Sublist.append_left
    apply List.Sublist.append_left
    exact hnew.append (List.Sublist.refl _)

/-- A completed decryption moves the first waiting frame to the display. -/
theorem decrypted_inv {r : TerminalService × List TerminalEffect} (hw : w.Inv E)
    (h : w.client.step E.dart (.decrypted 0) = some r) : Inv E (w.acted E r) := by
  obtain ⟨hcarried, hinc⟩ := hw
  obtain ⟨d, effs⟩ := r
  obtain ⟨p, hp, hpending, hshown, -⟩ := TerminalService.step_decrypted h
  cases hqueue : w.client.pending with
  | nil =>
      rw [hqueue] at hp
      cases hp
  | cons q rest =>
      rw [hqueue] at hp hpending
      obtain rfl := Option.some.inj hp
      have hq := hcarried.waiting q (hqueue ▸ List.mem_cons_self)
      have hnew : (q.shown.filterMap Shown.seq).Sublist ([q].filterMap pendingNumber) ∧
          ∀ x ∈ q.shown, ∃ n : Nat, x.seq = some (n : Int) ∧ ChunkAt w.chunks n x.payload := by
        unfold Pending.shown
        split
        · -- output that decrypted is displayed
          rename_i seq bytes
          obtain ⟨n, data, hseq, hchunk, hout⟩ := hq rfl
          have hseq : seq = some (.int n) := hseq
          subst hseq
          refine ⟨List.Sublist.refl _, ?_⟩
          intro x hx
          obtain rfl := List.mem_singleton.1 hx
          exact ⟨n, rfl, hout bytes rfl ▸ hchunk⟩
        · -- nothing else is
          exact ⟨List.nil_sublist _, fun x hx => absurd hx List.not_mem_nil⟩
      obtain ⟨hnumbers, hbytes⟩ := hnew
      constructor
      · refine ⟨hcarried.store, ?_, ?_, hcarried.flying⟩
        · intro x hx
          have hx : x ∈ w.displayed ++ q.shown := hshown ▸ hx
          rcases List.mem_append.1 hx with hx | hx
          · exact hcarried.shown x hx
          · exact hbytes x hx
        · intro g hg hkind
          have hrest : d.pending = rest := hpending
          have hg : g ∈ rest := hrest ▸ hg
          exact hcarried.waiting g (hqueue ▸ List.mem_cons_of_mem q hg) hkind
      · -- its number stays in place, or leaves the stream
        refine hinc.sublist ?_
        simp only [stream, acted, hshown, hpending, hqueue, List.eraseIdx_cons_zero,
          List.filterMap_append, List.append_assoc]
        apply List.Sublist.append_left
        rw [← List.singleton_append, List.filterMap_append, List.append_assoc]
        exact hnumbers.append (List.Sublist.refl _)

/-- Steps of the client that touch neither the waiting frames nor the display. -/
theorem idle_inv {r : TerminalService × List TerminalEffect} (hw : w.Inv E)
    (hpending : r.1.pending = w.client.pending)
    (hshown : r.2.filterMap TerminalEffect.shown = []) : Inv E (w.acted E r) := by
  obtain ⟨hcarried, hinc⟩ := hw
  constructor
  · refine ⟨hcarried.store, ?_, ?_, hcarried.flying⟩
    · intro x hx
      have hx : x ∈ w.displayed ++ [] := hshown ▸ hx
      rw [List.append_nil] at hx
      exact hcarried.shown x hx
    · intro p hp hkind
      exact hcarried.waiting p (hpending ▸ hp) hkind
  · have hsame : (w.acted E r).stream = w.stream := by
      simp only [stream, acted, hpending, hshown, List.append_nil]
    rw [hsame]
    exact hinc

/-- Frames that leave the link without reaching the client. -/
theorem drop_inv {c : TerminalService} {more : List Flight} (hw : w.Inv E)
    (hpending : c.pending = w.client.pending) (hmore : more.Sublist w.toClient) :
    Inv E { w with client := c, toClient := more } := by
  obtain ⟨hcarried, hinc⟩ := hw
  constructor
  · refine ⟨hcarried.store, hcarried.shown, ?_, ?_⟩
    · intro p hp hkind
      exact hcarried.waiting p (hpending ▸ hp) hkind
    · intro f hf htype
      exact hcarried.flying f (hmore.subset hf) htype
  · refine hinc.sublist ?_
    simp only [stream, hpending]
    exact (List.Sublist.refl _).append (hmore.filterMap _)

/-- The events of the client that are its own keep the invariants. -/
theorem client_inv {e : TerminalEvent} {r : TerminalService × List TerminalEffect} (hw : w.Inv E)
    (hown : ownEvent E w.client e = true) (h : w.client.step E.dart e = some r) :
    Inv E (w.acted E r) := by
  cases e with
  | message raw =>
      obtain ⟨hpending, heffs⟩ := TerminalService.step_message h
      have hnone : (w.client.arrival E.dart raw).waiting = [] := by simpa [ownEvent] using hown
      rw [hnone, List.append_nil] at hpending
      exact idle_inv hw hpending (by rw [heffs]; rfl)
  | decrypted i =>
      obtain rfl : i = 0 := by simpa [ownEvent] using hown
      exact decrypted_inv hw h
  | _ =>
      have hidle :=
        TerminalService.step_idle h (fun raw he => by cases he) (fun i he => by cases he)
      exact idle_inv hw hidle.pending hidle.shown

/-- A step that meets the condition keeps the invariants. -/
theorem inv_step {e : LinkEvent} (hw : w.Inv E) (h : step E w e = some v) (hc : w.Settled E e) :
    v.Inv E := by
  cases step_change h with
  | runs hsync hr =>
      -- without a sync request only the chunk just read is sent, beyond all others
      obtain ⟨hcarried, hinc⟩ := ran_inv hw.carried hw.increasing hr (by
        rw [sendsBehind_of_notSync hsync]
        exact stream_le hw.carried)
      exact ⟨hcarried, hinc⟩
  | @answers t rest r hr =>
      -- the condition bounds the stream by the number in the request
      have hcarried : Carried E { w with toAgent := rest } := { hw.carried with }
      obtain ⟨hcarried, hinc⟩ := ran_inv hcarried hw.increasing hr hc
      exact ⟨hcarried, hinc⟩
  | arrives _ hflying hframe hideal hr => exact forward_inv hw hflying hframe hideal hr
  | @misses t f rest _ hflying => exact drop_inv hw rfl (hflying ▸ List.sublist_cons_self f rest)
  | attaches =>
      have hsame : Inv E { w with attached := true } := ⟨{ hw.carried with }, hw.increasing⟩
      exact idle_inv hsame rfl (TerminalService.requestSync_shown _)
  | acts hown hr => exact client_inv hw hown hr
  | disconnects => exact drop_inv hw rfl (List.nil_sublist _)

theorem inv_start (ws : WebSocketService) : (start ws).Inv E := by
  constructor
  · refine ⟨⟨rfl, List.suffix_refl []⟩, ?_, ?_, ?_⟩
    · rintro x ⟨⟩
    · rintro p ⟨⟩
    · rintro f ⟨⟩
  · exact List.Pairwise.nil

theorem Inv.once (hw : w.Inv E) : w.Once := by
  refine ⟨hw.carried.shown, ?_⟩
  have hall := hw.increasing
  rw [stream, List.append_assoc] at hall
  exact (List.pairwise_append.1 hall).1

end Facts

/-! ## What arrives is displayed -/

/-- What a text that the relay forwards to an attached client displays, if its decryption succeeds. -/
def arrivals (E : Ends) (w : Link) : LinkEvent → List Shown
  | .forward t =>
      if w.attached then (w.client.arrival E.dart t).waiting.flatMap Pending.shown else []
  | _ => []

/-- What the client has displayed, and behind it what it will display of the waiting frames. -/
def taken (w : Link) : List Shown := w.displayed ++ w.client.pending.flatMap Pending.shown

section Arrivals

variable {E : Ends} {w v : Link}

theorem taken_idle {r : TerminalService × List TerminalEffect}
    (hpending : r.1.pending = w.client.pending)
    (hshown : r.2.filterMap TerminalEffect.shown = []) : (w.acted E r).taken = w.taken := by
  simp only [taken, acted, hpending, hshown, List.append_nil]

theorem taken_message {t : Text} {r : TerminalService × List TerminalEffect}
    (h : w.client.step E.dart (.message t) = some r) :
    (w.acted E r).taken =
      w.taken ++ (w.client.arrival E.dart t).waiting.flatMap Pending.shown := by
  obtain ⟨hpending, heffs⟩ := TerminalService.step_message h
  simp only [taken, acted, hpending, heffs, List.filterMap_nil, List.append_nil,
    List.flatMap_append, List.append_assoc]

/-- A completed decryption moves what the first waiting frame shows to the display. -/
theorem taken_decrypted {r : TerminalService × List TerminalEffect}
    (h : w.client.step E.dart (.decrypted 0) = some r) : (w.acted E r).taken = w.taken := by
  obtain ⟨p, hp, hpending, hshown, -⟩ := TerminalService.step_decrypted h
  cases hqueue : w.client.pending with
  | nil =>
      rw [hqueue] at hp
      cases hp
  | cons q rest =>
      rw [hqueue] at hp hpending
      obtain rfl := Option.some.inj hp
      rw [List.eraseIdx_cons_zero] at hpending
      simp only [taken, acted, hpending, hshown, hqueue, List.flatMap_cons, List.append_assoc]

/-- The events of the client that are its own bring nothing. -/
theorem taken_client {e : TerminalEvent} {r : TerminalService × List TerminalEffect}
    (hown : ownEvent E w.client e = true) (h : w.client.step E.dart e = some r) :
    (w.acted E r).taken = w.taken := by
  cases e with
  | message raw =>
      have hnone : (w.client.arrival E.dart raw).waiting = [] := by simpa [ownEvent] using hown
      rw [taken_message h, hnone, List.flatMap_nil, List.append_nil]
  | decrypted i =>
      obtain rfl : i = 0 := by simpa [ownEvent] using hown
      exact taken_decrypted h
  | _ =>
      have hidle :=
        TerminalService.step_idle h (fun raw he => by cases he) (fun i he => by cases he)
      exact taken_idle hidle.pending hidle.shown

theorem taken_step {e : LinkEvent} (h : step E w e = some v) :
    v.taken = w.taken ++ arrivals E w e := by
  cases step_change h with
  | runs _ _ => exact (List.append_nil _).symm
  | answers _ => exact (List.append_nil _).symm
  | @arrives t f rest r hattached _ _ _ hr =>
      rw [arrivals, if_pos hattached]
      exact taken_message (w := { w with toClient := rest }) hr
  | misses hdetached _ =>
      rw [arrivals, hdetached]
      exact (List.append_nil _).symm
  | attaches =>
      have hsame := taken_idle (E := E) (w := { w with attached := true })
        (r := w.client.attach true) rfl (TerminalService.requestSync_shown _)
      exact hsame.trans (List.append_nil _).symm
  | acts hown hr => exact (taken_client hown hr).trans (List.append_nil _).symm
  | disconnects => exact (List.append_nil _).symm

end Arrivals

/-- In a run in which the agent handles each sync request only when the client side has no chunk beyond
the number in it, the client displays each chunk at most once, in order and with its own bytes. In any
state it reaches, what has arrived in an attach and decrypts has been displayed once, in the order of
arrival, up to the frames that wait for their decryption. -/
theorem displayed_once (E : Ends) (ws : WebSocketService) (es : List LinkEvent)
    (h : Guarded (stepRel (step E)) (Settled E) (start ws) es) :
    Along (stepRel (step E)) Once (start ws) es ∧
      ∀ w, Run (stepRel (step E)) (start ws) es w →
        w.displayed ++ w.client.pending.flatMap Pending.shown =
          trace (step E) (arrivals E) (start ws) es := by
  constructor
  · apply along_of_inductive (I := Inv E) (C := Settled E)
    · intro w e v hw hstep hc
      exact inv_step hw hstep hc
    · intro w hw
      exact hw.once
    · exact inv_start ws
    · exact h
  · intro w hrun
    -- nothing is displayed or waits at the start
    exact recorded (q := taken) (fun w e v hstep => taken_step hstep) hrun

/-! ## A request overtaken by a chunk -/

namespace Sample

open Agent.Sample (aead chunk join key prim sid text)

/-- The client's ciphertext, from which the agent derives `key`. -/
def reply : Json := .ofFields [("type", .str "handshake".toList),
  ("mlkem_ciphertext", .str (Lib.Base64.encode [0, 7]))]

/-- The sync request of the attach. -/
def syncReq : Option EncryptedEnvelope :=
  (sendEncrypted aead key 1 0 "sync_req".toList (toVec (syncReqJson 0 sid))).map (·.envelope prim sid)

/-- Chunk 1 sealed live and sealed again for the replay. -/
def known : List Json :=
  [join, reply, syncReqJson 0 sid] ++
    (syncReq.toList ++ (chunk 1 1).toList ++ (chunk 2 1).toList).map EncryptedEnvelope.toJson

def ends : Ends where
  session := Agent.Sample.session known
  dart := Agent.Sample.dart known
  prim_eq := rfl
  aead_eq := rfl

/-- The handshake and the attach, with the sync request under way. -/
def attached : List LinkEvent :=
  [.agent (.connected true), .agent .proceed, .agent (.ws (.text join.encode)), .agent .proceed,
    .agent .proceed, .agent (.ws (.text reply.encode)),
    .client (.session { crypto := some key, sessionId := some sid }), .attach]

/-- The client gets an envelope and its decryption completes. -/
def shows (env : Option EncryptedEnvelope) : List LinkEvent :=
  [.forward (text env), .client (.decrypted 0)]

/-- The request is handled before the chunk comes. -/
def calm : List LinkEvent :=
  attached ++ [.request (text syncReq), .agent (.pty (some [120]))] ++ shows (chunk 1 1)

/-- The chunk comes while the request is under way. -/
def overtaken : List LinkEvent :=
  attached ++ [.agent (.pty (some [120])), .request (text syncReq)] ++ shows (chunk 1 1) ++
    shows (chunk 2 1)

end Sample

theorem displayed_once_calm :
    Along (stepRel (step Sample.ends)) Once (start { crypto := none, sessionId := none })
        Sample.calm ∧
      ∃ w, Run (stepRel (step Sample.ends)) (start { crypto := none, sessionId := none })
        Sample.calm w ∧ w.displayed = [{ seq := some 1, payload := [120] }] := by
  refine ⟨?_, exists_run_of_exec (by decide +kernel)⟩
  exact (displayed_once Sample.ends _ Sample.calm (guarded_of_checkAll (by decide +kernel))).1

/-- A chunk that is sent live while the sync request of the attach is under way is displayed twice. -/
theorem overtaken_chunk_is_displayed_twice :
    ∃ w, Run (stepRel (step Sample.ends)) (start { crypto := none, sessionId := none })
        Sample.overtaken w ∧ w.chunks = [[120]] ∧
      w.displayed = [{ seq := some 1, payload := [120] }, { seq := some 1, payload := [120] }] ∧
      ¬ w.Once := by
  obtain ⟨w, hrun, hchunks, hdisplayed⟩ : ∃ w, Run (stepRel (step Sample.ends))
      (start { crypto := none, sessionId := none }) Sample.overtaken w ∧ w.chunks = [[120]] ∧
        w.displayed = [{ seq := some 1, payload := [120] }, { seq := some 1, payload := [120] }] :=
    exists_run_of_exec (by decide +kernel)
  refine ⟨w, hrun, hchunks, hdisplayed, fun hw => ?_⟩
  have hinc := hw.increasing
  rw [hdisplayed] at hinc
  exact absurd hinc (by decide)

end Link

end Ktty.Protocol.Display
