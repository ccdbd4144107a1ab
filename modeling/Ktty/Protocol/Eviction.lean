import Ktty.Protocol.Teardown
import Ktty.Relay.Members

/-!
# An evicted agent

The relay with the agent on the connection `a`, and its frames in both directions. Other connections may
send anything. `Attended` is the state of affairs in which the agent is reachable: when nothing is on
its way to the agent, its handler still runs and its run waits for a client or bridges, then its entry
is in the room.

No text that the relay sends on an eviction ends the run: the wait loop only looks for a join, and the
bridge loop goes to the wait loop. So the runs that stay attended are those in which no step removes the
entry of the agent but the cleanup of its own handler (`attended_of_kept`).
-/

set_option autoImplicit false

namespace Ktty.Protocol.Eviction

open Ktty.Wire Ktty.Lib.Execution Ktty.Agent Ktty.Relay

/-! ## What the agent sends -/

/-- A `serde_json::Value` into which the relay token has been inserted; its keys are sorted. -/
def withToken (auth : Option Text) (fields : List (String × Json)) : Json :=
  .ofFields (auth.toList.map (fun token => ("auth", .str token)) ++ fields)

/-- The frame of a message on the send channel. -/
def frame : AgentMsg → Frame
  | .join roomId => .text (joinJson roomId).encode
  | .boot auth => .text (withToken auth [("type", .str "boot".toList)]).encode
  | .offer pubKeyB64 auth =>
      .text (withToken auth
        [("mlkem_pub_key", .str pubKeyB64), ("type", .str "handshake".toList)]).encode
  | .hmac hmacB64 auth =>
      .text (withToken auth [("hmac", .str hmacB64), ("type", .str "handshake".toList)]).encode
  | .envelope env => .text env.toJson.encode
  | .ping => .ping []
  | .pong _ => .pong

def sentBy (effs : List Effect) : List AgentMsg :=
  effs.filterMap fun eff =>
    match eff with
    | .send m => some m
    | .pty _ => none

/-! ## The world -/

structure World where
  relay : Relay.State
  run : RunState
  /-- What the agent has sent and the relay has not read, oldest first. -/
  outbound : List AgentMsg

inductive Event where
  | relay (e : Relay.Event)
  /-- The agent takes a step without reading a message. -/
  | agent (e : Agent.Event)
  /-- The agent reads the next message from its connection. -/
  | receive
  /-- The handler of the agent's connection reads the next message of the agent. -/
  | upload

section World

variable (S : Session) (a : ConnId)

def start : World := { relay := .start, run := Session.start, outbound := [] }

/-- The agent reads an item of its stream that the relay has sent. -/
def isRead : Agent.Event → Bool
  | .ws .close => false
  | .ws .error => false
  | .ws .ended => false
  | .ws _ => true
  | _ => false

/-- The relay reads from the connection of the agent, or the agent reads from the relay. -/
def touchesWire : Relay.Event → Bool
  | .first c _ => c == a
  | .frame c _ => c == a
  | .receive c => c == a
  | _ => false

def textOf : Frame → Option Text
  | .text t => some t
  | _ => none

/-- How the handler takes a frame: as the first message, or in the read loop. -/
def uploadEvent (s : Relay.State) (f : Frame) : Relay.Event :=
  if (s.conns a).pc = .accepted then .first a (textOf f) else .frame a f

def step (w : World) : Event → Option World
  | .relay e =>
      -- what goes over the agent's connection has events of its own:
      if touchesWire a e then none
      else (Relay.step S.crates.json w.relay e).map fun s => { w with relay := s }
  | .agent e =>
      if isRead e then none
      else (S.step w.run e).map fun r =>
        { w with run := r.1, outbound := w.outbound ++ sentBy r.2 }
  | .receive =>
      match (w.relay.conns a).wire with
      | x :: _ => do
          -- the run reads what the relay's write task has sent:
          let r ← S.step w.run (.ws (Teardown.item x))
          let s ← Relay.step S.crates.json w.relay (.receive a)
          return { relay := s, run := r.1, outbound := w.outbound ++ sentBy r.2 }
      | [] => none
  | .upload =>
      match w.outbound with
      | m :: ms =>
          (Relay.step S.crates.json w.relay (uploadEvent a w.relay (frame m))).map fun s =>
            { w with relay := s, outbound := ms }
      | [] => none

end World

/-! ## The property and the condition -/

/-- The run is in its wait loop or its bridge loop. -/
def awaitsClient : Phase → Bool
  | .wait _ => true
  | .bridge _ _ => true
  | _ => false

/-- With nothing on its way to the agent, whose handler runs, a run that waits or bridges has its entry
in the room. -/
def Attended (a : ConnId) (w : World) : Prop :=
  (w.relay.conns a).queue = [] → (w.relay.conns a).wire = [] → (w.relay.conns a).pc ≠ .done →
    awaitsClient w.run.phase = true → Present w.relay a

/-- The cleanup of the handler of `a`. -/
def ownCleanup (a : ConnId) : Relay.Event → Bool
  | .cleanup c => c == a
  | _ => false

/-- The condition on a step: no step of the relay but the agent's own cleanup takes its entry out of
the room. -/
def Kept (a : ConnId) (w : World) : Event → Prop
  | .relay e => ownCleanup a e = true ∨ (Present w.relay a → ¬ Removes w.relay a e)
  | _ => True

instance (a : ConnId) (w : World) (e : Event) : Decidable (Kept a w e) :=
  match e with
  | .relay _ => inferInstanceAs (Decidable (_ ∨ (_ → _)))
  | .agent _ => isTrue trivial
  | .receive => isTrue trivial
  | .upload => isTrue trivial

/-! ## The invariant -/

/-- Before the first join notification has been read, or after the end. -/
def beforeClient : Phase → Bool
  | .connecting => true
  | .joining => true
  | .init => true
  | .returned _ => true
  | .crashed => true
  | _ => false

structure Attends (a : ConnId) (w : World) : Prop where
  members : Members w.relay
  /-- Before the agent has entered the room, it cannot have read a join notification. -/
  early : (w.relay.conns a).pc.hasEntered = false →
    (w.relay.conns a).inbound = [] ∧ beforeClient w.run.phase = true
  present : w.relay.registered a = true → Present w.relay a

/-- Without a text the run stays before its first join notification. -/
theorem beforeClient_step {S : Session} {st : RunState} {e : Agent.Event}
    {r : RunState × List Effect} (h : S.step st e = some r) (htext : e.isText = false)
    (hp : beforeClient st.phase = true) : beforeClient r.1.phase = true := by
  by_cases he : e = .writerExit
  -- the end of the writer task moves no phase:
  · subst he
    obtain ⟨-, rfl⟩ := step_writerExit h
    exact hp
  · rw [step_eq_react he] at h
    have hreacts := reacts_of_react h
    generalize hphase : st.phase = p at hreacts hp
    cases hreacts with
    | connected ok => cases ok <;> rfl
    | join =>
        rw [sendJoin]
        split <;> rfl
    | initRecv item =>
        cases item with
        | text t => cases htext
        | ended => rfl
        | error => rfl
        | _ => simp [initRecv, hphase, beforeClient]
    | initTick elapsed => simp [hphase, beforeClient]
    | _ => cases hp

section Relay

variable {J : SerdeJson} {s m : Relay.State} {e : Relay.Event} {a : ConnId}

/-- Nothing but pings comes to a connection before it has entered a room. -/
theorem inbound_early (hs : Members s) (h : Relay.step J s e = some m)
    (hin : (s.conns a).pc.hasEntered = false → (s.conns a).inbound = [])
    (hm : (m.conns a).pc.hasEntered = false) : (m.conns a).inbound = [] := by
  have hbefore : (s.conns a).pc.hasEntered = false := by
    by_contra hent
    rw [entered_step h (by simpa using hent)] at hm
    cases hm
  obtain ⟨added, hsub, hall⟩ := step_inbound h a
  -- signals go to registered handlers, and this one has not entered:
  have hadded : added = [] := by
    rw [List.eq_nil_iff_forall_not_mem]
    intro x hx
    have hreg := sends_registered hs.entries h (hall x hx)
    rw [Pc.hasEntered_of_isRegistered hreg] at hbefore
    cases hbefore
  rw [hin hbefore, hadded] at hsub
  exact List.sublist_nil.1 hsub

/-- A step that keeps the entry of `a` keeps a registered `a` in its room. -/
theorem present_kept (hs : Members s) (h : Relay.step J s e = some m)
    (hpresent : s.registered a = true → Present s a)
    (hkept : ownCleanup a e = true ∨ (Present s a → ¬ Removes s a e)) (hm : m.registered a = true) :
    Present m a := by
  have hold : s.registered a = true → Present m a := by
    intro hreg
    rcases hkept with hown | hkept
    · -- its own cleanup ends the handler
      have he : e = .cleanup a := by
        cases e with
        | cleanup c => rw [eq_of_beq hown]
        | _ => cases hown
      subst he
      have hpc := step_pc h a
      simp only [nextPc, if_true] at hpc
      rw [State.registered, hpc] at hm
      cases hm
    · exact present_step hs h (hpresent hreg) (hkept (hpresent hreg))
  rcases register_or_quiet h with ⟨c, token, rfl, hpc, rfl⟩ | ⟨-, hquiet⟩
  · rcases (registered_register hpc).1 hm with rfl | hreg
    -- `a` has just entered, with an entry of its own:
    · obtain ⟨room, peer, survivors, hroom, hpeers, -, htx, -⟩ := (register_joined s a token).room
      refine ⟨room, ?_, peer, ?_, htx⟩
      · rw [State.room?, register_conns_self.2.1]
        exact hroom
      · rw [hpeers]
        exact List.mem_append_right _ (List.mem_singleton_self peer)
    · exact hold hreg
  · exact hold (hquiet.held a hm).1

end Relay

section Step

variable {S : Session} {a : ConnId} {w w' : World}

/-- The relay takes a step that keeps the entry, while the run of the agent goes on to `run`. -/
theorem attends_relay (hw : Attends a w) {e : Relay.Event} {m : Relay.State}
    (h : Relay.step S.crates.json w.relay e = some m)
    (hkept : ownCleanup a e = true ∨ (Present w.relay a → ¬ Removes w.relay a e)) {run : RunState}
    (hrun : (w.relay.conns a).pc.hasEntered = false → beforeClient run.phase = true)
    (outbound : List AgentMsg) : Attends a { relay := m, run := run, outbound := outbound } where
  members := members_step h hw.members
  early hm := by
    refine ⟨inbound_early hw.members h (fun hpc => (hw.early hpc).1) hm, hrun ?_⟩
    by_contra hent
    rw [entered_step h (by simpa using hent)] at hm
    cases hm
  present := present_kept hw.members h hw.present hkept

/-- A text is read from the relay, by `receive`. -/
theorem isText_of_not_isRead {e : Agent.Event} (h : ¬ isRead e = true) : e.isText = false := by
  cases e with
  | ws item =>
      cases item with
      | text t => exact absurd rfl h
      | _ => rfl
  | _ => rfl

theorem isText_item {x : RelayMsg} (h : x.isSignal = false) :
    (Agent.Event.ws (Teardown.item x)).isText = false := by
  cases x with
  | ping => rfl
  | pong d => rfl
  | _ => cases h

/-- A first message and a frame in the read loop remove nobody. -/
theorem uploadEvent_removes_nobody {s : Relay.State} (f : Frame) :
    ¬ Removes s a (uploadEvent a s f) := by
  rw [uploadEvent]
  split
  · exact fun hfalse => hfalse
  · exact fun hfalse => hfalse

theorem attends_step {e : Event} (hw : Attends a w) (hkept : Kept a w e)
    (h : step S a w e = some w') : Attends a w' := by
  have hbefore := fun hpc => (hw.early hpc).2
  cases e with
  | relay e =>
      rw [step] at h
      split at h
      · cases h
      · obtain ⟨m, hm, rfl⟩ := Option.map_eq_some_iff.1 h
        exact attends_relay hw hm hkept hbefore _
  | agent e =>
      rw [step] at h
      split at h
      · cases h
      · rename_i hread
        obtain ⟨r, hr, rfl⟩ := Option.map_eq_some_iff.1 h
        have htext := isText_of_not_isRead hread
        exact
          { members := hw.members
            early := fun hpc => ⟨(hw.early hpc).1, beforeClient_step hr htext (hbefore hpc)⟩
            present := hw.present }
  | receive =>
      rw [step] at h
      cases hwire : (w.relay.conns a).wire with
      | nil =>
          rw [hwire] at h
          cases h
      | cons x xs =>
          rw [hwire] at h
          simp only [Option.bind_eq_bind, Option.bind_eq_some_iff, Option.pure_def,
            Option.some.injEq] at h
          obtain ⟨r, hr, m, hm, rfl⟩ := h
          apply attends_relay hw hm (Or.inr fun _ hfalse => hfalse)
          intro hpc
          apply beforeClient_step hr _ (hbefore hpc)
          -- what is on its way before the agent has entered the room is no text
          have hsig : x.isSignal = false := by
            have hnil := (hw.early hpc).1
            rw [Conn.inbound, hwire, List.filter_eq_nil_iff] at hnil
            simpa using hnil x (by simp)
          exact isText_item hsig
  | upload =>
      rw [step] at h
      cases hout : w.outbound with
      | nil =>
          rw [hout] at h
          cases h
      | cons m ms =>
          rw [hout] at h
          obtain ⟨t, ht, rfl⟩ := Option.map_eq_some_iff.1 h
          exact attends_relay hw ht (Or.inr fun _ => uploadEvent_removes_nobody _) hbefore ms

end Step

theorem attended_of_attends {a : ConnId} {w : World} (hw : Attends a w) : Attended a w := by
  intro _ _ hdone hawaits
  apply hw.present
  -- a run that waits or bridges has read a join notification
  have hent : (w.relay.conns a).pc.hasEntered = true := by
    by_contra hno
    have hbefore := (hw.early (by simpa using hno)).2
    cases hphase : w.run.phase with
    | wait alive =>
        rw [hphase] at hbefore
        cases hbefore
    | bridge key sid =>
        rw [hphase] at hbefore
        cases hbefore
    | _ =>
        rw [hphase] at hawaits
        cases hawaits
  rw [State.registered]
  cases hpc : (w.relay.conns a).pc with
  | accepted =>
      rw [hpc] at hent
      cases hent
  | joining =>
      rw [hpc] at hent
      cases hent
  -- the handler is still there by assumption:
  | done => exact absurd hpc hdone
  | _ => rfl

/-- In the runs in which no step of the relay but the agent's own cleanup takes the entry of the agent
out of its room, the agent is attended in every state. -/
theorem attended_of_kept (S : Session) (a : ConnId) (es : List Event)
    (h : Guarded (stepRel (step S a)) (Kept a) (start) es) :
    Along (stepRel (step S a)) (Attended a) start es := by
  apply along_of_inductive (I := Attends a) (C := Kept a)
  · intro w e w' hw hstep hkept
    exact attends_step hw hkept hstep
  · intro w hw
    exact attended_of_attends hw
  · exact ⟨members_start, fun _ => ⟨rfl, rfl⟩, fun hreg => by cases hreg⟩
  · exact h

/-! ## Two runs -/

namespace Sample

/-- The relay token of the agent. -/
def token : Option Text := some (Lib.Hex.encode [10])

/-- The agent's messages of the first handshake. -/
def boot : Json := withToken token [("type", .str "boot".toList)]

def offer : Json :=
  withToken token [("mlkem_pub_key", .str (Lib.Base64.encode [0])), ("type", .str "handshake".toList)]

def hmac : Json :=
  withToken token [("hmac", .str (Lib.Base64.encode
      (Crypto.computeHmac Agent.Sample.prim (Agent.Sample.prim.argon2id "12345678".toList)
        Agent.Sample.key))), ("type", .str "handshake".toList)]

/-- The ciphertext of the client. -/
def reply : Json := Teardown.Sample.authed (Teardown.Sample.reply [0, 7]) [11]

def session : Session :=
  Agent.Sample.session [joinJson Teardown.Sample.room, authJson (Lib.Hex.encode [10]), boot, offer,
    hmac, reply, (Json.ofFields (Teardown.Sample.reply [0, 7])).sorted]

def enters (c : ConnId) (tokenBytes : Bytes) : List Event :=
  [.relay (.register c tokenBytes), .relay (.sendAuth c), .relay (.announce c)]

def joins (c : ConnId) (tokenBytes : Bytes) : List Event :=
  .relay (.first c (some (joinJson Teardown.Sample.room).encode)) :: enters c tokenBytes

/-- The agent gets its next message. -/
def reads : List Event := [.relay (.deliver 0), .receive]

/-- The relay forwards the next message of the agent. -/
def writes : List Event := [.upload, .relay (.forward 0)]

/-- The agent on connection 0 and the client on connection 1 establish a session. -/
def sessionRun : List Event :=
  [.agent (.connected true), .agent .proceed, .upload] ++ enters 0 [10] ++ reads ++ joins 1 [11] ++
    reads ++ [.upload] ++ reads ++ [.agent .proceed, .agent .proceed] ++ writes ++ writes ++
    [.relay (.frame 1 (.text reply.encode)), .relay (.forward 1)] ++ reads ++ writes

/-- The client answers a ping, then connection 2 joins the full room, which evicts the agent. -/
def evictionRun : List Event :=
  sessionRun ++ [.relay (.elapse 1000), .relay (.frame 1 .pong)] ++ joins 2 [12] ++ reads ++ reads ++
    [.upload]

end Sample

/-- A run in which the agent bridges and a sweep leaves it in its room. -/
theorem attended_session :
    (∃ w, Run (stepRel (step Sample.session 0)) start (Sample.sessionRun ++ [.relay .sweep]) w ∧
      awaitsClient w.run.phase = true) ∧
    Along (stepRel (step Sample.session 0)) (Attended 0) start
      (Sample.sessionRun ++ [.relay .sweep]) :=
  ⟨exists_run_of_exec (by decide +kernel),
    attended_of_kept Sample.session 0 _ (guarded_of_checkAll (by decide +kernel))⟩

/-- The evicted agent reads its notice and waits for a client on an open connection, with no entry in
the room and no frame in flight. -/
theorem evicted_agent_waits :
    ∃ w, Run (stepRel (step Sample.session 0)) start Sample.evictionRun w ∧
      w.outbound = [] ∧ (w.relay.conns 0).rxAlive = true ∧ ¬ Attended 0 w := by
  -- nothing is on its way in either direction:
  obtain ⟨w, hrun, hout, hqueue, hwire, hpc, halive, hphase, habsent⟩ : ∃ w,
      Run (stepRel (step Sample.session 0)) start Sample.evictionRun w ∧
        w.outbound.isEmpty = true ∧ (w.relay.conns 0).queue.isEmpty = true ∧
        (w.relay.conns 0).wire.isEmpty = true ∧ (w.relay.conns 0).pc = .reading ∧
        (w.relay.conns 0).rxAlive = true ∧ awaitsClient w.run.phase = true ∧ ¬ Present w.relay 0 :=
    exists_run_of_exec (by decide +kernel)
  refine ⟨w, hrun, List.isEmpty_iff.1 hout, halive, fun h => habsent ?_⟩
  exact h (List.isEmpty_iff.1 hqueue) (List.isEmpty_iff.1 hwire) (by simp [hpc]) hphase

end Ktty.Protocol.Eviction
