import Ktty.Protocol.Eviction
import Ktty.Relay.Delivery

/-!
# The agent behind the relay

The agent on the connection `a` of a relay that keeps to its code, with any other connections. What
another connection reads from the agent is, in order and without repetition, a part of what the agent's
run has sent (`agent_to_peer`), and what the run reads from another connection is such a part of what
this connection has sent (`peer_to_agent`). So the relay may drop messages, but it neither adds, doubles
nor reorders any.
-/

set_option autoImplicit false

namespace Ktty.Protocol.Forwarding

open Ktty.Wire Ktty.Lib.Execution Ktty.Lib.Trace Ktty.Agent Ktty.Relay
open Ktty.Protocol.Eviction (World frame sentBy uploadEvent touchesWire)

/-! ## Observations -/

/-- The payload of a frame that the relay forwards. -/
def framePayload : Frame → Option Payload
  | .text t => some (.text t)
  | .binary d => some (.binary d)
  | _ => none

/-- The texts among the messages of the agent, as they come to the relay. -/
def payloads (ms : List AgentMsg) : List Payload := ms.filterMap fun m => framePayload (frame m)

section Observations

variable (S : Session) (a : ConnId) (w : World)

/-- What the agent's run sends in a step. -/
def agentSends : Eviction.Event → List Payload
  | .agent e => payloads (((S.step w.run e).toList).flatMap fun r => sentBy r.2)
  | .receive =>
      match (w.relay.conns a).wire with
      | x :: _ =>
          payloads (((S.step w.run (.ws (Teardown.item x))).toList).flatMap fun r => sentBy r.2)
      | [] => []
  | _ => []

/-- What the peer of `b` reads from the agent in a step. -/
def peerReads (b : ConnId) : Eviction.Event → List Payload
  | .relay e => readsFrom a b w.relay e
  | _ => []

/-- What the peer of `c` sends in a step. -/
def peerSends (c : ConnId) : Eviction.Event → List Payload
  | .relay e => frames c w.relay e
  | _ => []

/-- What the agent's run reads from `c` in a step. -/
def agentReads (c : ConnId) : Eviction.Event → List Payload
  | .receive => readsFrom c a w.relay (.receive a)
  | _ => []

end Observations

/-! ## Steps -/

section Step

variable {S : Session} {a : ConnId} {w w' : World}

/-- The agent takes a step of its own. -/
theorem agent_of_step {e : Agent.Event} (h : Eviction.step S a w (.agent e) = some w') :
    ∃ r, S.step w.run e = some r ∧
      w' = { w with run := r.1, outbound := w.outbound ++ sentBy r.2 } := by
  rw [Eviction.step] at h
  split at h
  · cases h
  · obtain ⟨r, hr, rfl⟩ := Option.map_eq_some_iff.1 h
    exact ⟨r, hr, rfl⟩

/-- The relay takes a step away from the agent's connection. -/
theorem relay_of_step {e : Relay.Event} (h : Eviction.step S a w (.relay e) = some w') :
    touchesWire a e = false ∧ ∃ m, Relay.step S.crates.json w.relay e = some m ∧
      w' = { w with relay := m } := by
  rw [Eviction.step] at h
  split at h
  · cases h
  · rename_i htouch
    obtain ⟨m, hm, rfl⟩ := Option.map_eq_some_iff.1 h
    exact ⟨by simpa using htouch, m, hm, rfl⟩

theorem receive_of_step (h : Eviction.step S a w .receive = some w') :
    ∃ x xs r m, (w.relay.conns a).wire = x :: xs ∧
      S.step w.run (.ws (Teardown.item x)) = some r ∧
      Relay.step S.crates.json w.relay (.receive a) = some m ∧
      w' = { relay := m, run := r.1, outbound := w.outbound ++ sentBy r.2 } := by
  rw [Eviction.step] at h
  cases hwire : (w.relay.conns a).wire with
  | nil =>
      rw [hwire] at h
      cases h
  | cons x xs =>
      rw [hwire] at h
      simp only [Option.bind_eq_bind, Option.bind_eq_some_iff, Option.pure_def,
        Option.some.injEq] at h
      obtain ⟨r, hr, m, hm, rfl⟩ := h
      exact ⟨x, xs, r, m, rfl, hr, hm, rfl⟩

theorem upload_of_step (h : Eviction.step S a w .upload = some w') :
    ∃ x xs m, w.outbound = x :: xs ∧
      Relay.step S.crates.json w.relay (uploadEvent a w.relay (frame x)) = some m ∧
      w' = { w with relay := m, outbound := xs } := by
  rw [Eviction.step] at h
  cases hout : w.outbound with
  | nil =>
      rw [hout] at h
      cases h
  | cons x xs =>
      rw [hout] at h
      obtain ⟨m, hm, rfl⟩ := Option.map_eq_some_iff.1 h
      exact ⟨x, xs, m, rfl, hm, rfl⟩

/-- The steps of the world that move the relay. -/
theorem channels_world {c : ConnId} {e : Eviction.Event} (hs : Channels c w.relay)
    (h : Eviction.step S a w e = some w') : Channels c w'.relay := by
  cases e with
  | relay e =>
      obtain ⟨-, m, hm, rfl⟩ := relay_of_step h
      exact channels_step hs hm
  | agent e =>
      obtain ⟨r, -, rfl⟩ := agent_of_step h
      exact hs
  | receive =>
      obtain ⟨x, xs, r, m, -, -, hm, rfl⟩ := receive_of_step h
      exact channels_step hs hm
  | upload =>
      obtain ⟨x, xs, m, -, hm, rfl⟩ := upload_of_step h
      exact channels_step hs hm

/-- The relay reads the frame of an upload, or takes it as the first message. -/
theorem frames_upload (s : Relay.State) (f : Frame) :
    (frames a s (uploadEvent a s f)).Sublist (framePayload f).toList := by
  rw [uploadEvent]
  split
  · exact List.nil_sublist _
  · cases f <;> simp [frames, framePayload]

/-- A step away from the agent's connection reads nothing from it. -/
theorem frames_of_untouched {s : Relay.State} {e : Relay.Event} (h : touchesWire a e = false) :
    frames a s e = [] ∧ ∀ c, readsFrom c a s e = [] := by
  cases e with
  | frame d f =>
      have hne : ¬ d = a := by simpa [touchesWire] using h
      cases f <;> simp [frames, readsFrom, hne]
  | receive d =>
      have hne : ¬ d = a := by simpa [touchesWire] using h
      simp [frames, readsFrom, hne]
  | _ => simp [frames, readsFrom]

/-- What is on its way from the agent to the peer of `b`: in the relay, then before it. -/
def fromAgent (S : Session) (a b : ConnId) (w : World) : List Payload :=
  inTransit S.crates.json a b w.relay ++ (payloads w.outbound).map (forwardMsg S.crates.json)

theorem payloads_append (ms ns : List AgentMsg) : payloads (ms ++ ns) = payloads ms ++ payloads ns :=
  List.filterMap_append

/-- The relay takes a step that reads at most `sent` from the agent. -/
theorem inTransit_step {s m : Relay.State} {e : Relay.Event} {b : ConnId} (sent : List Payload)
    (hs : Channels a s) (h : Relay.step S.crates.json s e = some m)
    (hsent : (frames a s e).Sublist sent) (rest : List Payload) :
    (readsFrom a b s e ++ (inTransit S.crates.json a b m ++ rest)).Sublist
      (inTransit S.crates.json a b s ++ (sent.map (forwardMsg S.crates.json) ++ rest)) := by
  have hpass := (step_passes (a := b) hs h).trans ((hsent.map _).append_left _)
  simpa only [List.append_assoc] using hpass.append_right rest

theorem fromAgent_step {b : ConnId} {e : Eviction.Event} (hs : Channels a w.relay)
    (h : Eviction.step S a w e = some w') :
    (peerReads a w b e ++ fromAgent S a b w').Sublist
      (fromAgent S a b w ++ (agentSends S a w e).map (forwardMsg S.crates.json)) := by
  cases e with
  | relay e =>
      obtain ⟨htouch, m, hm, rfl⟩ := relay_of_step h
      have hnone := (frames_of_untouched (s := w.relay) htouch).1
      have hpass := inTransit_step (b := b) [] hs hm (by rw [hnone])
        ((payloads w.outbound).map (forwardMsg S.crates.json))
      simpa [fromAgent, peerReads, agentSends] using hpass
  | agent e =>
      obtain ⟨r, hr, rfl⟩ := agent_of_step h
      -- what the run sends goes behind everything else:
      simp [fromAgent, peerReads, agentSends, hr, payloads_append]
  | receive =>
      obtain ⟨x, xs, r, m, hwire, hr, hm, rfl⟩ := receive_of_step h
      have hpass := inTransit_step (b := b) [] hs hm (List.Sublist.refl _)
        ((payloads w.outbound).map (forwardMsg S.crates.json) ++
          (payloads (sentBy r.2)).map (forwardMsg S.crates.json))
      simpa [fromAgent, peerReads, agentSends, hwire, hr, payloads_append] using
        (List.sublist_append_right _ _).trans hpass
  | upload =>
      obtain ⟨x, xs, m, hout, hm, rfl⟩ := upload_of_step h
      have hpass := inTransit_step (b := b) _ hs hm (frames_upload w.relay (frame x))
        ((payloads xs).map (forwardMsg S.crates.json))
      have hlist : payloads w.outbound = (framePayload (frame x)).toList ++ payloads xs := by
        rw [hout, payloads, List.filterMap_cons]
        cases framePayload (frame x) <;> rfl
      simpa [fromAgent, peerReads, agentSends, hlist] using
        (List.sublist_append_right _ _).trans hpass

theorem toAgent_step {c : ConnId} (hca : c ≠ a) {e : Eviction.Event} (hs : Channels c w.relay)
    (h : Eviction.step S a w e = some w') :
    (agentReads a w c e ++ inTransit S.crates.json c a w'.relay).Sublist
      (inTransit S.crates.json c a w.relay ++
        (peerSends w c e).map (forwardMsg S.crates.json)) := by
  cases e with
  | relay e =>
      obtain ⟨htouch, m, hm, rfl⟩ := relay_of_step h
      have hpass := step_passes (a := a) hs hm
      rw [(frames_of_untouched htouch).2 c] at hpass
      exact hpass
  | agent e =>
      obtain ⟨r, -, rfl⟩ := agent_of_step h
      simp [agentReads, peerSends]
  | receive =>
      obtain ⟨x, xs, r, m, -, -, hm, rfl⟩ := receive_of_step h
      exact step_passes (a := a) hs hm
  | upload =>
      obtain ⟨x, xs, m, -, hm, rfl⟩ := upload_of_step h
      have hpass := step_passes (a := a) hs hm
      -- the frame is one of the agent's own
      have hnone : frames c w.relay (uploadEvent a w.relay (frame x)) = [] := by
        rw [uploadEvent]
        split
        · rfl
        · cases frame x <;> simp [frames, Ne.symm hca]
      rw [hnone] at hpass
      exact (List.sublist_append_right _ _).trans hpass

end Step

/-! ## Runs -/

/-- What the peer of `b` reads from the agent is, in order, a part of what the agent's run has sent. -/
theorem agent_to_peer (S : Session) (a b : ConnId) (es : List Eviction.Event) :
    (trace (Eviction.step S a) (fun w => peerReads a w b) Eviction.start es).Sublist
      ((trace (Eviction.step S a) (agentSends S a) Eviction.start es).map
        (forwardMsg S.crates.json)) := by
  obtain ⟨fs, t, hrun, htrace⟩ :=
    exists_run_trace (α := Payload) (Eviction.step S a) Eviction.start es
  rw [htrace, htrace, ← trace_map]
  have hpass := dropping (I := fun w => Channels a w.relay) (q := fromAgent S a b)
    (fun w e m hs h => channels_world hs h) (fun w e m hs h => fromAgent_step hs h)
    (channels_start a) hrun
  exact (List.sublist_append_left _ _).trans hpass

/-- What the agent's run reads from another connection is, in order, a part of what the peer of that
connection has sent. -/
theorem peer_to_agent (S : Session) {a c : ConnId} (hca : c ≠ a) (es : List Eviction.Event) :
    (trace (Eviction.step S a) (fun w => agentReads a w c) Eviction.start es).Sublist
      ((trace (Eviction.step S a) (fun w => peerSends w c) Eviction.start es).map
        (forwardMsg S.crates.json)) := by
  obtain ⟨fs, t, hrun, htrace⟩ :=
    exists_run_trace (α := Payload) (Eviction.step S a) Eviction.start es
  rw [htrace, htrace, ← trace_map]
  have hpass := dropping (I := fun w => Channels c w.relay)
    (q := fun w => inTransit S.crates.json c a w.relay)
    (fun w e m hs h => channels_world hs h) (fun w e m hs h => toAgent_step hca hs h)
    (channels_start c) hrun
  exact (List.sublist_append_left _ _).trans hpass

end Ktty.Protocol.Forwarding
