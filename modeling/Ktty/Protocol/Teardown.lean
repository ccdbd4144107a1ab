import Ktty.Agent.SessionSteps
import Ktty.Agent.SampleCrates
import Ktty.Relay.Ownership
import Ktty.Wire.FrameSize
import Mathlib.Data.List.Perm.Subperm

/-!
# Who ends a session

The relay with one agent and any number of clients in its room. `World` joins a relay state with a run
of the agent on the connection `a`: the agent reads what the relay sent on this connection, in order. It
records which connection's ciphertext established the current session, which connections have said
goodbye, and for which establishers the bridge loop returned `PeerDisconnected` (`tornDown`).

A connection is `Gone` when it has said goodbye or has no entry in any room. `deserved_of_calm` shows
that only sessions of gone clients are torn down, as long as each step is `Calm`: no handler announces its
disconnect to the agent when its own entry has already left the agent's room, and no join evicts the
agent. The invariant is that a disconnect text on its way to the agent comes behind messages of gone
connections only: when it was put on the channel, the room held the agent and its sender, so every other
client had left.
-/

set_option autoImplicit false

namespace Ktty.Protocol.Teardown

open Ktty.Wire Ktty.Lib Ktty.Lib.Execution Ktty.Agent Ktty.Relay

/-! ## What the agent reads -/

/-- The bridge loop takes the text for a disconnect. -/
def byeText (t : Text) : Bool := isDisconnectText t || isPeerDisconnectText t

/-- What `ws_rx.next()` of the peer yields for a message of the relay. -/
def item : RelayMsg → WsItem
  | .auth token => .text (authJson token).encode
  | .join roomId _ => .text (joinJson roomId).encode
  | .peerDisconnect peerId _ => .text (peerDisconnectJson peerId).encode
  | .forwarded (.text t) _ => .text t
  | .forwarded (.binary _) _ => .other
  | .ping => .ping []
  | .pong _ => .pong

/-- The connection whose message was forwarded. -/
def sender : RelayMsg → Option ConnId
  | .forwarded _ c => some c
  | _ => none

/-- The message ends the bridge loop as a disconnect. -/
def isBye (x : RelayMsg) : Bool :=
  match item x with
  | .text t => byeText t
  | _ => false

/-! ## The world -/

structure World where
  relay : Relay.State
  run : RunState
  /-- The connection whose ciphertext established the last session. -/
  establisher : Option ConnId
  /-- The connections of which a disconnect text was forwarded. -/
  saidBye : List ConnId
  /-- The establishers of the sessions that ended with `PeerDisconnected`. -/
  tornDown : List ConnId

inductive Event where
  | relay (e : Relay.Event)
  /-- The agent takes a step without reading a text. -/
  | agent (e : Agent.Event)
  /-- The agent reads the next message from its connection. -/
  | receive

section World

variable (S : Session) (a : ConnId)

/-- The relay has read the join message of the agent. -/
def start : World :=
  { relay := State.start.setConn a { pc := .joining, roomId := S.roomId }
    run := Session.start
    establisher := none
    saidBye := []
    tornDown := [] }

/-- The text that the handler of `c` is about to forward. -/
def forwardedText (J : SerdeJson) (s : Relay.State) (c : ConnId) : Option Text :=
  match (s.conns c).pc with
  | .forwarding p =>
      match forwardMsg J p with
      | .text t => some t
      | .binary _ => none
  | _ => none

/-- The connection that says goodbye with an event of the relay. -/
def goodbye (J : SerdeJson) (s : Relay.State) : Relay.Event → List ConnId
  | .forward c => if (forwardedText J s c).any byeText then [c] else []
  | _ => []

/-- The bridge loop returns `PeerDisconnected` on the item. -/
def endsSession (st : RunState) (i : WsItem) : Bool :=
  match st.phase with
  | .bridge key sid => (bridgeRecv S.crates key sid st i).exit == some .peerDisconnected
  | _ => false

/-- The agent reads a message. -/
def receive (w : World) (x : RelayMsg) : Option World := do
  let r ← S.step w.run (.ws (item x))
  let s ← Relay.step S.crates.json w.relay (.receive a)
  return { w with
    relay := s
    run := r.1
    establisher :=
      if w.run.phase.inHandshake && r.1.phase.inBridge then sender x else w.establisher
    tornDown :=
      if endsSession S w.run (item x) then w.establisher.toList ++ w.tornDown else w.tornDown }

/-- The world after a step of the relay. -/
def afterRelay (w : World) (e : Relay.Event) (s : Relay.State) : World :=
  { w with relay := s, saidBye := goodbye S.crates.json w.relay e ++ w.saidBye }

/-- The agent reads from its connection only in `receive`. -/
def readsAt : Relay.Event → Bool
  | .receive c => c == a
  | _ => false

def step (w : World) : Event → Option World
  | .relay e =>
      if readsAt a e then none
      else (Relay.step S.crates.json w.relay e).map (afterRelay S w e)
  | .agent e =>
      if e.isText then none else (S.step w.run e).map fun r => { w with run := r.1 }
  | .receive =>
      match (w.relay.conns a).wire with
      | x :: _ => receive S a w x
      | [] => none

end World

/-! ## The property and the condition -/

/-- No entry of any room belongs to `c`. -/
def Left (s : Relay.State) (c : ConnId) : Prop :=
  ∀ roomId room, s.rooms.lookup roomId = some room → ∀ p ∈ room.peers, p.tx ≠ c

/-- The connection has sent a disconnect or has left its room. -/
def Gone (w : World) (c : ConnId) : Prop := c ∈ w.saidBye ∨ Left w.relay c

/-- `PeerDisconnected` only ended sessions of clients that are gone. -/
def Deserved (w : World) : Prop := ∀ c ∈ w.tornDown, Gone w c

/-- The connection has an entry in the room of `a`. -/
def InRoomOf (s : Relay.State) (a c : ConnId) : Prop :=
  ∃ room, s.room? a = some room ∧ ∃ p ∈ room.peers, p.tx = c

/-- A handler announces a disconnect to the room of `a` while `a` is in it, only if the handler's own
entry is in it, too. -/
def StillThere (s : Relay.State) (a d : ConnId) : Prop :=
  (s.conns d).roomId = (s.conns a).roomId → InRoomOf s a a → InRoomOf s a d

/-- The condition on a step. -/
def Calm (S : Session) (a : ConnId) (w : World) : Event → Prop
  -- a cleanup is not late
  | .relay (.cleanup d) => StillThere w.relay a d
  -- a disconnect text is not forwarded for an evicted connection
  | .relay (.forward d) =>
      (forwardedText S.crates.json w.relay d).any byeText = true → StillThere w.relay a d
  -- a join into the full room does not evict the agent
  | .relay (.register c _) => ∀ p, evictee w.relay c = some p → p.tx ≠ a
  | _ => True

instance (s : Relay.State) (a c : ConnId) : Decidable (InRoomOf s a c) :=
  decidable_of_iff ((s.room? a).any fun room => room.peers.any fun p => p.tx == c) (by
    simp [InRoomOf, Option.any_eq_true])

instance (s : Relay.State) (a d : ConnId) : Decidable (StillThere s a d) :=
  inferInstanceAs (Decidable (_ → _ → _))

instance (S : Session) (a : ConnId) (w : World) (e : Event) : Decidable (Calm S a w e) :=
  match e with
  | .relay (.cleanup d) => inferInstanceAs (Decidable (StillThere w.relay a d))
  | .relay (.forward d) => inferInstanceAs (Decidable (_ → StillThere w.relay a d))
  | .relay (.register c _) =>
      decidable_of_iff ((evictee w.relay c).all fun p => p.tx != a) (by
        simp [Calm, Option.all_eq_true])
  | .relay (.first _ _) => isTrue trivial
  | .relay (.sendAuth _) => isTrue trivial
  | .relay (.announce _) => isTrue trivial
  | .relay (.frame _ _) => isTrue trivial
  | .relay (.activity _) => isTrue trivial
  | .relay (.streamEnd _) => isTrue trivial
  | .relay (.deliver _) => isTrue trivial
  | .relay (.keepalive _) => isTrue trivial
  | .relay (.writerEnds _) => isTrue trivial
  | .relay (.receive _) => isTrue trivial
  | .relay .sweep => isTrue trivial
  | .relay (.elapse _) => isTrue trivial
  | .agent _ => isTrue trivial
  | .receive => isTrue trivial

/-! ## The invariant -/

/-- A client in the room of the agent, or one that was there. -/
def Client (s : Relay.State) (a c : ConnId) : Prop :=
  c ≠ a ∧ (s.conns c).pc.hasEntered = true ∧ (s.conns c).roomId = (s.conns a).roomId

structure Sound (S : Session) (a : ConnId) (w : World) : Prop where
  entries : Entries w.relay
  token : ∀ c, ∀ x ∈ (w.relay.conns c).authToken, x ∈ Hex.digits
  joined : (w.relay.conns a).pc ≠ .accepted ∧ (w.relay.conns a).roomId = S.roomId
  senders : ∀ x ∈ (w.relay.conns a).inbound, ∀ c, sender x = some c → Client w.relay a c
  establisher : ∀ c, w.establisher = some c → Client w.relay a c
  tornDown : ∀ c ∈ w.tornDown, Client w.relay a c
  /-- A disconnect on its way comes behind messages of gone connections. -/
  behind : (w.relay.conns a).inbound.Pairwise fun y x =>
    isBye x = true → ∀ c, sender y = some c → Gone w c
  /-- A disconnect on its way means that the current client is gone. -/
  pending : ∀ x ∈ (w.relay.conns a).inbound, isBye x = true →
    ∀ c, w.establisher = some c → Gone w c
  deserved : Deserved w

/-! ## Notices that end no session -/

/-- The digits of a hex text stand for themselves in a JSON string. -/
theorem mem_escape_hex {t : Text} (ht : ∀ x ∈ t, x ∈ Hex.digits) {x : Char}
    (h : x ∈ t.flatMap Json.escapeChar) : x ∈ Hex.digits := by
  rw [escape_plain fun y hy => plain_hex (ht y hy)] at h
  exact ht x h

/-- An auth message with a hex token is no disconnect: it has no `s`. -/
theorem auth_not_bye {token : Text} (ht : ∀ x ∈ token, x ∈ Hex.digits) :
    isBye (.auth token) = false := by
  have hs : 's' ∉ (authJson token).encode := by
    intro h
    -- an `s` could only be in the token, the rest of the text has none:
    have hmem : 's' ∈ token.flatMap Json.escapeChar := by
      simpa [authJson, Json.ofFields, Json.encode, Json.encodeMembers, Json.quote,
        Json.escapeChar] using h
    have hhex := mem_escape_hex ht hmem
    revert hhex
    decide
  have hd : containsStr (authJson token).encode "\"disconnect\"" = false :=
    containsStr_eq_false_of_notMem (c := 's') (by decide) hs
  have hp : containsStr (authJson token).encode "\"peer_disconnect\"" = false :=
    containsStr_eq_false_of_notMem (c := 's') (by decide) hs
  simp [isBye, item, byeText, isDisconnectText, isPeerDisconnectText, hd, hp]

/-- The join notification of a hex room is no disconnect: it has no `p`. -/
theorem join_not_bye {roomId : Text} (c : ConnId) (ht : ∀ x ∈ roomId, x ∈ Hex.digits) :
    isBye (.join roomId c) = false := by
  have hs : 'p' ∉ (joinJson roomId).encode := by
    intro h
    -- a `p` could only be in the room id:
    have hmem : 'p' ∈ roomId.flatMap Json.escapeChar := by
      simpa [joinJson, Json.ofFields, Json.encode, Json.encodeMembers, Json.quote,
        Json.escapeChar] using h
    have hhex := mem_escape_hex ht hmem
    revert hhex
    decide
  have htype : containsStr (joinJson roomId).encode "\"type\"" = false :=
    containsStr_eq_false_of_notMem (c := 'p') (by decide) hs
  simp [isBye, item, byeText, isDisconnectText, isPeerDisconnectText, htype]

/-! ## What the relay keeps -/

section Relay

variable {J : SerdeJson} {s m : Relay.State} {e : Relay.Event}

theorem client_step (h : Relay.step J s e = some m) {a c : ConnId}
    (ha : (s.conns a).pc ≠ .accepted) (hc : Client s a c) : Client m a c := by
  obtain ⟨hne, hent, hroom⟩ := hc
  refine ⟨hne, entered_step h hent, ?_⟩
  rw [(settled_step h (Pc.ne_accepted_of_hasEntered hent)).2, (settled_step h ha).2]
  exact hroom

/-- A connection that has left its room does not come back. -/
theorem left_step (h : Relay.step J s e = some m) {c : ConnId}
    (hc : (s.conns c).pc.hasEntered = true) (hl : Left s c) : Left m c := by
  intro roomId room' hroom' p' hp'
  rcases register_or_quiet h with ⟨d, token, -, hpc, rfl⟩ | ⟨-, hquiet⟩
  · rcases mem_register hroom' hp' with ⟨-, -, htx⟩ | ⟨room, hroom, hp⟩
    · -- the new entry belongs to a connection that was in no room
      rw [htx]
      rintro rfl
      rw [hpc] at hc
      cases hc
    · exact hl roomId room hroom p' hp
  · obtain ⟨room, hroom, hsub⟩ := hquiet.rooms roomId room' hroom'
    obtain ⟨p, hp, -, htx⟩ := hsub.mem hp'
    rw [← htx]
    exact hl roomId room hroom p hp

theorem token_step (h : Relay.step J s e = some m)
    (ht : ∀ c, ∀ x ∈ (s.conns c).authToken, x ∈ Hex.digits) :
    ∀ c, ∀ x ∈ (m.conns c).authToken, x ∈ Hex.digits := by
  intro c x hx
  rcases register_or_quiet h with ⟨d, token, -, -, rfl⟩ | ⟨-, hquiet⟩
  -- the new token is written in hex, the others stay:
  · obtain ⟨kept, conns', -, -, hpost, heq⟩ := register_eq s d token
    rw [heq] at hx
    by_cases hcd : c = d
    · subst hcd
      simp only [Function.update_self] at hx
      exact Hex.mem_encode hx
    · simp only [Function.update_of_ne hcd, hpost.authToken] at hx
      exact ht c x hx
  · rw [hquiet.token c] at hx
    exact ht c x hx

/-- With the agent and `d` in the room, every other client has left. -/
theorem left_of_full (hs : Entries s) {a c d : ConnId} (ha : InRoomOf s a a) (hd : InRoomOf s a d)
    (hda : d ≠ a) (hc : Client s a c) (hcd : c ≠ d) : Left s c := by
  obtain ⟨hca, -, hroomId⟩ := hc
  obtain ⟨room, hroom, pa, hpa, hta⟩ := ha
  obtain ⟨room', hroom', pd, hpd, htd⟩ := hd
  rw [hroom] at hroom'
  obtain rfl := Option.some.inj hroom'
  intro roomId found hfound p hp htx
  -- an entry of `c` would be a third one in the room
  obtain ⟨-, hown, -⟩ := hs.owner roomId found hfound p hp
  rw [htx, hroomId] at hown
  rw [State.room?, hown, hfound] at hroom
  obtain rfl := Option.some.inj hroom
  have hthree : [a, d, c].Nodup := by simp [hda.symm, hca.symm, Ne.symm hcd]
  have hsub : [a, d, c] ⊆ found.peers.map Peer.tx := by
    intro x hx
    simp only [List.mem_cons, List.not_mem_nil, or_false] at hx
    rcases hx with rfl | rfl | rfl
    · exact hta ▸ List.mem_map_of_mem hpa
    · exact htd ▸ List.mem_map_of_mem hpd
    · exact htx ▸ List.mem_map_of_mem hp
  -- three different connections have three entries:
  have hlen := (List.subperm_of_subset hthree hsub).length_le
  have hcap := hs.capacity roomId found hfound
  simp only [List.length_map, List.length_cons, List.length_nil] at hlen
  omega

end Relay

/-! ## Steps of the relay -/

section RelayStep

variable {S : Session} {a : ConnId} {w : World} {m : Relay.State} {e : Relay.Event}

theorem gone_relay (h : Relay.step S.crates.json w.relay e = some m) {c : ConnId}
    (hc : (w.relay.conns c).pc.hasEntered = true) (hg : Gone w c) : Gone (afterRelay S w e m) c := by
  rcases hg with hbye | hleft
  · exact Or.inl (List.mem_append_right _ hbye)
  · exact Or.inr (left_step h hc hleft)

/-- A message that the handler of `d` sends to the other peers reaches the agent only when the agent is
in the room, and never from the agent itself. -/
theorem toOthers_agent {s : Relay.State} (hs : Entries s) {d : ConnId} {x y : RelayMsg}
    (h : ToOthers s d x a y) :
    y = x ∧ d ≠ a ∧ (s.conns d).roomId = (s.conns a).roomId ∧ InRoomOf s a a := by
  obtain ⟨rfl, room, hroom, p, hp, htx⟩ := h
  obtain ⟨hp, hid⟩ := List.mem_filter.1 hp
  obtain ⟨-, hown, hpid⟩ := hs.owner _ room hroom p hp
  rw [htx] at hown hpid
  refine ⟨rfl, ?_, hown.symm, room, ?_, p, hp, htx⟩
  · rintro rfl
    exact of_decide_eq_true hid hpid.symm
  · rw [State.room?, hown]
    exact hroom

/-- What a calm step of the relay puts on the agent's channel: messages of clients, and a disconnect
only when every client is gone but those that the step itself lets go. -/
theorem sends_calm (hw : Sound S a w) (hcalm : Calm S a w (.relay e))
    (h : Relay.step S.crates.json w.relay e = some m) {x : RelayMsg}
    (hx : Sends S.crates.json w.relay e a x) :
    (∀ c, sender x = some c → Client w.relay a c) ∧
      (isBye x = true → ∀ c, Client w.relay a c → Gone (afterRelay S w e m) c) := by
  cases e with
  | sendAuth c =>
      obtain ⟨-, rfl⟩ := hx
      refine ⟨fun d hd => ?_, fun hbye => ?_⟩
      · cases hd
      · rw [auth_not_bye (hw.token c)] at hbye
        cases hbye
  | announce d =>
      obtain ⟨rfl, -, hroom, -⟩ := toOthers_agent hw.entries hx
      refine ⟨fun d hd => ?_, fun hbye => ?_⟩
      · cases hd
      -- the handler is in the room of the agent, whose id is a hash in hex:
      · have hhex : ∀ y ∈ (w.relay.conns d).roomId, y ∈ Hex.digits := by
          intro y hy
          rw [hroom, hw.joined.2, Session.roomId, Crypto.roomId, S.crates.hexEncode_eq] at hy
          exact Hex.mem_encode hy
        rw [join_not_bye d hhex] at hbye
        cases hbye
  | register c token =>
      -- the notice would go to the agent, which a calm join does not evict:
      obtain ⟨p, hevict, htx, -⟩ := hx
      exact absurd htx.symm (hcalm p hevict)
  | forward d =>
      obtain ⟨p, hpc, hto⟩ := hx
      obtain ⟨rfl, hda, hroom, hin⟩ := toOthers_agent hw.entries hto
      refine ⟨fun c hc => ?_, fun hbye c hc => ?_⟩
      · obtain rfl := Option.some.inj hc
        exact ⟨hda, by rw [hpc]; rfl, hroom⟩
      -- the message is a disconnect, so a disconnect text is being forwarded:
      · have htext : (forwardedText S.crates.json w.relay d).any byeText = true := by
          rw [forwardedText, hpc]
          cases hf : forwardMsg S.crates.json p with
          | text t => simpa [isBye, item, hf] using hbye
          | binary b => simp [isBye, item, hf] at hbye
        by_cases hcd : c = d
        · -- the sender has just said goodbye
          subst hcd
          left
          simp [afterRelay, goodbye, htext]
        · -- the others have left, since the room holds the agent and the sender
          right
          apply left_step h hc.2.1
          exact left_of_full hw.entries hin (hcalm htext hroom hin) hda hc hcd
  | cleanup d =>
      obtain ⟨rfl, hda, hroom, hin⟩ := toOthers_agent hw.entries hx
      refine ⟨fun c hc => ?_, fun hbye c hc => Or.inr ?_⟩
      · cases hc
      · by_cases hcd : c = d
        · -- the handler has ended, so it owns no entry
          subst hcd
          obtain ⟨-, rfl⟩ := of_guard h
          obtain ⟨s', heq, -, -⟩ := cleanup_eq w.relay c
          have hent := entries_quiet cleanup_quiet hw.entries (s := w.relay) (m := cleanup w.relay c)
          intro roomId room hfound p hp htx
          obtain ⟨hreg, -, -⟩ := hent.owner roomId room hfound p hp
          rw [htx, heq] at hreg
          simp [State.registered, State.setPc, State.setConn, Pc.isRegistered] at hreg
        · apply left_step h hc.2.1
          exact left_of_full hw.entries hin (hcalm hroom hin) hda hc hcd
  | _ => exact hx.elim

/-- A calm step of the relay keeps the invariant. -/
theorem sound_relay (hw : Sound S a w) (hcalm : Calm S a w (.relay e))
    (h : Relay.step S.crates.json w.relay e = some m) : Sound S a (afterRelay S w e m) := by
  obtain ⟨added, hsub, hadded⟩ := step_inbound h a
  have hsends := fun x hx => sends_calm hw hcalm h (hadded x hx)
  -- clients stay clients, and who is gone stays gone:
  have hclient : ∀ c, Client w.relay a c → Client m a c := fun c => client_step h hw.joined.1
  have hgone : ∀ c, Client w.relay a c → Gone w c → Gone (afterRelay S w e m) c :=
    fun c hc => gone_relay h hc.2.1
  have hmem : ∀ x ∈ (m.conns a).inbound, x ∈ (w.relay.conns a).inbound ∨ x ∈ added :=
    fun x hx => List.mem_append.1 (hsub.subset hx)
  refine
    { entries := entries_step hw.entries h
      token := token_step h hw.token
      joined := ?_
      senders := ?_
      establisher := fun c hc => hclient c (hw.establisher c hc)
      tornDown := fun c hc => hclient c (hw.tornDown c hc)
      behind := ?_
      pending := ?_
      deserved := fun c hc => hgone c (hw.tornDown c hc) (hw.deserved c hc) }
  · obtain ⟨hpc, hroom⟩ := settled_step h hw.joined.1
    exact ⟨hpc, hroom.trans hw.joined.2⟩
  · intro x hx c hc
    rcases hmem x hx with hold | hnew
    · exact hclient c (hw.senders x hold c hc)
    · exact hclient c ((hsends x hnew).1 c hc)
  · apply List.Pairwise.sublist hsub
    rw [List.pairwise_append]
    refine ⟨?_, ?_, ?_⟩
    · -- messages that were on their way
      apply hw.behind.imp_of_mem
      intro y x hy _ hbehind hbye c hc
      exact hgone c (hw.senders y hy c hc) (hbehind hbye c hc)
    · -- messages of this step
      apply List.pairwise_of_forall_mem_list
      intro y hy x hx hbye c hc
      exact (hsends x hx).2 hbye c ((hsends y hy).1 c hc)
    · -- a new message behind one that was on its way
      intro y hy x hx hbye c hc
      exact (hsends x hx).2 hbye c (hw.senders y hy c hc)
  · intro x hx hbye c hc
    rcases hmem x hx with hold | hnew
    · exact hgone c (hw.establisher c hc) (hw.pending x hold hbye c hc)
    · exact (hsends x hnew).2 hbye c (hw.establisher c hc)

end RelayStep

/-! ## The agent reads -/

section Receive

variable {S : Session} {a : ConnId} {w w' : World}

/-- A session ends only on a disconnect. -/
theorem isBye_of_endsSession {st : RunState} {x : RelayMsg}
    (h : endsSession S st (item x) = true) : isBye x = true := by
  rw [endsSession] at h
  split at h
  · rename_i key sid _
    cases hitem : item x with
    | text t =>
        rw [hitem, bridgeRecv, bridgeText_exit, controlExit] at h
        simp only [isBye, hitem, byeText]
        split_ifs at h with hd hp hj
        · simp [hd]
        · simp [hp]
        · simp at h
        · simp at h
    | _ => simp [hitem, bridgeRecv] at h
  · cases h

theorem isSignal_of_isBye {x : RelayMsg} (h : isBye x = true) : x.isSignal = true := by
  cases x with
  | ping => cases h
  | pong d => cases h
  | _ => rfl

/-- The relay's side of reading the next message. -/
theorem relay_receive {J : SerdeJson} {s m : Relay.State} {x : RelayMsg} {xs : List RelayMsg}
    (hwire : (s.conns a).wire = x :: xs) (h : Relay.step J s (.receive a) = some m) :
    m = s.setConn a { s.conns a with wire := xs } := by
  obtain ⟨y, ys, hread, rfl⟩ := receive_of_step h
  rw [hwire] at hread
  cases hread
  rfl

/-- What was on its way is the message read, if it is a signal, and the rest. -/
theorem inbound_receive {s : Relay.State} {x : RelayMsg} {xs : List RelayMsg}
    (hwire : (s.conns a).wire = x :: xs) :
    (s.conns a).inbound = (if x.isSignal then [x] else []) ++
      ((s.setConn a { s.conns a with wire := xs }).conns a).inbound := by
  simp only [Conn.inbound, hwire, State.setConn, Function.update_self, List.cons_append,
    List.filter_cons]
  split <;> rfl

/-- A message that has a sender is a signal. -/
theorem isSignal_of_sender {x : RelayMsg} {c : ConnId} (h : sender x = some c) :
    x.isSignal = true := by
  cases x with
  | forwarded p d => rfl
  | _ => cases h

/-- Reading a message keeps the invariant. A message that establishes a session stands in front of
every disconnect still on its way, and a disconnect that ends one finds its client gone. -/
theorem sound_receive (hw : Sound S a w) {x : RelayMsg} {xs : List RelayMsg}
    (hwire : (w.relay.conns a).wire = x :: xs) (h : receive S a w x = some w') : Sound S a w' := by
  simp only [receive, Option.bind_eq_bind, Option.bind_eq_some_iff, Option.pure_def,
    Option.some.injEq] at h
  obtain ⟨r, hr, m, hm, rfl⟩ := h
  -- on the side of the relay, only the wire of the agent changes:
  have hclient : ∀ c, Client w.relay a c → Client m a c := fun c => client_step hm hw.joined.1
  have hentries := entries_step hw.entries hm
  have htoken := token_step hm hw.token
  have hjoined := settled_step hm hw.joined.1
  obtain rfl := relay_receive hwire hm
  have hrest := inbound_receive hwire
  have hsub : ∀ y ∈ (((w.relay.setConn a { w.relay.conns a with wire := xs }).conns a)).inbound,
      y ∈ (w.relay.conns a).inbound := by
    intro y hy
    rw [hrest]
    exact List.mem_append_right _ hy
  have hread : x.isSignal = true → x ∈ (w.relay.conns a).inbound := by
    intro hsig
    rw [hrest, if_pos hsig]
    exact List.mem_append_left _ (List.mem_singleton_self x)
  have hbehind := hw.behind
  rw [hrest, List.pairwise_append] at hbehind
  obtain ⟨-, htail, hfront⟩ := hbehind
  refine
    { entries := hentries
      token := htoken
      joined := ⟨hjoined.1, hjoined.2.trans hw.joined.2⟩
      senders := fun y hy c hc => hclient c (hw.senders y (hsub y hy) c hc)
      establisher := ?_
      tornDown := ?_
      behind := htail
      pending := ?_
      deserved := ?_ }
  · intro c hc
    dsimp only at hc
    split at hc
    · exact hclient c (hw.senders x (hread (isSignal_of_sender hc)) c hc)
    · exact hclient c (hw.establisher c hc)
  · intro c hc
    dsimp only at hc
    split at hc
    · rcases List.mem_append.1 hc with hnew | hold
      · exact hclient c (hw.establisher c (Option.mem_toList.1 hnew))
      · exact hclient c (hw.tornDown c hold)
    · exact hclient c (hw.tornDown c hc)
  · intro y hy hbye c hc
    dsimp only at hc
    split at hc
    · -- the message read established the session, and the disconnect comes behind it
      apply hfront x _ y hy hbye c hc
      rw [if_pos (isSignal_of_sender hc)]
      exact List.mem_singleton_self x
    · exact hw.pending y (hsub y hy) hbye c hc
  · intro c hc
    dsimp only at hc
    split at hc
    · rename_i hends
      rcases List.mem_append.1 hc with hnew | hold
      -- the message read is a disconnect that was on its way, and the session is the current one:
      · have hbye := isBye_of_endsSession hends
        exact hw.pending x (hread (isSignal_of_isBye hbye)) hbye c (Option.mem_toList.1 hnew)
      · exact hw.deserved c hold
    · exact hw.deserved c hc

end Receive

/-! ## Runs -/

theorem sound_step {S : Session} {a : ConnId} {w w' : World} {e : Event} (hw : Sound S a w)
    (hcalm : Calm S a w e) (h : step S a w e = some w') : Sound S a w' := by
  cases e with
  | relay e =>
      rw [step] at h
      split at h
      · cases h
      · simp only [Option.map_eq_some_iff] at h
        obtain ⟨m, hm, rfl⟩ := h
        exact sound_relay hw hcalm hm
  | agent e =>
      rw [step] at h
      split at h
      · cases h
      · simp only [Option.map_eq_some_iff] at h
        obtain ⟨r, -, rfl⟩ := h
        -- the invariant does not speak about the run of the agent
        exact { hw with }
  | receive =>
      rw [step] at h
      cases hwire : (w.relay.conns a).wire with
      | nil =>
          rw [hwire] at h
          cases h
      | cons x xs =>
          rw [hwire] at h
          exact sound_receive hw hwire h

theorem sound_start (S : Session) (a : ConnId) : Sound S a (start S a) := by
  have hconn : ((start S a).relay.conns a).inbound = [] := by
    simp [start, State.setConn, State.start, Conn.inbound]
  have hrooms : ∀ roomId, (start S a).relay.rooms.lookup roomId = none := lookup_start
  refine
    { entries := ⟨?_, ?_⟩
      token := ?_
      joined := ?_
      senders := ?_
      establisher := fun c hc => by cases hc
      tornDown := fun c hc => by cases hc
      behind := ?_
      pending := ?_
      deserved := fun c hc => by cases hc }
  · intro roomId room h
    rw [hrooms] at h
    cases h
  · intro roomId room h
    rw [hrooms] at h
    cases h
  · intro c x hx
    by_cases hc : c = a
    · subst hc
      simp [start, State.setConn] at hx
    · simp [start, State.setConn, State.start, Function.update_of_ne hc] at hx
  · simp [start, State.setConn]
  · intro x hx
    rw [hconn] at hx
    cases hx
  · rw [hconn]
    exact List.Pairwise.nil
  · intro x hx
    rw [hconn] at hx
    cases hx

/-- In every calm run, the bridge loop returns `PeerDisconnected` only for sessions whose client has
said goodbye or has left the room. -/
theorem deserved_of_calm (S : Session) (a : ConnId) (es : List Event)
    (h : Guarded (stepRel (step S a)) (Calm S a) (start S a) es) :
    Along (stepRel (step S a)) Deserved (start S a) es := by
  apply along_of_inductive (I := Sound S a) (C := Calm S a)
  · intro w e m hw hm hcalm
    exact sound_step hw hcalm hm
  · intro w hw
    exact hw.deserved
  · exact sound_start S a
  · exact h

/-! ## Two runs -/

namespace Sample

/-- The room of the PIN `12345678`. -/
def room : Text := (Agent.Sample.session []).roomId

/-- A message with the sender's relay token. -/
def authed (fields : List (String × Json)) (token : Bytes) : Json :=
  .ofFields (fields ++ [("auth", .str (Hex.encode token))])

def boot : List (String × Json) := [("type", .str "boot".toList)]

def offer (ek : Bytes) : List (String × Json) :=
  [("type", .str "handshake".toList), ("mlkem_pub_key", .str (Base64.encode ek))]

def reply (ct : Bytes) : List (String × Json) :=
  [("type", .str "handshake".toList), ("mlkem_ciphertext", .str (Base64.encode ct))]

def disconnect : List (String × Json) := [("type", .str "disconnect".toList)]

def session : Session :=
  Agent.Sample.session [joinJson room, authJson (Hex.encode [10]), authed boot [10],
    authed (offer [0]) [10], authed (offer [1]) [10], authed (reply [0, 7]) [11],
    (Json.ofFields (reply [0, 7])).sorted, authed (reply [1, 8]) [12],
    (Json.ofFields (reply [1, 8])).sorted, authed disconnect [11]]

def enters (c : ConnId) (token : Bytes) : List Event :=
  [.relay (.register c token), .relay (.sendAuth c), .relay (.announce c)]

/-- A client joins and enters the room. -/
def joins (c : ConnId) (token : Bytes) : List Event :=
  .relay (.first c (some (joinJson room).encode)) :: enters c token

def writes (c : ConnId) (v : Json) : List Event :=
  [.relay (.frame c (.text v.encode)), .relay (.forward c)]

/-- The agent gets its next message. -/
def reads : List Event := [.relay (.deliver 0), .receive]

/-- The agent sends boot and offer. -/
def offers (ek : Bytes) : List Event :=
  [.agent .proceed, .agent .proceed] ++ writes 0 (authed boot [10]) ++
    writes 0 (authed (offer ek) [10])

/-- Connection 1 joins the room of the agent on connection 0 and establishes a session. -/
def established : List Event :=
  [.agent (.connected true), .agent .proceed] ++ enters 0 [10] ++ reads ++ joins 1 [11] ++ reads ++
    reads ++ offers [0] ++ writes 1 (authed (reply [0, 7]) [11]) ++ reads

/-- The client of the session says goodbye. -/
def goodbyeRun : List Event := established ++ writes 1 (authed disconnect [11]) ++ reads

/-- Connection 2 joins the full room, which evicts connection 1, and establishes a session. Then the
socket of connection 1 closes. -/
def lateCloseRun : List Event :=
  established ++ [.relay (.elapse 1000), .relay (.frame 0 .pong)] ++ joins 2 [12] ++ reads ++
    reads ++ offers [1] ++ writes 2 (authed (reply [1, 8]) [12]) ++ reads ++
    [.relay (.streamEnd 1), .relay (.cleanup 1)] ++ reads

end Sample

/-- A run in which the session ends because its client says goodbye. -/
theorem deserved_goodbye :
    (∃ w, Run (stepRel (step Sample.session 0)) (start Sample.session 0) Sample.goodbyeRun w ∧
      w.tornDown = [1]) ∧
    Along (stepRel (step Sample.session 0)) Deserved (start Sample.session 0) Sample.goodbyeRun :=
  ⟨exists_run_of_exec (by decide +kernel),
    deserved_of_calm Sample.session 0 Sample.goodbyeRun (guarded_of_checkAll (by decide +kernel))⟩

/-- The late cleanup of the evicted connection 1 ends the session of connection 2, which is in the room
and has not said goodbye. -/
theorem late_close_ends_session :
    ∃ w, Run (stepRel (step Sample.session 0)) (start Sample.session 0) Sample.lateCloseRun w ∧
      ¬ Deserved w := by
  obtain ⟨w, hrun, htorn, hbye, hin⟩ : ∃ w,
      Run (stepRel (step Sample.session 0)) (start Sample.session 0) Sample.lateCloseRun w ∧
        w.tornDown = [2] ∧ w.saidBye = [] ∧ InRoomOf w.relay 0 2 :=
    exists_run_of_exec (by decide +kernel)
  refine ⟨w, hrun, fun hdeserved => ?_⟩
  -- connection 2 has neither said goodbye nor left:
  rcases hdeserved 2 (by simp [htorn]) with hmem | hleft
  · rw [hbye] at hmem
    cases hmem
  · obtain ⟨room, hroom, p, hp, htx⟩ := hin
    exact hleft _ room hroom p hp htx

end Ktty.Protocol.Teardown
