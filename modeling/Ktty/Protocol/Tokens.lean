import Ktty.Agent.RelayToken
import Ktty.Agent.SampleCrates
import Ktty.Client.RelayToken
import Ktty.Protocol.Teardown
import Ktty.Relay.Members
import Ktty.Wire.FrameSize

/-!
# Whose relay token an endpoint holds

The relay with an agent on the connection `a` and a client whose channels are connections of their own;
any other connection may join rooms and send what it likes. `World` keeps beside them the tokens that
the relay has issued.

Both endpoints recognize the relay's auth message by its content, in the stream in which the frames of
the other peer arrive. The relay removes the field `auth` of a frame before it forwards it, and whatever
is left may be an auth message itself. So an endpoint holds no token but its own exactly in the runs in
which no forwarded frame that it reads is taken for an auth message with another token
(`ownTokens_iff`). The client has to keep to its channels besides: no connect opens one while a token is
held, and auth messages come on the open one.
-/

set_option autoImplicit false

namespace Ktty.Protocol.Tokens

open Ktty.Wire Ktty.Lib Ktty.Lib.Execution Ktty.Agent Ktty.Relay Ktty.Client
open Ktty.Protocol.Teardown (item sender)

/-! ## The world -/

structure World where
  relay : Relay.State
  run : RunState
  client : Connection
  /-- The connections of the client's channels, by the numbers of the channels. -/
  channels : List ConnId
  /-- The tokens that the relay has issued, by connection. -/
  issued : ConnId → Option Text

inductive Event where
  | relay (e : Relay.Event)
  /-- The agent takes a step without reading a text. -/
  | agent (e : Agent.Event)
  /-- The agent reads the next message from its connection. -/
  | agentReads
  /-- The client takes a step without reading a text or opening a channel. -/
  | client (e : ServiceEvent)
  /-- The `connectWebSocket` of the `i`-th task completes on the connection `c`. -/
  | clientConnects (i : Nat) (c : ConnId)
  /-- The socket of a channel yields its next message. -/
  | clientReads (ch : ChannelId)

/-- The text of a message, if it is one. -/
def itemText : WsItem → Option Text
  | .text t => some t
  | _ => none

/-- A registered connection is issued a token. -/
def issue (issued : ConnId → Option Text) : Relay.Event → ConnId → Option Text
  | .register c tokenBytes => Function.update issued c (some (Hex.encode tokenBytes))
  | _ => issued

def isData : ServiceEvent → Bool
  | .data _ _ => true
  | _ => false

namespace World

def start : World :=
  { relay := .start, run := Session.start, client := .new, channels := [], issued := fun _ => none }

variable (S : Session) (D : Dart) (a : ConnId) (w : World)

/-- The agent or the client reads from the relay. -/
def readsOwn : Relay.Event → Bool
  | .receive c => c == a || w.channels.contains c
  | _ => false

/-- The client gets a message on a channel; a subscription that has been cancelled yields nothing. -/
def clientGets (ch : ChannelId) (x : RelayMsg) : Option Connection :=
  match itemText (item x) with
  | some t => if ch ∈ w.client.listening then w.client.step D (.data ch t) else some w.client
  | none => some w.client

def step : Event → Option World
  | .relay e =>
      -- what the two endpoints read has events of its own:
      if w.readsOwn a e then none
      else (Relay.step S.crates.json w.relay e).map fun s =>
        { w with relay := s, issued := issue w.issued e }
  | .agent e => if e.isText then none else (S.step w.run e).map fun r => { w with run := r.1 }
  | .agentReads =>
      match (w.relay.conns a).wire with
      | x :: _ => do
          let r ← S.step w.run (.ws (item x))
          let s ← Relay.step S.crates.json w.relay (.receive a)
          return { w with relay := s, run := r.1 }
      | [] => none
  | .client e =>
      if isData e || Connection.opens e then none
      else (w.client.step D e).map fun c => { w with client := c }
  | .clientConnects i c =>
      if (w.relay.conns c).pc = .accepted then
        (w.client.step D (.connectWebSocket i true)).map fun client =>
          { w with client := client, channels := w.channels ++ [c] }
      else none
  | .clientReads ch => do
      let c ← w.channels[ch]?
      match (w.relay.conns c).wire with
      | x :: _ => do
          let client ← w.clientGets D ch x
          let s ← Relay.step S.crates.json w.relay (.receive c)
          return { w with relay := s, client := client }
      | [] => none

/-! ## The property and the condition -/

/-- The connection of the open channel. -/
def current : Option ConnId := w.client.channel.bind fun ch => w.channels[ch]?

/-- The token was issued to the client's present connection. -/
def IssuedToClient (token : Text) : Prop := ∃ c ∈ w.current, w.issued c = some token

instance (token : Text) : Decidable (w.IssuedToClient token) :=
  inferInstanceAs (Decidable (∃ c ∈ w.current, w.issued c = some token))

/-- What an endpoint holds as its relay token was issued to its own connection. -/
structure OwnTokens : Prop where
  agent : ∀ token, w.run.relayAuthToken = some token → w.issued a = some token
  client : ∀ token, w.client.relayAuthToken = some token → w.IssuedToClient token

/-- A text that the client takes for an auth message, on a live subscription: it is the relay's own on
the open channel, or it carries the client's own token. -/
def GenuineOn (ch : ChannelId) (x : RelayMsg) : Prop :=
  ∀ t ∈ itemText (item x), ch ∈ w.client.listening → ∀ token ∈ authToken D t,
    sender x = none ∧ w.client.channel = some ch ∨ w.IssuedToClient token

instance (ch : ChannelId) (x : RelayMsg) : Decidable (w.GenuineOn D ch x) :=
  inferInstanceAs (Decidable (∀ t ∈ itemText (item x), _ → ∀ token ∈ authToken D t, _))

/-- The condition on a step: a frame of another peer that is taken for an auth message carries the
reader's own token; auth messages come on the client's open channel, and a channel is opened while no
token is held. -/
def Genuine : Event → Prop
  | .agentReads =>
      ∀ x ∈ (w.relay.conns a).wire.head?, (sender x).isSome = true →
        ∀ token ∈ takesToken S.crates w.run.phase (.ws (item x)), w.issued a = some token
  | .clientConnects _ _ => w.client.relayAuthToken = none
  | .clientReads ch =>
      ∀ c ∈ w.channels[ch]?, ∀ x ∈ (w.relay.conns c).wire.head?, w.GenuineOn D ch x
  | _ => True

instance (e : Event) : Decidable (w.Genuine S D a e) :=
  match e with
  | .relay _ => isTrue trivial
  | .agent _ => isTrue trivial
  | .agentReads => inferInstanceAs (Decidable (∀ x ∈ (w.relay.conns a).wire.head?, _ → _))
  | .client _ => isTrue trivial
  | .clientConnects _ _ => inferInstanceAs (Decidable (_ = _))
  | .clientReads ch => inferInstanceAs (Decidable (∀ c ∈ w.channels[ch]?, ∀ x ∈ _, _))

end World

/-! ## The relay's own messages -/

/-- A JSON reader finds in the relay's own messages the tokens that stand there. -/
structure ReadsRelay (fromStr : Text → Option Json) : Prop where
  auth : ∀ bytes v, fromStr (authJson (Hex.encode bytes)).encode = some v →
    v.get? "token" = some (.str (Hex.encode bytes))
  join : ∀ roomId v, fromStr (joinJson roomId).encode = some v → v.get? "token" = none
  peerDisconnect : ∀ peerId v, fromStr (peerDisconnectJson peerId).encode = some v →
    v.get? "token" = none

section Own

variable {fromStr : Text → Option Json} {x : RelayMsg} {t token : Text} {v : Json}

/-- Among the relay's own messages only the auth message has a token, the issued one. -/
theorem auth_of_own (hread : ReadsRelay fromStr) (hx : sender x = none)
    (hhex : ∀ tok, x = .auth tok → ∃ bytes, tok = Hex.encode bytes) (ht : itemText (item x) = some t)
    (hv : fromStr t = some v) (htoken : (v.get? "token").bind Json.asStr = some token) :
    x = .auth token := by
  cases x with
  | auth tok =>
      obtain ⟨bytes, rfl⟩ := hhex tok rfl
      obtain rfl := Option.some.inj ht
      rw [hread.auth bytes v hv] at htoken
      rw [← Option.some.inj htoken]
  | join roomId c =>
      obtain rfl := Option.some.inj ht
      rw [hread.join roomId v hv] at htoken
      cases htoken
  | peerDisconnect peerId c =>
      obtain rfl := Option.some.inj ht
      rw [hread.peerDisconnect peerId v hv] at htoken
      cases htoken
  | forwarded p c => cases hx
  | ping => cases ht
  | pong d => cases ht

theorem token_of_authToken {D : Dart} (h : authToken D t = some token) :
    ∃ v, D.jsonDecode t = some v ∧ (v.get? "token").bind Json.asStr = some token := by
  rw [authToken] at h
  split at h
  · obtain ⟨v, hv, hval⟩ := Option.bind_eq_some_iff.1 h
    split at hval
    · refine ⟨v, ?_, hval⟩
      rw [jsonDecodeMap] at hv
      split at hv
      · rename_i ms hms
        rw [hms, ← Option.some.inj hv]
      · cases hv
    · cases hval
  · cases h

theorem token_of_takesToken {L : Crates} {p : Phase} {i : WsItem}
    (h : takesToken L p (.ws i) = some token) :
    ∃ t v, itemText i = some t ∧ L.json.fromStr t = some v ∧
      (v.get? "token").bind Json.asStr = some token := by
  cases i with
  | text t =>
      cases p with
      | init =>
          rw [takesToken] at h
          split at h
          · rw [interceptAuth] at h
            split at h
            · simp only [Option.bind_eq_bind, Option.bind_eq_some_iff] at h
              obtain ⟨v, hv, tok, htok, hstr⟩ := h
              exact ⟨t, v, rfl, hv, by rw [htok, Option.bind_some, hstr]⟩
            · cases h
          · cases h
      | _ => cases h
  | _ => cases p <;> cases h

end Own

/-- Only a text brings a token. -/
theorem takesToken_of_noText {L : Crates} {p : Phase} {e : Agent.Event} (h : ¬ e.isText = true) :
    takesToken L p e = none := by
  cases e with
  | ws i =>
      cases i with
      | text t => exact absurd rfl h
      | _ => cases p <;> rfl
  | _ => cases p <;> rfl

/-! ## The invariant -/

/-- What the relay has issued, and the auth messages that are on their way. -/
structure Inv (w : World) : Prop where
  /-- A connection that has not entered a room has no token. -/
  unissued : ∀ c, (w.relay.conns c).pc.hasEntered = false → w.issued c = none
  registered : ∀ c, w.relay.registered c = true → w.issued c = some (w.relay.conns c).authToken
  hex : ∀ c token, w.issued c = some token → ∃ bytes, token = Hex.encode bytes
  auths : ∀ c token, .auth token ∈ (w.relay.conns c).inbound → w.issued c = some token
  /-- The channels are numbered as they are opened. -/
  numbered : w.client.opened = w.channels.length

section Step

variable {S : Session} {D : Dart} {a : ConnId} {w w' : World}

theorem mem_inbound_of_wire {conn : Conn} {x : RelayMsg} (h : x ∈ conn.wire.head?)
    (hsig : x.isSignal = true) : x ∈ conn.inbound :=
  List.mem_filter.2 ⟨List.mem_append_left _ (List.mem_of_mem_head? h), hsig⟩

/-- An issued token stays, and a new one goes to a connection that had none. -/
theorem issue_mono {issued : ConnId → Option Text} {e : Relay.Event} {c : ConnId} {token : Text}
    (hfresh : ∀ d bytes, e = .register d bytes → issued d = none) (h : issued c = some token) :
    issue issued e c = some token := by
  cases e with
  | register d bytes =>
      have hne : c ≠ d := by
        rintro rfl
        rw [hfresh c bytes rfl] at h
        cases h
      rw [issue, Function.update_of_ne hne]
      exact h
  | _ => exact h

theorem issue_fresh (hw : Inv w) {e : Relay.Event} {s : Relay.State}
    (h : Relay.step S.crates.json w.relay e = some s) :
    ∀ d bytes, e = .register d bytes → w.issued d = none := by
  rintro d bytes rfl
  obtain ⟨hpc, -⟩ := of_guard h
  exact hw.unissued d (by rw [hpc]; rfl)

/-- An auth message is sent to the connection to which its token was issued. -/
theorem sends_auth (hw : Inv w) {e : Relay.Event} {s : Relay.State}
    (h : Relay.step S.crates.json w.relay e = some s) {c : ConnId} {token : Text}
    (hx : Sends S.crates.json w.relay e c (.auth token)) : w.issued c = some token := by
  cases e with
  | sendAuth d =>
      obtain ⟨rfl, htoken⟩ := hx
      obtain ⟨hpc, -⟩ := of_guard h
      rw [RelayMsg.auth.inj htoken]
      exact hw.registered c (by rw [State.registered, hpc]; rfl)
  | announce d => cases hx.1
  | cleanup d => cases hx.1
  | forward d =>
      obtain ⟨p, -, hto⟩ := hx
      cases hto.1
  | register d bytes =>
      obtain ⟨p, -, -, hauth⟩ := hx
      cases hauth
  | _ => exact hx.elim

theorem issue_of_ne {issued : ConnId → Option Text} {e : Relay.Event}
    (hne : ∀ d bytes, e ≠ .register d bytes) : issue issued e = issued := by
  cases e with
  | register d bytes => exact absurd rfl (hne d bytes)
  | _ => rfl

theorem register_authToken (s : Relay.State) (c : ConnId) (bytes : Bytes) :
    ((register s c bytes).conns c).authToken = Hex.encode bytes := by
  obtain ⟨kept, conns', -, -, -, heq⟩ := register_eq s c bytes
  rw [heq]
  simp

/-- The relay takes a step, while the two endpoints go on or stay. -/
theorem inv_relay (hw : Inv w) {e : Relay.Event} {s : Relay.State}
    (h : Relay.step S.crates.json w.relay e = some s) (run : RunState) (client : Connection)
    (hopened : client.opened = w.client.opened) :
    Inv { w with relay := s, run := run, client := client, issued := issue w.issued e } := by
  have hfresh := issue_fresh hw h
  constructor
  · intro c hpc
    have hbefore : (w.relay.conns c).pc.hasEntered = false := by
      by_contra hent
      rw [entered_step h (by simpa using hent)] at hpc
      cases hpc
    cases e with
    | register d bytes =>
        obtain ⟨-, rfl⟩ := of_guard h
        have hne : c ≠ d := by
          rintro rfl
          rw [register_conns_self.1] at hpc
          cases hpc
        simp only [issue, Function.update_of_ne hne]
        exact hw.unissued c hbefore
    | _ => exact hw.unissued c hbefore
  · intro c hreg
    rcases register_or_quiet h with ⟨d, bytes, rfl, hpc, rfl⟩ | ⟨hne, hquiet⟩
    · by_cases hcd : c = d
      · subst hcd
        simp only [issue, Function.update_self, register_authToken]
      · rcases (registered_register hpc).1 hreg with rfl | hold
        · exact absurd rfl hcd
        · have htok := authToken_step h (c := c) (by
            intro hjoin
            rw [State.registered, hjoin] at hold
            cases hold)
          simp only [issue, Function.update_of_ne hcd, htok]
          exact hw.registered c hold
    · rw [issue_of_ne hne, hquiet.token c]
      exact hw.registered c (hquiet.held c hreg).1
  · intro c token hissued
    cases e with
    | register d bytes =>
        by_cases hcd : c = d
        · subst hcd
          simp only [issue, Function.update_self, Option.some.injEq] at hissued
          exact ⟨bytes, hissued.symm⟩
        · simp only [issue, Function.update_of_ne hcd] at hissued
          exact hw.hex c token hissued
    | _ => exact hw.hex c token hissued
  · intro c token hmem
    obtain ⟨added, hsub, hall⟩ := step_inbound h c
    apply issue_mono hfresh
    rcases List.mem_append.1 (hsub.subset hmem) with hold | hnew
    · exact hw.auths c token hold
    · exact sends_auth hw h (hall _ hnew)
  · exact hopened.trans hw.numbered

theorem relay_eq {e : Relay.Event} (h : w.step S D a (.relay e) = some w') :
    ∃ s, Relay.step S.crates.json w.relay e = some s ∧
      w' = { w with relay := s, issued := issue w.issued e } := by
  rw [World.step] at h
  split at h
  · cases h
  · obtain ⟨s, hs, rfl⟩ := Option.map_eq_some_iff.1 h
    exact ⟨s, hs, rfl⟩

theorem agent_eq {e : Agent.Event} (h : w.step S D a (.agent e) = some w') :
    ¬ e.isText = true ∧ ∃ r, S.step w.run e = some r ∧ w' = { w with run := r.1 } := by
  rw [World.step] at h
  split at h
  · cases h
  · rename_i htext
    obtain ⟨r, hr, rfl⟩ := Option.map_eq_some_iff.1 h
    exact ⟨htext, r, hr, rfl⟩

theorem client_eq {e : ServiceEvent} (h : w.step S D a (.client e) = some w') :
    isData e = false ∧ Connection.opens e = false ∧
      ∃ client, w.client.step D e = some client ∧ w' = { w with client := client } := by
  rw [World.step] at h
  split at h
  · cases h
  · rename_i hkind
    rw [Bool.or_eq_true, not_or, Bool.not_eq_true, Bool.not_eq_true] at hkind
    obtain ⟨client, hclient, rfl⟩ := Option.map_eq_some_iff.1 h
    exact ⟨hkind.1, hkind.2, client, hclient, rfl⟩

theorem agentReads_eq (h : w.step S D a .agentReads = some w') :
    ∃ x r s, x ∈ (w.relay.conns a).wire.head? ∧ S.step w.run (.ws (item x)) = some r ∧
      Relay.step S.crates.json w.relay (.receive a) = some s ∧
      w' = { w with relay := s, run := r.1 } := by
  rw [World.step] at h
  split at h
  · rename_i x xs hwire
    simp only [Option.bind_eq_bind, Option.bind_eq_some_iff, Option.pure_def,
      Option.some.injEq] at h
    obtain ⟨r, hr, s, hs, rfl⟩ := h
    exact ⟨x, r, s, by rw [hwire]; rfl, hr, hs, rfl⟩
  · cases h

theorem clientReads_eq {ch : ChannelId} (h : w.step S D a (.clientReads ch) = some w') :
    ∃ c x client s, c ∈ w.channels[ch]? ∧ x ∈ (w.relay.conns c).wire.head? ∧
      w.clientGets D ch x = some client ∧
      Relay.step S.crates.json w.relay (.receive c) = some s ∧
      w' = { w with relay := s, client := client } := by
  rw [World.step] at h
  simp only [Option.bind_eq_bind, Option.bind_eq_some_iff] at h
  obtain ⟨c, hc, h⟩ := h
  split at h
  · rename_i x xs hwire
    simp only [Option.bind_eq_some_iff, Option.pure_def, Option.some.injEq] at h
    obtain ⟨client, hclient, s, hs, rfl⟩ := h
    exact ⟨c, x, client, s, hc, by rw [hwire]; rfl, hclient, hs, rfl⟩
  · cases h

theorem clientConnects_eq {i : Nat} {c : ConnId} (h : w.step S D a (.clientConnects i c) = some w') :
    (w.relay.conns c).pc = .accepted ∧ ∃ client, client = w.client.listen i ∧
      w' = { w with client := client, channels := w.channels ++ [c] } := by
  rw [World.step] at h
  split at h
  · rename_i hpc
    obtain ⟨client, hclient, rfl⟩ := Option.map_eq_some_iff.1 h
    rw [Connection.step, if_pos rfl] at hclient
    split at hclient
    · exact ⟨hpc, client, (Option.some.inj hclient).symm, rfl⟩
    · cases hclient
  · cases h

/-- A step of the client that opens no channel keeps the count of the channels. -/
theorem opened_step {c m : Connection} {e : ServiceEvent} (h : c.step D e = some m)
    (hopens : Connection.opens e = false) : m.opened = c.opened := by
  cases Connection.step_change h with
  | keeps hsame => exact hsame.opened
  | clears hcleared => exact hcleared.opened
  | opens => cases hopens
  | installs hstage => rfl
  | encrypts henc hsame => exact hsame.opened

/-- What a message makes of the client. -/
theorem clientGets_facts {ch : ChannelId} {x : RelayMsg} {client : Connection}
    (h : w.clientGets D ch x = some client) :
    client.opened = w.client.opened ∧ client.channel = w.client.channel ∧
      client.relayAuthToken =
        (if ch ∈ w.client.listening then (itemText (item x)).bind (authToken D) else none).or
          w.client.relayAuthToken := by
  rw [World.clientGets] at h
  cases ht : itemText (item x) with
  | none =>
      rw [ht] at h
      obtain rfl := Option.some.inj h
      simp
  | some t =>
      rw [ht] at h
      dsimp only at h
      split at h
      · rename_i hlive
        have hopened := opened_step h rfl
        rw [Connection.step, if_pos hlive] at h
        obtain rfl := Option.some.inj h
        obtain ⟨hchannel, htoken⟩ := Connection.onData_token (D := D) (c := w.client) ch t
        refine ⟨hopened, hchannel, ?_⟩
        rw [htoken, if_pos hlive, Option.bind_some]
        cases authToken D t <;> rfl
      · rename_i hlive
        obtain rfl := Option.some.inj h
        simp [hlive]

theorem inv_step {e : Event} (hw : Inv w) (h : w.step S D a e = some w') : Inv w' := by
  cases e with
  | relay e =>
      obtain ⟨s, hs, rfl⟩ := relay_eq h
      exact inv_relay hw hs w.run w.client rfl
  | agent e =>
      obtain ⟨-, r, -, rfl⟩ := agent_eq h
      exact { hw with }
  | agentReads =>
      obtain ⟨x, r, s, -, -, hs, rfl⟩ := agentReads_eq h
      exact inv_relay hw hs r.1 w.client rfl
  | client e =>
      obtain ⟨-, hopens, client, hclient, rfl⟩ := client_eq h
      exact { hw with numbered := (opened_step hclient hopens).trans hw.numbered }
  | clientConnects i c =>
      obtain ⟨-, client, hclient, rfl⟩ := clientConnects_eq h
      exact { hw with numbered := by simp [hclient, Connection.listen, Connection.goto, hw.numbered] }
  | clientReads ch =>
      obtain ⟨c, x, client, s, -, -, hget, hs, rfl⟩ := clientReads_eq h
      exact inv_relay hw hs w.run client (clientGets_facts hget).1

/-! ## One step -/

/-- An auth message of the relay that is on its way carries the token of the connection. -/
theorem issued_of_own (hw : Inv w) {fromStr : Text → Option Json} (hread : ReadsRelay fromStr)
    {c : ConnId} {x : RelayMsg} {t token : Text} {v : Json} (hx : x ∈ (w.relay.conns c).wire.head?)
    (hown : sender x = none) (ht : itemText (item x) = some t) (hv : fromStr t = some v)
    (htoken : (v.get? "token").bind Json.asStr = some token) : w.issued c = some token := by
  have hauths : ∀ tok, x = .auth tok → w.issued c = some tok := by
    rintro tok rfl
    exact hw.auths c tok (mem_inbound_of_wire hx rfl)
  have hhex : ∀ tok, x = .auth tok → ∃ bytes, tok = Hex.encode bytes :=
    fun tok hauth => hw.hex c tok (hauths tok hauth)
  exact hauths token (auth_of_own hread hown hhex ht hv htoken)

theorem agentReads_iff (hread : ReadsRelay S.crates.json.fromStr) (hw : Inv w)
    (hown : w.OwnTokens a) (h : w.step S D a .agentReads = some w') :
    w'.OwnTokens a ↔ w.Genuine S D a .agentReads := by
  obtain ⟨x, r, s, hx, hr, -, rfl⟩ := agentReads_eq h
  have htoken := token_step hr
  constructor
  · intro hown' x' hx' hsender token htakes
    obtain rfl := Option.mem_unique hx' hx
    rw [Option.mem_def.1 htakes, Option.some_or] at htoken
    exact hown'.agent token htoken
  · intro hgenuine
    refine ⟨fun token hheld => ?_, hown.client⟩
    cases htakes : takesToken S.crates w.run.phase (.ws (item x)) with
    | none =>
        rw [htakes, Option.none_or] at htoken
        exact hown.agent token (htoken.symm.trans hheld)
    | some tok =>
        rw [htakes, Option.some_or] at htoken
        obtain rfl := Option.some.inj (htoken.symm.trans hheld)
        cases hsender : sender x with
        | some c => exact hgenuine x hx (by rw [hsender]; rfl) tok htakes
        | none =>
            obtain ⟨t, v, ht, hv, htok⟩ := token_of_takesToken htakes
            exact issued_of_own hw hread hx hsender ht hv htok

theorem clientReads_iff (hread : ReadsRelay D.jsonDecode) (hw : Inv w) (hown : w.OwnTokens a)
    {ch : ChannelId} (h : w.step S D a (.clientReads ch) = some w') :
    w'.OwnTokens a ↔ w.Genuine S D a (.clientReads ch) := by
  obtain ⟨c, x, client, s, hc, hx, hget, -, rfl⟩ := clientReads_eq h
  obtain ⟨-, hchannel, htoken⟩ := clientGets_facts hget
  -- the channel that is open stays, and so does its connection
  have hissued : ∀ token, World.IssuedToClient { w with relay := s, client := client } token ↔
      w.IssuedToClient token := by
    intro token
    simp only [World.IssuedToClient, World.current, hchannel]
  constructor
  · intro hown' c' hc' x' hx' t ht hlive token hauth
    obtain rfl := Option.mem_unique hc' hc
    obtain rfl := Option.mem_unique hx' hx
    rw [if_pos hlive, Option.mem_def.1 ht, Option.bind_some, Option.mem_def.1 hauth,
      Option.some_or] at htoken
    exact Or.inr ((hissued token).1 (hown'.client token htoken))
  · intro hgenuine
    refine ⟨hown.agent, fun token hheld => (hissued token).2 ?_⟩
    have hkept : client.relayAuthToken = w.client.relayAuthToken → w.IssuedToClient token :=
      fun hsame => hown.client token (hsame.symm.trans hheld)
    by_cases hlive : ch ∈ w.client.listening
    · rw [if_pos hlive] at htoken
      cases htext : itemText (item x) with
      | none =>
          rw [htext, Option.bind_none, Option.none_or] at htoken
          exact hkept htoken
      | some t =>
          rw [htext, Option.bind_some] at htoken
          cases hauth : authToken D t with
          | none =>
              rw [hauth, Option.none_or] at htoken
              exact hkept htoken
          | some tok =>
              rw [hauth, Option.some_or] at htoken
              obtain rfl := Option.some.inj (htoken.symm.trans hheld)
              rcases hgenuine c hc x hx t htext hlive tok hauth with ⟨hsender, hopen⟩ | hissued
              · obtain ⟨v, hv, htok⟩ := token_of_authToken hauth
                refine ⟨c, ?_, issued_of_own hw hread hx hsender htext hv htok⟩
                rw [World.current, hopen, Option.bind_some]
                exact hc
              · exact hissued
    · rw [if_neg hlive, Option.none_or] at htoken
      exact hkept htoken

theorem clientConnects_iff (hw : Inv w) (hown : w.OwnTokens a) {i : Nat} {c : ConnId}
    (h : w.step S D a (.clientConnects i c) = some w') :
    w'.OwnTokens a ↔ w.Genuine S D a (.clientConnects i c) := by
  obtain ⟨hpc, client, rfl, rfl⟩ := clientConnects_eq h
  constructor
  · intro hown'
    -- nothing has been issued to the new connection
    cases hheld : w.client.relayAuthToken with
    | none => exact hheld
    | some token =>
        obtain ⟨d, hd, hissued⟩ := hown'.client token hheld
        have hcurrent : (w.channels ++ [c])[w.client.opened]? = some c := by
          rw [hw.numbered, List.getElem?_concat_length]
        obtain rfl : c = d := Option.some.inj (hcurrent.symm.trans hd)
        have hnone : w.issued c = none := hw.unissued c (by rw [hpc]; rfl)
        have hsome : w.issued c = some token := hissued
        rw [hnone] at hsome
        cases hsome
  · intro hnone
    refine ⟨hown.agent, fun token hheld => ?_⟩
    have hheld' : w.client.relayAuthToken = some token := hheld
    have hnone' : w.client.relayAuthToken = none := hnone
    rw [hnone'] at hheld'
    cases hheld'

/-- One step out of a world in which the endpoints hold their own tokens. -/
theorem ownTokens_step (hagent : ReadsRelay S.crates.json.fromStr) (hclient : ReadsRelay D.jsonDecode)
    {e : Event} (hw : Inv w) (hown : w.OwnTokens a) (h : w.step S D a e = some w') :
    w'.OwnTokens a ↔ w.Genuine S D a e := by
  cases e with
  | relay e =>
      refine iff_of_true ?_ trivial
      obtain ⟨s, hs, rfl⟩ := relay_eq h
      have hfresh := issue_fresh hw hs
      refine ⟨fun token hheld => issue_mono hfresh (hown.agent token hheld), ?_⟩
      intro token hheld
      obtain ⟨c, hc, hissued⟩ := hown.client token hheld
      exact ⟨c, hc, issue_mono hfresh hissued⟩
  | agent e =>
      refine iff_of_true ?_ trivial
      obtain ⟨htext, r, hr, rfl⟩ := agent_eq h
      have hnone : takesToken S.crates w.run.phase e = none := takesToken_of_noText htext
      have htoken := token_step hr
      rw [hnone, Option.none_or] at htoken
      exact ⟨fun token hheld => hown.agent token (htoken.symm.trans hheld), hown.client⟩
  | agentReads => exact agentReads_iff hagent hw hown h
  | client e =>
      refine iff_of_true ?_ trivial
      obtain ⟨hkind, hopens, client, hclient, rfl⟩ := client_eq h
      have hdata : ∀ ch str, e ≠ .data ch str := by
        rintro ch str rfl
        cases hkind
      refine ⟨hown.agent, fun token hheld => ?_⟩
      have hheld' : client.relayAuthToken = some token := hheld
      rcases Connection.token_step hdata hopens hclient with hnone | ⟨htoken, hchannel⟩
      · rw [hnone] at hheld'
        cases hheld'
      · obtain ⟨c, hc, hissued⟩ := hown.client token (htoken.symm.trans hheld')
        refine ⟨c, ?_, hissued⟩
        simp only [World.current, hchannel]
        exact hc
  | clientConnects i c => exact clientConnects_iff hw hown h
  | clientReads ch => exact clientReads_iff hclient hw hown h

end Step

/-! ## Runs -/

theorem inv_start : Inv World.start where
  unissued _ _ := rfl
  registered _ h := by cases h
  hex _ _ h := by cases h
  auths _ _ h := by cases h
  numbered := rfl

theorem ownTokens_start (a : ConnId) : World.start.OwnTokens a where
  agent _ h := by cases h
  client _ h := by cases h

/-- The endpoints hold no relay tokens but their own exactly in the runs in which no forwarded frame
brings them another one, and the client keeps to its open channel. -/
theorem ownTokens_iff (S : Session) (D : Dart) (a : ConnId) (es : List Event)
    (hagent : ReadsRelay S.crates.json.fromStr) (hclient : ReadsRelay D.jsonDecode) :
    Along (stepRel (World.step S D a)) (World.OwnTokens a) World.start es ↔
      Guarded (stepRel (World.step S D a)) (World.Genuine S D a) World.start es := by
  apply along_iff_guarded (I := Inv)
  · intro w e w' hw h
    exact inv_step hw h
  · intro w e w' hw hown h
    exact ownTokens_step hagent hclient hw hown h
  · exact inv_start
  · exact ownTokens_start a

/-! ## Sample runs -/

namespace Sample

theorem escape_hex (bytes : Bytes) : (Hex.encode bytes).flatMap Json.escapeChar = Hex.encode bytes :=
  escape_plain fun _ hx => plain_hex (Hex.mem_encode hx)

theorem authJson_encode (token : Text) : (authJson token).encode =
    "\x7b\"token\":\"".toList ++ (token.flatMap Json.escapeChar ++ "\",\"type\":\"auth\"\x7d".toList) := by
  simp [authJson, Json.ofFields, Json.encode, Json.encodeMembers, Json.quote, Json.escapeChar]

theorem authJson_inj {bs cs : Bytes}
    (h : (authJson (Hex.encode bs)).encode = (authJson (Hex.encode cs)).encode) :
    Hex.encode bs = Hex.encode cs := by
  rw [authJson_encode, authJson_encode, escape_hex, escape_hex] at h
  exact List.append_cancel_right (List.append_cancel_left h)

/-- The relay's own messages differ in their first letter. -/
theorem authJson_letter (token : Text) : (authJson token).encode[2]? = some 't' := by
  rw [authJson_encode]
  rfl

theorem joinJson_letter (roomId : Text) : (joinJson roomId).encode[2]? = some 'a' := by
  simp [joinJson, Json.ofFields, Json.encode, Json.encodeMembers, Json.quote, Json.escapeChar]

theorem peerDisconnectJson_letter (peerId : Nat) :
    (peerDisconnectJson peerId).encode[2]? = some 'p' := by
  simp [peerDisconnectJson, Json.ofFields, Json.encode, Json.encodeMembers, Json.quote,
    Json.escapeChar]

/-- A reader that knows auth messages with hex tokens and joins. -/
theorem readsRelay_knowing {known : List Json}
    (hknown : ∀ v ∈ known, (∃ bytes, v = authJson (Hex.encode bytes)) ∨ ∃ roomId, v = joinJson roomId) :
    ReadsRelay (SerdeJson.knowing known).fromStr := by
  have hmem : ∀ t v, (SerdeJson.knowing known).fromStr t = some v → v ∈ known ∧ v.encode = t :=
    fun t v h => ⟨List.mem_of_find?_eq_some h, by simpa using List.find?_some h⟩
  constructor
  · intro bytes v h
    obtain ⟨hv, heq⟩ := hmem _ v h
    rcases hknown v hv with ⟨cs, rfl⟩ | ⟨roomId, rfl⟩
    · rw [← authJson_inj heq]
      exact Json.get?_ofFields (by simp) List.mem_cons_self
    · have hletter := joinJson_letter roomId
      rw [heq, authJson_letter] at hletter
      exact absurd hletter (by decide)
  · intro roomId v h
    obtain ⟨hv, heq⟩ := hmem _ v h
    rcases hknown v hv with ⟨cs, rfl⟩ | ⟨roomId', rfl⟩
    · have hletter := authJson_letter (Hex.encode cs)
      rw [heq, joinJson_letter] at hletter
      exact absurd hletter (by decide)
    · simp [joinJson, Json.ofFields, Json.get?]
  · intro peerId v h
    obtain ⟨hv, heq⟩ := hmem _ v h
    have hletter := peerDisconnectJson_letter peerId
    rcases hknown v hv with ⟨cs, rfl⟩ | ⟨roomId, rfl⟩
    · rw [← heq, authJson_letter] at hletter
      exact absurd hletter (by decide)
    · rw [← heq, joinJson_letter] at hletter
      exact absurd hletter (by decide)

def joined : Text := (joinJson Teardown.Sample.room).encode

def known : List Json :=
  [authJson (Hex.encode [10]), authJson (Hex.encode [11]), joinJson Teardown.Sample.room]

def enters (c : ConnId) (bytes : Bytes) : List Event :=
  [.relay (.first c (some joined)), .relay (.register c bytes), .relay (.sendAuth c),
    .relay (.announce c)]

/-- The agent gets its next message. -/
def agentGets : List Event := [.relay (.deliver 0), .agentReads]

/-- The client gets its next message. -/
def clientGets : List Event := [.relay (.deliver 1), .clientReads 0]

/-- The agent on connection 0. -/
def agentEnters : List Event :=
  [.agent (.connected true), .agent .proceed] ++ enters 0 [10] ++ agentGets

/-- The client on connection 1. -/
def clientEnters : List Event :=
  [.client (.connect "wss://r".toList), .clientConnects 0 1] ++ enters 1 [11] ++ clientGets

theorem readsRelay : ReadsRelay (SerdeJson.knowing known).fromStr := by
  apply readsRelay_knowing
  intro v hv
  rcases List.mem_cons.1 hv with rfl | hv
  · exact Or.inl ⟨_, rfl⟩
  rcases List.mem_cons.1 hv with rfl | hv
  · exact Or.inl ⟨_, rfl⟩
  · exact Or.inr ⟨_, List.mem_singleton.1 hv⟩

/-- An auth message with a token of the sender's choice, sent with the sender's own token. -/
def crafted (bytes : Bytes) : Json :=
  .ofFields [("auth", .str (Hex.encode bytes)), ("token", .str "evil".toList),
    ("type", .str "auth".toList)]

/-- What the three endpoints read when connection 2 sends such a message. -/
def tricked : List Json := crafted [12] :: authJson "evil".toList :: known

def sends : List Event :=
  [.relay (.frame 2 (.text (crafted [12]).encode)), .relay (.forward 2)]

/-- The world of an agent on connection 0, where every endpoint reads the messages of `known`. -/
def world (known : List Json) : World → Event → Option World :=
  World.step (Agent.Sample.session known) (Agent.Sample.dart known) 0

def honestRun : List Event := agentEnters ++ clientEnters

/-- Connection 2 enters the room of the client, and the client reads a ping, the join and the message. -/
def clientRun : List Event :=
  clientEnters ++ enters 2 [12] ++ sends ++ clientGets ++ clientGets ++ clientGets

/-- The agent enters the room of connection 2 and reads the message. -/
def agentRun : List Event := enters 2 [12] ++ agentEnters ++ sends ++ agentGets

end Sample

/-- A run in which agent and client get their tokens. -/
theorem ownTokens_honest :
    (∃ w, Run (stepRel (Sample.world Sample.known)) World.start Sample.honestRun w ∧
      w.run.relayAuthToken = some (Hex.encode [10]) ∧
      w.client.relayAuthToken = some (Hex.encode [11])) ∧
    Along (stepRel (Sample.world Sample.known)) (World.OwnTokens 0) World.start Sample.honestRun := by
  refine ⟨exists_run_of_exec (by decide +kernel), ?_⟩
  apply (ownTokens_iff (Agent.Sample.session Sample.known) (Agent.Sample.dart Sample.known) 0
    Sample.honestRun Sample.readsRelay Sample.readsRelay).2
  exact guarded_of_checkAll (by decide +kernel)

/-- The other member of the room, with its own valid token, replaces the token of the client, and that
of the agent. -/
theorem crafted_token_is_taken :
    (∃ w, Run (stepRel (Sample.world Sample.tricked)) World.start Sample.clientRun w ∧
      w.client.relayAuthToken = some "evil".toList ∧ w.current = some 1 ∧
      w.issued 1 = some (Hex.encode [11])) ∧
    ∃ w, Run (stepRel (Sample.world Sample.tricked)) World.start Sample.agentRun w ∧
      w.run.relayAuthToken = some "evil".toList ∧ w.issued 0 = some (Hex.encode [10]) :=
  ⟨exists_run_of_exec (by decide +kernel), exists_run_of_exec (by decide +kernel)⟩

end Ktty.Protocol.Tokens
