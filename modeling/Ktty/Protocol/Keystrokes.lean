import Ktty.Client.CurrentChannel
import Ktty.Client.Frames
import Ktty.Protocol.Dispatch
import Ktty.Protocol.Forwarding
import Ktty.Protocol.RoundTrip

/-!
# From the keyboard to the PTY

The agent behind a relay that keeps to its code (`Eviction.World`). What the run writes to the PTY for a
connection comes from different messages of the peer of that connection, in their order, and each of them
opens under the session key to what is written (`typed_in_order`). So behind this relay, other than behind
a hostile one, nothing is typed twice or out of order.

The peer may be the client: its socket carries, in order, a part of what a run of `WebSocketService` has
put on one channel. Then what the agent writes is, in order, a part of the keystrokes that the service has
encrypted and sent on that channel (`client_typed_in_order`).
-/

set_option autoImplicit false

namespace Ktty.Protocol.Keystrokes

open Ktty.Wire Ktty.Crypto Ktty.Lib.Execution Ktty.Lib.Trace Ktty.Agent Ktty.Relay
open Ktty.Client (Connection ServiceEvent Dart SessionKey Encryption)
open Ktty.Protocol.Eviction (World)
open Ktty.Protocol.Dispatch (written)

/-! ## What the agent writes -/

/-- A write to the PTY, with the message that caused it and the session key. -/
structure Typed where
  payload : Payload
  key : Bytes
  data : Bytes
  deriving DecidableEq

/-- What the stream of the agent yields for a forwarded payload. -/
def item (p : Payload) : WsItem := Teardown.item (.forwarded p 0)

def bridgeKey (st : RunState) : Bytes :=
  match st.phase with
  | .bridge key _ => key
  | _ => []

/-- What the agent's run writes to the PTY in a step for a message from `c`. -/
def typed (S : Session) (a c : ConnId) (w : World) : Eviction.Event → List Typed
  | .receive =>
      (readsFrom c a w.relay (.receive a)).flatMap fun p =>
        (((S.step w.run (.ws (item p))).toList).flatMap fun r => written r.2).map fun data =>
          { payload := p, key := bridgeKey w.run, data := data }
  | _ => []

/-- The message is an envelope of type `pty` that opens to what is written. -/
def Typed.Opens (L : Crates) (x : Typed) : Prop :=
  ∃ t env sid, x.payload = .text t ∧
    (L.json.fromStr t).bind EncryptedEnvelope.deserialize = some env ∧ env.type = "pty".toList ∧
    openEnvelope L x.key sid env = some x.data

section Agent

variable {S : Session} {st : RunState} {r : RunState × List Effect}

/-- A text in the bridge loop is written to the PTY only as the plaintext of a `pty` envelope. -/
theorem written_bridgeText {L : Crates} {key : Bytes} {sid t : Text} {data : Bytes}
    (h : data ∈ written (bridgeText L key sid st t).effects) :
    written (bridgeText L key sid st t).effects = [data] ∧
      Typed.Opens L { payload := .text t, key := key, data := data } := by
  rw [bridgeText] at h ⊢
  split at h
  · cases h
  · split at h
    · cases h
    · rename_i env henv
      dsimp only at h ⊢
      rw [bridgeEnvelope] at h ⊢
      cases hopen : openEnvelope L key sid env with
      | none =>
          rw [hopen] at h
          cases h
      | some plain =>
          rw [hopen] at h
          dsimp only at h ⊢
          rw [Dispatch.dispatch_written] at h ⊢
          split_ifs at h ⊢ with hpty
          · rw [List.mem_singleton] at h
            subst h
            exact ⟨rfl, t, env, sid, rfl, henv, hpty, hopen⟩
          · cases h

/-- The phases before the bridge loop do not write to the PTY. -/
theorem written_initRecv (st : RunState) (p : Payload) :
    written (initRecv S.crates st (item p)).2 = [] := by
  cases p with
  | binary d => rfl
  | text t =>
      show written (initRecv S.crates st (.text t)).2 = []
      rw [initRecv]
      split
      · rfl
      · cases interceptAuth S.crates t with
        | some token => rfl
        | none =>
            dsimp only
            split <;> rfl

theorem written_waitRecv (st : RunState) (p : Payload) : written (waitRecv st (item p)).2 = [] := by
  cases p with
  | binary d => rfl
  | text t =>
      show written (waitRecv st (.text t)).2 = []
      rw [waitRecv]
      split_ifs <;> rfl

theorem written_handshakeRecv (st : RunState) (dk : Bytes) (p : Payload) :
    written (handshakeRecv S st dk (item p)).2 = [] := by
  cases p with
  | binary d => rfl
  | text t =>
      show written (handshakeRecv S st dk (.text t)).2 = []
      rw [handshakeRecv]
      split
      · rfl
      · cases (S.crates.json.fromStr t).bind RawMessage.deserialize with
        | none => rfl
        | some raw =>
            dsimp only
            cases handshakeReply S.crates.prim dk raw with
            | derived key =>
                dsimp only
                split <;> rfl
            | _ => rfl

/-- Only a text in the bridge loop is written to the PTY. -/
theorem written_step {p : Payload} {data : Bytes} (h : S.step st (.ws (item p)) = some r)
    (hdata : data ∈ written r.2) :
    written r.2 = [data] ∧
      Typed.Opens S.crates { payload := p, key := bridgeKey st, data := data } := by
  rw [step_eq_react (by rintro ⟨⟩)] at h
  have hreacts := reacts_of_react h
  generalize hphase : st.phase = ph at hreacts
  cases hreacts with
  | initRecv =>
      rw [written_initRecv] at hdata
      cases hdata
  | waitRecv =>
      rw [written_waitRecv] at hdata
      cases hdata
  | handshakeRecv =>
      rw [written_handshakeRecv] at hdata
      cases hdata
  | @bridge key sid e turn hturn =>
      obtain rfl := Option.some.inj hturn
      have heffects : (BridgeTurn.resume (bridgeRecv S.crates key sid st (item p))).2 =
          (bridgeRecv S.crates key sid st (item p)).effects := by
        rw [BridgeTurn.resume]
        split <;> rfl
      rw [heffects] at hdata ⊢
      have hkey : bridgeKey st = key := by rw [bridgeKey, hphase]
      rw [hkey]
      cases p with
      | binary d => cases hdata
      | text t => exact written_bridgeText hdata

/-- A message that the run reads from `c` is written at most once. -/
theorem typed_payload (a c : ConnId) (w : World) (e : Eviction.Event) :
    ((typed S a c w e).map Typed.payload).Sublist (Forwarding.agentReads a w c e) := by
  cases e with
  | receive =>
      simp only [typed, Forwarding.agentReads]
      induction readsFrom c a w.relay (.receive a) with
      | nil => exact List.Sublist.refl _
      | cons p ps ih =>
          rw [List.flatMap_cons, List.map_append, List.map_map]
          suffices hfirst : ((((S.step w.run (.ws (item p))).toList).flatMap fun r => written r.2).map
              (Typed.payload ∘ fun data => ⟨p, bridgeKey w.run, data⟩)).Sublist [p] from hfirst.append ih
          cases hstep : S.step w.run (.ws (item p)) with
          | none => exact List.nil_sublist _
          | some r =>
              simp only [Option.toList_some, List.flatMap_cons, List.flatMap_nil, List.append_nil]
              cases hwritten : written r.2 with
              | nil => exact List.nil_sublist _
              | cons data rest =>
                  have hmem : data ∈ written r.2 := by
                    rw [hwritten]
                    exact List.mem_cons_self ..
                  have hone := (written_step hstep hmem).1
                  rw [hwritten] at hone
                  rw [hone]
                  exact List.Sublist.refl _
  | _ => exact List.Sublist.refl _

theorem typed_opens {a c : ConnId} {w : World} {e : Eviction.Event} {x : Typed}
    (hx : x ∈ typed S a c w e) : x.Opens S.crates := by
  cases e with
  | receive =>
      obtain ⟨p, -, hp⟩ := List.mem_flatMap.1 hx
      obtain ⟨data, hdata, rfl⟩ := List.mem_map.1 hp
      obtain ⟨r, hr, hwritten⟩ := List.mem_flatMap.1 hdata
      exact (written_step (Option.mem_toList.1 hr) hwritten).2
  | _ => cases hx

end Agent

/-! ## The client's messages -/

section Client

variable {J : SerdeJson} {D : Dart}

/-- A reader of maps finds the same in an object as the relay forwards it, apart from the token. -/
theorem get?_forwarded {ms : List (Text × Json)} (hnd : (ms.map (·.1)).Nodup) {key : String}
    (hkey : key ≠ "auth") : ((Json.obj ms).remove "auth").sorted.get? key = (Json.obj ms).get? key := by
  obtain ⟨ns, hns, hperm⟩ := Json.exists_sorted (ms.filter fun m => m.1 ≠ "auth".toList)
  have hsorted : ((Json.obj ms).remove "auth").sorted = .obj ns := hns
  have hnd' : (ns.map (·.1)).Nodup :=
    (hperm.map _).nodup_iff.2 (hnd.sublist (List.filter_sublist.map _))
  rw [hsorted]
  by_cases hmem : ∃ v, (key.toList, v) ∈ ms
  · obtain ⟨v, hv⟩ := hmem
    have hother : key.toList ≠ "auth".toList := fun h => hkey (String.toList_inj.1 h)
    have hkept : (key.toList, v) ∈ ns :=
      hperm.mem_iff.2 (List.mem_filter.2 ⟨hv, by simpa using hother⟩)
    rw [Json.get?_of_nodup hnd hv, Json.get?_of_nodup hnd' hkept]
  · push Not at hmem
    have hnone : ∀ m ∈ ms, m.1 ≠ key.toList := by
      rintro ⟨k, v⟩ hm rfl
      exact hmem v hm
    have hnone' : ∀ m ∈ ns, m.1 ≠ key.toList :=
      fun m hm => hnone m (List.mem_filter.1 (hperm.mem_iff.1 hm)).1
    rw [Json.get?_of_notMem hnone, Json.get?_of_notMem hnone']

/-- What the agent reads in a forwarded object. -/
theorem parse_forwarded {ms : List (Text × Json)} (hnd : (ms.map (·.1)).Nodup)
    (h : Decodes J J.fromStr (.obj ms)) {t : Text}
    (ht : forwardMsg J (.text (Json.obj ms).encode) = .text t) :
    ∃ ns, J.fromStr t = some (.obj ns) ∧
      ∀ key, key ≠ "auth" → (Json.obj ns).get? key = (Json.obj ms).get? key := by
  rw [forwardMsg, h.relay] at ht
  dsimp only at ht
  split_ifs at ht
  · -- the token is removed, and the object is written anew
    rw [h.write] at ht
    obtain rfl := Payload.text.inj ht
    obtain ⟨ns, hns, -⟩ := Json.exists_sorted (ms.filter fun m => m.1 ≠ "auth".toList)
    have hsorted : ((Json.obj ms).remove "auth").sorted = .obj ns := hns
    refine ⟨ns, by rw [h.receiver, hsorted], fun key hkey => ?_⟩
    rw [← hsorted]
    exact get?_forwarded hnd hkey
  · obtain rfl := Payload.text.inj ht
    exact ⟨ms, h.relay, fun _ _ => rfl⟩

/-- The members of a message of the client. -/
theorem nodup_withToken (token : Option Text) (fields : List (String × Json))
    (hnd : (fields.map (·.1)).Nodup) (hauth : "auth" ∉ fields.map (·.1)) :
    ((Client.withToken token fields).map (·.1)).Nodup := by
  cases token with
  | none => exact hnd
  | some token =>
      rw [Client.withToken]
      split_ifs
      · exact hnd
      · rw [List.map_append, List.nodup_append]
        refine ⟨hnd, List.nodup_singleton _, ?_⟩
        rintro key hkey _ hm rfl
        have heq : key = "auth" := List.mem_singleton.1 hm
        exact hauth (heq ▸ hkey)

theorem mem_withToken (token : Option Text) {fields : List (String × Json)} {f : String × Json}
    (hf : f.1 ≠ "auth") : f ∈ Client.withToken token fields ↔ f ∈ fields := by
  cases token with
  | none => rfl
  | some token =>
      rw [Client.withToken]
      split_ifs
      · rfl
      · rw [List.mem_append, List.mem_singleton]
        refine ⟨fun h => h.resolve_right ?_, Or.inl⟩
        rintro rfl
        exact hf rfl

/-- A notice reaches the agent without a payload. -/
theorem notice_payload {v : Json} (hv : Connection.IsNotice v) :
    ∃ ms, v = .obj ms ∧ (ms.map (·.1)).Nodup ∧ v.get? "payload" = none := by
  obtain ⟨token, fields, rfl, hkeys⟩ := hv
  have hshape : (fields.map (·.1)).Nodup ∧ "auth" ∉ fields.map (·.1) ∧ "payload" ∉ fields.map (·.1) := by
    generalize fields.map (·.1) = keys at hkeys
    rw [Connection.noticeKeys] at hkeys
    simp only [List.mem_cons, List.not_mem_nil, or_false] at hkeys
    rcases hkeys with rfl | rfl | rfl <;> decide
  obtain ⟨hnd, hauth, hpayload⟩ := hshape
  have hnd' := nodup_withToken token fields hnd hauth
  refine ⟨_, rfl, nodup_keys hnd', Json.get?_of_notMem ?_⟩
  rintro m hm heq
  obtain ⟨f, hf, rfl⟩ := List.mem_map.1 hm
  have hkey : f.1 = "payload" := String.toList_inj.1 heq
  rw [mem_withToken token (by rw [hkey]; decide)] at hf
  exact hpayload (List.mem_map.2 ⟨f, hf, hkey⟩)

/-- An envelope has its type and its payload. -/
theorem envelope_members (token sid : Option Text) (seq : Int) (type payloadB64 : Text) :
    ∃ ms, Json.ofFields (Client.withToken token (Client.envelopeFields seq sid type payloadB64)) =
        .obj ms ∧ (ms.map (·.1)).Nodup ∧ (Json.obj ms).get? "type" = some (.str type) ∧
      (Json.obj ms).get? "payload" = some (.str payloadB64) := by
  have hkeys : (Client.envelopeFields seq sid type payloadB64).map (·.1) =
      ["seq", "session_id", "type", "payload"] := rfl
  have hnd := nodup_withToken token (Client.envelopeFields seq sid type payloadB64)
    (by rw [hkeys]; decide) (by rw [hkeys]; decide)
  refine ⟨_, rfl, nodup_keys hnd, ?_, ?_⟩
  · apply Json.get?_ofFields hnd
    rw [mem_withToken token (by simp)]
    simp [Client.envelopeFields]
  · apply Json.get?_ofFields hnd
    rw [mem_withToken token (by simp)]
    simp [Client.envelopeFields]

end Client

/-- A part of what a list shows through `g`, read off through `h`. -/
theorem sublist_filterMap {α β γ ω : Type} {l : List γ} {g : γ → α} {h : γ → Option β} {xs : List ω}
    {p : ω → α} {d : ω → β} (hsub : (xs.map p).Sublist (l.map g))
    (hd : ∀ y ∈ l, ∀ x ∈ xs, g y = p x → h y = some (d x)) : (xs.map d).Sublist (l.filterMap h) := by
  obtain ⟨l', hl', heq⟩ := List.sublist_map_iff.1 hsub
  have hread : l'.filterMap h = xs.map d := by
    have hd' : ∀ y ∈ l', ∀ x ∈ xs, g y = p x → h y = some (d x) := fun y hy => hd y (hl'.subset hy)
    clear hsub hl' hd
    induction xs generalizing l' with
    | nil =>
        obtain rfl := List.map_eq_nil_iff.1 heq.symm
        rfl
    | cons x xs ih =>
        cases l' with
        | nil => cases heq
        | cons y ys =>
            rw [List.map_cons, List.map_cons, List.cons.injEq] at heq
            have hy := hd' y (List.mem_cons_self ..) x (List.mem_cons_self ..) heq.1.symm
            have hrest := ih ys heq.2 fun y' hy' x' hx' =>
              hd' y' (List.mem_cons_of_mem _ hy') x' (List.mem_cons_of_mem _ hx')
            rw [List.filterMap_cons_some hy, List.map_cons, hrest]
  rw [← hread]
  exact hl'.filterMap h

/-! ## Runs -/

section Runs

variable {S : Session} {a c : ConnId}

theorem typed_sublist (hca : c ≠ a) (es : List Eviction.Event) :
    ((trace (Eviction.step S a) (typed S a c) Eviction.start es).map Typed.payload).Sublist
      ((trace (Eviction.step S a) (fun w => Forwarding.peerSends w c) Eviction.start es).map
        (forwardMsg S.crates.json)) := by
  rw [← trace_map]
  refine List.Sublist.trans ?_ (Forwarding.peer_to_agent S hca es)
  obtain ⟨fs, w, hrun, htrace⟩ :=
    exists_run_trace (α := Payload) (Eviction.step S a) Eviction.start es
  rw [htrace, htrace]
  exact trace_sublist (I := fun _ => True) (fun _ _ _ _ _ => trivial)
    (fun w e _ _ _ => typed_payload a c w e) trivial hrun

theorem opens_of_mem {es : List Eviction.Event} {x : Typed}
    (hx : x ∈ trace (Eviction.step S a) (typed S a c) Eviction.start es) : x.Opens S.crates := by
  obtain ⟨w, e, w', -, -, -, hx⟩ := exists_step_of_mem (I := fun _ => True) (E := fun _ => True)
    (fun _ _ _ _ _ _ => trivial) (fun _ _ => trivial) trivial hx
  exact typed_opens hx

end Runs

/-- What the agent's run writes to the PTY for the peer of `c` comes from different messages of this
peer, in their order, and each message opens under the session key to what is written. -/
theorem typed_in_order (S : Session) {a c : ConnId} (hca : c ≠ a) (es : List Eviction.Event) :
    ((trace (Eviction.step S a) (typed S a c) Eviction.start es).map Typed.payload).Sublist
        ((trace (Eviction.step S a) (fun w => Forwarding.peerSends w c) Eviction.start es).map
          (forwardMsg S.crates.json)) ∧
      ∀ x ∈ trace (Eviction.step S a) (typed S a c) Eviction.start es, x.Opens S.crates :=
  ⟨typed_sublist hca es, fun _ hx => opens_of_mem hx⟩

/-! ## The client behind the relay -/

/-- The keystrokes in an entry of the client's log, if it was sent on this channel. -/
def keystrokes (ch : Client.ChannelId) (x : Client.Frame × Option Encryption) : Option Bytes :=
  if x.1.channel = ch then
    x.2.bind fun enc => if enc.type = "pty".toList then some enc.payload else none
  else none

/-- Ideal AEAD on these calls: under another of these keys than its own no result decrypts. -/
def Ideal (A : Aead) (keys : List Bytes) (encs : List Encryption) : Prop :=
  ∀ key ∈ keys, ∀ enc ∈ encs, enc.key.secret.bytes ≠ key → ∀ n packed,
    encrypt A n enc.key.secret.bytes enc.payload = some packed → decrypt A key packed = none

/-- What the agent opens of an entry of the client's log is what the client has encrypted. -/
theorem opens_logged (E : Ends) {ch : Client.ChannelId} {c m : Connection} {e : ServiceEvent}
    {x : Client.Frame × Option Encryption} {y : Typed} (hstep : c.step E.dart e = some m)
    (hx : x ∈ Connection.logged E.dart c e) (hch : x.1.channel = ch)
    (hdecodes : Decodes E.session.crates.json E.session.crates.json.fromStr x.1.json)
    (hideal : ∀ enc ∈ x.2, Ideal E.session.crates.aead [y.key] [enc])
    (hpayload : forwardMsg E.session.crates.json (.text x.1.json.encode) = y.payload)
    (hopens : y.Opens E.session.crates) : keystrokes ch x = some y.data := by
  obtain ⟨t, env, sid, ht, henv, htype, hopen⟩ := hopens
  rw [ht] at hpayload
  rcases Connection.logged_frame hstep hx with ⟨-, hnotice⟩ | ⟨enc, henc, hof⟩
  · -- a notice has no payload
    obtain ⟨ms, hms, hnd, hnone⟩ := notice_payload hnotice
    rw [hms] at hpayload hdecodes hnone
    obtain ⟨ns, hns, hget⟩ := parse_forwarded hnd hdecodes hpayload
    rw [hns, Option.bind_some] at henv
    obtain ⟨-, -, -, hpayload'⟩ := EncryptedEnvelope.get?_of_deserialize henv
    rw [hget "payload" (by decide), hnone] at hpayload'
    cases hpayload'
  · obtain ⟨packed, hpacked, hjson⟩ := hof.json
    obtain ⟨ms, hms, hnd, hget_type, hget_payload⟩ := envelope_members c.relayAuthToken c.sessionId
      enc.seq enc.type (E.dart.prim.b64Encode packed)
    rw [hjson, hms] at hpayload hdecodes
    obtain ⟨ns, hns, hget⟩ := parse_forwarded hnd hdecodes hpayload
    rw [hns, Option.bind_some] at henv
    obtain ⟨-, -, htype', hpayload'⟩ := EncryptedEnvelope.get?_of_deserialize henv
    rw [hget "type" (by decide), hget_type, Option.some.injEq, Json.str.injEq] at htype'
    rw [hget "payload" (by decide), hget_payload, Option.some.injEq, Json.str.injEq] at hpayload'
    -- the agent decrypts what the client has encrypted
    rw [openEnvelope] at hopen
    split_ifs at hopen
    rw [← hpayload', E.prim_eq, E.session.crates.prim.b64Decode_b64Encode, Option.bind_some] at hopen
    rw [E.aead_eq] at hpacked
    have hdata : y.data = enc.payload := by
      by_cases hkey : enc.key.secret.bytes = y.key
      · rw [← hkey, decrypt_encrypt hpacked] at hopen
        exact (Option.some.inj hopen).symm
      · have hnone := hideal enc henc y.key (List.mem_singleton_self _) enc (List.mem_singleton_self _)
          hkey c.rng packed hpacked
        rw [hnone] at hopen
        cases hopen
    rw [keystrokes, if_pos hch, henc, Option.bind_some, if_pos (htype'.trans htype), hdata]

/-- If the socket of `c` carries what a client has put on one channel, then what the agent's run writes to
the PTY for `c` is, in order, a part of the keystrokes that the client has encrypted and sent there. -/
theorem client_typed_in_order (E : Ends) {a c : ConnId} (hca : c ≠ a) (es : List Eviction.Event)
    {cs : List ServiceEvent} {m : Connection} (hrun : Run (stepRel (Connection.step E.dart)) .new cs m)
    (ch : Client.ChannelId)
    (hdecodes : ∀ f ∈ m.sent, Decodes E.session.crates.json E.session.crates.json.fromStr f.json)
    (hideal : Ideal E.session.crates.aead
      ((trace (Eviction.step E.session a) (typed E.session a c) Eviction.start es).map Typed.key)
      ((trace (Connection.step E.dart) (Connection.logged E.dart) .new cs).filterMap (·.2)))
    (hsocket : (trace (Eviction.step E.session a) (fun w => Forwarding.peerSends w c)
      Eviction.start es).Sublist
        ((m.sent.filter (·.channel = ch)).map fun f => .text f.json.encode)) :
    ((trace (Eviction.step E.session a) (typed E.session a c) Eviction.start es).map
      Typed.data).Sublist
        ((trace (Connection.step E.dart) (Connection.logged E.dart) .new cs).filterMap
          (keystrokes ch)) := by
  set log := trace (Connection.step E.dart) (Connection.logged E.dart) .new cs with hlog
  set writes := trace (Eviction.step E.session a) (typed E.session a c) Eviction.start es with hwrites
  have hsent : m.sent = log.map (·.1) := by
    rw [Connection.logged_frames hrun, ← hlog]
    rfl
  -- the frames of this channel, as the relay forwards them:
  have hsub : (writes.map Typed.payload).Sublist
      ((log.filter (·.1.channel = ch)).map fun x =>
        forwardMsg E.session.crates.json (.text x.1.json.encode)) := by
    refine (typed_sublist hca es).trans ?_
    have hmap := hsocket.map (forwardMsg E.session.crates.json)
    rw [hsent, List.filter_map, List.map_map, List.map_map] at hmap
    exact hmap
  refine (sublist_filterMap hsub ?_).trans (List.filter_sublist.filterMap _)
  intro x hx y hy hpayload
  obtain ⟨hmem, hch⟩ := List.mem_filter.1 hx
  obtain ⟨s, e, s', -, -, hstep, hxs⟩ := exists_step_of_mem (I := fun _ => True) (E := fun _ => True)
    (fun _ _ _ _ _ _ => trivial) (fun _ _ => trivial) trivial hmem
  refine opens_logged E hstep hxs (of_decide_eq_true hch) ?_ ?_ hpayload (opens_of_mem hy)
  · apply hdecodes
    rw [hsent]
    exact List.mem_map_of_mem hmem
  · intro enc henc key hkey enc' henc'
    rw [List.mem_singleton.1 hkey, List.mem_singleton.1 henc']
    exact hideal y.key (List.mem_map_of_mem hy) enc (List.mem_filterMap.2 ⟨x, hmem, henc⟩)

/-! ## A keystroke on small crates -/

namespace Sample

open Agent.Sample (prim aead pad)

/-- The secret that the client encapsulates first, and the session id. -/
def key : Bytes := pad 32 [0, 0]

def sid : Text := Client.deriveSessionId key

def hmac : Json :=
  Eviction.withToken Eviction.Sample.token [("hmac", .str (Lib.Base64.encode
    (computeHmac prim (prim.argon2id Connection.Sample.pin) key))), ("type", .str "handshake".toList)]

def reply : Json := Teardown.Sample.authed (Teardown.Sample.reply [0, 0]) [11]

/-- The keystroke `x`. -/
def keystroke : EncryptedEnvelope :=
  { seq := 1, sessionId := sid, type := "pty".toList
    payload := prim.b64Encode ((encrypt aead 1 key [120]).getD [])
    auth := some (Lib.Hex.encode [11]) }

/-- What the JSON crates have to know. -/
def known : List Json :=
  [joinJson Teardown.Sample.room, authJson (Lib.Hex.encode [10]), Eviction.Sample.boot,
    Eviction.Sample.offer, hmac, reply, (reply.remove "auth").sorted, keystroke.toJson,
    (keystroke.toJson.remove "auth").sorted]

/-- What the agent's offer and HMAC look like behind the relay. -/
def received : List Json :=
  [authJson (Lib.Hex.encode [11]), (Eviction.Sample.offer.remove "auth").sorted,
    (hmac.remove "auth").sorted]

def ends : Ends where
  session := Agent.Sample.session known
  dart := Agent.Sample.dart received
  prim_eq := rfl
  aead_eq := rfl

/-- Agent and client establish a session, and the client sends the keystroke. -/
def worldRun : List Eviction.Event :=
  [.agent (.connected true), .agent .proceed, .upload] ++ Eviction.Sample.enters 0 [10] ++
    Eviction.Sample.reads ++ Eviction.Sample.joins 1 [11] ++ Eviction.Sample.reads ++ [.upload] ++
    Eviction.Sample.reads ++ [.agent .proceed, .agent .proceed] ++ Eviction.Sample.writes ++
    Eviction.Sample.writes ++ [.relay (.frame 1 (.text reply.encode)), .relay (.forward 1)] ++
    Eviction.Sample.reads ++ Eviction.Sample.writes ++
    [.relay (.frame 1 (.text keystroke.toJson.encode)), .relay (.forward 1)] ++ Eviction.Sample.reads

/-- The same on the side of the client. -/
def clientRun : List ServiceEvent :=
  Connection.Sample.connected 0 ++
    [.performHandshake Connection.Sample.pin, .proceed 1,
      .data 0 (authJson (Lib.Hex.encode [11])).encode,
      .data 0 (Eviction.Sample.offer.remove "auth").sorted.encode, .hear 0, .proceed 1,
      .data 0 (hmac.remove "auth").sorted.encode, .hear 0, .proceed 1, .proceed 1,
      .sendEncrypted 1 "pty".toList [120], .encrypted 0]

/-- The frames of the client. -/
theorem sent_clientRun : ∃ c, exec (Connection.step ends.dart) .new clientRun = some c ∧
    c.sent.map (·.json) = [joinJson Teardown.Sample.room, reply, keystroke.toJson] :=
  ⟨_, rfl, rfl⟩

theorem decodes_join : Decodes (.knowing known) (SerdeJson.knowing known).fromStr
    (joinJson Teardown.Sample.room) where
  relay := SerdeJson.fromStr_known (l := []) rfl
  write := rfl
  receiver := SerdeJson.fromStr_known (l := []) rfl

theorem decodes_reply : Decodes (.knowing known) (SerdeJson.knowing known).fromStr reply where
  relay := SerdeJson.fromStr_known (l := known.take 5) (by decide +kernel)
  write := rfl
  receiver := SerdeJson.fromStr_known (l := known.take 6) (by decide +kernel)

theorem decodes_keystroke :
    Decodes (.knowing known) (SerdeJson.knowing known).fromStr keystroke.toJson where
  relay := SerdeJson.fromStr_known (l := known.take 7) (by decide +kernel)
  write := rfl
  receiver := SerdeJson.fromStr_known (l := known.take 8) (by decide +kernel)

end Sample

/-- In the session the agent writes once, and what it writes comes from connection 1. -/
theorem typed_in_order_keystroke :
    (trace (Eviction.step Sample.ends.session 0) (typed Sample.ends.session 0 1) Eviction.start
        Sample.worldRun).length = 1 ∧
      ((trace (Eviction.step Sample.ends.session 0) (typed Sample.ends.session 0 1) Eviction.start
          Sample.worldRun).map Typed.payload).Sublist
        ((trace (Eviction.step Sample.ends.session 0) (fun w => Forwarding.peerSends w 1)
          Eviction.start Sample.worldRun).map (forwardMsg Sample.ends.session.crates.json)) :=
  ⟨by decide +kernel, (typed_in_order Sample.ends.session (by decide) Sample.worldRun).1⟩

/-- The keystroke of the client is written to the PTY. -/
theorem client_typed_in_order_keystroke :
    (trace (Eviction.step Sample.ends.session 0) (typed Sample.ends.session 0 1) Eviction.start
        Sample.worldRun).map Typed.data = [[120]] ∧
      ((trace (Eviction.step Sample.ends.session 0) (typed Sample.ends.session 0 1) Eviction.start
        Sample.worldRun).map Typed.data).Sublist
          ((trace (Connection.step Sample.ends.dart) (Connection.logged Sample.ends.dart) .new
            Sample.clientRun).filterMap (keystrokes 0)) := by
  refine ⟨by decide +kernel, ?_⟩
  obtain ⟨c, hexec, hsent⟩ := Sample.sent_clientRun
  refine client_typed_in_order Sample.ends (by decide) Sample.worldRun (run_of_exec hexec) 0 ?_ ?_ ?_
  · intro f hf
    have hmem : f.json ∈ c.sent.map (·.json) := List.mem_map_of_mem hf
    rw [hsent] at hmem
    simp only [List.mem_cons, List.not_mem_nil, or_false] at hmem
    rcases hmem with h | h | h
    · rw [h]
      exact Sample.decodes_join
    · rw [h]
      exact Sample.decodes_reply
    · rw [h]
      exact Sample.decodes_keystroke
  · -- there is only one session key
    have hone : ∀ key ∈ (trace (Eviction.step Sample.ends.session 0) (typed Sample.ends.session 0 1)
        Eviction.start Sample.worldRun).map Typed.key,
        ∀ enc ∈ (trace (Connection.step Sample.ends.dart) (Connection.logged Sample.ends.dart) .new
          Sample.clientRun).filterMap (·.2), enc.key.secret.bytes = key := by
      decide +kernel
    intro key hkey enc henc hne
    exact absurd (hone key hkey enc henc) hne
  · obtain rfl : c = (exec (Connection.step Sample.ends.dart) .new Sample.clientRun).getD .new := by
      rw [hexec]
      rfl
    decide +kernel

end Ktty.Protocol.Keystrokes
