import Ktty.Agent.Replay
import Ktty.Agent.SyncReq
import Ktty.Client.Outbound
import Ktty.Client.TerminalService
import Ktty.Relay.Room
import Ktty.Wire.FrameSize

/-!
# The size of the frames

The relay does not pass on a text above `MAX_TEXT_FRAME_BYTES`: as a single frame it ends the connection,
in fragments it is dropped. What an endpoint sends under the session key is an envelope, whose size
depends on the number of payload bytes and on the header around it; `Admits` is the exact bound on the
payload. The agent reads the PTY in pieces of at most `READ_BUF_SIZE` bytes, so with a token of the relay
its frames always fit (`agent_admits_of_issued`). The client flushes its input buffer as one payload,
whatever has come together in it. So the frames of a run fit exactly if no payload exceeds its bound
(`frames_fit_iff`), and a long paste exceeds it (`long_paste_exceeds`).
-/

set_option autoImplicit false

namespace Ktty.Protocol.FrameSize

open Ktty.Wire Ktty.Crypto Ktty.Lib Ktty.Lib.Execution Ktty.Agent Ktty.Client
open Ktty.Relay (MAX_TEXT_FRAME_BYTES)

/-! ## Envelopes -/

/-- The base64 functions of the crates and of `dart:convert` use the standard alphabet with padding. -/
def StandardBase64 (P : Primitives Bytes Text) : Prop := ∀ bs, P.b64Encode bs = Base64.encode bs

/-- The relay's size gate takes the frame. -/
def Fits (json : Json) : Prop := byteLen json.encode ≤ MAX_TEXT_FRAME_BYTES

instance : DecidablePred Fits := fun _ => inferInstanceAs (Decidable (_ ≤ _))

/-- A frame with this header has room for `n` payload bytes, their nonce and their tag. -/
def Admits (h : Header) (n : Nat) : Prop := n + (NONCE_LEN + MAC_LEN) ≤ h.capacity MAX_TEXT_FRAME_BYTES

instance (h : Header) (n : Nat) : Decidable (Admits h n) := inferInstanceAs (Decidable (_ ≤ _))

/-- Encryption adds the nonce and the tag. -/
theorem length_encrypt {A : Aead} {n : Nat} {key plain packed : Bytes}
    (h : encrypt A n key plain = some packed) :
    packed.length = plain.length + (NONCE_LEN + MAC_LEN) := by
  rw [encrypt, Option.map_eq_some_iff] at h
  obtain ⟨c, hc, rfl⟩ := h
  rw [List.length_append, A.nonce_length, A.encrypt_length _ _ _ _ hc]
  omega

theorem fits_iff {P : Primitives Bytes Text} {A : Aead} {n : Nat} {key plain packed : Bytes}
    (hb64 : StandardBase64 P) (h : encrypt A n key plain = some packed) (hd : Header) :
    Fits (hd.envelope (P.b64Encode packed)) ↔ Admits hd plain.length := by
  have hlength := length_encrypt h
  have hpos : 0 < packed.length := by
    rw [hlength, NONCE_LEN]
    omega
  rw [Fits, hb64, hd.byteLen_envelope_le_iff hpos, hlength, Admits]

/-- A header as the endpoints make it once the relay has issued a token, of 32 random bytes. -/
structure Usual (h : Header) : Prop where
  seq : (Json.encodeInt h.seq).length ≤ 20
  sessionId : ∃ sid, h.sessionId = some sid ∧ sid.length = 16 ∧ ∀ c ∈ sid, c ∈ Hex.digits
  type : byteLen (Json.quote h.type) ≤ 11
  auth : ∀ token ∈ h.auth, token.length = 64 ∧ ∀ c ∈ token, c ∈ Hex.digits

theorem Usual.overhead_le {h : Header} (hu : Usual h) : h.overhead ≤ 166 := by
  obtain ⟨sid, hsid, hlen, hhex⟩ := hu.sessionId
  have hseq := hu.seq
  have htype := hu.type
  have hid : byteLen h.sessionIdJson.encode = 18 := by
    rw [Header.sessionIdJson, hsid, Option.elim_some, Json.encode,
      byteLen_quote_plain fun c hc => plain_hex (hhex c hc), hlen]
  have hauth : h.auth.elim 0 (fun token => 8 + byteLen (Json.quote token)) ≤ 74 := by
    cases htoken : h.auth with
    | none => exact Nat.zero_le _
    | some token =>
        obtain ⟨hlen', hhex'⟩ := hu.auth token htoken
        rw [Option.elim_some, byteLen_quote_plain fun c hc => plain_hex (hhex' c hc), hlen']
  rw [Header.overhead, hid]
  omega

/-- Under such a header all payloads up to 48986 bytes fit. -/
theorem Usual.admits {h : Header} (hu : Usual h) {n : Nat} (hn : n ≤ 48986) : Admits h n := by
  have hle := hu.overhead_le
  rw [Admits, Header.capacity, NONCE_LEN, MAC_LEN, MAX_TEXT_FRAME_BYTES]
  omega

/-- Under no header fit more than 49112 bytes. -/
theorem Admits.le {h : Header} {n : Nat} (hadmits : Admits h n) : n ≤ 49112 := by
  rw [Admits, Header.capacity, NONCE_LEN, MAC_LEN, MAX_TEXT_FRAME_BYTES] at hadmits
  omega

/-! ## The agent -/

/-- The header of a packet that the bridge loop sends. -/
def packetHeader (sid : Text) (auth : Option Text) (pkt : Packet) : Header :=
  { seq := pkt.seq, sessionId := some sid, type := pkt.msgType, auth := auth }

/-- The warning about a dropped range. -/
def warnPacket (range : Nat × Nat) : Packet :=
  { seq := 0, msgType := "sync_warn".toList, payload := toVec (syncWarnJson range.1 range.2) }

/-- The packets of the answer to a sync request. -/
def answerPackets (rb : RingBuffer) (lastSeq : Nat) : List Packet :=
  (rb.packetsSince lastSeq).2.toList.map warnPacket ++ (rb.packetsSince lastSeq).1

/-- The packets that the bridge loop encrypts and sends on an event. -/
def bridgeSends (L : Crates) (key : Bytes) (sid : Text) (st : RunState) : Agent.Event → List Packet
  | .pty (some data) => if st.writerAlive then [ptyPacket (st.seq + 1) data] else []
  | .ws (.text t) =>
      match syncLast L key sid t with
      | some lastSeq => if st.writerAlive then answerPackets st.ringBuffer lastSeq else []
      | none => []
  | _ => []

/-- The headers and the payload lengths of what the agent encrypts and sends on an event. -/
def agentSends (L : Crates) (st : RunState) (e : Agent.Event) : List (Header × Nat) :=
  match st.phase with
  | .bridge key sid =>
      (bridgeSends L key sid st e).map fun pkt =>
        (packetHeader sid st.relayAuthToken pkt, pkt.payload.length)
  | _ => []

section Agent

variable {L : Crates} {st : RunState} {chunks : List Bytes} {key : Bytes} {sid : Text}

/-- A packet of a run whose numbers are `u64`: a chunk of the reader, or a warning. -/
structure Ordinary (pkt : Packet) : Prop where
  seq : pkt.seq < 2 ^ 64
  msgType : pkt.msgType = "pty".toList ∨ pkt.msgType = "sync_warn".toList
  payload : pkt.payload.length ≤ READ_BUF_SIZE

theorem Ordinary.type_le {pkt : Packet} (h : Ordinary pkt) : byteLen (Json.quote pkt.msgType) ≤ 11 := by
  rcases h.msgType with hpty | hwarn
  · rw [hpty]
    decide
  · rw [hwarn]
    decide

theorem sealPacket_fits_iff (key : Bytes) (sid : Text) (hb64 : StandardBase64 L.prim)
    (auth : Option Text) (n : Nat) {pkt : Packet} (hord : Ordinary pkt) :
    (∀ env ∈ (sealPacket L key sid auth n pkt.seq pkt.msgType pkt.payload).toList, Fits env.toJson) ↔
      Admits (packetHeader sid auth pkt) pkt.payload.length := by
  have hshort : pkt.payload.length < 64 * (2 ^ 32 - 1) := by
    have hle := hord.payload
    rw [READ_BUF_SIZE] at hle
    omega
  obtain ⟨packed, hpacked⟩ := Option.isSome_iff_exists.1 (encrypt_isSome (A := L.aead) n key hshort)
  rw [sealPacket, hpacked, Option.map_some, Option.toList_some, List.forall_mem_singleton]
  exact fits_iff hb64 hpacked (packetHeader sid auth pkt)

theorem replay_fits_iff (hb64 : StandardBase64 L.prim) (auth : Option Text) (n : Nat)
    {pkts : List Packet} (hord : ∀ pkt ∈ pkts, Ordinary pkt) :
    (∀ env ∈ replay L key sid auth n pkts, Fits env.toJson) ↔
      ∀ pkt ∈ pkts, Admits (packetHeader sid auth pkt) pkt.payload.length := by
  induction pkts generalizing n with
  | nil => exact iff_of_true (fun env henv => by cases henv) (fun pkt hpkt => by cases hpkt)
  | cons pkt pkts ih =>
      have hhead := sealPacket_fits_iff key sid hb64 auth n
        (hord pkt List.mem_cons_self)
      have htail := ih (n + 1) fun q hq => hord q (List.mem_cons_of_mem pkt hq)
      rw [replay, List.forall_mem_append, hhead, htail, List.forall_mem_cons]

theorem answerSync_fits_iff (hb64 : StandardBase64 L.prim) {lastSeq : Nat}
    (hord : ∀ pkt ∈ answerPackets st.ringBuffer lastSeq, Ordinary pkt) :
    (∀ env ∈ (answerSync L key sid st lastSeq).2, Fits env.toJson) ↔
      ∀ pkt ∈ answerPackets st.ringBuffer lastSeq,
        Admits (packetHeader sid st.relayAuthToken pkt) pkt.payload.length := by
  rw [answerPackets] at hord ⊢
  obtain ⟨hwarn, hkept⟩ := List.forall_mem_append.1 hord
  rw [answerSync, List.forall_mem_append, List.forall_mem_append, replay_fits_iff hb64 _ _ hkept]
  apply and_congr_left
  intro _
  cases hdropped : (st.ringBuffer.packetsSince lastSeq).2 with
  | none => simp [syncWarn]
  | some range =>
      rw [hdropped] at hwarn
      have hseal := sealPacket_fits_iff key sid hb64 st.relayAuthToken st.rng
        (hwarn (warnPacket range) (by simp))
      rw [syncWarn, Option.toList_some, List.map_cons, List.map_nil, List.forall_mem_singleton]
      exact hseal

theorem dropped_eq {rb : RingBuffer} {lastSeq start stop : Nat}
    (h : (rb.packetsSince lastSeq).2 = some (start, stop)) :
    ∃ oldest, rb.oldestSeq = some oldest ∧ start < 2 ^ 64 ∧ stop = oldest - 1 := by
  rw [RingBuffer.packetsSince] at h
  dsimp only at h
  split at h
  · rename_i oldest holdest
    split at h
    · cases h
      exact ⟨oldest, holdest, Nat.mod_lt _ (by omega), rfl⟩
    · cases h
  · cases h

/-- The numbers of the stored chunks are at most that of the last chunk. -/
theorem oldestSeq_le (hst : Recent st chunks) {oldest : Nat}
    (h : st.ringBuffer.oldestSeq = some oldest) : oldest ≤ chunks.length := by
  rw [RingBuffer.oldestSeq, Option.map_eq_some_iff] at h
  obtain ⟨pkt, hpkt, rfl⟩ := h
  obtain ⟨-, -, hget⟩ := mem_packetsOf (hst.buf.subset (List.mem_of_mem_head? hpkt))
  have hlt := (List.getElem?_eq_some_iff.1 hget).1
  omega

/-- The warning and the stored chunks. -/
theorem ordinary_answerPackets (hst : Recent st chunks) (hcount : chunks.length < 2 ^ 64)
    (lastSeq : Nat) : ∀ pkt ∈ answerPackets st.ringBuffer lastSeq, Ordinary pkt := by
  intro pkt hpkt
  rcases List.mem_append.1 hpkt with hwarn | hkept
  · obtain ⟨⟨start, stop⟩, hrange, rfl⟩ := List.mem_map.1 hwarn
    obtain ⟨oldest, holdest, hstart, rfl⟩ := dropped_eq (Option.mem_toList.1 hrange)
    have holdest_le := oldestSeq_le hst holdest
    have hbody := length_syncWarn_le hstart (show oldest - 1 < 2 ^ 64 by omega)
    exact ⟨Nat.two_pow_pos 64, Or.inr rfl, hbody.trans (by decide)⟩
  · obtain ⟨-, htype, hget⟩ := mem_packetsOf (hst.buf.subset (List.mem_of_mem_filter hkept))
    have hlt := (List.getElem?_eq_some_iff.1 hget).1
    exact ⟨by omega, Or.inl htype, hst.fits _ (List.mem_of_getElem? hget)⟩

theorem ordinary_bridgeSends (hst : Recent st chunks) {e : Agent.Event} (hfit : e.fitsBuffer = true)
    (hcount : st.seq + e.chunk.length < 2 ^ 64) :
    ∀ pkt ∈ bridgeSends L key sid st e, Ordinary pkt := by
  intro pkt hpkt
  cases e with
  | pty result =>
      cases result with
      | none => cases hpkt
      | some data =>
          rw [bridgeSends] at hpkt
          split at hpkt
          · rw [List.mem_singleton.1 hpkt]
            exact ⟨hcount, Or.inl rfl, of_decide_eq_true hfit⟩
          · cases hpkt
  | ws item =>
      cases item with
      | text t =>
          rw [bridgeSends] at hpkt
          split at hpkt
          · split at hpkt
            · exact ordinary_answerPackets hst (hst.seq ▸ hcount) _ pkt hpkt
            · cases hpkt
          · cases hpkt
      | _ => cases hpkt
  | _ => cases hpkt

theorem bridgeEmits_fits_iff (hb64 : StandardBase64 L.prim) {e : Agent.Event}
    (hord : ∀ pkt ∈ bridgeSends L key sid st e, Ordinary pkt) :
    (∀ env ∈ bridgeEmits L key sid st e, Fits env.toJson) ↔
      ∀ pkt ∈ bridgeSends L key sid st e,
        Admits (packetHeader sid st.relayAuthToken pkt) pkt.payload.length := by
  have hnone : (∀ env ∈ ([] : List EncryptedEnvelope), Fits env.toJson) ↔
      ∀ pkt ∈ ([] : List Packet), Admits (packetHeader sid st.relayAuthToken pkt) pkt.payload.length :=
    iff_of_true (fun env henv => by cases henv) (fun pkt hpkt => by cases hpkt)
  cases e with
  | pty result =>
      cases result with
      | none => exact hnone
      | some data =>
          rw [bridgeEmits, bridgeSends] at *
          split
          · rename_i halive
            rw [if_pos halive] at hord
            rw [List.forall_mem_singleton]
            exact sealPacket_fits_iff key sid hb64 st.relayAuthToken st.rng
              (hord (ptyPacket (st.seq + 1) data) List.mem_cons_self)
          · exact hnone
  | ws item =>
      cases item with
      | text t =>
          rw [bridgeEmits, bridgeSends] at *
          cases hlast : syncLast L key sid t with
          | none => exact hnone
          | some lastSeq =>
              rw [hlast] at hord
              dsimp only at hord ⊢
              split
              · rename_i halive
                rw [if_pos halive] at hord
                exact answerSync_fits_iff hb64 hord
              · exact hnone
      | _ => exact hnone
  | _ => exact hnone

/-- What the agent sends on an event fits exactly if every payload does. -/
theorem emits_fits_iff (hb64 : StandardBase64 L.prim) (hst : Recent st chunks)
    {e : Agent.Event} (hfit : e.fitsBuffer = true) (hcount : st.seq + e.chunk.length < 2 ^ 64) :
    (∀ env ∈ emits L st e, Fits env.toJson) ↔ ∀ x ∈ agentSends L st e, Admits x.1 x.2 := by
  rw [emits, agentSends]
  cases st.phase with
  | bridge key sid =>
      dsimp only
      rw [List.forall_mem_map]
      exact bridgeEmits_fits_iff hb64 (ordinary_bridgeSends hst hfit hcount)
  | _ => exact iff_of_true (fun env henv => by cases henv) (fun x hx => by cases hx)

/-- With a token that the relay has issued, everything that the agent sends fits. -/
theorem agent_admits_of_issued (hst : Recent st chunks) {e : Agent.Event} (hfit : e.fitsBuffer = true)
    (hcount : st.seq + e.chunk.length < 2 ^ 64)
    (hsid : ∀ key sid, st.phase = .bridge key sid → sid.length = 16 ∧ ∀ c ∈ sid, c ∈ Hex.digits)
    (htoken : ∀ token ∈ st.relayAuthToken, token.length = 64 ∧ ∀ c ∈ token, c ∈ Hex.digits) :
    ∀ x ∈ agentSends L st e, Admits x.1 x.2 := by
  intro x hx
  rw [agentSends] at hx
  split at hx
  · rename_i key sid hphase
    obtain ⟨pkt, hpkt, rfl⟩ := List.mem_map.1 hx
    have hord := ordinary_bridgeSends hst hfit hcount pkt hpkt
    apply Usual.admits
    · constructor
      · exact length_encodeInt hord.seq
      · exact ⟨sid, rfl, hsid key sid hphase⟩
      · exact hord.type_le
      · exact htoken
    · exact hord.payload.trans (by decide)
  · cases hx

end Agent

/-! ## The client -/

/-- The header of the envelope in which the client sends the result of an encryption now. -/
def sentHeader (c : Connection) (enc : Encryption) : Header :=
  { seq := enc.seq, sessionId := c.sessionId, type := enc.type, auth := c.relayAuthToken }

/-- An encryption that ends now sends a payload that fits, or nothing: no channel is open, or the cipher
refuses the payload. -/
def FinishAdmits (D : Dart) (c : Connection) (enc : Encryption) : Prop :=
  c.channel.isSome = true →
    (encrypt D.aead c.rng enc.key.secret.bytes enc.payload).isSome = true →
      Admits (sentHeader c enc) enc.payload.length

instance (D : Dart) (c : Connection) (enc : Encryption) : Decidable (FinishAdmits D c enc) :=
  inferInstanceAs (Decidable (_ → _ → _))

/-- The frames with an encrypted payload fit. -/
def SealedFits (c : Connection) : Prop := ∀ f ∈ c.sent, f.sealedUnder.isSome = true → Fits f.json

section Client

variable {D : Dart} {c m : Connection} {enc : Encryption}

theorem sealedFits_of_plain (h : Connection.Plain c m) (hfits : SealedFits c) : SealedFits m := by
  intro f hf hsealed
  rcases h f hf with hold | hplain
  · exact hfits f hold hsealed
  · rw [hplain] at hsealed
    cases hsealed

theorem sealedFits_append (f : Frame) {k : SessionKey} (hsent : m.sent = c.sent ++ [f])
    (hsealed : f.sealedUnder = some k) (hfits : SealedFits c) : SealedFits m ↔ Fits f.json := by
  rw [SealedFits, hsent, List.forall_mem_append, List.forall_mem_singleton, hsealed]
  exact ⟨fun h => h.2 rfl, fun h => ⟨hfits, fun _ => h⟩⟩

theorem finishEncryption_fits_iff (enc : Encryption) (hb64 : StandardBase64 D.prim)
    (hfits : SealedFits c) :
    SealedFits (c.finishEncryption D enc) ↔ FinishAdmits D c enc := by
  rw [FinishAdmits, Connection.finishEncryption]
  cases hencrypt : encrypt D.aead c.rng enc.key.secret.bytes enc.payload with
  | none => exact iff_of_true hfits fun _ hsome => by cases hsome
  | some packed =>
      dsimp only
      rw [Connection.sendJson, Connection.send]
      cases hchannel : c.channel with
      | none => exact iff_of_true hfits fun hsome => by cases hsome
      | some ch =>
          rw [sealedFits_append (c := c) _ rfl rfl hfits, withToken_envelopeFields,
            ← fits_iff hb64 hencrypt (sentHeader c enc)]
          exact ⟨fun h _ _ => h, fun h => h rfl rfl⟩

/-- Nothing but the end of an encryption sends an encrypted payload. -/
theorem plain_step {e : ServiceEvent} (h : c.step D e = some m) (hne : ∀ i, e ≠ .encrypted i) :
    Connection.Plain c m := by
  cases Connection.step_change h with
  | keeps hsame => exact hsame.plain
  | clears hcleared => exact hcleared.plain
  | opens => exact Connection.plain_of_sent rfl
  | installs hstage => exact Connection.plain_of_sent rfl
  | encrypts henc hsame => exact absurd rfl (hne _)

end Client

/-! ## The world -/

/-- A run of the agent and a client; what reaches them is arbitrary. -/
structure World where
  run : RunState
  /-- The envelopes that the bridge loop has sent. -/
  emitted : List EncryptedEnvelope
  terminal : TerminalService
  link : Connection

inductive Event where
  | agent (e : Agent.Event)
  | terminal (e : TerminalEvent)
  | attach (syncExisting : Bool)
  /-- `sendResize`. -/
  | resize (cols rows : Int)
  /-- The connection takes a step that is not a call of the terminal service. -/
  | link (e : ServiceEvent)

/-- The session as the terminal service sees it. -/
def view (c : Connection) : WebSocketService :=
  { crypto := c.crypto.map fun k => k.secret.bytes, sessionId := c.sessionId }

/-- The calls of the terminal service, up to their `await`. -/
def call (c : Connection) : TerminalEffect → Connection
  | .sendPty seq data => c.sendEncrypted seq "pty".toList data
  | .syncRequest lastSeq => c.sendSyncRequest lastSeq
  | .output _ _ _ => c
  | .echo _ => c
  | .warning _ _ => c

def isSession : TerminalEvent → Bool
  | .session _ => true
  | _ => false

def isCall : ServiceEvent → Bool
  | .sendEncrypted _ _ _ => true
  | .sendSyncRequest _ => true
  | _ => false

namespace World

def start : World :=
  { run := Session.start, emitted := [], terminal := .new (view .new), link := .new }

variable (S : Session) (D : Dart) (w : World)

/-- The terminal service, which looks at the session through its reference to the connection. -/
def service : TerminalService := { w.terminal with ws := view w.link }

def did (r : TerminalService × List TerminalEffect) : World :=
  { w with terminal := r.1, link := r.2.foldl call w.link }

def step : Event → Option World
  | .agent e =>
      -- a chunk of the reader with a number that is a `u64`:
      if e.fitsBuffer && decide (w.run.seq + e.chunk.length < 2 ^ 64) then
        (S.step w.run e).map fun r => { w with run := r.1, emitted := w.emitted ++ envelopes r.2 }
      else none
  | .terminal e => if isSession e then none else (w.service.step D e).map w.did
  | .attach syncExisting => some (w.did (w.service.attach syncExisting))
  | .resize cols rows =>
      let seq := w.terminal.seq + 1
      some { w with
        terminal := { w.terminal with seq := seq }
        link := w.link.sendEncrypted seq "resize".toList (toVec (resizeJson cols rows)) }
  | .link e => if isCall e then none else (w.link.step D e).map fun c => { w with link := c }

/-- Every frame sent under a session key fits. -/
structure AllFit : Prop where
  agent : ∀ env ∈ w.emitted, Fits env.toJson
  client : SealedFits w.link

/-- The number of the encryption that ends. -/
def ending : ServiceEvent → Option Nat
  | .encrypted i => some i
  | _ => none

/-- The condition on a step: the payloads that it sends are within the bounds of their headers. -/
def SendsAdmitted : Event → Prop
  | .agent e => ∀ x ∈ agentSends S.crates w.run e, Admits x.1 x.2
  | .link e => ∀ i ∈ ending e, ∀ enc ∈ w.link.encryptions[i]?, FinishAdmits D w.link enc
  | _ => True

instance (e : Event) : Decidable (w.SendsAdmitted S D e) :=
  match e with
  | .agent e => inferInstanceAs (Decidable (∀ x ∈ agentSends S.crates w.run e, _))
  | .terminal _ => isTrue trivial
  | .attach _ => isTrue trivial
  | .resize _ _ => isTrue trivial
  | .link e => inferInstanceAs (Decidable (∀ i ∈ ending e, ∀ enc ∈ w.link.encryptions[i]?, _))

end World

section Step

variable {S : Session} {D : Dart} {w w' : World}

theorem call_plain (c : Connection) (eff : TerminalEffect) : Connection.Plain c (call c eff) := by
  cases eff with
  | sendPty seq data => exact (Connection.sendEncrypted_kept seq _ data).plain
  | syncRequest lastSeq => exact (Connection.sendSyncRequest_kept lastSeq).plain
  | _ => exact Connection.plain_rfl c

theorem calls_plain (c : Connection) (effs : List TerminalEffect) :
    Connection.Plain c (effs.foldl call c) := by
  induction effs generalizing c with
  | nil => exact Connection.plain_rfl c
  | cons eff effs ih => exact (call_plain c eff).trans (ih (call c eff))

/-- The run of the agent has stored its chunks. -/
def Inv (w : World) : Prop := ∃ chunks, Recent w.run chunks

theorem agent_eq {e : Agent.Event} (h : w.step S D (.agent e) = some w') :
    e.fitsBuffer = true ∧ w.run.seq + e.chunk.length < 2 ^ 64 ∧
      ∃ r, S.step w.run e = some r ∧
        w' = { w with run := r.1, emitted := w.emitted ++ envelopes r.2 } := by
  rw [World.step] at h
  split at h
  · rename_i hguard
    rw [Bool.and_eq_true, decide_eq_true_iff] at hguard
    obtain ⟨r, hr, rfl⟩ := Option.map_eq_some_iff.1 h
    exact ⟨hguard.1, hguard.2, r, hr, rfl⟩
  · cases h

theorem terminal_eq {e : TerminalEvent} (h : w.step S D (.terminal e) = some w') :
    ∃ r, w.service.step D e = some r ∧ w' = w.did r := by
  rw [World.step] at h
  split at h
  · cases h
  · obtain ⟨r, hr, rfl⟩ := Option.map_eq_some_iff.1 h
    exact ⟨r, hr, rfl⟩

theorem link_eq {e : ServiceEvent} (h : w.step S D (.link e) = some w') :
    ∃ c, w.link.step D e = some c ∧ w' = { w with link := c } := by
  rw [World.step] at h
  split at h
  · cases h
  · obtain ⟨c, hc, rfl⟩ := Option.map_eq_some_iff.1 h
    exact ⟨c, hc, rfl⟩

/-- A step that is not one of the agent leaves its run and its envelopes alone. -/
theorem step_run {e : Event} (h : w.step S D e = some w') (hne : ∀ e', e ≠ .agent e') :
    w'.run = w.run ∧ w'.emitted = w.emitted := by
  cases e with
  | agent e => exact absurd rfl (hne e)
  | terminal e =>
      obtain ⟨r, -, rfl⟩ := terminal_eq h
      exact ⟨rfl, rfl⟩
  | attach syncExisting =>
      obtain rfl := Option.some.inj h
      exact ⟨rfl, rfl⟩
  | resize cols rows =>
      obtain rfl := Option.some.inj h
      exact ⟨rfl, rfl⟩
  | link e =>
      obtain ⟨c, -, rfl⟩ := link_eq h
      exact ⟨rfl, rfl⟩

theorem inv_step {e : Event} (hw : Inv w) (h : w.step S D e = some w') : Inv w' := by
  obtain ⟨chunks, hst⟩ := hw
  by_cases hagent : ∃ e', e = .agent e'
  · obtain ⟨e', rfl⟩ := hagent
    obtain ⟨hfit, -, r, hr, rfl⟩ := agent_eq h
    exact ⟨chunks ++ e'.chunk, step_recent hst hfit hr⟩
  · obtain ⟨hrun, -⟩ := step_run h fun e' he => hagent ⟨e', he⟩
    exact ⟨chunks, hrun ▸ hst⟩

theorem agent_iff (hb64 : StandardBase64 S.crates.prim) (hw : Inv w) (hfits : w.AllFit)
    {e : Agent.Event} (h : w.step S D (.agent e) = some w') :
    w'.AllFit ↔ w.SendsAdmitted S D (.agent e) := by
  obtain ⟨chunks, hst⟩ := hw
  obtain ⟨hfit, hcount, r, hr, rfl⟩ := agent_eq h
  have hemits := emits_fits_iff hb64 hst hfit hcount
  rw [← (step_outputs hr).envelopes] at hemits
  rw [World.SendsAdmitted, ← hemits]
  constructor
  · intro hfits' env henv
    exact hfits'.agent env (List.mem_append_right _ henv)
  · intro hnew
    refine ⟨fun env henv => ?_, hfits.client⟩
    rcases List.mem_append.1 henv with hold | henv
    · exact hfits.agent env hold
    · exact hnew env henv

theorem encrypted_iff (hb64 : StandardBase64 D.prim) (hfits : w.AllFit) {i : Nat}
    (h : w.step S D (.link (.encrypted i)) = some w') :
    w'.AllFit ↔ w.SendsAdmitted S D (.link (.encrypted i)) := by
  obtain ⟨c, hc, rfl⟩ := link_eq h
  obtain ⟨enc, henc, rfl⟩ := Option.map_eq_some_iff.1 hc
  have hfinish := finishEncryption_fits_iff enc
    (c := { w.link with encryptions := w.link.encryptions.eraseIdx i }) hb64 hfits.client
  constructor
  · intro hfits' j hj enc' henc'
    obtain rfl := Option.some.inj hj
    obtain rfl := Option.mem_unique henc' henc
    exact hfinish.1 hfits'.client
  · intro hadmits
    exact ⟨hfits.agent, hfinish.2 (hadmits i rfl enc henc)⟩

/-- One step out of a world in which all frames fit. -/
theorem allFit_step (hagent : StandardBase64 S.crates.prim) (hclient : StandardBase64 D.prim)
    {e : Event} (hw : Inv w) (hfits : w.AllFit) (h : w.step S D e = some w') :
    w'.AllFit ↔ w.SendsAdmitted S D e := by
  cases e with
  | agent e => exact agent_iff hagent hw hfits h
  | terminal e =>
      refine iff_of_true ?_ trivial
      obtain ⟨r, -, rfl⟩ := terminal_eq h
      exact ⟨hfits.agent, sealedFits_of_plain (calls_plain _ _) hfits.client⟩
  | attach syncExisting =>
      refine iff_of_true ?_ trivial
      obtain rfl := Option.some.inj h
      exact ⟨hfits.agent, sealedFits_of_plain (calls_plain _ _) hfits.client⟩
  | resize cols rows =>
      refine iff_of_true ?_ trivial
      obtain rfl := Option.some.inj h
      exact ⟨hfits.agent,
        sealedFits_of_plain (Connection.sendEncrypted_kept _ _ _).plain hfits.client⟩
  | link e =>
      by_cases henc : ∃ i, e = .encrypted i
      · obtain ⟨i, rfl⟩ := henc
        exact encrypted_iff hclient hfits h
      · have hne : ∀ i, e ≠ .encrypted i := fun i he => henc ⟨i, he⟩
        have hadmits : w.SendsAdmitted S D (.link e) := by
          cases e with
          | encrypted i => exact absurd rfl (hne i)
          | _ => exact fun i hi => by cases hi
        refine iff_of_true ?_ hadmits
        obtain ⟨c, hc, rfl⟩ := link_eq h
        exact ⟨hfits.agent, sealedFits_of_plain (plain_step hc hne) hfits.client⟩

end Step

/-! ## Runs -/

theorem inv_start : Inv World.start := ⟨[], recent_start⟩

theorem allFit_start : World.start.AllFit where
  agent _ h := by cases h
  client _ h := by cases h

/-- All frames fit exactly in the runs that send no payload beyond the bound of its header. -/
theorem frames_fit_iff (S : Session) (D : Dart) (es : List Event)
    (hagent : StandardBase64 S.crates.prim) (hclient : StandardBase64 D.prim) :
    Along (stepRel (World.step S D)) World.AllFit World.start es ↔
      Guarded (stepRel (World.step S D)) (World.SendsAdmitted S D) World.start es := by
  apply along_iff_guarded (I := Inv)
  · intro w e w' hw h
    exact inv_step hw h
  · intro w e w' hw hfits h
    exact allFit_step hagent hclient hw hfits h
  · exact inv_start
  · exact allFit_start

/-! ## Long pastes -/

/-- A payload beyond the bound is sent in a frame that does not fit. -/
theorem finish_exceeds {D : Dart} {c : Connection} {enc : Encryption} (hb64 : StandardBase64 D.prim)
    (hchannel : c.channel.isSome = true) (hcipher : enc.payload.length < 64 * (2 ^ 32 - 1))
    (hlong : ¬ Admits (sentHeader c enc) enc.payload.length) :
    ¬ SealedFits (c.finishEncryption D enc) := by
  intro hfits'
  have hfits : SealedFits c := by
    intro f hf
    rcases Connection.finishEncryption_sent (D := D) (c := c) enc with hsent | ⟨g, hsent, -⟩
    · exact hfits' f (hsent ▸ hf)
    · exact hfits' f (hsent ▸ List.mem_append_left _ hf)
  have hadmits := (finishEncryption_fits_iff enc hb64 hfits).1 hfits'
  exact hlong (hadmits hchannel (encrypt_isSome c.rng enc.key.secret.bytes hcipher))

/-- The client pastes `bytes`, the flush timer fires and the encryption ends. -/
def pasting (w : World) (bytes : Bytes) : List Event :=
  [.terminal (.injected bytes), .terminal .flush, .link (.encrypted w.link.encryptions.length)]

/-- A paste of more than 49112 bytes in an established session leads to a frame that does not fit. -/
theorem long_paste_exceeds {S : Session} {D : Dart} {w : World} {k : SessionKey} {sid : Text}
    (hb64 : StandardBase64 D.prim) (hcrypto : w.link.crypto = some k)
    (hsid : w.link.sessionId = some sid) (hchannel : w.link.channel.isSome = true) {bytes : Bytes}
    (hlong : 49112 < bytes.length)
    (hcipher : (w.terminal.inputBuffer ++ bytes).length < 64 * (2 ^ 32 - 1)) :
    ∃ w', Run (stepRel (World.step S D)) w (pasting w bytes) w' ∧ ¬ w'.AllFit := by
  let enc : Encryption :=
    { key := k, seq := w.terminal.seq + 1, type := "pty".toList
      payload := w.terminal.inputBuffer ++ bytes }
  have hlen : 49112 < enc.payload.length := by
    rw [List.length_append]
    omega
  have hflush : ({ w.service with inputBuffer := enc.payload } : TerminalService).flushInput =
      ({ w.service with inputBuffer := [], seq := enc.seq, sending := w.terminal.sending + 1 },
        [.sendPty enc.seq enc.payload]) := by
    have hne : enc.payload ≠ [] := List.ne_nil_of_length_pos (by omega)
    rw [TerminalService.flushInput, if_neg hne]
    rfl
  have hcall : w.link.sendEncrypted enc.seq enc.type enc.payload =
      { w.link with encryptions := w.link.encryptions ++ [enc] } :=
    Connection.sendEncrypted_eq hcrypto hsid _ _ _
  let typed : World := w.did ({ w.service with inputBuffer := enc.payload }, [])
  let flushed : World :=
    { w with
      terminal := { w.service with
        inputBuffer := [], seq := enc.seq, sending := w.terminal.sending + 1 }
      link := { w.link with encryptions := w.link.encryptions ++ [enc] } }
  have hstep₁ : w.step S D (.terminal (.injected bytes)) = some typed := rfl
  have hstep₂ : typed.step S D (.terminal .flush) = some flushed := by
    have hservice : typed.service = { w.service with inputBuffer := enc.payload } := rfl
    show some (typed.did typed.service.flushInput) = _
    rw [hservice, hflush]
    show some { flushed with link := w.link.sendEncrypted enc.seq enc.type enc.payload } = _
    rw [hcall]
  have hstep₃ : flushed.step S D (.link (.encrypted w.link.encryptions.length)) =
      some { flushed with link := w.link.finishEncryption D enc } := by
    show (Connection.step D flushed.link _).map _ = _
    rw [Connection.step_encrypted_last enc]
    rfl
  refine ⟨_, Run.cons hstep₁ (Run.cons hstep₂ (Run.cons hstep₃ (Run.nil _))), fun hall => ?_⟩
  have hexceeds : ¬ Admits (sentHeader w.link enc) enc.payload.length := by
    intro hadmits
    have hle := hadmits.le
    omega
  exact finish_exceeds hb64 hchannel hcipher hexceeds hall.client

/-! ## Sample runs -/

namespace Sample

/-- The client establishes a session. -/
def session : List Event := Connection.Sample.session.map Event.link

/-- A paste, which the flush timer sends. -/
def pasted (bytes : Bytes) : List Event :=
  [.terminal (.injected bytes), .terminal .flush, .link (.encrypted 0)]

/-- The agent bridges and sends a chunk, and the client pastes two bytes. -/
def shortRun : List Event :=
  (Agent.Sample.reading 1).map Event.agent ++ session ++ pasted [104, 105]

/-- A paste of 50000 bytes. -/
def longPaste : Bytes := List.replicate 50000 120

end Sample

/-- A run in which agent and client send frames that fit. -/
theorem frames_fit_short :
    (∃ w, Run (stepRel (World.step Agent.Sample.handshaken Connection.Sample.dart)) World.start
        Sample.shortRun w ∧
      w.emitted.length = 1 ∧ (w.link.sent.filter fun f => f.sealedUnder.isSome).length = 1) ∧
    Along (stepRel (World.step Agent.Sample.handshaken Connection.Sample.dart)) World.AllFit
      World.start Sample.shortRun := by
  refine ⟨exists_run_of_exec (by decide +kernel), ?_⟩
  apply (frames_fit_iff Agent.Sample.handshaken Connection.Sample.dart Sample.shortRun
    (fun _ => rfl) (fun _ => rfl)).2
  exact guarded_of_checkAll (by decide +kernel)

/-- The client establishes a session and pastes 50000 bytes, in a frame that does not fit. -/
theorem pasted_frame_exceeds :
    ∃ w, Run (stepRel (World.step Agent.Sample.handshaken Connection.Sample.dart)) World.start
      (Sample.session ++ Sample.pasted Sample.longPaste) w ∧ ¬ w.AllFit := by
  obtain ⟨w, hrun, hcrypto, hsid, hchannel, hnone, hbuffer⟩ : ∃ w,
      Run (stepRel (World.step Agent.Sample.handshaken Connection.Sample.dart)) World.start
        Sample.session w ∧ w.link.crypto.isSome = true ∧ w.link.sessionId.isSome = true ∧
          w.link.channel.isSome = true ∧ w.link.encryptions.length = 0 ∧
            w.terminal.inputBuffer = [] :=
    exists_run_of_exec (by decide +kernel)
  obtain ⟨k, hcrypto⟩ := Option.isSome_iff_exists.1 hcrypto
  obtain ⟨sid, hsid⟩ := Option.isSome_iff_exists.1 hsid
  have hlength : Sample.longPaste.length = 50000 := List.length_replicate
  obtain ⟨w', hpaste, hexceeds⟩ := long_paste_exceeds (S := Agent.Sample.handshaken)
    (D := Connection.Sample.dart) (fun _ => rfl) hcrypto hsid hchannel
    (show 49112 < Sample.longPaste.length by omega)
    (by rw [hbuffer, List.nil_append]; omega)
  rw [pasting, hnone] at hpaste
  exact ⟨w', hrun.append hpaste, hexceeds⟩

end Ktty.Protocol.FrameSize
