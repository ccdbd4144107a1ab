import Ktty.Client.CurrentChannel

/-!
# Session id and key on the wire

`sendEncrypted` takes the key when it is called, but the session id, the relay token and the channel when
the encryption is finished. An envelope names the session of its key and goes out on the channel of that
session if that session is still the established one by then (`CompletesInSession`), in runs that
establish sessions in place.
-/

set_option autoImplicit false

namespace Ktty.Client

open Ktty.Wire Ktty.Crypto Ktty.Lib.Execution

/-! ## Envelopes -/

/-- The payload of the frame is a ciphertext under the key of the session. -/
def Frame.SealedBy (D : Dart) (f : Frame) (k : SessionKey) : Prop :=
  ∃ n plaintext packed, encrypt D.aead n k.secret.bytes plaintext = some packed ∧
    f.json.get? "payload" = some (.str (D.prim.b64Encode packed))

/-- An envelope names the session whose key encrypted it and is sent on the channel of that session. -/
def Frame.Matches (f : Frame) : Prop :=
  ∀ k ∈ f.sealedUnder,
    (f.json.get? "session_id").bind Json.asStr = some (deriveSessionId k.secret.bytes) ∧
      k.NegotiatedOver f.channel

instance : DecidablePred Frame.Matches := fun f =>
  inferInstanceAs (Decidable (∀ k ∈ f.sealedUnder, _ ∧ _))

/-- An envelope gets the token of the relay. -/
theorem withToken_envelopeFields (token sid : Option Text) (seq : Int) (type payloadB64 : Text) :
    withToken token (envelopeFields seq sid type payloadB64) =
      envelopeFields seq sid type payloadB64 ++ token.toList.map fun t => ("auth", .str t) := by
  cases token with
  | none => rfl
  | some t =>
      -- an envelope has no `action`, so it is not taken for a join:
      have hjoin : ((Json.ofFields (envelopeFields seq sid type payloadB64)).get? "action").bind
          Json.asStr = none := by
        simp [envelopeFields, Json.ofFields, Json.get?]
      rw [withToken, hjoin, if_neg (by simp)]
      rfl

/-- A reader finds the fields of an envelope, with or without a token. -/
theorem get?_envelopeFields (token sid : Option Text) {seq : Int} {type payloadB64 : Text}
    {key : String} {v : Json} (hm : (key, v) ∈ envelopeFields seq sid type payloadB64) :
    (Json.ofFields (withToken token (envelopeFields seq sid type payloadB64))).get? key = some v := by
  rw [withToken_envelopeFields]
  apply Json.get?_ofFields
  · cases token with
    | none => simp [envelopeFields]
    | some t => simp [envelopeFields]
  · exact List.mem_append_left _ hm

namespace Connection

variable {D : Dart} {c m : Connection} {e : ServiceEvent}

/-- The session that encrypted the payload of a call is the established one when the envelope is sent,
or no channel is open. -/
def CompletesInSession (c : Connection) : ServiceEvent → Prop
  | .encrypted i => ∀ enc ∈ c.encryptions[i]?, c.channel = none ∨ c.crypto = some enc.key
  | _ => True

instance (c : Connection) : (e : ServiceEvent) → Decidable (CompletesInSession c e)
  | .encrypted i =>
      inferInstanceAs
        (Decidable (∀ enc ∈ c.encryptions[i]?, c.channel = none ∨ c.crypto = some enc.key))
  | .connect _ | .connectWebSocket _ _ | .data _ _ | .error _ | .done _ | .hear _ | .timeout _
  | .performHandshake _ | .proceed _ | .fire | .attemptReconnect | .suppressReconnect
  | .backgroundClose | .disconnect | .dispose | .sendEncrypted _ _ _ | .sendSyncRequest _ =>
      isTrue trivial

/-- With a session, a call of `sendEncrypted` begins an encryption. -/
theorem sendEncrypted_eq {k : SessionKey} {sid : Text} (hcrypto : c.crypto = some k)
    (hsid : c.sessionId = some sid) (seq : Int) (type : Text) (payload : Bytes) :
    c.sendEncrypted seq type payload = { c with
      encryptions := c.encryptions ++
        [{ key := k, seq := seq, type := type, payload := payload }] } := by
  rw [sendEncrypted, hcrypto, hsid]

/-- The encryption that was begun last ends. -/
theorem step_encrypted_last (enc : Encryption) :
    ({ c with encryptions := c.encryptions ++ [enc] } : Connection).step D
      (.encrypted c.encryptions.length) = some (c.finishEncryption D enc) := by
  rw [step, List.getElem?_append_right (Nat.le_refl _), Nat.sub_self,
    List.eraseIdx_append_of_length_le (Nat.le_refl _), Nat.sub_self]
  show some (finishEncryption D { c with encryptions := c.encryptions ++ [] } _) = _
  rw [List.append_nil]

theorem EnvelopeOf.sealedBy {enc : Encryption} {f : Frame} (h : c.EnvelopeOf D enc f) :
    f.SealedBy D enc.key := by
  obtain ⟨packed, hpacked, hjson⟩ := h.json
  refine ⟨c.rng, enc.payload, packed, hpacked, ?_⟩
  rw [hjson]
  exact get?_envelopeFields _ _ (by simp [envelopeFields])

/-- With a session id and a number that is not negative, the frame is the envelope of `sendEncrypted`
with the relay token. -/
theorem EnvelopeOf.sent {enc : Encryption} {f : Frame} {sid : Text} {seq : Nat}
    (h : c.EnvelopeOf D enc f) (hsid : c.sessionId = some sid) (hseq : enc.seq = seq) :
    ∃ r, Client.sendEncrypted D.aead enc.key.secret.bytes c.rng seq enc.type enc.payload = some r ∧
      f.json = ((r.envelope D.prim sid).withAuth c.relayAuthToken).toJson := by
  obtain ⟨packed, hpacked, hjson⟩ := h.json
  refine ⟨{ seq := seq, type := enc.type, plaintext := enc.payload, packed := packed }, ?_, ?_⟩
  · rw [Client.sendEncrypted, hpacked]
    rfl
  · rw [hjson, hsid, hseq, withToken_envelopeFields]
    rfl

/-- The session id is that of the established session. -/
def Paired (c : Connection) : Prop :=
  c.sessionId = c.crypto.map fun k => deriveSessionId k.secret.bytes

theorem paired_step (hp : c.Paired) (h : c.step D e = some m) : m.Paired := by
  cases step_change h with
  | keeps hsame =>
      rw [Paired, hsame.sessionId, hsame.crypto]
      exact hp
  | clears hcleared =>
      rw [Paired, hcleared.sessionId, hcleared.crypto]
      rfl
  | opens => exact hp
  -- a handshake sets both fields, and `_cleanupChannel` clears both:
  | installs hstage => rfl
  | encrypts henc hsame =>
      rw [Paired, hsame.sessionId, hsame.crypto]
      exact hp

/-- Every envelope sent so far is what `Frame.SealedBy` and `Frame.Matches` say. -/
structure Matched (D : Dart) (c : Connection) : Prop where
  sealedBy : ∀ f ∈ c.sent, ∀ k ∈ f.sealedUnder, f.SealedBy D k
  named : ∀ f ∈ c.sent, f.Matches

/-- What the proof carries along a run. -/
structure InSession (D : Dart) (c : Connection) : Prop where
  numbered : c.Numbered
  current : c.EncryptedOverCurrent
  paired : c.Paired
  matched : c.Matched D

theorem Matched.of_plain (hc : c.Matched D) (h : Plain c m) : m.Matched D := by
  constructor
  · intro f hf k hk
    rcases h f hf with hf | hnone
    · exact hc.sealedBy f hf k hk
    · rw [hnone] at hk
      cases hk
  · intro f hf
    rcases h f hf with hf | hnone
    · exact hc.named f hf
    · intro k hk
      rw [hnone] at hk
      cases hk

/-- The envelope of a call whose session is still established. -/
theorem EnvelopeOf.named {enc : Encryption} {f : Frame} (hc : c.InSession D)
    (h : c.EnvelopeOf D enc f) (hcrypto : c.crypto = some enc.key) : f.Matches := by
  intro k hk
  obtain rfl : enc.key = k := Option.some.inj (h.sealedUnder.symm.trans hk)
  constructor
  -- the id in the frame is that of the established session, whose key the call took:
  · obtain ⟨packed, -, hjson⟩ := h.json
    have hsid : c.sessionId = some (deriveSessionId enc.key.secret.bytes) := by
      rw [hc.paired, hcrypto]
      rfl
    rw [hjson, hsid, get?_envelopeFields _ _ (by simp [envelopeFields]; rfl)]
    rfl
  -- the established session belongs to the open channel, on which the frame went out:
  · obtain ⟨ch, hch, hover⟩ := hc.current enc.key hcrypto
    obtain rfl : f.channel = ch := Option.some.inj (h.channel.symm.trans hch)
    exact hover

theorem matched_step (hc : c.InSession D) (h : c.step D e = some m)
    (hcompletes : c.CompletesInSession e) : m.Matched D := by
  cases step_change h with
  | keeps hsame => exact hc.matched.of_plain hsame.plain
  | clears hcleared => exact hc.matched.of_plain hcleared.plain
  | opens => exact hc.matched.of_plain (plain_of_sent rfl)
  | installs hstage => exact hc.matched.of_plain (plain_of_sent rfl)
  | @encrypts i enc m henc hsame hsent =>
      -- without a channel there is no new frame
      have new : ∀ f, c.EnvelopeOf D enc f → f.Matches := by
        intro f hf
        rcases hcompletes enc henc with hnone | hcrypto
        · cases hnone.symm.trans hf.channel
        · exact hf.named hc hcrypto
      constructor
      · intro f hf k hk
        -- a frame was sent before, or it is the envelope of this call:
        rcases hsent f hf with hf | hf
        · exact hc.matched.sealedBy f hf k hk
        · obtain rfl : enc.key = k := Option.some.inj (hf.sealedUnder.symm.trans hk)
          exact hf.sealedBy
      · intro f hf
        rcases hsent f hf with hf | hf
        · exact hc.matched.named f hf
        · exact new f hf

theorem inSession_new (D : Dart) : InSession D new where
  numbered := numbered_new
  current := encryptedOverCurrent_new
  paired := rfl
  matched := ⟨fun _ hf => (by cases hf), fun _ hf => (by cases hf)⟩

/-- When sessions are established in place and every encryption completes in the session in which it
was begun, every envelope matches the key that encrypted it. -/
theorem envelopes_match (D : Dart) (es : List ServiceEvent)
    (h : Guarded (stepRel (step D)) (fun c e => c.EstablishesInPlace e ∧ c.CompletesInSession e)
      new es) : Along (stepRel (step D)) (Matched D) new es := by
  apply along_of_inductive (I := InSession D) _ _ (inSession_new D) h
  -- the guard of the step is what `encryptedOverCurrent_step` and `matched_step` ask for:
  · rintro c e m hc hm ⟨hplace, hcompletes⟩
    exact ⟨numbered_step hc.numbered hm,
      (encryptedOverCurrent_step hc.numbered hc.current hm).2 hplace,
      paired_step hc.paired hm, matched_step hc hm hcompletes⟩
  · intro c hc
    exact hc.matched

namespace Sample

/-- A client with an established session. -/
def session : List ServiceEvent := connected 0 ++ handshake 1 0 0 ++ [.proceed 1]

/-- A keystroke. -/
def typed : ServiceEvent := .sendEncrypted 1 "pty".toList [120]

/-- A second session of the same client. -/
def nextSession : List ServiceEvent :=
  [.disconnect] ++ connected 2 ++ handshake 3 1 1 ++ [.proceed 3]

end Sample

/-- A keystroke that is encrypted in its session. -/
theorem envelopes_match_typed :
    Along (stepRel (step Sample.dart)) (Matched Sample.dart) new
      (Sample.session ++ [Sample.typed, .encrypted 0]) :=
  envelopes_match Sample.dart _ (guarded_of_checkAll (by decide +kernel))

/-- A keystroke whose encryption ends in the next session is sent under the wrong session id and on the
wrong channel. -/
theorem keystroke_in_next_session :
    ∃ c, Run (stepRel (step Sample.dart)) new
      (Sample.session ++ [Sample.typed] ++ Sample.nextSession ++ [.encrypted 0]) c ∧
      ∃ f ∈ c.sent, ¬ f.Matches :=
  exists_run_of_exec (by decide +kernel)

end Connection

end Ktty.Client
