import Ktty.Agent.SampleCrates
import Ktty.Client.ConnectionSteps
import Ktty.Lib.Execution

/-!
# The session belongs to the current channel

`_crypto` should be the session of the channel that is open. The service keeps no record of it: a
`connect` that resumes takes the place of whatever channel is open by then, a handshake installs its key
on whatever channel is open at its end, and the closures on `messages` hear every channel. The runs in
which `_crypto` belongs to the current channel are exactly those in which both happen in place
(`encrypted_over_current`).

`_handleDisconnect` clears the connection whichever channel has closed. That is the current one as long
as no `connect` resumes while another subscription is live, because only `_subscription` is ever
cancelled.
-/

set_option autoImplicit false

namespace Ktty.Client.Connection

open Ktty.Wire Ktty.Crypto Ktty.Lib.Execution

variable {D : Dart} {c m : Connection} {e : ServiceEvent}

/-- A session is established only on an open channel, the one over which it was negotiated. -/
def EncryptedOverCurrent (c : Connection) : Prop :=
  ∀ k ∈ c.crypto, ∃ ch ∈ c.channel, k.NegotiatedOver ch

instance : DecidablePred EncryptedOverCurrent := fun c =>
  inferInstanceAs (Decidable (∀ k ∈ c.crypto, ∃ ch ∈ c.channel, k.NegotiatedOver ch))

/-- A channel opens only when no session is established, and a handshake installs its session only
while the channel over which it ran is the open one. -/
def EstablishesInPlace (c : Connection) (e : ServiceEvent) : Prop :=
  (opens e = true → c.crypto = none) ∧
    ∀ k ∈ c.verified e, ∃ ch ∈ c.channel, k.NegotiatedOver ch

instance (c : Connection) (e : ServiceEvent) : Decidable (EstablishesInPlace c e) :=
  inferInstanceAs (Decidable (_ ∧ ∀ k ∈ c.verified e, ∃ ch ∈ c.channel, k.NegotiatedOver ch))

/-- The number of the current channel has been given out. -/
def Numbered (c : Connection) : Prop := ∀ ch ∈ c.channel, ch < c.opened

theorem numbered_step (hn : c.Numbered) (h : c.step D e = some m) : m.Numbered := by
  -- only `connectWebSocket` gives out a number, and it counts on:
  intro ch hch
  cases step_change h with
  | keeps hsame =>
      rw [hsame.channel] at hch
      rw [hsame.opened]
      exact hn ch hch
  | clears hcleared =>
      rw [hcleared.channel] at hch
      cases hch
  | opens =>
      cases hch
      exact Nat.lt_succ_self c.opened
  | installs hstage => exact hn ch hch
  | encrypts henc hsame =>
      rw [hsame.channel] at hch
      rw [hsame.opened]
      exact hn ch hch

/-- One step out of a state whose session belongs to its channel. -/
theorem encryptedOverCurrent_step (hn : c.Numbered) (hc : c.EncryptedOverCurrent)
    (h : c.step D e = some m) : m.EncryptedOverCurrent ↔ c.EstablishesInPlace e := by
  -- where channel and session stay, or go together, nothing is established
  have idle : opens e = false → c.verified e = none → c.EstablishesInPlace e := by
    intro hopens hverified
    refine ⟨fun hopens' => ?_, fun k hk => ?_⟩
    · rw [hopens] at hopens'
      cases hopens'
    · rw [hverified] at hk
      cases hk
  cases step_change h with
  | keeps hsame hopens hverified =>
      -- both sides hold: nothing is established, and nothing has to be
      refine ⟨fun _ => idle hopens hverified, fun _ => ?_⟩
      rw [EncryptedOverCurrent, hsame.crypto, hsame.channel]
      exact hc
  | clears hcleared hopens hverified =>
      refine ⟨fun _ => idle hopens hverified, fun _ => ?_⟩
      rw [EncryptedOverCurrent, hcleared.crypto]
      rintro k ⟨⟩
  | opens =>
      constructor
      · -- the new channel has carried nothing yet
        intro hm
        refine ⟨fun _ => ?_, by rintro k ⟨⟩⟩
        rw [Option.eq_none_iff_forall_not_mem]
        intro k hk
        obtain ⟨ch, hch, hover⟩ := hc k hk
        obtain ⟨ch', hch', hover'⟩ := hm k hk
        cases hch'
        have heq : ch = c.opened := hover.1.symm.trans hover'.1
        exact Nat.ne_of_lt (hn ch hch) heq
      · rintro ⟨hnone, -⟩ k hk
        have hk' : k ∈ c.crypto := hk
        rw [hnone rfl] at hk'
        cases hk'
  | @installs i k hstage =>
      -- the session that is installed is the verified one, so both sides speak of the same channel:
      have hverified : c.verified (.proceed i) = some k := verified_of_stage hstage
      constructor
      · intro hm
        refine ⟨by rintro ⟨⟩, fun k' hk' => ?_⟩
        rw [hverified] at hk'
        exact hm k' hk'
      · rintro ⟨-, hplace⟩ k' hk'
        have hk'' : k' ∈ c.verified (.proceed i) := hverified.trans hk'
        exact hplace k' hk''
  | encrypts henc hsame =>
      refine ⟨fun _ => idle rfl rfl, fun _ => ?_⟩
      rw [EncryptedOverCurrent, hsame.crypto, hsame.channel]
      exact hc

/-! ## Close events -/

/-- A `connect` opens its channel only when no subscription is live. -/
def ResumesAlone (c : Connection) (e : ServiceEvent) : Prop := opens e = true → c.listening = []

instance (c : Connection) (e : ServiceEvent) : Decidable (ResumesAlone c e) :=
  inferInstanceAs (Decidable (_ → _))

/-- The event is the end of a channel or an error on it. -/
def closes (ch : ChannelId) : ServiceEvent → Bool
  | .error ch' | .done ch' => ch' == ch
  | _ => false

/-- The event does not clear the current channel on behalf of another one. -/
def SparesCurrent (D : Dart) (c : Connection) (e : ServiceEvent) : Prop :=
  ∀ ch cur m, closes ch e = true → c.channel = some cur → cur ≠ ch → c.step D e = some m →
    m.channel = c.channel ∧ m.crypto = c.crypto ∧ m.sessionId = c.sessionId ∧
      m.relayAuthToken = c.relayAuthToken

/-- A live subscription is the one that would be cancelled, and only its channel can be open. -/
structure Subscribed (c : Connection) : Prop where
  subscription : ∀ ch ∈ c.listening, c.subscription = some ch
  channel : ∀ ch ∈ c.listening, ∀ cur ∈ c.channel, cur = ch

theorem subscribed_step (hs : c.Subscribed) (halone : c.ResumesAlone e) (h : c.step D e = some m) :
    m.Subscribed := by
  cases step_change h with
  | keeps hsame =>
      constructor
      · rw [hsame.listening, hsame.subscription]
        exact hs.subscription
      · rw [hsame.listening, hsame.channel]
        exact hs.channel
  | clears hcleared =>
      -- what is still live was not cancelled, and `_subscription` still holds it
      constructor
      · intro ch hch
        have hlive := hcleared.listening ch hch
        exact hcleared.subscription ch hch (hs.subscription ch hlive)
      · intro ch hch cur hcur
        rw [hcleared.channel] at hcur
        cases hcur
  | @opens i =>
      -- the new subscription is the only one
      have hlisten : (c.listen i).listening = [c.opened] := by
        show c.listening ++ [c.opened] = [c.opened]
        rw [halone rfl, List.nil_append]
      constructor
      · intro ch hch
        rw [hlisten, List.mem_singleton] at hch
        rw [hch]
        rfl
      · intro ch hch cur hcur
        rw [hlisten, List.mem_singleton] at hch
        cases hcur
        exact hch.symm
  | installs hstage => exact ⟨hs.subscription, hs.channel⟩
  | encrypts henc hsame =>
      constructor
      · rw [hsame.listening, hsame.subscription]
        exact hs.subscription
      · rw [hsame.listening, hsame.channel]
        exact hs.channel

/-- Only a live subscription reports the end of its channel. -/
theorem listening_of_closes {ch : ChannelId} (hcloses : closes ch e = true)
    (h : c.step D e = some m) : ch ∈ c.listening := by
  cases e with
  | error ch' =>
      -- the step is there only while the subscription is live:
      obtain rfl : ch' = ch := eq_of_beq hcloses
      rw [step] at h
      split_ifs at h with hlive
      exact hlive
  | done ch' =>
      obtain rfl : ch' = ch := eq_of_beq hcloses
      rw [step] at h
      split_ifs at h with hlive
      exact hlive
  | _ => cases hcloses

theorem sparesCurrent_of_subscribed (hs : c.Subscribed) (e : ServiceEvent) :
    c.SparesCurrent D e := by
  intro ch cur m hcloses hcur hne h
  -- the channel that closes is live, so it is the open one:
  exact absurd (hs.channel ch (listening_of_closes hcloses h) cur hcur) hne

/-! ## A handshake on small crates -/

namespace Sample

open Agent.Sample

def url : Text := "wss://relay".toList

def pin : Text := "12345678".toList

/-- An offer of the agent. -/
def offer : Json :=
  .ofFields [("type", .str "handshake".toList), ("mlkem_pub_key", .str (prim.b64Encode [0]))]

/-- The HMAC of the secret that the client encapsulates with its `n`-th draw. -/
def hmac (n : UInt8) : Json :=
  .ofFields [("type", .str "handshake".toList),
    ("hmac", .str (prim.b64Encode (prim.hmacSha256 (prim.argon2id pin) (pad 32 [0, n]))))]

def dart : Dart := Agent.Sample.dart [offer, hmac 0, hmac 1]

/-- The `i`-th task opens a channel. -/
def connected (i : Nat) : List ServiceEvent := [.connect url, .connectWebSocket i true]

/-- A handshake over a channel as the `i`-th task, up to its last `await`. -/
def handshake (i : Nat) (ch : ChannelId) (n : UInt8) : List ServiceEvent :=
  [.performHandshake pin, .proceed i, .data ch offer.encode, .hear 0, .proceed i,
    .data ch (hmac n).encode, .hear 0, .proceed i]

end Sample

/-! ## Runs -/

theorem numbered_new : Numbered new := by
  rintro ch ⟨⟩

theorem encryptedOverCurrent_new : EncryptedOverCurrent new := by
  rintro k ⟨⟩

theorem subscribed_new : Subscribed new :=
  ⟨fun _ hch => (by cases hch), fun _ hch => (by cases hch)⟩

/-- In exactly the runs that establish everything in place `_crypto` always belongs to the current
channel; and when every channel opens alone, no close of a superseded channel clears the current one. -/
theorem encrypted_over_current (D : Dart) (es : List ServiceEvent) :
    (Along (stepRel (step D)) EncryptedOverCurrent new es ↔
      Guarded (stepRel (step D)) EstablishesInPlace new es) ∧
    (Guarded (stepRel (step D)) ResumesAlone new es →
      Guarded (stepRel (step D)) (SparesCurrent D) new es) := by
  constructor
  · apply along_iff_guarded (I := Numbered)
    · intro c e m hn h
      exact numbered_step hn h
    · intro c e m hn hc h
      exact encryptedOverCurrent_step hn hc h
    · exact numbered_new
    · exact encryptedOverCurrent_new
  · apply guarded_of_guarded (I := Subscribed)
    · intro c e m hs h halone
      exact subscribed_step hs halone h
    · intro c e m hs h halone
      exact sparesCurrent_of_subscribed hs e
    · exact subscribed_new

/-- A connection that is opened, used for a handshake and closed by its peer. -/
theorem encrypted_over_current_session :
    Along (stepRel (step Sample.dart)) EncryptedOverCurrent new
      (Sample.connected 0 ++ Sample.handshake 1 0 0 ++ [.proceed 1, .done 0]) ∧
    Guarded (stepRel (step Sample.dart)) (SparesCurrent Sample.dart) new
      (Sample.connected 0 ++ Sample.handshake 1 0 0 ++ [.proceed 1, .done 0]) :=
  ⟨(encrypted_over_current Sample.dart _).1.2 (guarded_of_checkAll (by decide +kernel)),
    (encrypted_over_current Sample.dart _).2 (guarded_of_checkAll (by decide +kernel))⟩

/-- A handshake that ends after `disconnect` installs its session without a channel; and when two
connects overlap, the end of the first channel clears the second one and its session. -/
theorem session_apart_from_channel :
    (∃ c, Run (stepRel (step Sample.dart)) new
      (Sample.connected 0 ++ Sample.handshake 1 0 0 ++ [.disconnect, .proceed 1]) c ∧ ¬ c.EncryptedOverCurrent) ∧
    ∃ c, Run (stepRel (step Sample.dart)) new
      ([.connect Sample.url, .connect Sample.url, .connectWebSocket 0 true, .connectWebSocket 1 true] ++
        Sample.handshake 2 1 0 ++ [.proceed 2]) c ∧ ¬ c.SparesCurrent Sample.dart (.done 0) := by
  -- the first run evaluates; of the second one the end of channel 0 is evaluated as well:
  refine ⟨exists_run_of_exec (by decide +kernel), ?_⟩
  have hrun : ∃ c, Run (stepRel (step Sample.dart)) new
      ([.connect Sample.url, .connect Sample.url, .connectWebSocket 0 true, .connectWebSocket 1 true] ++
        Sample.handshake 2 1 0 ++ [.proceed 2]) c ∧ c.channel = some 1 ∧ c.crypto.isSome = true ∧
        ∃ m ∈ c.step Sample.dart (.done 0), m.crypto = none :=
    exists_run_of_exec (by decide +kernel)
  obtain ⟨c, hrun, hchannel, hcrypto, m, hm, hnone⟩ := hrun
  refine ⟨c, hrun, fun hspares => ?_⟩
  obtain ⟨-, hsame, -⟩ := hspares 0 1 m rfl hchannel (by decide) hm
  rw [← hsame, hnone] at hcrypto
  cases hcrypto

end Ktty.Client.Connection
