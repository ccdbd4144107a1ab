import Ktty.Client.Connection

/-!
# Steps of the connection

What one step does to the open channel and to the session (`Change`): it leaves both alone
(`SameSession`), gives both up (`Cleared`), opens a channel, installs a session, or sends the envelope of
a finished encryption. Only `connectWebSocket` and the last part of a handshake establish something
(`opens`, `verified`).

`Change` also says what becomes of a connection on which auto-reconnect is off and no timer is armed
(`Quiet`): a step changes that only by opening a channel or by `attemptReconnect` (`quiet_step`).
-/

set_option autoImplicit false

namespace Ktty.Client.Connection

open Ktty.Wire Ktty.Crypto

variable {D : Dart} {c m m' : Connection}

/-! ## What an event establishes -/

/-- The event opens a channel. -/
def opens : ServiceEvent → Bool
  | .connectWebSocket _ ok => ok
  | _ => false

/-- The session of a handshake whose HMAC has been verified. -/
def Verified : Stage → Option SessionKey
  | .verifying k valid => if valid then some k else none
  | _ => none

/-- The session that the event installs. -/
def verified (c : Connection) : ServiceEvent → Option SessionKey
  | .proceed i => (c.stage i).bind Verified
  | _ => none

/-! ## Channel and session -/

/-- Only frames without an encrypted payload are sent. -/
def Plain (c m : Connection) : Prop := ∀ f ∈ m.sent, f ∈ c.sent ∨ f.sealedUnder = none

/-- The channel and the session stay what they are. -/
structure SameLink (c m : Connection) : Prop where
  channel : m.channel = c.channel
  subscription : m.subscription = c.subscription
  listening : m.listening = c.listening
  crypto : m.crypto = c.crypto
  sessionId : m.sessionId = c.sessionId
  opened : m.opened = c.opened

/-- The channel and the session stay what they are, and no encrypted payload is sent. -/
structure SameSession (c m : Connection) : Prop extends SameLink c m where
  plain : Plain c m

/-- Auto-reconnect is off and no timer is armed. -/
structure Quiet (c : Connection) : Prop where
  disabled : c.autoReconnectEnabled = false
  unarmed : c.reconnectTimer = none

/-- The same, and a quiet connection stays quiet. -/
structure Kept (c m : Connection) : Prop extends SameSession c m where
  quiet : c.Quiet → m.Quiet

/-- The channel and the session are given up, and no subscription is forgotten that is not cancelled. -/
structure Cleared (c m : Connection) : Prop where
  channel : m.channel = none
  crypto : m.crypto = none
  sessionId : m.sessionId = none
  listening : ∀ ch ∈ m.listening, ch ∈ c.listening
  subscription : ∀ ch ∈ m.listening, c.subscription = some ch → m.subscription = some ch
  opened : m.opened = c.opened
  plain : Plain c m
  quiet : c.Quiet → m.Quiet

/-- The frame in which `sendEncrypted` sends the result of an encryption. -/
structure EnvelopeOf (D : Dart) (c : Connection) (enc : Encryption) (f : Frame) : Prop where
  channel : c.channel = some f.channel
  sealedUnder : f.sealedUnder = some enc.key
  json : ∃ packed, encrypt D.aead c.rng enc.key.secret.bytes enc.payload = some packed ∧
    f.json = .ofFields (withToken c.relayAuthToken
      (envelopeFields enc.seq c.sessionId enc.type (D.prim.b64Encode packed)))

/-- What a step does to the channel and to the session. -/
inductive Change (D : Dart) (c : Connection) : ServiceEvent → Connection → Prop
  | keeps {e : ServiceEvent} {m : Connection} : SameSession c m → opens e = false →
      c.verified e = none → (e ≠ .attemptReconnect → c.Quiet → m.Quiet) → Change D c e m
  | clears {e : ServiceEvent} {m : Connection} : Cleared c m → opens e = false →
      c.verified e = none → Change D c e m
  | opens {i : Nat} : Change D c (.connectWebSocket i true) (c.listen i)
  | installs {i : Nat} {k : SessionKey} : c.stage i = some (.verifying k true) →
      Change D c (.proceed i) (c.install i k true)
  | encrypts {i : Nat} {enc : Encryption} {m : Connection} : c.encryptions[i]? = some enc →
      SameLink c m → (∀ f ∈ m.sent, f ∈ c.sent ∨ c.EnvelopeOf D enc f) → (c.Quiet → m.Quiet) →
      Change D c (.encrypted i) m

theorem plain_rfl (c : Connection) : Plain c c := fun _ => Or.inl

theorem plain_of_sent (h : m.sent = c.sent) : Plain c m := by
  intro f hf
  rw [h] at hf
  exact Or.inl hf

theorem Plain.trans (h : Plain c m) (k : Plain m m') : Plain c m' := by
  intro f hf
  -- a frame of the last state was there in the middle, or is plain:
  rcases k f hf with hf | hf
  · exact h f hf
  · exact Or.inr hf

theorem sameSession_rfl (c : Connection) : SameSession c c :=
  ⟨⟨rfl, rfl, rfl, rfl, rfl, rfl⟩, plain_rfl c⟩

/-- Only the channel and the session count. -/
theorem sameSession_set (c : Connection) {relayAuthToken lastUrl lastPin : Option Text}
    {reconnectTimer : Option Int} {reconnectAttempts rng : Nat} {autoReconnectEnabled closed : Bool}
    {pending : Option PendingHmac} {tasks : List Task} {listeners : List Listener}
    {encryptions : List Encryption} :
    SameSession c
      { c with
        relayAuthToken := relayAuthToken
        reconnectTimer := reconnectTimer
        reconnectAttempts := reconnectAttempts
        lastUrl := lastUrl
        lastPin := lastPin
        autoReconnectEnabled := autoReconnectEnabled
        pendingHmacVerification := pending
        closed := closed
        tasks := tasks
        listeners := listeners
        encryptions := encryptions
        rng := rng } :=
  ⟨⟨rfl, rfl, rfl, rfl, rfl, rfl⟩, plain_rfl c⟩

theorem SameSession.trans (h : SameSession c m) (k : SameSession m m') : SameSession c m' :=
  ⟨⟨k.channel.trans h.channel, k.subscription.trans h.subscription, k.listening.trans h.listening,
    k.crypto.trans h.crypto, k.sessionId.trans h.sessionId, k.opened.trans h.opened⟩,
    h.plain.trans k.plain⟩

theorem kept_rfl (c : Connection) : Kept c c := ⟨sameSession_rfl c, id⟩

theorem Kept.trans (h : Kept c m) (k : Kept m m') : Kept c m' :=
  ⟨h.toSameSession.trans k.toSameSession, k.quiet ∘ h.quiet⟩

/-- Only the channel, the session, the flag and the timer count. -/
theorem kept_set (c : Connection) {relayAuthToken lastUrl lastPin : Option Text}
    {reconnectAttempts rng : Nat} {closed : Bool} {pending : Option PendingHmac} {tasks : List Task}
    {listeners : List Listener} {encryptions : List Encryption} :
    Kept c
      { c with
        relayAuthToken := relayAuthToken
        reconnectAttempts := reconnectAttempts
        lastUrl := lastUrl
        lastPin := lastPin
        pendingHmacVerification := pending
        closed := closed
        tasks := tasks
        listeners := listeners
        encryptions := encryptions
        rng := rng } :=
  ⟨sameSession_set c, fun hq => ⟨hq.disabled, hq.unarmed⟩⟩

theorem Cleared.after (k : Cleared m m') (h : Kept c m) : Cleared c m' where
  channel := k.channel
  crypto := k.crypto
  sessionId := k.sessionId
  listening ch hch := by
    rw [← h.listening]
    exact k.listening ch hch
  subscription ch hch hsub := by
    rw [← h.subscription] at hsub
    exact k.subscription ch hch hsub
  opened := k.opened.trans h.opened
  plain := h.plain.trans k.plain
  quiet := k.quiet ∘ h.quiet

theorem Cleared.trans (h : Cleared c m) (k : Kept m m') : Cleared c m' where
  channel := k.channel.trans h.channel
  crypto := k.crypto.trans h.crypto
  sessionId := k.sessionId.trans h.sessionId
  listening ch hch := by
    rw [k.listening] at hch
    exact h.listening ch hch
  subscription ch hch hsub := by
    rw [k.listening] at hch
    rw [k.subscription]
    exact h.subscription ch hch hsub
  opened := k.opened.trans h.opened
  plain := h.plain.trans k.plain
  quiet := k.quiet ∘ h.quiet

/-! ### The parts of the code -/

theorem wake_kept (i : Nat) (stage : Stage) : Kept c (c.wake i stage) := by
  rw [wake]
  split_ifs
  · exact kept_set c
  · exact kept_rfl c

theorem sendJson_kept (fields : List (String × Json)) : Kept c (c.sendJson fields none) := by
  rw [sendJson, send]
  split
  · refine ⟨⟨⟨rfl, rfl, rfl, rfl, rfl, rfl⟩, ?_⟩, fun hq => ⟨hq.disabled, hq.unarmed⟩⟩
    intro f hf
    -- the one new frame names no session:
    rcases List.mem_append.1 hf with hf | hf
    · exact Or.inl hf
    · obtain rfl := List.mem_singleton.1 hf
      exact Or.inr rfl
  · exact kept_rfl c

/-- Arming the timer keeps the session, but not the quiet. -/
theorem scheduleReconnect_same : SameSession c c.scheduleReconnect := by
  rw [scheduleReconnect]
  split_ifs
  · exact sameSession_rfl c
  · exact sameSession_set c

/-- A timer is armed only while auto-reconnect is on. -/
theorem catchReconnect_kept : Kept c c.catchReconnect := by
  rw [catchReconnect]
  split_ifs with henabled
  -- a quiet connection does not come here:
  · refine ⟨scheduleReconnect_same, fun hq => ?_⟩
    rw [hq.disabled] at henabled
    cases henabled
  · exact kept_rfl c

theorem attemptReconnect_same : SameSession c c.attemptReconnect := by
  rw [attemptReconnect]
  split_ifs
  · exact sameSession_rfl c
  · exact (sameSession_set c).trans scheduleReconnect_same

theorem suppressReconnect_quiet (c : Connection) : c.suppressReconnect.Quiet := ⟨rfl, rfl⟩

theorem suppressReconnect_kept (c : Connection) : Kept c c.suppressReconnect :=
  ⟨sameSession_set c, fun _ => suppressReconnect_quiet c⟩

theorem onData_kept (ch : ChannelId) (str : Text) : Kept c (c.onData D ch str) := by
  rw [onData]
  split
  · exact kept_set c
  · split_ifs
    · exact kept_rfl c
    · exact kept_set c

theorem hear_kept {i : Nat} (h : c.hear D i = some m) : Kept c m := by
  -- whatever a closure does, it changes the listeners and the pending HMAC and wakes a task:
  have wakes : ∀ (ls : List Listener) (p : Option PendingHmac) (j : Nat) (stage : Stage),
      Kept c ({ c with listeners := ls, pendingHmacVerification := p }.wake j stage) :=
    fun ls p j stage => (kept_set c).trans (wake_kept j stage)
  rw [hear] at h
  split at h
  · split at h
    · cases h
      rw [hearMessage]
      split
      · split
        · exact wakes _ c.pendingHmacVerification _ _
        · exact kept_set c
      · split
        · exact wakes _ _ _ _
        · exact kept_set c
    · cases h
      exact wakes _ c.pendingHmacVerification _ _
    · cases h
      exact wakes _ c.pendingHmacVerification _ _
    · cases h
  · cases h

theorem join_kept (i : Nat) (pin : Text) : Kept c (c.join D i pin) :=
  (sendJson_kept _).trans (kept_set _)

theorem encapsulate_kept (i : Nat) (derivedKey : Bytes) (pk : Text) (ch : ChannelId) :
    Kept c (c.encapsulate D i derivedKey pk ch) := by
  rw [encapsulate]
  split
  · exact (kept_set c).trans ((sendJson_kept _).trans (kept_set _))
  · exact kept_set c

theorem verifyHmac_kept (i : Nat) : Kept c (c.verifyHmac D i) := by
  rw [verifyHmac]
  split
  · exact kept_set c
  · split
    · exact kept_set c
    · exact kept_set c

theorem sendEncrypted_kept (seq : Int) (type : Text) (payload : Bytes) :
    Kept c (c.sendEncrypted seq type payload) := by
  rw [sendEncrypted]
  split
  · exact kept_set c
  · exact kept_rfl c

theorem sendSyncRequest_kept (lastSeq : Int) : Kept c (c.sendSyncRequest lastSeq) := by
  rw [sendSyncRequest]
  split
  · exact sendEncrypted_kept ..
  · exact kept_rfl c

theorem rejoin_kept (i : Nat) : Kept c (c.rejoin i) := by
  rw [rejoin]
  split
  · exact kept_set c
  · exact Kept.trans (m := c.goto i .finished) (kept_set c) catchReconnect_kept

theorem proceedTimer_kept {i : Nat} {stage : Stage} (h : c.proceedTimer i stage = some m) :
    Kept c m := by
  cases stage with
  | connected =>
      cases h
      exact rejoin_kept i
  | established =>
      cases h
      exact kept_set c
  | thrown =>
      cases h
      exact Kept.trans (m := c.goto i .finished) (kept_set c) catchReconnect_kept
  -- the callback of the timer waits at no other stage:
  | _ => cases h

/-- A finished encryption changes nothing but what is sent. -/
theorem finishEncryption_same (enc : Encryption) : SameLink c (c.finishEncryption D enc) ∧
    (c.Quiet → (c.finishEncryption D enc).Quiet) := by
  rw [finishEncryption]
  split
  · rw [sendJson, send]
    split
    · exact ⟨⟨rfl, rfl, rfl, rfl, rfl, rfl⟩, fun hq => ⟨hq.disabled, hq.unarmed⟩⟩
    · exact ⟨⟨rfl, rfl, rfl, rfl, rfl, rfl⟩, fun hq => ⟨hq.disabled, hq.unarmed⟩⟩
  · exact ⟨⟨rfl, rfl, rfl, rfl, rfl, rfl⟩, fun hq => ⟨hq.disabled, hq.unarmed⟩⟩

/-- It sends one envelope, or nothing. -/
theorem finishEncryption_sent (enc : Encryption) :
    (c.finishEncryption D enc).sent = c.sent ∨
      ∃ f, (c.finishEncryption D enc).sent = c.sent ++ [f] ∧ c.EnvelopeOf D enc f := by
  rw [finishEncryption]
  split
  · rename_i packed hpacked
    rw [sendJson, send]
    split
    · rename_i ch hch
      -- the session id and the token are those of the state that sends:
      exact Or.inr ⟨_, rfl, hch, rfl, packed, hpacked, rfl⟩
    · exact Or.inl rfl
  · exact Or.inl rfl

theorem mem_finishEncryption {enc : Encryption} {f : Frame}
    (hf : f ∈ (c.finishEncryption D enc).sent) : f ∈ c.sent ∨ c.EnvelopeOf D enc f := by
  rcases finishEncryption_sent (D := D) (c := c) enc with hsent | ⟨g, hsent, hg⟩
  · rw [hsent] at hf
    exact Or.inl hf
  · rw [hsent] at hf
    rcases List.mem_append.1 hf with hf | hf
    · exact Or.inl hf
    · obtain rfl := List.mem_singleton.1 hf
      exact Or.inr hg

theorem cleanupChannel_cleared (c : Connection) : Cleared c c.cleanupChannel where
  channel := rfl
  crypto := rfl
  sessionId := rfl
  listening _ hch := (List.mem_filter.1 hch).1
  subscription ch hch hsub := by
    -- what is still live is not the subscription that was cancelled:
    have hne := (List.mem_filter.1 hch).2
    rw [decide_eq_true_eq] at hne
    exact absurd hsub hne
  opened := rfl
  plain := plain_rfl c
  quiet hq := ⟨hq.disabled, hq.unarmed⟩

theorem connect_cleared (url : Text) : Cleared c (c.connect url) := by
  have hset : Kept c { c.cancelReconnect with lastUrl := some url } :=
    ⟨sameSession_set c, fun hq => ⟨hq.disabled, rfl⟩⟩
  exact (cleanupChannel_cleared _).after hset

/-- `disconnect` begins as `suppressReconnect` does. -/
theorem disconnect_sends (c : Connection) : Kept c.suppressReconnect
    (c.suppressReconnect.sendJson [("type", .str "disconnect".toList)] none) := sendJson_kept _

theorem disconnect_cleared (c : Connection) : Cleared c c.disconnect := by
  -- flag and timer first, then the notice, then the channel:
  have hsends := (suppressReconnect_kept c).trans (disconnect_sends c)
  exact ((cleanupChannel_cleared _).after hsends).trans (kept_set _)

theorem disconnect_quiet (c : Connection) : c.disconnect.Quiet := by
  have hquiet := (disconnect_sends c).quiet (suppressReconnect_quiet c)
  exact ⟨hquiet.disabled, hquiet.unarmed⟩

/-- Closing the controller is all that `dispose` adds. -/
theorem dispose_kept (c : Connection) : Kept c.disconnect c.dispose := by
  rw [dispose]
  dsimp only
  split_ifs
  · exact kept_rfl _
  · exact kept_set _

theorem handleDisconnect_cleared (c : Connection) : Cleared c c.handleDisconnect := by
  -- `_handleDisconnect` cancels no subscription, so the live ones all stay:
  have hset : Cleared c
      { c with channel := none, crypto := none, sessionId := none, relayAuthToken := none } :=
    ⟨rfl, rfl, rfl, fun _ => id, fun _ _ => id, rfl, plain_rfl c,
      fun hq => ⟨hq.disabled, hq.unarmed⟩⟩
  exact hset.trans catchReconnect_kept

theorem onDone_cleared (ch : ChannelId) : Cleared c (c.onDone ch) := by
  -- the ended subscription is taken off before `_handleDisconnect` runs:
  have h := handleDisconnect_cleared { c with listening := c.listening.filter (· ≠ ch) }
  exact { h with
    listening := fun ch' hch' => (List.mem_filter.1 (h.listening ch' hch')).1
    quiet := fun hq => h.quiet ⟨hq.disabled, hq.unarmed⟩ }

/-! ### The step -/

theorem Kept.change {e : ServiceEvent} (h : Kept c m) (hopens : opens e = false)
    (hverified : c.verified e = none) : Change D c e m :=
  .keeps h.toSameSession hopens hverified fun _ => h.quiet

theorem verified_of_stage {i : Nat} {stage : Stage} (h : c.stage i = some stage) :
    c.verified (.proceed i) = Verified stage := by
  rw [verified, h]
  rfl

theorem proceed_change {i : Nat} (h : c.proceed D i = some m) : Change D c (.proceed i) m := by
  rw [proceed] at h
  split at h
  · rename_i t ht
    have hstage : c.stage i = some t.stage := by rw [stage, ht]; rfl
    have hverified := verified_of_stage hstage
    split at h
    · rename_i pin hpin
      cases h
      exact (join_kept i pin).change rfl (by rw [hverified, hpin]; rfl)
    · rename_i derivedKey pk ch hoffered
      cases h
      exact (encapsulate_kept ..).change rfl (by rw [hverified, hoffered]; rfl)
    · rename_i hheard
      cases h
      exact (verifyHmac_kept i).change rfl (by rw [hverified, hheard]; rfl)
    · rename_i k valid hverifying
      cases h
      cases valid with
      -- only a verification that succeeds installs a session:
      | true => exact .installs (by rw [hstage, hverifying])
      | false => exact (kept_set c).change rfl (by rw [hverified, hverifying]; rfl)
    · -- the stages at which only a task of the timer goes on
      rename_i hnot
      have hnone : Verified t.stage = none := by
        cases hs : t.stage with
        | verifying k valid => exact absurd hs (hnot k valid)
        | _ => rfl
      split_ifs at h
      exact (proceedTimer_kept h).change rfl (by rw [hverified, hnone])
  · cases h

/-- The callback of the timer clears the connection with a connect, unless the URL is gone. -/
theorem fire_change : Change D c .fire c.fire := by
  have hset : Kept c { c with reconnectTimer := none } :=
    ⟨sameSession_set c, fun hq => ⟨hq.disabled, rfl⟩⟩
  rw [fire]
  split
  · exact .clears (((connect_cleared _).after hset).trans (kept_set _)) rfl rfl
  · exact (hset.trans catchReconnect_kept).change rfl rfl

theorem step_change {e : ServiceEvent} (h : c.step D e = some m) : Change D c e m := by
  cases e with
  | connect url =>
      cases h
      exact .clears ((connect_cleared url).trans (kept_set _)) rfl rfl
  | connectWebSocket i ok =>
      cases ok with
      | true =>
          rw [step, if_pos rfl] at h
          split_ifs at h
          cases h
          exact .opens
      | false =>
          rw [step, if_neg Bool.false_ne_true] at h
          split_ifs at h
          cases h
          exact (kept_set c).change rfl rfl
  | data ch str =>
      rw [step] at h
      split_ifs at h
      cases h
      exact (onData_kept ch str).change rfl rfl
  | error ch =>
      rw [step] at h
      split_ifs at h
      cases h
      rw [onError]
      split_ifs
      · -- `addError` throws before `_handleDisconnect`
        exact (kept_rfl c).change rfl rfl
      · exact .clears ((handleDisconnect_cleared _).after (kept_set c)) rfl rfl
  | done ch =>
      rw [step] at h
      split_ifs at h
      cases h
      exact .clears (onDone_cleared ch) rfl rfl
  | hear i => exact (hear_kept h).change rfl rfl
  | timeout i =>
      rw [step] at h
      split_ifs at h
      cases h
      exact (kept_set c).change rfl rfl
  | performHandshake pin =>
      cases h
      exact (kept_set c).change rfl rfl
  | proceed i => exact proceed_change h
  | fire =>
      rw [step] at h
      split_ifs at h
      cases h
      exact fire_change
  | attemptReconnect =>
      -- it turns auto-reconnect on, so a quiet connection need not stay quiet
      cases h
      exact .keeps attemptReconnect_same rfl rfl fun hne => absurd rfl hne
  | suppressReconnect =>
      cases h
      exact (suppressReconnect_kept c).change rfl rfl
  | backgroundClose =>
      cases h
      exact .clears (cleanupChannel_cleared c) rfl rfl
  | disconnect =>
      cases h
      exact .clears (disconnect_cleared c) rfl rfl
  | dispose =>
      cases h
      exact .clears ((disconnect_cleared c).trans (dispose_kept c)) rfl rfl
  | sendEncrypted seq type payload =>
      cases h
      exact (sendEncrypted_kept seq type payload).change rfl rfl
  | sendSyncRequest lastSeq =>
      cases h
      exact (sendSyncRequest_kept lastSeq).change rfl rfl
  | encrypted i =>
      rw [step, Option.map_eq_some_iff] at h
      obtain ⟨enc, henc, rfl⟩ := h
      -- the call is off the list by the time its envelope is sent:
      obtain ⟨hsame, hquiet⟩ := finishEncryption_same (D := D)
        (c := { c with encryptions := c.encryptions.eraseIdx i }) enc
      refine .encrypts henc ⟨hsame.channel, hsame.subscription, hsame.listening, hsame.crypto,
        hsame.sessionId, hsame.opened⟩ (fun f hf => ?_)
        (fun hq => hquiet ⟨hq.disabled, hq.unarmed⟩)
      rcases mem_finishEncryption hf with hf | hf
      · exact Or.inl hf
      · exact Or.inr ⟨hf.channel, hf.sealedUnder, hf.json⟩

/-- Only a completed `connectWebSocket` opens a channel. -/
theorem channel_step {e : ServiceEvent} (hopens : opens e = false) (h : c.step D e = some m) :
    m.channel = none ∨ m.channel = c.channel := by
  cases step_change h with
  | keeps hsame => exact Or.inr hsame.channel
  | clears hcleared => exact Or.inl hcleared.channel
  | opens => cases hopens
  | installs hstage => exact Or.inr rfl
  | encrypts henc hsame => exact Or.inr hsame.channel

/-- A quiet connection stays quiet until a channel opens or `attemptReconnect` is called. -/
theorem quiet_step {e : ServiceEvent} (hq : c.Quiet) (hopens : opens e = false)
    (hattempt : e ≠ .attemptReconnect) (h : c.step D e = some m) : m.Quiet := by
  cases step_change h with
  | keeps hsame hopens hverified hquiet => exact hquiet hattempt hq
  | clears hcleared => exact hcleared.quiet hq
  | opens => cases hopens
  | installs hstage => exact ⟨hq.disabled, hq.unarmed⟩
  | encrypts henc hsame hsent hquiet => exact hquiet hq

end Ktty.Client.Connection
