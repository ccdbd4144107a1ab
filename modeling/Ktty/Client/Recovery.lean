import Ktty.Client.CurrentChannel
import Ktty.Client.Reconnecting

/-!
# A reconnect can succeed

Whatever has happened to the service, whichever calls are suspended and whichever closures still listen on
`messages`: once the reconnect timer is armed and the stream is not closed, there is a way on to an
established session (`reconnect_possible`). The timer fires, a channel opens, the relay and the agent
answer the join and the ciphertext (`Answers`), and the closure of this handshake is the one that hears
the answers.
-/

set_option autoImplicit false

namespace Ktty.Client.Connection

open Ktty.Wire Ktty.Crypto Ktty.Lib.Execution

/-! ## The answers -/

/-- What comes to a client with this PIN whose next draw is the `n`-th: the token of the relay, then the
boot signal, the offer and the HMAC of the agent. -/
structure Answers (D : Dart) (pin : Text) (n : Nat) where
  auth : Text
  boot : Text
  offer : Text
  hmac : Text
  token : Text
  pubKeyB64 : Text
  hmacB64 : Text
  ct : Bytes
  secret : Bytes
  auth_reads : authToken D auth = some token
  boot_passes : authToken D boot = none
  offer_passes : authToken D offer = none
  hmac_passes : authToken D hmac = none
  boot_ignored : offerIn D boot = none
  offer_reads : offerIn D offer = some pubKeyB64
  hmac_reads : hmacIn D hmac = some hmacB64
  encapsulates : (D.prim.base64Decode pubKeyB64).bind (fun ek => D.prim.mlkemEncapsulate ek n) =
    some (ct, secret)
  verifies : D.prim.base64Decode hmacB64 = some (D.prim.hmacSha256 (D.prim.argon2id pin) secret)

/-! ## The armed timer -/

/-- The timer is armed only with a URL and a PIN. -/
def ArmedKnowing (c : Connection) : Prop :=
  c.reconnectTimer.isSome = true → c.lastUrl.isSome = true ∧ c.lastPin.isSome = true

variable {D : Dart} {c m : Connection}

theorem armedKnowing_scheduleReconnect (h : c.ArmedKnowing) : c.scheduleReconnect.ArmedKnowing := by
  rw [scheduleReconnect]
  split_ifs with hmissing
  · exact h
  · intro _
    simp only [Bool.or_eq_true, not_or, Bool.not_eq_true, Option.isNone_eq_false_iff] at hmissing
    exact hmissing

theorem armedKnowing_catchReconnect (h : c.ArmedKnowing) : c.catchReconnect.ArmedKnowing := by
  rw [catchReconnect]
  split_ifs
  · exact armedKnowing_scheduleReconnect h
  · exact h

theorem armedKnowing_unarmed (h : m.reconnectTimer = none) : m.ArmedKnowing := by
  rw [ArmedKnowing, h]
  rintro ⟨⟩

/-- A step that leaves the timer, the URL and the PIN. -/
theorem ArmedKnowing.kept (h : c.ArmedKnowing) (htimer : m.reconnectTimer = c.reconnectTimer)
    (hurl : m.lastUrl = c.lastUrl) (hpin : m.lastPin = c.lastPin) : m.ArmedKnowing := by
  rw [ArmedKnowing, htimer, hurl, hpin]
  exact h

theorem Steady.armedKnowing (h : Steady c m) (hc : c.ArmedKnowing) : m.ArmedKnowing :=
  hc.kept h.reconnectTimer h.lastUrl h.lastPin

theorem armedKnowing_proceed {i : Nat} (hc : c.ArmedKnowing) (h : c.proceed D i = some m) :
    m.ArmedKnowing := by
  rw [proceed] at h
  split at h
  · rename_i t ht
    have hstage : c.stage i = some t.stage := by rw [stage, ht]; rfl
    split at h
    · rename_i pin hpin
      rw [hpin] at hstage
      cases h
      exact (steady_join hstage).armedKnowing hc
    · rename_i key pk ch hoffered
      rw [hoffered] at hstage
      cases h
      exact (steady_encapsulate hstage).armedKnowing hc
    · rename_i hheard
      rw [hheard] at hstage
      cases h
      exact (steady_verifyHmac hstage).armedKnowing hc
    · rename_i k valid hverifying
      rw [hverifying] at hstage
      cases h
      exact (steady_install hstage).armedKnowing hc
    · split_ifs at h
      have hgoto : (c.goto i .finished).ArmedKnowing := hc.kept rfl rfl rfl
      cases hs : t.stage with
      | connected =>
          rw [hs] at h
          cases h
          rw [rejoin]
          split
          · exact hc.kept rfl rfl rfl
          · exact armedKnowing_catchReconnect hgoto
      | established =>
          rw [hs] at h
          cases h
          exact hc.kept rfl rfl rfl
      | thrown =>
          rw [hs] at h
          cases h
          exact armedKnowing_catchReconnect hgoto
      | _ =>
          rw [hs] at h
          cases h
  · cases h

theorem armedKnowing_handleDisconnect (hc : c.ArmedKnowing) : c.handleDisconnect.ArmedKnowing :=
  armedKnowing_catchReconnect
    (c := { c with channel := none, crypto := none, sessionId := none, relayAuthToken := none })
    (hc.kept rfl rfl rfl)

theorem armedKnowing_step {e : ServiceEvent} (hc : c.ArmedKnowing) (h : c.step D e = some m) :
    m.ArmedKnowing := by
  cases e with
  | connect url =>
      cases h
      exact armedKnowing_unarmed rfl
  | connectWebSocket i ok =>
      rw [step] at h
      split_ifs at h
      · cases h
        exact hc.kept rfl rfl rfl
      · cases h
        exact hc.kept rfl rfl rfl
  | data ch str =>
      rw [step] at h
      split_ifs at h
      cases h
      exact (steady_onData ch str).armedKnowing hc
  | error ch =>
      rw [step] at h
      split_ifs at h
      cases h
      rw [onError]
      split_ifs
      · exact hc
      · exact armedKnowing_handleDisconnect (hc.kept rfl rfl rfl)
  | done ch =>
      rw [step] at h
      split_ifs at h
      cases h
      exact armedKnowing_handleDisconnect (hc.kept rfl rfl rfl)
  | hear i => exact (steady_hear h).armedKnowing hc
  | timeout i =>
      rw [step] at h
      split_ifs at h
      cases h
      exact hc.kept rfl rfl rfl
  | performHandshake pin =>
      cases h
      exact fun harmed => ⟨(hc harmed).1, rfl⟩
  | proceed i => exact armedKnowing_proceed hc h
  | fire =>
      rw [step] at h
      split_ifs at h
      cases h
      rw [fire]
      split
      · exact armedKnowing_unarmed rfl
      · exact armedKnowing_catchReconnect (armedKnowing_unarmed rfl)
  | attemptReconnect =>
      cases h
      rw [attemptReconnect]
      split_ifs
      · exact hc
      · exact armedKnowing_scheduleReconnect (hc.kept rfl rfl rfl)
  | suppressReconnect =>
      cases h
      exact armedKnowing_unarmed rfl
  | backgroundClose =>
      cases h
      exact hc.kept rfl rfl rfl
  | disconnect =>
      cases h
      exact armedKnowing_unarmed (disconnect_quiet c).unarmed
  | dispose =>
      cases h
      rw [dispose]
      dsimp only
      split_ifs
      · exact armedKnowing_unarmed (disconnect_quiet c).unarmed
      · exact armedKnowing_unarmed (disconnect_quiet c).unarmed
  | sendEncrypted seq type payload =>
      cases h
      exact (steady_sendEncrypted seq type payload).armedKnowing hc
  | sendSyncRequest lastSeq =>
      cases h
      exact (steady_sendSyncRequest lastSeq).armedKnowing hc
  | encrypted i =>
      rw [step] at h
      obtain ⟨enc, -, rfl⟩ := Option.map_eq_some_iff.1 h
      have hset : Steady c { c with encryptions := c.encryptions.eraseIdx i } := steady_set c
      exact (hset.trans (steady_finishEncryption enc)).armedKnowing hc

/-! ## The way to a session -/

/-- What the callback of the timer has to do with: its task, its channel, the next draw, the number of
closures on the stream, the token and what has been sent. -/
structure Standing where
  task : Nat
  ch : ChannelId
  rng : Nat
  listeners : Nat
  token : Option Text
  sent : List Frame

/-- The callback of the timer stands at this `await`, and its channel is open. -/
structure Under (c : Connection) (s : Standing) (stage : Stage) : Prop where
  task : c.tasks[s.task]? = some { caller := .timer, stage := stage }
  channel : c.channel = some s.ch
  live : s.ch ∈ c.listening
  opened : c.closed = false
  rng : c.rng = s.rng
  listeners : c.listeners.length = s.listeners
  token : c.relayAuthToken = s.token
  sent : c.sent = s.sent

/-- It waits for a message, and its closure is the last one on the stream. -/
structure Waits (c : Connection) (s : Standing) (wanted : Wanted) : Prop
    extends Under c { s with listeners := s.listeners + 1 } .waiting where
  last : c.listeners[s.listeners]? = some { task := s.task, wanted := wanted, inbox := [] }

/-- A frame of the handshake. -/
def Standing.sends (s : Standing) (fields : List (String × Json)) : Standing :=
  { s with
    sent := s.sent ++
      [{ channel := s.ch, json := .ofFields (withToken s.token fields), sealedUnder := none }] }

variable {s : Standing}

theorem stage_of_task {i : Nat} {t : Task} (h : c.tasks[i]? = some t) : c.stage i = some t.stage := by
  rw [stage, h]
  rfl

theorem task_goto {i : Nat} {t : Task} (h : c.tasks[i]? = some t) (stage : Stage) :
    (c.goto i stage).tasks[i]? = some { t with stage := stage } := by
  simp [goto, h]

theorem Under.goto {stage : Stage} (h : Under c s stage) (stage' : Stage) :
    Under (c.goto s.task stage') s stage' :=
  ⟨task_goto h.task stage', h.channel, h.live, h.opened, h.rng, h.listeners, h.token, h.sent⟩

theorem proceed_of_task {i : Nat} {t : Task} (h : c.tasks[i]? = some t) :
    c.proceed D i =
      match t.stage with
      | .derivingKey pin => some (c.join D i pin)
      | .offered derivedKey mlkemPubKeyB64 ch => some (c.encapsulate D i derivedKey mlkemPubKeyB64 ch)
      | .heardHmac => some (c.verifyHmac D i)
      | .verifying k valid => some (c.install i k valid)
      | stage => if t.caller = .timer then c.proceedTimer i stage else none := by
  unfold proceed
  generalize c.tasks[i]? = task at h
  subst h
  rfl

theorem wake_of_waiting {i : Nat} {stage : Stage} (h : c.stage i = some .waiting) :
    c.wake i stage = c.goto i stage := if_pos h

/-- The timer fires, and a channel opens. -/
theorem fires {url : Text} (harmed : c.reconnectTimer.isSome = true) (hurl : c.lastUrl = some url)
    (hopen : c.closed = false) :
    ∃ m, Run (stepRel (step D)) c [.fire, .connectWebSocket c.tasks.length true] m ∧
      Under m { task := c.tasks.length, ch := c.opened, rng := c.rng,
                listeners := c.listeners.length, token := none, sent := c.sent } .connected ∧
      m.lastPin = c.lastPin := by
  have hfire : c.fire = (({ c with reconnectTimer := none }.connect url).spawn .timer .connecting) := by
    rw [fire, hurl]
  have htask : c.fire.tasks[c.tasks.length]? = some { caller := .timer, stage := .connecting } := by
    rw [hfire]
    exact List.getElem?_concat_length
  have hstep : c.step D .fire = some c.fire := if_pos harmed
  have hopens : c.fire.step D (.connectWebSocket c.tasks.length true) =
      some (c.fire.listen c.tasks.length) := if_pos (stage_of_task htask)
  -- nothing but the timer, the URL, the session and the tasks has changed:
  have hkept : c.fire.opened = c.opened ∧ c.fire.closed = false ∧ c.fire.rng = c.rng ∧
      c.fire.listeners = c.listeners ∧ c.fire.relayAuthToken = none ∧ c.fire.sent = c.sent ∧
      c.fire.lastPin = c.lastPin := by
    rw [hfire]
    exact ⟨rfl, hopen, rfl, rfl, rfl, rfl, rfl⟩
  obtain ⟨hopened, hclosed, hrng, hlisteners, htoken, hsent, hpin⟩ := hkept
  refine ⟨_, Run.cons hstep (Run.cons hopens (Run.nil _)), ⟨task_goto htask _, congrArg some hopened,
    ?_, hclosed, hrng, congrArg List.length hlisteners, htoken, hsent⟩, hpin⟩
  show c.opened ∈ c.fire.listening ++ [c.fire.opened]
  rw [hopened]
  exact List.mem_append_right _ (List.mem_singleton_self _)

/-- `firstWhere` behind a message of the handshake. -/
theorem waits_firstWhere {stage : Stage} (h : Under c s stage) (fields : List (String × Json))
    (wanted : Wanted) :
    Waits ((c.sendJson fields none).firstWhere s.task wanted) (s.sends fields) wanted := by
  have hsend : c.sendJson fields none = { c with sent := (s.sends fields).sent } := by
    rw [sendJson, send, h.channel, h.token, Standing.sends, ← h.sent]
  rw [hsend]
  refine ⟨⟨?_, h.channel, h.live, h.opened, h.rng, ?_, h.token, rfl⟩, ?_⟩
  · exact task_goto (c := { c with sent := (s.sends fields).sent }) h.task .waiting
  · exact (List.length_append ..).trans (congrArg (· + 1) h.listeners)
  · show (c.listeners ++
      [{ task := s.task, wanted := wanted, inbox := if c.closed then [.done] else [] }])[s.listeners]? = _
    rw [h.opened, ← h.listeners]
    exact List.getElem?_concat_length

/-- The callback goes on to the handshake and joins. -/
theorem joins_room {pin : Text} (h : Under c s .connected) (hpin : c.lastPin = some pin) :
    ∃ m, Run (stepRel (step D)) c [.proceed s.task, .proceed s.task] m ∧
      Waits m (s.sends [("action", .str "join".toList),
        ("room_id", .str (roomId D.prim (D.prim.argon2id pin)))]) (.offer (D.prim.argon2id pin)) := by
  have hrejoin : c.step D (.proceed s.task) = some (c.goto s.task (.derivingKey pin)) := by
    rw [step, proceed_of_task h.task]
    dsimp only
    rw [if_pos rfl, proceedTimer, rejoin, hpin]
  have hunder := h.goto (.derivingKey pin)
  have hjoin : (c.goto s.task (.derivingKey pin)).step D (.proceed s.task) =
      some ((c.goto s.task (.derivingKey pin)).join D s.task pin) := by
    rw [step, proceed_of_task hunder.task]
  exact ⟨_, Run.cons hrejoin (Run.cons hjoin (Run.nil _)), waits_firstWhere hunder _ _⟩

/-- The token of the relay is taken and not passed on. -/
theorem takes_token {wanted : Wanted} (h : Waits c s wanted) {msg token : Text}
    (hauth : authToken D msg = some token) :
    ∃ m, c.step D (.data s.ch msg) = some m ∧ Waits m { s with token := some token } wanted := by
  have hdata : c.step D (.data s.ch msg) = some { c with relayAuthToken := some token } := by
    rw [step, if_pos h.live, onData, hauth]
  exact ⟨_, hdata, ⟨⟨h.task, h.channel, h.live, h.opened, h.rng, h.listeners, rfl, h.sent⟩, h.last⟩⟩

/-- Another text comes to the closure that is last on the stream. -/
theorem data_waits {wanted : Wanted} (h : Waits c s wanted) {msg : Text}
    (hauth : authToken D msg = none) :
    ∃ m, c.step D (.data s.ch msg) = some m ∧
      Under m { s with listeners := s.listeners + 1 } .waiting ∧
      m.listeners[s.listeners]? =
        some { task := s.task, wanted := wanted, inbox := [.message s.ch msg] } := by
  have hdata : c.step D (.data s.ch msg) = some (c.broadcast (.message s.ch msg)) := by
    rw [step, if_pos h.live, onData, hauth]
    dsimp only
    rw [h.opened]
    rfl
  refine ⟨_, hdata, ⟨h.task, h.channel, h.live, h.opened, h.rng, ?_, h.token, h.sent⟩, ?_⟩
  · exact (List.length_map _).trans h.listeners
  · simp [broadcast, h.last]

/-- The closure that waits for the offer passes over a text that is none. -/
theorem passes_over {key : Bytes} (h : Waits c s (.offer key)) {msg : Text}
    (hauth : authToken D msg = none) (hignored : offerIn D msg = none) :
    ∃ m, Run (stepRel (step D)) c [.data s.ch msg, .hear s.listeners] m ∧ Waits m s (.offer key) := by
  obtain ⟨m, hdata, hunder, hlast⟩ := data_waits h hauth
  have hhear : m.step D (.hear s.listeners) =
      some { m with
        listeners := m.listeners.set s.listeners
          { task := s.task, wanted := .offer key, inbox := [] } } := by
    rw [step, hear, hlast]
    dsimp only
    rw [hearMessage]
    dsimp only
    rw [hignored]
  have hlt : s.listeners < m.listeners.length := (List.getElem?_eq_some_iff.1 hlast).1
  refine ⟨_, Run.cons hdata (Run.cons hhear (Run.nil _)), ⟨⟨hunder.task, hunder.channel, hunder.live,
    hunder.opened, hunder.rng, ?_, hunder.token, hunder.sent⟩, ?_⟩⟩
  · exact (List.length_set ..).trans hunder.listeners
  · exact List.getElem?_set_self hlt

/-- A task that waits and whose closure has accepted goes on. -/
theorem under_accepted (pending : Option PendingHmac)
    (h : Under c { s with listeners := s.listeners + 1 } .waiting) (stage : Stage) :
    Under ({ c with
      listeners := c.listeners.eraseIdx s.listeners
      pendingHmacVerification := pending }.wake s.task stage) s stage := by
  have hlisteners : c.listeners.length = s.listeners + 1 := h.listeners
  have hlength : (c.listeners.eraseIdx s.listeners).length = s.listeners := by
    rw [List.length_eraseIdx_of_lt (by rw [hlisteners]; exact Nat.lt_succ_self _), hlisteners]
    rfl
  have hwaiting : Under { c with
      listeners := c.listeners.eraseIdx s.listeners
      pendingHmacVerification := pending } s .waiting :=
    ⟨h.task, h.channel, h.live, h.opened, h.rng, hlength, h.token, h.sent⟩
  rw [wake_of_waiting (stage_of_task hwaiting.task)]
  exact hwaiting.goto stage

/-- The offer comes, and the callback goes on with it. -/
theorem hears_offer {key : Bytes} (h : Waits c s (.offer key)) {offer pk : Text}
    (hauth : authToken D offer = none) (hoffer : offerIn D offer = some pk) :
    ∃ m, Run (stepRel (step D)) c [.data s.ch offer, .hear s.listeners] m ∧
      Under m s (.offered key pk s.ch) := by
  obtain ⟨m, hdata, hunder, hlast⟩ := data_waits h hauth
  have hhear : m.step D (.hear s.listeners) =
      some ({ m with listeners := m.listeners.eraseIdx s.listeners }.wake s.task
        (.offered key pk s.ch)) := by
    rw [step, hear, hlast]
    dsimp only
    rw [hearMessage]
    dsimp only
    rw [hoffer]
  exact ⟨_, Run.cons hdata (Run.cons hhear (Run.nil _)),
    under_accepted m.pendingHmacVerification hunder _⟩

/-- The HMAC comes; it is kept in `_pendingHmacVerification`. -/
theorem hears_hmac {key : Bytes} {secret : Secret} (h : Waits c s (.hmac key secret))
    {hmac b64 : Text} (hauth : authToken D hmac = none) (hhmac : hmacIn D hmac = some b64) :
    ∃ m, Run (stepRel (step D)) c [.data s.ch hmac, .hear s.listeners] m ∧ Under m s .heardHmac ∧
      m.pendingHmacVerification = some
        { derivedKey := key, key := { secret := secret, hmacFrom := s.ch }, hmacB64 := b64 } := by
  obtain ⟨m, hdata, hunder, hlast⟩ := data_waits h hauth
  have hhear : m.step D (.hear s.listeners) =
      some ({ m with
        listeners := m.listeners.eraseIdx s.listeners
        pendingHmacVerification := some
          { derivedKey := key, key := { secret := secret, hmacFrom := s.ch },
            hmacB64 := b64 } }.wake s.task .heardHmac) := by
    rw [step, hear, hlast]
    dsimp only
    rw [hearMessage]
    dsimp only
    rw [hhmac]
  refine ⟨_, Run.cons hdata (Run.cons hhear (Run.nil _)), under_accepted _ hunder _, ?_⟩
  rw [wake]
  split_ifs
  · rfl
  · rfl

/-- The reply to an offer. -/
def replyFields (D : Dart) (ct : Bytes) : List (String × Json) :=
  [("type", .str "handshake".toList), ("mlkem_ciphertext", .str (D.prim.b64Encode ct))]

/-- With the offer the callback encapsulates, sends the ciphertext and waits again. -/
theorem sends_ciphertext {key : Bytes} {pk : Text} {ct ss : Bytes}
    (h : Under c s (.offered key pk s.ch))
    (hencap : (D.prim.base64Decode pk).bind (fun ek => D.prim.mlkemEncapsulate ek s.rng) =
      some (ct, ss)) :
    ∃ m, c.step D (.proceed s.task) = some m ∧
      Waits m ({ s with rng := s.rng + 1 }.sends (replyFields D ct))
        (.hmac key { bytes := ss, offerFrom := s.ch, ciphertextTo := some s.ch }) := by
  have hproceed : c.step D (.proceed s.task) = some (c.encapsulate D s.task key pk s.ch) := by
    rw [step, proceed_of_task h.task]
  have hunder : Under { c with rng := c.rng + 1 } { s with rng := s.rng + 1 } (.offered key pk s.ch) :=
    ⟨h.task, h.channel, h.live, h.opened, congrArg (· + 1) h.rng, h.listeners, h.token, h.sent⟩
  rw [encapsulate, h.rng, hencap] at hproceed
  rw [← h.rng] at hproceed
  rw [← h.channel]
  exact ⟨_, hproceed, waits_firstWhere hunder _ _⟩

/-- The HMAC that has come is the right one. -/
theorem verifies_pending {key : Bytes} {k : SessionKey} {b64 : Text} (h : Under c s .heardHmac)
    (hpending : c.pendingHmacVerification = some { derivedKey := key, key := k, hmacB64 := b64 })
    (hverifies : D.prim.base64Decode b64 = some (D.prim.hmacSha256 key k.secret.bytes)) :
    ∃ m, c.step D (.proceed s.task) = some m ∧ Under m s (.verifying k true) := by
  have hverify : c.step D (.proceed s.task) =
      some ({ c with pendingHmacVerification := none }.goto s.task (.verifying k true)) := by
    rw [step, proceed_of_task h.task]
    dsimp only
    rw [verifyHmac, hpending]
    dsimp only
    rw [hverifies]
    dsimp only
    rw [decide_eq_true rfl]
  have hunder : Under { c with pendingHmacVerification := none } s .heardHmac :=
    ⟨h.task, h.channel, h.live, h.opened, h.rng, h.listeners, h.token, h.sent⟩
  exact ⟨_, hverify, hunder.goto _⟩

/-- An established session on the channel `ch` after a reconnect. -/
structure Established (t : Connection) (ch : ChannelId) (k : SessionKey) (token : Text) : Prop where
  crypto : t.crypto = some k
  sessionId : t.sessionId = some (deriveSessionId k.secret.bytes)
  channel : t.channel = some ch
  token : t.relayAuthToken = some token
  attempts : t.reconnectAttempts = 0

/-- The session is installed, and the callback ends. -/
theorem installs_session {k : SessionKey} {token : Text} (h : Under c s (.verifying k true))
    (htoken : s.token = some token) :
    ∃ m, Run (stepRel (step D)) c [.proceed s.task, .proceed s.task] m ∧
      Established m s.ch k token ∧ m.sent = s.sent := by
  have hinstall : c.step D (.proceed s.task) = some (c.install s.task k true) := by
    rw [step, proceed_of_task h.task]
  have htask : (c.install s.task k true).tasks[s.task]? =
      some { caller := .timer, stage := .established } := task_goto h.task .established
  have hfinish : (c.install s.task k true).step D (.proceed s.task) =
      some { (c.install s.task k true).goto s.task .finished with reconnectAttempts := 0 } := by
    rw [step, proceed_of_task htask]
    rfl
  exact ⟨_, Run.cons hinstall (Run.cons hfinish (Run.nil _)),
    ⟨rfl, rfl, h.channel, h.token.trans htoken, rfl⟩, h.sent⟩

/-! ## Recovery -/

/-- What a reconnect takes: the timer, a channel, the token, three texts of the agent, and the callback's
own steps. -/
def attempt {pin : Text} (c : Connection) (A : Answers D pin c.rng) : List ServiceEvent :=
  [.fire, .connectWebSocket c.tasks.length true, .proceed c.tasks.length, .proceed c.tasks.length,
    .data c.opened A.auth, .data c.opened A.boot, .hear c.listeners.length,
    .data c.opened A.offer, .hear c.listeners.length, .proceed c.tasks.length,
    .data c.opened A.hmac, .hear c.listeners.length, .proceed c.tasks.length,
    .proceed c.tasks.length, .proceed c.tasks.length]

/-- The session of an attempt. -/
def attemptKey {pin : Text} (c : Connection) (A : Answers D pin c.rng) : SessionKey :=
  { secret := { bytes := A.secret, offerFrom := c.opened, ciphertextTo := some c.opened },
    hmacFrom := c.opened }

/-- The frames of an attempt: the join before the token has come, the reply with the token. -/
def attemptFrames {pin : Text} (c : Connection) (A : Answers D pin c.rng) : List Frame :=
  [{ channel := c.opened
     json := .ofFields [("action", .str "join".toList),
       ("room_id", .str (roomId D.prim (D.prim.argon2id pin)))]
     sealedUnder := none },
   { channel := c.opened
     json := .ofFields (withToken (some A.token) (replyFields D A.ct))
     sealedUnder := none }]

/-- One attempt, whatever else is under way. -/
theorem attempt_succeeds {pin url : Text} (hopen : c.closed = false)
    (harmed : c.reconnectTimer.isSome = true) (hurl : c.lastUrl = some url)
    (hpin : c.lastPin = some pin) (A : Answers D pin c.rng) :
    ∃ t, Run (stepRel (step D)) c (c.attempt A) t ∧
      Established t c.opened (c.attemptKey A) A.token ∧ t.sent = c.sent ++ c.attemptFrames A := by
  obtain ⟨c₁, hfires, hconnected, hpin'⟩ := fires (D := D) harmed hurl hopen
  obtain ⟨c₂, hjoins, hwaits⟩ := joins_room (D := D) hconnected (hpin'.trans hpin)
  obtain ⟨c₃, htakes, hbooting⟩ := takes_token hwaits A.auth_reads
  obtain ⟨c₄, hpasses, hoffer⟩ := passes_over hbooting A.boot_passes A.boot_ignored
  obtain ⟨c₅, hhears, hoffered⟩ := hears_offer hoffer A.offer_passes A.offer_reads
  obtain ⟨c₆, hsends, hhmac⟩ := sends_ciphertext hoffered A.encapsulates
  obtain ⟨c₇, hhears', hheard, hpending⟩ := hears_hmac hhmac A.hmac_passes A.hmac_reads
  obtain ⟨c₈, hverifies, hverified⟩ := verifies_pending hheard hpending A.verifies
  obtain ⟨t, hinstalls, hestablished, hsent⟩ := installs_session (D := D) hverified rfl
  refine ⟨t, ?_, hestablished, ?_⟩
  · exact hfires.append (hjoins.append (Run.cons htakes (hpasses.append (hhears.append
      (Run.cons hsends (hhears'.append (Run.cons hverifies hinstalls)))))))
  · rw [hsent]
    exact List.append_assoc ..

theorem armedKnowing_of_run {es : List ServiceEvent} (h : Run (stepRel (step D)) new es c) :
    c.ArmedKnowing := by
  have halong : Along (stepRel (step D)) ArmedKnowing new es := by
    apply along_of_invariant (I := ArmedKnowing)
    · intro c e m hc hm
      exact armedKnowing_step hc hm
    · intro c hc
      exact hc
    · exact armedKnowing_unarmed rfl
  exact halong.last h

/-- From wherever the service stands with the timer armed, one attempt leads to a session on the new
channel, and the delay starts over. -/
theorem reconnect_possible {es : List ServiceEvent} {pin : Text}
    (hrun : Run (stepRel (step D)) new es c) (hopen : c.closed = false)
    (harmed : c.reconnectTimer.isSome = true) (hpin : c.lastPin = some pin)
    (A : Answers D pin c.rng) :
    ∃ t k, Run (stepRel (step D)) c (c.attempt A) t ∧ Established t c.opened k A.token ∧
      k.NegotiatedOver c.opened ∧ k.secret.bytes = A.secret := by
  obtain ⟨url, hurl⟩ := Option.isSome_iff_exists.1 (armedKnowing_of_run hrun harmed).1
  obtain ⟨t, hattempt, hestablished, -⟩ := attempt_succeeds hopen harmed hurl hpin A
  exact ⟨t, c.attemptKey A, hattempt, hestablished, ⟨rfl, rfl, rfl⟩, rfl⟩

/-- The message of the relay with a token. -/
def Sample.auth : Json := .ofFields [("type", .str "auth".toList), ("token", .str "0a".toList)]

/-- The boot signal of the agent. -/
def Sample.boot : Json := .ofFields [("type", .str "boot".toList)]

/-- The libraries of the small handshake, reading these messages as well. -/
def Sample.served : Dart :=
  Agent.Sample.dart [Sample.auth, Sample.boot, Sample.offer, Sample.hmac 0, Sample.hmac 1]

/-- The relay gives a token, and the agent of the PIN answers the second encapsulation. -/
def Sample.answers : Answers Sample.served Sample.pin 1 where
  auth := Sample.auth.encode
  boot := Sample.boot.encode
  offer := Sample.offer.encode
  hmac := (Sample.hmac 1).encode
  token := "0a".toList
  pubKeyB64 := Sample.served.prim.b64Encode [0]
  hmacB64 := Sample.served.prim.b64Encode
    (Sample.served.prim.hmacSha256 (Sample.served.prim.argon2id Sample.pin) (Agent.Sample.pad 32 [0, 1]))
  ct := [0, 1]
  secret := Agent.Sample.pad 32 [0, 1]
  auth_reads := by decide +kernel
  boot_passes := by decide +kernel
  offer_passes := by decide +kernel
  hmac_passes := by decide +kernel
  boot_ignored := by decide +kernel
  offer_reads := by decide +kernel
  hmac_reads := by decide +kernel
  encapsulates := by decide +kernel
  verifies := by decide +kernel

/-- A session whose channel has ended is followed by one with a new key. -/
theorem reconnect_possible_lost :
    ∃ c es t k, Run (stepRel (step Sample.served)) new
      (Sample.connected 0 ++ Sample.handshake 1 0 0 ++ [.proceed 1, .done 0]) c ∧
      Run (stepRel (step Sample.served)) c es t ∧ Established t 1 k "0a".toList ∧
      k.secret.bytes = Agent.Sample.pad 32 [0, 1] := by
  obtain ⟨c, hrun, hopen, harmed, hpin, hrng, hopened⟩ : ∃ c, Run (stepRel (step Sample.served)) new
      (Sample.connected 0 ++ Sample.handshake 1 0 0 ++ [.proceed 1, .done 0]) c ∧
      c.closed = false ∧ c.reconnectTimer.isSome = true ∧ c.lastPin = some Sample.pin ∧ c.rng = 1 ∧
      c.opened = 1 := exists_run_of_exec (by decide +kernel)
  obtain ⟨A, htoken, hsecret⟩ : ∃ A : Answers Sample.served Sample.pin c.rng,
      A.token = "0a".toList ∧ A.secret = Agent.Sample.pad 32 [0, 1] := by
    rw [hrng]
    exact ⟨Sample.answers, rfl, rfl⟩
  obtain ⟨t, k, hsteps, hestablished, -, hbytes⟩ := reconnect_possible hrun hopen harmed hpin A
  rw [hopened, htoken] at hestablished
  exact ⟨c, _, t, k, hrun, hsteps, hestablished, hbytes.trans hsecret⟩

end Ktty.Client.Connection
