import Ktty.Client.ConnectionSteps

/-!
# What the service does by itself about a lost connection

The events of `WebSocketService` that are no calls from outside (`isInternal`): streams, timers and
suspended tasks. `Unaided` says what such a step leaves alone: the URL and the PIN of the reconnect, and
the calls from outside that still open a channel or have just thrown. `Trying` says that a service which
wants to reconnect and can do so is about it: a channel is open, the timer is armed, or the callback of
the timer stands at a point behind which it opens a channel or schedules the next attempt. A step keeps
`Trying`, also when something else (`X`) may be under way (`unaided_step`).
-/

set_option autoImplicit false

namespace Ktty.Client

open Ktty.Wire

/-- The await ends with a channel, or its exception is about to be handled. -/
def Stage.unresolved : Stage → Bool
  | .connecting => true
  | .thrown => true
  | _ => false

namespace Connection

/-- The events that are no calls from the rest of the app, apart from those that send. -/
def isInternal : ServiceEvent → Bool
  | .connectWebSocket _ _ => true
  | .data _ _ => true
  | .error _ => true
  | .done _ => true
  | .hear _ => true
  | .timeout _ => true
  | .proceed _ => true
  | .fire => true
  | .sendEncrypted _ _ _ => true
  | .sendSyncRequest _ => true
  | .encrypted _ => true
  | _ => false

/-- The unresolved tasks of the callers that `who` admits stay unresolved. -/
def TasksKept (who : Caller → Prop) (c m : Connection) : Prop :=
  ∀ (i : Nat) (t : Task), c.tasks[i]? = some t → who t.caller → t.stage.unresolved = true →
    ∃ t' : Task, m.tasks[i]? = some t' ∧ t'.caller = t.caller ∧ t'.stage.unresolved = true

/-- A callback of the timer is unresolved. -/
def Retrying (c : Connection) : Prop :=
  ∃ (i : Nat) (t : Task), c.tasks[i]? = some t ∧ t.caller = .timer ∧ t.stage.unresolved = true

/-- A service with auto-reconnect, URL and PIN is connected, or about to connect, or `X` holds. -/
def Trying (X : Prop) (c : Connection) : Prop :=
  c.autoReconnectEnabled = true → c.lastUrl.isSome = true → c.lastPin.isSome = true →
    c.channel.isSome = true ∨ c.reconnectTimer.isSome = true ∨ c.Retrying ∨ X

/-- What an internal step leaves to the callers. -/
structure Unaided (c m : Connection) : Prop where
  lastUrl : m.lastUrl = c.lastUrl
  lastPin : m.lastPin = c.lastPin
  /-- Auto-reconnect changes only to on. -/
  enabled : c.autoReconnectEnabled = true → m.autoReconnectEnabled = true
  /-- A call from outside stays unresolved, unless a channel has been opened. -/
  outside : m.channel.isSome = true ∧ m.autoReconnectEnabled = true ∨ TasksKept (· = .outside) c m
  trying : ∀ X : Prop, c.Trying X → m.Trying X

/-- The reconnect state and the unresolved tasks stay what they are. -/
structure Steady (c m : Connection) : Prop where
  channel : m.channel = c.channel
  reconnectTimer : m.reconnectTimer = c.reconnectTimer
  autoReconnectEnabled : m.autoReconnectEnabled = c.autoReconnectEnabled
  lastUrl : m.lastUrl = c.lastUrl
  lastPin : m.lastPin = c.lastPin
  tasks : TasksKept (fun _ => True) c m

variable {D : Dart} {c m m' : Connection}

/-! ## Steady steps -/

theorem tasksKept_rfl (who : Caller → Prop) (h : m.tasks = c.tasks) : TasksKept who c m := by
  intro i t ht _ hun
  rw [h]
  exact ⟨t, ht, rfl, hun⟩

theorem TasksKept.trans {who : Caller → Prop} (h : TasksKept who c m) (k : TasksKept who m m') :
    TasksKept who c m' := by
  intro i t ht hwho hun
  obtain ⟨t', ht', hcaller, hun'⟩ := h i t ht hwho hun
  obtain ⟨t'', ht'', hcaller', hun''⟩ := k i t' ht' (hcaller ▸ hwho) hun'
  exact ⟨t'', ht'', hcaller'.trans hcaller, hun''⟩

theorem Steady.trans (h : Steady c m) (k : Steady m m') : Steady c m' :=
  ⟨k.channel.trans h.channel, k.reconnectTimer.trans h.reconnectTimer,
    k.autoReconnectEnabled.trans h.autoReconnectEnabled, k.lastUrl.trans h.lastUrl,
    k.lastPin.trans h.lastPin, h.tasks.trans k.tasks⟩

theorem steady_rfl (c : Connection) : Steady c c :=
  ⟨rfl, rfl, rfl, rfl, rfl, tasksKept_rfl _ rfl⟩

/-- Only the reconnect state and the tasks count. -/
theorem steady_set (c : Connection) {crypto : Option SessionKey}
    {sessionId relayAuthToken : Option Text} {reconnectAttempts rng : Nat}
    {pending : Option PendingHmac} {listeners : List Listener} {encryptions : List Encryption}
    {sent : List Frame} :
    Steady c
      { c with
        crypto := crypto
        sessionId := sessionId
        relayAuthToken := relayAuthToken
        reconnectAttempts := reconnectAttempts
        rng := rng
        pendingHmacVerification := pending
        listeners := listeners
        encryptions := encryptions
        sent := sent } :=
  ⟨rfl, rfl, rfl, rfl, rfl, tasksKept_rfl _ rfl⟩

/-- Moving the `i`-th task keeps the unresolved tasks of `who` if this one is none of them, or stays
one. -/
theorem goto_tasksKept {who : Caller → Prop} {i : Nat} {stage : Stage}
    (h : ∀ t, c.tasks[i]? = some t → who t.caller → t.stage.unresolved = true →
      stage.unresolved = true) : TasksKept who c (c.goto i stage) := by
  intro j t ht hwho hun
  by_cases hij : i = j
  · subst hij
    refine ⟨{ t with stage := stage }, ?_, rfl, h t ht hwho hun⟩
    simp [goto, ht]
  · refine ⟨t, ?_, rfl, hun⟩
    simp [goto, hij, ht]

theorem steady_goto {i : Nat} {stage old : Stage} (hold : c.stage i = some old)
    (h : old.unresolved = true → stage.unresolved = true) : Steady c (c.goto i stage) := by
  refine ⟨rfl, rfl, rfl, rfl, rfl, goto_tasksKept ?_⟩
  intro t ht _ hun
  rw [Connection.stage, ht] at hold
  obtain rfl := Option.some.inj hold
  exact h hun

theorem steady_sendJson (fields : List (String × Json)) (sealedUnder : Option SessionKey) :
    Steady c (c.sendJson fields sealedUnder) := by
  rw [sendJson, send]
  split
  · exact steady_set c
  · exact steady_rfl c

theorem steady_wake (i : Nat) (stage : Stage) : Steady c (c.wake i stage) := by
  rw [wake]
  split_ifs with hwaiting
  · exact steady_goto hwaiting (by rintro ⟨⟩)
  · exact steady_rfl c

theorem steady_onData (ch : ChannelId) (str : Text) : Steady c (c.onData D ch str) := by
  rw [onData]
  split
  · exact steady_set c
  · split_ifs
    · exact steady_rfl c
    · exact steady_set c

theorem steady_hear {i : Nat} (h : c.hear D i = some m) : Steady c m := by
  -- a closure changes the listeners and the pending HMAC, and wakes a waiting task:
  have wakes : ∀ (ls : List Listener) (p : Option PendingHmac) (j : Nat) (stage : Stage),
      Steady c ({ c with listeners := ls, pendingHmacVerification := p }.wake j stage) :=
    fun ls p j stage => (steady_set c).trans (steady_wake j stage)
  rw [hear] at h
  split at h
  · split at h
    · cases h
      rw [hearMessage]
      split
      · split
        · exact wakes _ c.pendingHmacVerification _ _
        · exact steady_set c
      · split
        · exact wakes _ _ _ _
        · exact steady_set c
    · cases h
      exact wakes _ c.pendingHmacVerification _ _
    · cases h
      exact wakes _ c.pendingHmacVerification _ _
    · cases h
  · cases h

theorem steady_firstWhere {i : Nat} {w : Stage} (wanted : Wanted) (hold : c.stage i = some w)
    (h : w.unresolved = false) : Steady c (c.firstWhere i wanted) := by
  have hgoto : Steady c (c.goto i .waiting) := steady_goto hold (by simp [h])
  exact hgoto.trans (steady_set _)

theorem stage_sendJson (fields : List (String × Json)) (sealedUnder : Option SessionKey) (i : Nat) :
    (c.sendJson fields sealedUnder).stage i = c.stage i := by
  rw [sendJson, send]
  split <;> rfl

theorem steady_join {i : Nat} {pin : Text} (h : c.stage i = some (.derivingKey pin)) :
    Steady c (c.join D i pin) := by
  rw [join]
  refine (steady_sendJson _ _).trans (steady_firstWhere _ (w := .derivingKey pin) ?_ rfl)
  rw [stage_sendJson]
  exact h

theorem steady_encapsulate {i : Nat} {key : Bytes} {pk : Text} {ch : ChannelId}
    (h : c.stage i = some (.offered key pk ch)) : Steady c (c.encapsulate D i key pk ch) := by
  rw [encapsulate]
  split
  · refine (steady_set c).trans ((steady_sendJson _ _).trans
      (steady_firstWhere _ (w := .offered key pk ch) ?_ rfl))
    rw [stage_sendJson]
    exact h
  · exact steady_goto h (by rintro ⟨⟩)

theorem steady_verifyHmac {i : Nat} (h : c.stage i = some .heardHmac) :
    Steady c (c.verifyHmac D i) := by
  rw [verifyHmac]
  split
  · exact steady_goto h (by rintro ⟨⟩)
  · split
    · exact (steady_set c).trans (steady_goto h (by rintro ⟨⟩))
    · exact (steady_set c).trans (steady_goto h (by rintro ⟨⟩))

theorem steady_install {i : Nat} {k : SessionKey} {valid : Bool}
    (h : c.stage i = some (.verifying k valid)) : Steady c (c.install i k valid) := by
  rw [install]
  split_ifs
  · exact (steady_goto h (by rintro ⟨⟩)).trans (steady_set _)
  · exact steady_goto h (by rintro ⟨⟩)

theorem steady_finishEncryption (enc : Encryption) : Steady c (c.finishEncryption D enc) := by
  rw [finishEncryption]
  split
  · exact (steady_set c).trans (steady_sendJson _ _)
  · exact steady_set c

theorem steady_sendEncrypted (seq : Int) (type : Text) (payload : Bytes) :
    Steady c (c.sendEncrypted seq type payload) := by
  rw [sendEncrypted]
  split
  · exact steady_set c
  · exact steady_rfl c

theorem steady_sendSyncRequest (lastSeq : Int) : Steady c (c.sendSyncRequest lastSeq) := by
  rw [sendSyncRequest]
  split
  · exact steady_sendEncrypted ..
  · exact steady_rfl c

/-! ## Internal steps -/

theorem Retrying.kept (h : c.Retrying) (k : TasksKept (· = .timer) c m) : m.Retrying := by
  obtain ⟨i, t, ht, hcaller, hun⟩ := h
  obtain ⟨t', ht', hcaller', hun'⟩ := k i t ht hcaller hun
  exact ⟨i, t', ht', hcaller'.trans hcaller, hun'⟩

theorem Steady.unaided (h : Steady c m) : Unaided c m where
  lastUrl := h.lastUrl
  lastPin := h.lastPin
  enabled := fun henabled => h.autoReconnectEnabled.trans henabled
  outside := Or.inr fun i t ht _ hun => h.tasks i t ht trivial hun
  trying X hc henabled hurl hpin := by
    rw [h.autoReconnectEnabled] at henabled
    rw [h.lastUrl] at hurl
    rw [h.lastPin] at hpin
    rw [h.channel, h.reconnectTimer]
    rcases hc henabled hurl hpin with hchannel | htimer | hretry | hX
    · exact Or.inl hchannel
    · exact Or.inr (Or.inl htimer)
    · exact Or.inr (Or.inr (Or.inl (hretry.kept fun i t ht _ hun => h.tasks i t ht trivial hun)))
    · exact Or.inr (Or.inr (Or.inr hX))

/-- A step that arms the timer if auto-reconnect is on and URL and PIN are known. -/
theorem unaided_of_armed (hurl : m.lastUrl = c.lastUrl) (hpin : m.lastPin = c.lastPin)
    (henabled : m.autoReconnectEnabled = c.autoReconnectEnabled)
    (htasks : TasksKept (· = .outside) c m)
    (harmed : m.autoReconnectEnabled = true → m.lastUrl.isSome = true → m.lastPin.isSome = true →
      m.reconnectTimer.isSome = true) : Unaided c m where
  lastUrl := hurl
  lastPin := hpin
  enabled := fun h => henabled.trans h
  outside := Or.inr htasks
  trying _ _ h hurl hpin := Or.inr (Or.inl (harmed h hurl hpin))

/-- `_scheduleReconnect` touches nothing but the timer. -/
theorem catchReconnect_spec (c : Connection) :
    c.catchReconnect.lastUrl = c.lastUrl ∧ c.catchReconnect.lastPin = c.lastPin ∧
      c.catchReconnect.autoReconnectEnabled = c.autoReconnectEnabled ∧
      c.catchReconnect.tasks = c.tasks ∧
      (c.autoReconnectEnabled = true → c.lastUrl.isSome = true → c.lastPin.isSome = true →
        c.catchReconnect.reconnectTimer.isSome = true) := by
  rw [catchReconnect]
  split_ifs with henabled
  · rw [scheduleReconnect]
    split_ifs with hmissing
    · refine ⟨rfl, rfl, rfl, rfl, ?_⟩
      intro _ hurl hpin
      simp [Option.isNone_iff_eq_none, Option.isSome_iff_ne_none] at hmissing hurl hpin
      exact absurd (hmissing.resolve_left hurl) hpin
    · exact ⟨rfl, rfl, rfl, rfl, fun _ _ _ => rfl⟩
  · exact ⟨rfl, rfl, rfl, rfl, fun h => absurd h henabled⟩

theorem handleDisconnect_unaided (htasks : m.tasks = c.tasks) (hurl : m.lastUrl = c.lastUrl)
    (hpin : m.lastPin = c.lastPin) (henabled : m.autoReconnectEnabled = c.autoReconnectEnabled) :
    Unaided c m.handleDisconnect := by
  obtain ⟨hurl', hpin', henabled', htasks', harmed⟩ := catchReconnect_spec
    { m with channel := none, crypto := none, sessionId := none, relayAuthToken := none }
  refine unaided_of_armed (hurl'.trans hurl) (hpin'.trans hpin) (henabled'.trans henabled)
    (tasksKept_rfl _ (htasks'.trans htasks)) ?_
  intro h hu hp
  exact harmed (henabled'.symm.trans h) (by rw [← hu]; exact congrArg _ hurl'.symm)
    (by rw [← hp]; exact congrArg _ hpin'.symm)

/-- The callback of the timer ends with its `catch`. -/
theorem finish_unaided {i : Nat} {t : Task} (ht : c.tasks[i]? = some t) (hcaller : t.caller = .timer) :
    Unaided c (c.goto i .finished).catchReconnect := by
  obtain ⟨hurl, hpin, henabled, htasks, harmed⟩ := catchReconnect_spec (c.goto i .finished)
  refine unaided_of_armed hurl hpin henabled ?_ ?_
  · -- the task that ends is one of the timer
    have hgoto : TasksKept (· = .outside) c (c.goto i .finished) := by
      apply goto_tasksKept
      intro t' ht' hout
      rw [ht] at ht'
      obtain rfl := Option.some.inj ht'
      rw [hcaller] at hout
      cases hout
    exact hgoto.trans (tasksKept_rfl _ htasks)
  · intro h hu hp
    rw [hurl] at hu
    rw [hpin] at hp
    exact harmed (henabled.symm.trans h) hu hp

theorem proceed_unaided {i : Nat} (h : c.proceed D i = some m) : Unaided c m := by
  rw [proceed] at h
  cases ht : c.tasks[i]? with
  | none =>
      rw [ht] at h
      cases h
  | some t =>
      rw [ht] at h
      dsimp only at h
      have hstage : c.stage i = some t.stage := by rw [stage, ht]; rfl
      split at h
      · rename_i pin hpin
        rw [hpin] at hstage
        cases h
        exact (steady_join hstage).unaided
      · rename_i key pk ch hoffered
        rw [hoffered] at hstage
        cases h
        exact (steady_encapsulate hstage).unaided
      · rename_i hheard
        rw [hheard] at hstage
        cases h
        exact (steady_verifyHmac hstage).unaided
      · rename_i k valid hverifying
        rw [hverifying] at hstage
        cases h
        exact (steady_install hstage).unaided
      · split_ifs at h with hcaller
        cases hs : t.stage with
        | connected =>
            rw [hs] at h hstage
            cases h
            rw [rejoin]
            split
            · exact (steady_goto hstage (by rintro ⟨⟩)).unaided
            · exact finish_unaided ht hcaller
        | established =>
            rw [hs] at h hstage
            cases h
            have hgoto : Steady c (c.goto i .finished) := steady_goto hstage (by rintro ⟨⟩)
            exact (hgoto.trans (steady_set _)).unaided
        | thrown =>
            rw [hs] at h
            cases h
            exact finish_unaided ht hcaller
        | _ =>
            rw [hs] at h
            cases h

theorem fire_unaided : Unaided c c.fire := by
  rw [fire]
  split
  · rename_i url hurl
    -- the callback is a new task of the timer, which opens a channel next:
    have hnew : ((({ c with reconnectTimer := none }).connect url).spawn .timer .connecting).Retrying :=
      ⟨c.tasks.length, ⟨.timer, .connecting⟩, by
        simp [spawn, connect, cleanupChannel, cancelReconnect], rfl, rfl⟩
    have hold : ∀ (i : Nat) (t : Task), c.tasks[i]? = some t →
        ((({ c with reconnectTimer := none }).connect url).spawn .timer .connecting).tasks[i]? =
          some t := by
      intro i t ht
      have hlt : i < c.tasks.length := (List.getElem?_eq_some_iff.1 ht).1
      simp [spawn, connect, cleanupChannel, cancelReconnect, List.getElem?_append_left hlt, ht]
    exact
      { lastUrl := hurl.symm
        lastPin := rfl
        enabled := id
        outside := Or.inr fun i t ht _ hun => ⟨t, hold i t ht, rfl, hun⟩
        trying := fun _ _ _ _ _ => Or.inr (Or.inr (Or.inl hnew)) }
  · rename_i hurl
    obtain ⟨hurl', hpin', henabled', htasks', harmed⟩ :=
      catchReconnect_spec { c with reconnectTimer := none }
    refine unaided_of_armed hurl' hpin' henabled' (tasksKept_rfl _ htasks') ?_
    intro _ hu _
    rw [hurl', hurl] at hu
    cases hu

theorem listen_unaided {i : Nat} : Unaided c (c.listen i) where
  lastUrl := rfl
  lastPin := rfl
  enabled _ := rfl
  outside := Or.inl ⟨rfl, rfl⟩
  trying _ _ _ _ _ := Or.inl rfl

/-- What an internal step leaves to the callers, and that it goes on trying. -/
theorem unaided_step {e : ServiceEvent} (h : c.step D e = some m) (hint : isInternal e = true) :
    Unaided c m := by
  cases e with
  | connectWebSocket i ok =>
      rw [step] at h
      split_ifs at h with hstage hok
      · cases h
        exact listen_unaided
      · cases h
        exact (steady_goto hstage fun _ => rfl).unaided
  | data ch str =>
      rw [step] at h
      split_ifs at h
      cases h
      exact (steady_onData ch str).unaided
  | error ch =>
      rw [step] at h
      split_ifs at h
      cases h
      rw [onError]
      split_ifs
      · exact (steady_rfl c).unaided
      · exact handleDisconnect_unaided rfl rfl rfl rfl
  | done ch =>
      rw [step] at h
      split_ifs at h
      cases h
      exact handleDisconnect_unaided rfl rfl rfl rfl
  | hear i => exact (steady_hear h).unaided
  | timeout i =>
      rw [step] at h
      split_ifs at h with hwaiting
      cases h
      exact (steady_goto hwaiting fun _ => rfl).unaided
  | proceed i => exact proceed_unaided h
  | fire =>
      rw [step] at h
      split_ifs at h
      cases h
      exact fire_unaided
  | sendEncrypted seq type payload =>
      cases h
      exact (steady_sendEncrypted seq type payload).unaided
  | sendSyncRequest lastSeq =>
      cases h
      exact (steady_sendSyncRequest lastSeq).unaided
  | encrypted i =>
      rw [step] at h
      obtain ⟨enc, -, rfl⟩ := Option.map_eq_some_iff.1 h
      exact ((steady_set c).trans (steady_finishEncryption enc)).unaided
  | _ => cases hint

end Connection

end Ktty.Client
