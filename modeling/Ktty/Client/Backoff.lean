import Ktty.Client.CurrentChannel

/-!
# The reconnect backoff

`Backoff` runs the service and records the delays that `_scheduleReconnect` computes, from the last time
that its counter was 0. Each call doubles the delay up to the cap, but the doubling happens first and on
64-bit integers: with the counter at 54 the product is out of range, and `min` keeps the negative number
that is left of it. In every run the delays are within their bounds and never decrease exactly as long as
no call finds the counter beyond 53 (`backoff_bounded_iff`).

The counter counts calls, not attempts. An attempt whose `connect` throws makes one call; one whose
channel breaks during the handshake makes two, in `_handleDisconnect` and in the `catch`.
-/

set_option autoImplicit false

namespace Ktty.Client

/-! ## Delays -/

/-- `Duration(milliseconds: ms)`, which keeps microseconds. -/
def milliseconds (ms : Int) : Int := int64 (1000 * ms)

theorem int64_eq {i : Int} (hlow : -2 ^ 63 ≤ i) (hhigh : i < 2 ^ 63) : int64 i = i := by
  apply Int.bmod_eq_of_le_mul_two
  · omega
  · omega

/-- With the counter up to 53 the product is what it should be. -/
theorem reconnectDelay_eq {k : Nat} (hk : k ≤ 53) : reconnectDelay k = min (1000 * 2 ^ k) 30000 := by
  have hpow : (2 : Int) ^ k ≤ 2 ^ 53 := pow_le_pow_right₀ (by decide) hk
  have hpos : (0 : Int) < 2 ^ k := pow_pos (by decide) k
  have hpow64 : int64 (2 ^ k) = 2 ^ k := by
    apply int64_eq
    · omega
    · omega
  rw [reconnectDelay, hpow64, kReconnectInitial, kReconnectMax, int64_eq]
  · omega
  · omega

theorem reconnectDelay_bounds {k : Nat} (hk : k ≤ 53) :
    kReconnectInitial ≤ reconnectDelay k ∧ reconnectDelay k ≤ kReconnectMax := by
  have hpos : (0 : Int) < 2 ^ k := pow_pos (by decide) k
  rw [reconnectDelay_eq hk, kReconnectInitial, kReconnectMax]
  omega

theorem reconnectDelay_mono {k : Nat} (hk : k + 1 ≤ 53) :
    reconnectDelay k ≤ reconnectDelay (k + 1) := by
  have hpos : (0 : Int) < 2 ^ k := pow_pos (by decide) k
  rw [reconnectDelay_eq hk, reconnectDelay_eq (Nat.le_of_succ_le hk), pow_succ]
  omega

/-- The delays within the bounds keep their value in microseconds. -/
theorem milliseconds_eq {ms : Int} (hlow : 0 ≤ ms) (hhigh : ms ≤ kReconnectMax) :
    milliseconds ms = 1000 * ms := by
  rw [kReconnectMax] at hhigh
  apply int64_eq
  · omega
  · omega

/-- The delays of the first `n` calls. -/
def delaysUpTo (n : Nat) : List Int := (List.range n).map fun k => milliseconds (reconnectDelay k)

/-- Within the bounds that the constants set. -/
def WithinBounds (delay : Int) : Prop :=
  milliseconds kReconnectInitial ≤ delay ∧ delay ≤ milliseconds kReconnectMax

theorem delaysUpTo_succ (n : Nat) :
    delaysUpTo (n + 1) = delaysUpTo n ++ [milliseconds (reconnectDelay n)] := by
  rw [delaysUpTo, delaysUpTo, List.range_succ, List.map_append, List.map_singleton]

theorem milliseconds_reconnectDelay {k : Nat} (hk : k ≤ 53) :
    milliseconds (reconnectDelay k) = 1000 * reconnectDelay k := by
  obtain ⟨hlow, hhigh⟩ := reconnectDelay_bounds hk
  rw [kReconnectInitial] at hlow
  exact milliseconds_eq (by omega) hhigh

theorem withinBounds_reconnectDelay {k : Nat} (hk : k ≤ 53) :
    WithinBounds (milliseconds (reconnectDelay k)) := by
  obtain ⟨hlow, hhigh⟩ := reconnectDelay_bounds hk
  have hinitial : milliseconds kReconnectInitial = 1000 * kReconnectInitial := by decide
  have hmax : milliseconds kReconnectMax = 1000 * kReconnectMax := by decide
  rw [WithinBounds, milliseconds_reconnectDelay hk, hinitial, hmax]
  omega

theorem milliseconds_mono {j k : Nat} (hjk : j ≤ k) (hk : k ≤ 53) :
    milliseconds (reconnectDelay j) ≤ milliseconds (reconnectDelay k) := by
  induction k with
  | zero => rw [Nat.le_zero.1 hjk]
  | succ k ih =>
      rcases Nat.lt_or_ge k j with hlt | hle
      · rw [Nat.le_antisymm hjk hlt]
      · have hstep := reconnectDelay_mono hk
        have hbefore := ih hle (by omega)
        rw [milliseconds_reconnectDelay hk]
        rw [milliseconds_reconnectDelay (by omega : k ≤ 53)] at hbefore
        omega

/-- The first `n` delays are what they should be for up to 54 calls, and only then. -/
theorem delaysUpTo_bounded_iff (n : Nat) :
    ((∀ delay ∈ delaysUpTo n, WithinBounds delay) ∧ (delaysUpTo n).Pairwise (· ≤ ·)) ↔ n ≤ 54 := by
  constructor
  · rintro ⟨hwithin, -⟩
    by_contra hn
    -- at the 55th call the product has left the range of the integers
    have hmem : milliseconds (reconnectDelay 54) ∈ delaysUpTo n :=
      List.mem_map.2 ⟨54, List.mem_range.2 (by omega), rfl⟩
    have hwrapped : ¬ milliseconds kReconnectInitial ≤ milliseconds (reconnectDelay 54) := by decide
    exact hwrapped (hwithin _ hmem).1
  · intro hn
    constructor
    · intro delay hdelay
      obtain ⟨k, hk, rfl⟩ := List.mem_map.1 hdelay
      have hk := List.mem_range.1 hk
      exact withinBounds_reconnectDelay (by omega)
    · rw [delaysUpTo, List.pairwise_map]
      have hlt : (List.range n).Pairwise (· < ·) := List.pairwise_lt_range
      refine hlt.imp_of_mem fun {j k} _ hk hjk => ?_
      have hk := List.mem_range.1 hk
      exact milliseconds_mono hjk.le (by omega)

namespace Connection

open Ktty.Wire Ktty.Lib.Execution

/-! ## Calls of `_scheduleReconnect` -/

/-- URL and PIN are known, so `_scheduleReconnect` does not return at once. -/
def knows (c : Connection) : Bool := c.lastUrl.isSome && c.lastPin.isSome

/-- The step calls `_scheduleReconnect` for a lost connection or a failed attempt, and gets to the
delay. -/
def reschedules (c : Connection) : ServiceEvent → Bool
  -- `onError` throws before it when the controller is closed:
  | .error _ => !c.closed && c.autoReconnectEnabled && c.knows
  | .done _ => c.autoReconnectEnabled && c.knows
  -- the `catch` of the callback:
  | .proceed i =>
      decide (c.tasks[i]? = some { caller := .timer, stage := .thrown }) &&
        c.autoReconnectEnabled && c.knows
  | _ => false

/-- The step leaves the counter, and arms no timer. -/
structure SamePace (c m : Connection) : Prop where
  attempts : m.reconnectAttempts = c.reconnectAttempts
  timer : m.reconnectTimer = c.reconnectTimer ∨ m.reconnectTimer = none

/-- The delay is computed from the counter `k`. -/
structure Computes (k : Nat) (m : Connection) : Prop where
  attempts : m.reconnectAttempts = k + 1
  timer : m.reconnectTimer = some (reconnectDelay k)

section Calls

variable {D : Dart} {c m m' : Connection}

theorem samePace_rfl (c : Connection) : SamePace c c := ⟨rfl, Or.inl rfl⟩

theorem SamePace.trans (h : SamePace c m) (k : SamePace m m') : SamePace c m' := by
  refine ⟨k.attempts.trans h.attempts, ?_⟩
  rcases k.timer with hsame | hnone
  · rw [hsame]
    exact h.timer
  · exact Or.inr hnone

theorem samePace_sendJson (fields : List (String × Json)) (sealedUnder : Option SessionKey) :
    SamePace c (c.sendJson fields sealedUnder) := by
  rw [sendJson, send]
  split
  · exact ⟨rfl, Or.inl rfl⟩
  · exact samePace_rfl c

theorem samePace_wake (i : Nat) (stage : Stage) : SamePace c (c.wake i stage) := by
  rw [wake]
  split_ifs
  · exact ⟨rfl, Or.inl rfl⟩
  · exact samePace_rfl c

theorem samePace_onData (ch : ChannelId) (str : Text) : SamePace c (c.onData D ch str) := by
  rw [onData]
  split
  · exact ⟨rfl, Or.inl rfl⟩
  · split_ifs
    · exact samePace_rfl c
    · exact ⟨rfl, Or.inl rfl⟩

theorem samePace_hear {i : Nat} (h : c.hear D i = some m) : SamePace c m := by
  -- a closure changes the listeners and the pending HMAC, and wakes a waiting task:
  have wakes : ∀ (ls : List Listener) (p : Option PendingHmac) (j : Nat) (stage : Stage),
      SamePace c ({ c with listeners := ls, pendingHmacVerification := p }.wake j stage) :=
    fun ls p j stage =>
      SamePace.trans (m := { c with listeners := ls, pendingHmacVerification := p })
        ⟨rfl, Or.inl rfl⟩ (samePace_wake j stage)
  rw [hear] at h
  split at h
  · split at h
    · cases h
      rw [hearMessage]
      split
      · split
        · exact wakes _ c.pendingHmacVerification _ _
        · exact ⟨rfl, Or.inl rfl⟩
      · split
        · exact wakes _ _ _ _
        · exact ⟨rfl, Or.inl rfl⟩
    · cases h
      exact wakes _ c.pendingHmacVerification _ _
    · cases h
      exact wakes _ c.pendingHmacVerification _ _
    · cases h
  · cases h

theorem samePace_join (i : Nat) (pin : Text) : SamePace c (c.join D i pin) :=
  (samePace_sendJson _ none).trans ⟨rfl, Or.inl rfl⟩

theorem samePace_encapsulate (i : Nat) (derivedKey : Bytes) (pk : Text) (ch : ChannelId) :
    SamePace c (c.encapsulate D i derivedKey pk ch) := by
  rw [encapsulate]
  split
  · rename_i ct ss hres
    have hdraw : SamePace c { c with rng := c.rng + 1 } := ⟨rfl, Or.inl rfl⟩
    exact hdraw.trans ((samePace_sendJson _ none).trans ⟨rfl, Or.inl rfl⟩)
  · exact ⟨rfl, Or.inl rfl⟩

theorem samePace_verifyHmac (i : Nat) : SamePace c (c.verifyHmac D i) := by
  rw [verifyHmac]
  split
  · exact ⟨rfl, Or.inl rfl⟩
  · dsimp only
    split
    · exact ⟨rfl, Or.inl rfl⟩
    · exact ⟨rfl, Or.inl rfl⟩

theorem samePace_install (i : Nat) (k : SessionKey) (valid : Bool) :
    SamePace c (c.install i k valid) := by
  rw [install]
  split_ifs
  · exact ⟨rfl, Or.inl rfl⟩
  · exact ⟨rfl, Or.inl rfl⟩

theorem samePace_sendEncrypted (seq : Int) (type : Text) (payload : Bytes) :
    SamePace c (c.sendEncrypted seq type payload) := by
  rw [sendEncrypted]
  split
  · exact ⟨rfl, Or.inl rfl⟩
  · exact samePace_rfl c

theorem samePace_sendSyncRequest (lastSeq : Int) : SamePace c (c.sendSyncRequest lastSeq) := by
  rw [sendSyncRequest]
  split
  · exact samePace_sendEncrypted ..
  · exact samePace_rfl c

theorem samePace_finishEncryption (e : Encryption) : SamePace c (c.finishEncryption D e) := by
  rw [finishEncryption]
  have hdraw : SamePace c { c with rng := c.rng + 1 } := ⟨rfl, Or.inl rfl⟩
  split
  · exact hdraw.trans (samePace_sendJson _ _)
  · exact hdraw

theorem samePace_disconnect (c : Connection) : SamePace c c.disconnect := by
  have hquiet : SamePace c { c with autoReconnectEnabled := false }.cancelReconnect :=
    ⟨rfl, Or.inr rfl⟩
  exact hquiet.trans ((samePace_sendJson _ none).trans ⟨rfl, Or.inl rfl⟩)

theorem samePace_dispose (c : Connection) : SamePace c c.dispose := by
  have hdisconnect := samePace_disconnect c
  rw [dispose]
  dsimp only
  split_ifs
  · exact hdisconnect
  · exact hdisconnect.trans ⟨rfl, Or.inl rfl⟩

/-- The guard of `_scheduleReconnect` and `attemptReconnect`. -/
theorem missing_eq (c : Connection) : (c.lastUrl.isNone || c.lastPin.isNone) = !c.knows := by
  rw [knows, Bool.not_and, Option.not_isSome, Option.not_isSome]

/-- `_scheduleReconnect` without URL or PIN returns at once. -/
theorem scheduleReconnect_of_not_knows (h : c.knows = false) : c.scheduleReconnect = c := by
  rw [scheduleReconnect, missing_eq, h]
  rfl

/-- Otherwise it computes the delay from the counter. -/
theorem computes_scheduleReconnect (h : c.knows = true) :
    Computes c.reconnectAttempts c.scheduleReconnect := by
  rw [scheduleReconnect, missing_eq, h]
  exact ⟨rfl, rfl⟩

theorem attemptReconnect_of_not_knows (h : c.knows = false) : c.attemptReconnect = c := by
  rw [attemptReconnect, missing_eq, h]
  rfl

/-- `attemptReconnect` sets the counter to 0 before the call. -/
theorem computes_attemptReconnect (h : c.knows = true) : Computes 0 c.attemptReconnect := by
  rw [attemptReconnect, missing_eq, h]
  exact computes_scheduleReconnect
    (c := { c with autoReconnectEnabled := true, reconnectAttempts := 0 }) h

theorem catchReconnect_of_not_knows (h : c.knows = false) : c.catchReconnect = c := by
  rw [catchReconnect, scheduleReconnect_of_not_knows h, ite_self]

/-- A call that auto-reconnect guards, as in `_handleDisconnect` and in the `catch` of the callback. -/
theorem catchReconnect_paced (c : Connection) :
    ((c.autoReconnectEnabled && c.knows) = false ∧ c.catchReconnect = c) ∨
      ((c.autoReconnectEnabled && c.knows) = true ∧
        Computes c.reconnectAttempts c.catchReconnect) := by
  cases hknows : c.knows with
  | false =>
      left
      exact ⟨Bool.and_false _, catchReconnect_of_not_knows hknows⟩
  | true =>
      rw [catchReconnect, Bool.and_true]
      split_ifs with henabled
      · exact Or.inr ⟨henabled, computes_scheduleReconnect hknows⟩
      · exact Or.inl ⟨Bool.not_eq_true _ ▸ henabled, rfl⟩

/-- What a step does to the counter and the timer. -/
inductive Paced (c : Connection) (e : ServiceEvent) (m : Connection) : Prop
  | keeps : c.reschedules e = false → (e = .attemptReconnect → c.knows = false) → SamePace c m →
      Paced c e m
  | computes : c.reschedules e = true → e ≠ .attemptReconnect → Computes c.reconnectAttempts m →
      Paced c e m
  /-- A reconnect has succeeded. -/
  | resets : c.reschedules e = false → e ≠ .attemptReconnect → m.reconnectAttempts = 0 →
      m.reconnectTimer = c.reconnectTimer → Paced c e m
  | restarts : e = .attemptReconnect → c.knows = true → Computes 0 m → Paced c e m

/-- A call for a lost connection or a failed attempt, from a state with the pace of the one before. -/
theorem paced_catchReconnect {e : ServiceEvent} {b : Connection} (hb : SamePace c b)
    (he : c.reschedules e = (b.autoReconnectEnabled && b.knows)) (hne : e ≠ .attemptReconnect) :
    Paced c e b.catchReconnect := by
  rcases catchReconnect_paced b with ⟨hno, hsame⟩ | ⟨hyes, hcomputes⟩
  · refine .keeps (he.trans hno) (fun h => absurd h hne) ?_
    rw [hsame]
    exact hb
  · rw [hb.attempts] at hcomputes
    exact .computes (he.trans hyes) hne hcomputes

/-- Only a callback of the timer that has thrown schedules a reconnect when it goes on. -/
theorem reschedules_proceed {i : Nat} {t : Task} (ht : c.tasks[i]? = some t)
    (hother : t.stage ≠ .thrown) : c.reschedules (.proceed i) = false := by
  have htask : t ≠ { caller := .timer, stage := .thrown } := by
    rintro rfl
    exact hother rfl
  simp [reschedules, ht, htask]

theorem paced_proceed {i : Nat} (h : c.proceed D i = some m) : Paced c (.proceed i) m := by
  rw [proceed] at h
  split at h
  · rename_i t ht
    have keeps : t.stage ≠ .thrown → SamePace c m → Paced c (.proceed i) m :=
      fun hother hsame => .keeps (reschedules_proceed ht hother) (fun he => by cases he) hsame
    split at h
    · rename_i pin hpin
      cases h
      exact keeps (by simp [hpin]) (samePace_join i pin)
    · rename_i key pk ch hoffered
      cases h
      exact keeps (by simp [hoffered]) (samePace_encapsulate i key pk ch)
    · rename_i hheard
      cases h
      exact keeps (by simp [hheard]) (samePace_verifyHmac i)
    · rename_i k valid hverifying
      cases h
      exact keeps (by simp [hverifying]) (samePace_install i k valid)
    · split_ifs at h with hcaller
      cases hs : t.stage with
      | connected =>
          rw [hs] at h
          cases h
          refine keeps (by simp [hs]) ?_
          rw [rejoin]
          cases hpin : c.lastPin with
          | some pin => exact ⟨rfl, Or.inl rfl⟩
          | none =>
              -- without a PIN no reconnect is scheduled
              have hunknown : (c.goto i .finished).knows = false := by
                show (c.lastUrl.isSome && c.lastPin.isSome) = false
                rw [hpin]
                exact Bool.and_false _
              show SamePace c (c.goto i .finished).catchReconnect
              rw [catchReconnect_of_not_knows hunknown]
              exact ⟨rfl, Or.inl rfl⟩
      | established =>
          rw [hs] at h
          cases h
          exact .resets (reschedules_proceed ht (by simp [hs])) (by simp) rfl rfl
      | thrown =>
          rw [hs] at h
          cases h
          refine paced_catchReconnect (b := c.goto i .finished) ⟨rfl, Or.inl rfl⟩ ?_ (by simp)
          have htask : t = { caller := .timer, stage := .thrown } := by
            rw [← hcaller, ← hs]
          simp [reschedules, ht, htask, goto, knows]
      | _ =>
          rw [hs] at h
          cases h
  · cases h

theorem samePace_fire (c : Connection) : SamePace c c.fire := by
  rw [fire]
  split
  · exact ⟨rfl, Or.inr rfl⟩
  · -- without a URL no reconnect is scheduled
    rename_i hurl
    have hunknown : { c with reconnectTimer := none }.knows = false := by
      rw [knows, hurl]
      rfl
    rw [catchReconnect_of_not_knows hunknown]
    exact ⟨rfl, Or.inr rfl⟩

theorem paced_step {e : ServiceEvent} (h : c.step D e = some m) : Paced c e m := by
  cases e with
  | connect url =>
      cases h
      exact .keeps rfl (by simp) ⟨rfl, Or.inr rfl⟩
  | connectWebSocket i ok =>
      rw [step] at h
      split_ifs at h
      · cases h
        exact .keeps rfl (by simp) ⟨rfl, Or.inl rfl⟩
      · cases h
        exact .keeps rfl (by simp) ⟨rfl, Or.inl rfl⟩
  | data ch str =>
      rw [step] at h
      split_ifs at h
      cases h
      exact .keeps rfl (by simp) (samePace_onData ch str)
  | error ch =>
      rw [step] at h
      split_ifs at h
      cases h
      rw [onError]
      split_ifs with hclosed
      · refine .keeps ?_ (by simp) (samePace_rfl c)
        rw [reschedules, hclosed]
        rfl
      · refine paced_catchReconnect (b := { c.broadcast .error with
          channel := none, crypto := none, sessionId := none, relayAuthToken := none })
          ⟨rfl, Or.inl rfl⟩ ?_ (by simp)
        rw [Bool.not_eq_true] at hclosed
        rw [reschedules, hclosed, Bool.not_false, Bool.true_and]
        rfl
  | done ch =>
      rw [step] at h
      split_ifs at h
      cases h
      exact paced_catchReconnect (b := { c with
        listening := c.listening.filter (· ≠ ch)
        channel := none, crypto := none, sessionId := none, relayAuthToken := none })
        ⟨rfl, Or.inl rfl⟩ rfl (by simp)
  | hear i => exact .keeps rfl (by simp) (samePace_hear h)
  | timeout i =>
      rw [step] at h
      split_ifs at h
      cases h
      exact .keeps rfl (by simp) ⟨rfl, Or.inl rfl⟩
  | performHandshake pin =>
      cases h
      exact .keeps rfl (by simp) ⟨rfl, Or.inl rfl⟩
  | proceed i => exact paced_proceed h
  | fire =>
      rw [step] at h
      split_ifs at h
      cases h
      exact .keeps rfl (by simp) (samePace_fire c)
  | attemptReconnect =>
      cases h
      cases hknows : c.knows with
      | false =>
          rw [attemptReconnect_of_not_knows hknows]
          exact .keeps rfl (fun _ => hknows) (samePace_rfl c)
      | true => exact .restarts rfl hknows (computes_attemptReconnect hknows)
  | suppressReconnect =>
      cases h
      exact .keeps rfl (by simp) ⟨rfl, Or.inr rfl⟩
  | backgroundClose =>
      cases h
      exact .keeps rfl (by simp) ⟨rfl, Or.inl rfl⟩
  | disconnect =>
      cases h
      exact .keeps rfl (by simp) (samePace_disconnect c)
  | dispose =>
      cases h
      exact .keeps rfl (by simp) (samePace_dispose c)
  | sendEncrypted seq type payload =>
      cases h
      exact .keeps rfl (by simp) (samePace_sendEncrypted seq type payload)
  | sendSyncRequest lastSeq =>
      cases h
      exact .keeps rfl (by simp) (samePace_sendSyncRequest lastSeq)
  | encrypted i =>
      simp only [step, Option.map_eq_some_iff] at h
      obtain ⟨e, -, rfl⟩ := h
      have hdone : SamePace c { c with encryptions := c.encryptions.eraseIdx i } := ⟨rfl, Or.inl rfl⟩
      exact .keeps rfl (by simp) (hdone.trans (samePace_finishEncryption e))

end Calls

end Connection

/-! ## Runs with a record of the delays -/

open Ktty.Lib.Execution

/-- The service, with the delays (as `Duration`s) that `_scheduleReconnect` has computed since its counter
was last 0. -/
structure Backoff where
  service : Connection
  delays : List Int

namespace Backoff

def start : Backoff := { service := .new, delays := [] }

/-- The record behind a step to `m`, for which a call has left its delay in the timer. -/
def record (w : Backoff) (e : ServiceEvent) (m : Connection) : List Int :=
  let delay := m.reconnectTimer.toList.map milliseconds
  if e = .attemptReconnect then
    -- the counter is set to 0 before the call:
    if w.service.knows then delay else w.delays
  else if w.service.reschedules e then w.delays ++ delay
  else if m.reconnectAttempts = 0 then []
  else w.delays

def step (D : Dart) (w : Backoff) (e : ServiceEvent) : Option Backoff :=
  (w.service.step D e).map fun m => { service := m, delays := w.record e m }

/-- The armed timer has a delay within the bounds, as has every delay since the counter was last 0, and
none of these is below the one before it. -/
structure Bounded (w : Backoff) : Prop where
  armed : ∀ delay ∈ w.service.reconnectTimer, WithinBounds (milliseconds delay)
  within : ∀ delay ∈ w.delays, WithinBounds delay
  increasing : w.delays.Pairwise (· ≤ ·)

/-- The condition on a step: a call for a lost connection or a failed attempt finds the counter at 53 at
most. -/
def CountsTo53 (w : Backoff) (e : ServiceEvent) : Prop :=
  w.service.reschedules e = true → w.service.reconnectAttempts ≤ 53

/-- The record has a delay for each call that the counter counts. -/
def Counted (w : Backoff) : Prop := w.delays = delaysUpTo w.service.reconnectAttempts

section Steps

variable {D : Dart} {w m : Backoff} {e : ServiceEvent}

theorem step_service (h : step D w e = some m) :
    w.service.step D e = some m.service ∧ m.delays = w.record e m.service := by
  obtain ⟨c, hc, rfl⟩ := Option.map_eq_some_iff.1 h
  exact ⟨hc, rfl⟩

/-- The record of a step of each kind. -/
theorem record_keeps {c : Connection} (hw : w.Counted) (hno : w.service.reschedules e = false)
    (hattempt : e = .attemptReconnect → w.service.knows = false)
    (hattempts : c.reconnectAttempts = w.service.reconnectAttempts) : w.record e c = w.delays := by
  rw [record]
  split_ifs with he hknows hyes hzero
  · rw [hattempt he] at hknows
    cases hknows
  · rfl
  · rw [hno] at hyes
    cases hyes
  · rw [hw, ← hattempts, hzero]
    rfl
  · rfl

theorem record_computes {c : Connection} (hw : w.Counted) (hyes : w.service.reschedules e = true)
    (he : e ≠ .attemptReconnect) (hc : Connection.Computes w.service.reconnectAttempts c) :
    w.record e c = delaysUpTo (w.service.reconnectAttempts + 1) := by
  rw [record, if_neg he, if_pos hyes, hc.timer, delaysUpTo_succ, hw]
  rfl

theorem record_resets {c : Connection} (hno : w.service.reschedules e = false)
    (he : e ≠ .attemptReconnect) (hzero : c.reconnectAttempts = 0) : w.record e c = [] := by
  rw [record, if_neg he, hno, if_neg Bool.false_ne_true, if_pos hzero]

theorem record_restarts {c : Connection} (hknows : w.service.knows = true)
    (hc : Connection.Computes 0 c) : w.record .attemptReconnect c = delaysUpTo 1 := by
  rw [record, if_pos rfl, if_pos hknows, hc.timer]
  rfl

theorem counted_step (hw : w.Counted) (h : step D w e = some m) : m.Counted := by
  obtain ⟨hstep, hrecord⟩ := step_service h
  rw [Counted, hrecord]
  cases Connection.paced_step hstep with
  | keeps hno hattempt hsame =>
      rw [record_keeps hw hno hattempt hsame.attempts, hsame.attempts]
      exact hw
  | computes hyes he hc => rw [record_computes hw hyes he hc, hc.attempts]
  | resets hno he hzero _ =>
      rw [record_resets hno he hzero, hzero]
      rfl
  | restarts he hknows hc =>
      subst he
      rw [record_restarts hknows hc, hc.attempts]

/-- Counted delays are within the bounds and increasing as long as there are at most 54. -/
theorem bounded_iff (hw : w.Counted) :
    w.Bounded ↔ (∀ delay ∈ w.service.reconnectTimer, WithinBounds (milliseconds delay)) ∧
      w.service.reconnectAttempts ≤ 54 := by
  rw [← delaysUpTo_bounded_iff, ← hw]
  exact ⟨fun h => ⟨h.armed, h.within, h.increasing⟩, fun h => ⟨h.1, h.2.1, h.2.2⟩⟩

/-- One step keeps the delays within their bounds exactly when its call, if it makes one, does not find
the counter beyond 53. -/
theorem bounded_step (hw : w.Counted) (hb : w.Bounded) (h : step D w e = some m) :
    m.Bounded ↔ w.CountsTo53 e := by
  obtain ⟨hstep, -⟩ := step_service h
  obtain ⟨harmed, hcount⟩ := (bounded_iff hw).1 hb
  rw [bounded_iff (counted_step hw h)]
  have quiet : w.service.reschedules e = false → w.CountsTo53 e := by
    intro hno hyes
    rw [hno] at hyes
    cases hyes
  cases Connection.paced_step hstep with
  | keeps hno hattempt hsame =>
      refine iff_of_true ⟨fun delay hdelay => ?_, ?_⟩ (quiet hno)
      · rcases hsame.timer with htimer | htimer
        · rw [htimer] at hdelay
          exact harmed delay hdelay
        · rw [htimer] at hdelay
          cases hdelay
      · rw [hsame.attempts]
        exact hcount
  | computes hyes he hc =>
      rw [hc.attempts, hc.timer]
      constructor
      · rintro ⟨-, hle⟩ -
        omega
      · intro hcounts
        have hle := hcounts hyes
        refine ⟨fun delay hdelay => ?_, by omega⟩
        obtain rfl := Option.some.inj hdelay
        exact withinBounds_reconnectDelay hle
  | resets hno he hzero htimer =>
      refine iff_of_true ⟨?_, ?_⟩ (quiet hno)
      · rw [htimer]
        exact harmed
      · rw [hzero]
        exact Nat.zero_le _
  | restarts he hknows hc =>
      subst he
      refine iff_of_true ⟨fun delay hdelay => ?_, ?_⟩ (quiet rfl)
      · rw [hc.timer] at hdelay
        obtain rfl := Option.some.inj hdelay
        exact withinBounds_reconnectDelay (Nat.zero_le _)
      · rw [hc.attempts]
        decide

end Steps

/-- In every run of the service the delays are within their bounds, and do not decrease since the counter
was last 0, in exactly the runs in which no call for a lost connection or a failed attempt finds the
counter beyond 53. -/
theorem backoff_bounded_iff (D : Dart) (es : List ServiceEvent) :
    Along (stepRel (step D)) Bounded start es ↔ Guarded (stepRel (step D)) CountsTo53 start es := by
  apply along_iff_guarded (I := Counted)
  · intro w e m hw h
    exact counted_step hw h
  · intro w e m hw hb h
    exact bounded_step hw hb h
  · rfl
  · exact ⟨fun _ hdelay => (by cases hdelay), fun _ hdelay => (by cases hdelay), List.Pairwise.nil⟩

namespace Sample

open Connection.Sample

/-- A connection that is lost behind a call of `performHandshake`, and `n` attempts whose `connect`
throws. -/
def outage (n : Nat) : List ServiceEvent :=
  connected 0 ++ [.performHandshake pin, .done 0] ++
    (List.range n).flatMap fun k => [.fire, .connectWebSocket (2 + k) false, .proceed (2 + k)]

/-- The same with attempts whose channel breaks while they wait for the offer. -/
def broken (n : Nat) : List ServiceEvent :=
  connected 0 ++ [.performHandshake pin, .done 0] ++
    (List.range n).flatMap fun k =>
      [.fire, .connectWebSocket (2 + k) true, .proceed (2 + k), .proceed (2 + k), .error (1 + k),
        .hear 0, .proceed (2 + k)]

end Sample

/-- The 54th failed attempt in a row arms a timer with a negative delay; so does the 27th of those that
get a channel and lose it during the handshake. -/
theorem negative_delay :
    (∃ w, Run (stepRel (step Connection.Sample.dart)) start (Sample.outage 54) w ∧ ¬ w.Bounded) ∧
      ∃ w, Run (stepRel (step Connection.Sample.dart)) start (Sample.broken 27) w ∧ ¬ w.Bounded := by
  have unbounded : ∀ w : Backoff, (w.delays.any fun delay => delay < 0) = true → ¬ w.Bounded := by
    intro w hnegative hb
    obtain ⟨delay, hmem, hlt⟩ := List.any_eq_true.1 hnegative
    have hlow := (hb.within delay hmem).1
    have hinitial : milliseconds kReconnectInitial = 1000000 := by decide
    have hlt := of_decide_eq_true hlt
    omega
  constructor
  · obtain ⟨w, hrun, hnegative⟩ : ∃ w,
        Run (stepRel (step Connection.Sample.dart)) start (Sample.outage 54) w ∧
          (w.delays.any fun delay => delay < 0) = true :=
      exists_run_of_exec (by decide +kernel)
    exact ⟨w, hrun, unbounded w hnegative⟩
  · obtain ⟨w, hrun, hnegative⟩ : ∃ w,
        Run (stepRel (step Connection.Sample.dart)) start (Sample.broken 27) w ∧
          (w.delays.any fun delay => delay < 0) = true :=
      exists_run_of_exec (by decide +kernel)
    exact ⟨w, hrun, unbounded w hnegative⟩

end Backoff

end Ktty.Client
