import Ktty.Client.ConnectionSteps

/-!
# The relay token of a connection

A token is taken from a text of the stream of a channel, by `onData`. Every other step keeps it together
with its channel, or gives it up (`token_step`), unless it opens a channel.
-/

set_option autoImplicit false

namespace Ktty.Client.Connection

open Ktty.Wire

variable {D : Dart} {c m m' : Connection}

/-- The token stays, with the channel that is open, or is given up. -/
def KeepsToken (c m : Connection) : Prop :=
  m.relayAuthToken = none ∨ m.relayAuthToken = c.relayAuthToken ∧ m.channel = c.channel

theorem keepsToken_rfl (c : Connection) : KeepsToken c c := Or.inr ⟨rfl, rfl⟩

theorem KeepsToken.trans (h : KeepsToken c m) (k : KeepsToken m m') : KeepsToken c m' := by
  rcases k with hnone | ⟨htoken, hchannel⟩
  · exact Or.inl hnone
  · rcases h with hnone | ⟨htoken', hchannel'⟩
    · exact Or.inl (htoken.trans hnone)
    · exact Or.inr ⟨htoken.trans htoken', hchannel.trans hchannel'⟩

/-! ## The parts of the code -/

theorem wake_keepsToken (i : Nat) (stage : Stage) : KeepsToken c (c.wake i stage) := by
  rw [wake]
  split
  · exact Or.inr ⟨rfl, rfl⟩
  · exact keepsToken_rfl c

theorem send_keepsToken (json : Json) (sealedUnder : Option SessionKey) :
    KeepsToken c (c.send json sealedUnder) := by
  rw [send]
  split
  · exact Or.inr ⟨rfl, rfl⟩
  · exact keepsToken_rfl c

theorem sendJson_keepsToken (fields : List (String × Json)) (sealedUnder : Option SessionKey) :
    KeepsToken c (c.sendJson fields sealedUnder) :=
  send_keepsToken _ _

theorem scheduleReconnect_keepsToken : KeepsToken c c.scheduleReconnect := by
  rw [scheduleReconnect]
  split
  · exact keepsToken_rfl c
  · exact Or.inr ⟨rfl, rfl⟩

theorem catchReconnect_keepsToken : KeepsToken c c.catchReconnect := by
  rw [catchReconnect]
  split
  · exact scheduleReconnect_keepsToken
  · exact keepsToken_rfl c

theorem attemptReconnect_keepsToken : KeepsToken c c.attemptReconnect := by
  rw [attemptReconnect]
  split
  · exact keepsToken_rfl c
  · exact KeepsToken.trans (m := { c with autoReconnectEnabled := true, reconnectAttempts := 0 })
      (Or.inr ⟨rfl, rfl⟩) scheduleReconnect_keepsToken

theorem handleDisconnect_keepsToken : KeepsToken c c.handleDisconnect := by
  rw [handleDisconnect]
  exact KeepsToken.trans (Or.inl rfl) catchReconnect_keepsToken

theorem hear_keepsToken {i : Nat} (h : c.hear D i = some m) : KeepsToken c m := by
  have wakes : ∀ (ls : List Listener) (p : Option PendingHmac) (j : Nat) (stage : Stage),
      KeepsToken c ({ c with listeners := ls, pendingHmacVerification := p }.wake j stage) :=
    fun ls p j stage => KeepsToken.trans
      (m := { c with listeners := ls, pendingHmacVerification := p }) (Or.inr ⟨rfl, rfl⟩)
      (wake_keepsToken j stage)
  rw [hear] at h
  split at h
  · split at h
    · cases h
      rw [hearMessage]
      split
      · split
        · exact wakes _ c.pendingHmacVerification _ _
        · exact Or.inr ⟨rfl, rfl⟩
      · split
        · exact wakes _ _ _ _
        · exact Or.inr ⟨rfl, rfl⟩
    · cases h
      exact wakes _ c.pendingHmacVerification _ _
    · cases h
      exact wakes _ c.pendingHmacVerification _ _
    · cases h
  · cases h

theorem proceedTimer_keepsToken {i : Nat} {stage : Stage} (h : c.proceedTimer i stage = some m) :
    KeepsToken c m := by
  -- the task moves on, and the timer may be armed
  have goes : ∀ stage, KeepsToken c (c.goto i stage) := fun stage => Or.inr ⟨rfl, rfl⟩
  cases stage with
  | connected =>
      cases h
      rw [rejoin]
      split
      · exact goes _
      · exact (goes .finished).trans catchReconnect_keepsToken
  | established =>
      cases h
      exact Or.inr ⟨rfl, rfl⟩
  | thrown =>
      cases h
      exact (goes .finished).trans catchReconnect_keepsToken
  | _ => cases h

theorem proceed_keepsToken {i : Nat} (h : c.proceed D i = some m) : KeepsToken c m := by
  have counts : KeepsToken c { c with rng := c.rng + 1 } := Or.inr ⟨rfl, rfl⟩
  rw [proceed] at h
  split at h
  · split at h
    · cases h
      exact (sendJson_keepsToken _ none).trans (Or.inr ⟨rfl, rfl⟩)
    · cases h
      rw [encapsulate]
      split
      · exact counts.trans ((sendJson_keepsToken _ none).trans (Or.inr ⟨rfl, rfl⟩))
      · exact Or.inr ⟨rfl, rfl⟩
    · cases h
      rw [verifyHmac]
      split
      · exact Or.inr ⟨rfl, rfl⟩
      · split
        · exact Or.inr ⟨rfl, rfl⟩
        · exact Or.inr ⟨rfl, rfl⟩
    · cases h
      rw [install]
      split
      · exact Or.inr ⟨rfl, rfl⟩
      · exact Or.inr ⟨rfl, rfl⟩
    · split_ifs at h
      exact proceedTimer_keepsToken h
  · cases h

theorem sendEncrypted_keepsToken (seq : Int) (type : Text) (payload : Bytes) :
    KeepsToken c (c.sendEncrypted seq type payload) := by
  rw [sendEncrypted]
  split
  · exact Or.inr ⟨rfl, rfl⟩
  · exact keepsToken_rfl c

theorem finishEncryption_keepsToken (enc : Encryption) : KeepsToken c (c.finishEncryption D enc) := by
  have counts : KeepsToken c { c with rng := c.rng + 1 } := Or.inr ⟨rfl, rfl⟩
  rw [finishEncryption]
  split
  · exact counts.trans (sendJson_keepsToken _ _)
  · exact counts

/-! ## The step -/

/-- A step that reads no text and opens no channel keeps the token with its channel or gives it up. -/
theorem token_step {e : ServiceEvent} (hdata : ∀ ch str, e ≠ .data ch str) (hopens : opens e = false)
    (h : c.step D e = some m) : KeepsToken c m := by
  cases e with
  | connect url =>
      cases h
      exact Or.inl rfl
  | connectWebSocket i ok =>
      cases ok with
      | true => cases hopens
      | false =>
          rw [step, if_neg Bool.false_ne_true] at h
          split_ifs at h
          cases h
          exact Or.inr ⟨rfl, rfl⟩
  | data ch str => exact absurd rfl (hdata ch str)
  | error ch =>
      rw [step] at h
      split_ifs at h
      cases h
      rw [onError]
      split
      · exact keepsToken_rfl c
      · exact KeepsToken.trans (m := c.broadcast .error) (Or.inr ⟨rfl, rfl⟩)
          handleDisconnect_keepsToken
  | done ch =>
      rw [step] at h
      split_ifs at h
      cases h
      exact KeepsToken.trans (m := { c with listening := c.listening.filter (· ≠ ch) })
        (Or.inr ⟨rfl, rfl⟩) handleDisconnect_keepsToken
  | hear i => exact hear_keepsToken h
  | timeout i =>
      rw [step] at h
      split_ifs at h
      cases h
      exact Or.inr ⟨rfl, rfl⟩
  | performHandshake pin =>
      cases h
      exact Or.inr ⟨rfl, rfl⟩
  | proceed i => exact proceed_keepsToken h
  | fire =>
      rw [step] at h
      split_ifs at h
      cases h
      rw [fire]
      split
      · exact Or.inl rfl
      · exact KeepsToken.trans (m := { c with reconnectTimer := none }) (Or.inr ⟨rfl, rfl⟩)
          catchReconnect_keepsToken
  | attemptReconnect =>
      cases h
      exact attemptReconnect_keepsToken
  | suppressReconnect =>
      cases h
      exact Or.inr ⟨rfl, rfl⟩
  | backgroundClose =>
      cases h
      exact Or.inl rfl
  | disconnect =>
      cases h
      exact Or.inl rfl
  | dispose =>
      cases h
      refine Or.inl ?_
      rw [dispose]
      split
      · rfl
      · rfl
  | sendEncrypted seq type payload =>
      cases h
      exact sendEncrypted_keepsToken seq type payload
  | sendSyncRequest lastSeq =>
      cases h
      rw [sendSyncRequest]
      split
      · exact sendEncrypted_keepsToken _ _ _
      · exact keepsToken_rfl c
  | encrypted i =>
      rw [step, Option.map_eq_some_iff] at h
      obtain ⟨enc, -, rfl⟩ := h
      exact KeepsToken.trans (m := { c with encryptions := c.encryptions.eraseIdx i })
        (Or.inr ⟨rfl, rfl⟩) (finishEncryption_keepsToken enc)

/-- The token of a text replaces the present one; any other text leaves it alone. -/
theorem onData_token (ch : ChannelId) (str : Text) :
    (c.onData D ch str).channel = c.channel ∧ (c.onData D ch str).relayAuthToken =
      match authToken D str with
      | some token => some token
      | none => c.relayAuthToken := by
  rw [onData]
  cases authToken D str with
  | some token => exact ⟨rfl, rfl⟩
  | none =>
      dsimp only
      split
      · exact ⟨rfl, rfl⟩
      · exact ⟨rfl, rfl⟩

end Ktty.Client.Connection
