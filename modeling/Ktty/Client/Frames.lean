import Ktty.Client.ConnectionSteps
import Ktty.Lib.Trace

/-!
# What the service puts on its channels

A step of `WebSocketService` puts at most one frame behind those it has sent: the envelope of an
encryption that ends, or a notice (a join, a ciphertext or a disconnect), which is no envelope
(`step_puts`). `logged` observes these frames, an envelope with the call of `sendEncrypted` that it comes
from; over a run it shows all that has been sent (`logged_frames`).
-/

set_option autoImplicit false

namespace Ktty.Client.Connection

open Ktty.Wire Ktty.Crypto Ktty.Lib.Execution Ktty.Lib.Trace

/-! ## Notices -/

/-- The keys of the messages that are no envelopes. -/
def noticeKeys : List (List String) :=
  [["action", "room_id"], ["type", "mlkem_ciphertext"], ["type"]]

/-- The object of a notice, perhaps with the relay token. -/
def IsNotice (v : Json) : Prop :=
  ∃ (token : Option Text) (fields : List (String × Json)),
    v = .ofFields (withToken token fields) ∧ fields.map (·.1) ∈ noticeKeys

/-- What a step puts behind the frames that have been sent. -/
inductive Puts (D : Dart) (c : Connection) : ServiceEvent → List Frame → Prop
  | nothing {e : ServiceEvent} : Puts D c e []
  | notice {e : ServiceEvent} {f : Frame} :
      IsNotice f.json → f.sealedUnder = none → (∀ i, e ≠ .encrypted i) → Puts D c e [f]
  | envelope {i : Nat} {enc : Encryption} {f : Frame} :
      c.encryptions[i]? = some enc → c.EnvelopeOf D enc f → Puts D c (.encrypted i) [f]

/-- At most a notice is sent. -/
def Announces (c m : Connection) : Prop :=
  ∃ fs, m.sent = c.sent ++ fs ∧ (fs = [] ∨ ∃ f : Frame, fs = [f] ∧ IsNotice f.json ∧
    f.sealedUnder = none)

variable {D : Dart} {c m : Connection} {e : ServiceEvent}

theorem announces_of_sent (h : m.sent = c.sent) : Announces c m :=
  ⟨[], by rw [h, List.append_nil], Or.inl rfl⟩

theorem sendJson_announces {fields : List (String × Json)}
    (hkeys : fields.map (·.1) ∈ noticeKeys) : Announces c (c.sendJson fields none) := by
  rw [sendJson, send]
  split
  · exact ⟨[_], rfl, Or.inr ⟨_, rfl, ⟨_, fields, rfl, hkeys⟩, rfl⟩⟩
  · exact announces_of_sent rfl

/-! ## Steps -/

theorem sent_wake (i : Nat) (stage : Stage) : (c.wake i stage).sent = c.sent := by
  rw [wake]
  split_ifs <;> rfl

theorem sent_catchReconnect (c : Connection) : c.catchReconnect.sent = c.sent := by
  rw [catchReconnect]
  split_ifs
  · rw [scheduleReconnect]
    split_ifs <;> rfl
  · rfl

theorem sent_handleDisconnect (c : Connection) : c.handleDisconnect.sent = c.sent :=
  sent_catchReconnect { c with channel := none, crypto := none, sessionId := none, relayAuthToken := none }

theorem sent_hear {i : Nat} (h : c.hear D i = some m) : m.sent = c.sent := by
  rw [hear] at h
  split at h
  · split at h
    · cases h
      rw [hearMessage]
      split
      · split
        · exact sent_wake ..
        · rfl
      · split
        · exact sent_wake ..
        · rfl
    · cases h
      exact sent_wake ..
    · cases h
      exact sent_wake ..
    · cases h
  · cases h

theorem disconnect_announces (c : Connection) : Announces c c.disconnect := by
  have hsent : c.disconnect.sent =
      (c.suppressReconnect.sendJson [("type", .str "disconnect".toList)] none).sent := rfl
  have hkeys : [("type", Json.str "disconnect".toList)].map (·.1) ∈ noticeKeys := by simp [noticeKeys]
  obtain ⟨fs, hfs, hnotice⟩ := sendJson_announces (c := c.suppressReconnect) hkeys
  exact ⟨fs, hsent.trans hfs, hnotice⟩

theorem join_announces (i : Nat) (pin : Text) : Announces c (c.join D i pin) := by
  rw [join]
  exact sendJson_announces (c := c) (by decide : ["action", "room_id"] ∈ noticeKeys)

theorem encapsulate_announces (i : Nat) (derivedKey : Bytes) (pk : Text) (ch : ChannelId) :
    Announces c (c.encapsulate D i derivedKey pk ch) := by
  rw [encapsulate]
  split
  · exact sendJson_announces (c := { c with rng := c.rng + 1 })
      (by decide : ["type", "mlkem_ciphertext"] ∈ noticeKeys)
  · exact announces_of_sent rfl

/-- The callback of the timer sends nothing by itself. -/
theorem sent_proceedTimer {i : Nat} {stage : Stage} (h : c.proceedTimer i stage = some m) :
    m.sent = c.sent := by
  cases stage with
  | connected =>
      cases h
      rw [rejoin]
      split
      · rfl
      · exact sent_catchReconnect _
  | established =>
      cases h
      rfl
  | thrown =>
      cases h
      exact sent_catchReconnect _
  | _ => cases h

theorem proceed_announces {i : Nat} (h : c.proceed D i = some m) : Announces c m := by
  rw [proceed] at h
  split at h
  · split at h
    · cases h
      exact join_announces ..
    · cases h
      exact encapsulate_announces ..
    · cases h
      rw [verifyHmac]
      split
      · exact announces_of_sent rfl
      · split <;> exact announces_of_sent rfl
    · cases h
      rw [install]
      split_ifs <;> exact announces_of_sent rfl
    · split_ifs at h
      exact announces_of_sent (sent_proceedTimer h)
  · cases h

theorem step_announces (h : c.step D e = some m) (he : ∀ i, e ≠ .encrypted i) : Announces c m := by
  cases e with
  | connect url =>
      cases h
      exact announces_of_sent rfl
  | connectWebSocket i ok =>
      rw [step] at h
      split_ifs at h
      · cases h
        exact announces_of_sent rfl
      · cases h
        exact announces_of_sent rfl
  | data ch str =>
      rw [step] at h
      split_ifs at h
      cases h
      have hsent : (c.onData D ch str).sent = c.sent := by
        rw [onData]
        split
        · rfl
        · split_ifs <;> rfl
      exact announces_of_sent hsent
  | error ch =>
      rw [step] at h
      split_ifs at h
      cases h
      have hsent : c.onError.sent = c.sent := by
        rw [onError]
        split_ifs
        · rfl
        · exact sent_handleDisconnect _
      exact announces_of_sent hsent
  | done ch =>
      rw [step] at h
      split_ifs at h
      cases h
      exact announces_of_sent (sent_handleDisconnect _)
  | hear i => exact announces_of_sent (sent_hear h)
  | timeout i =>
      rw [step] at h
      split_ifs at h
      cases h
      exact announces_of_sent rfl
  | performHandshake pin =>
      cases h
      exact announces_of_sent rfl
  | proceed i => exact proceed_announces h
  | fire =>
      rw [step] at h
      split_ifs at h
      cases h
      have hsent : c.fire.sent = c.sent := by
        rw [fire]
        split
        · rfl
        · exact sent_catchReconnect _
      exact announces_of_sent hsent
  | attemptReconnect =>
      cases h
      have hsent : c.attemptReconnect.sent = c.sent := by
        rw [attemptReconnect]
        split_ifs
        · rfl
        · rw [scheduleReconnect]
          split_ifs <;> rfl
      exact announces_of_sent hsent
  | suppressReconnect =>
      cases h
      exact announces_of_sent rfl
  | backgroundClose =>
      cases h
      exact announces_of_sent rfl
  | disconnect =>
      cases h
      exact disconnect_announces c
  | dispose =>
      cases h
      have hsent : c.dispose.sent = c.disconnect.sent := by
        rw [dispose]
        dsimp only
        split_ifs <;> rfl
      obtain ⟨fs, hfs, hnotice⟩ := disconnect_announces c
      exact ⟨fs, hsent.trans hfs, hnotice⟩
  | sendEncrypted seq type payload =>
      cases h
      have hsent : (c.sendEncrypted seq type payload).sent = c.sent := by
        rw [sendEncrypted]
        split <;> rfl
      exact announces_of_sent hsent
  | sendSyncRequest lastSeq =>
      cases h
      have hsent : (c.sendSyncRequest lastSeq).sent = c.sent := by
        rw [sendSyncRequest]
        split
        · rw [sendEncrypted]
          split <;> rfl
        · rfl
      exact announces_of_sent hsent
  | encrypted i => exact absurd rfl (he i)

/-- At most one frame is put behind those that have been sent. -/
theorem step_puts (h : c.step D e = some m) : ∃ fs, m.sent = c.sent ++ fs ∧ Puts D c e fs := by
  by_cases he : ∀ i, e ≠ .encrypted i
  · obtain ⟨fs, hsent, rfl | ⟨f, rfl, hnotice, hplain⟩⟩ := step_announces h he
    · exact ⟨[], hsent, .nothing⟩
    · exact ⟨[f], hsent, .notice hnotice hplain he⟩
  · push Not at he
    obtain ⟨i, rfl⟩ := he
    rw [step] at h
    obtain ⟨enc, henc, rfl⟩ := Option.map_eq_some_iff.1 h
    rcases finishEncryption_sent (D := D)
      (c := { c with encryptions := c.encryptions.eraseIdx i }) enc with hsent | ⟨f, hsent, hf⟩
    · exact ⟨[], hsent.trans (List.append_nil _).symm, .nothing⟩
    · exact ⟨[f], hsent, .envelope henc ⟨hf.channel, hf.sealedUnder, hf.json⟩⟩

/-! ## The log of a run -/

/-- The call of `sendEncrypted` whose encryption ends. -/
def ending (c : Connection) : ServiceEvent → Option Encryption
  | .encrypted i => c.encryptions[i]?
  | _ => none

/-- The frames that a step sends, with the call that they come from. -/
def logged (D : Dart) (c : Connection) (e : ServiceEvent) : List (Frame × Option Encryption) :=
  match c.step D e with
  | some m => (m.sent.drop c.sent.length).map fun f => (f, c.ending e)
  | none => []

theorem logged_of_step (h : c.step D e = some m) :
    ∃ fs, m.sent = c.sent ++ fs ∧ Puts D c e fs ∧ logged D c e = fs.map fun f => (f, c.ending e) := by
  obtain ⟨fs, hsent, hputs⟩ := step_puts h
  refine ⟨fs, hsent, hputs, ?_⟩
  rw [logged, h]
  dsimp only
  rw [hsent, List.drop_left]

/-- A frame of the log is a notice, or the envelope of the call that it stands with. -/
theorem logged_frame {x : Frame × Option Encryption} (hstep : c.step D e = some m)
    (hx : x ∈ logged D c e) :
    x.2 = none ∧ IsNotice x.1.json ∨ ∃ enc, x.2 = some enc ∧ c.EnvelopeOf D enc x.1 := by
  obtain ⟨fs, -, hputs, hlog⟩ := logged_of_step hstep
  rw [hlog] at hx
  obtain ⟨f, hf, rfl⟩ := List.mem_map.1 hx
  cases hputs with
  | nothing => cases hf
  | notice hnotice hplain hne =>
      obtain rfl := List.mem_singleton.1 hf
      refine Or.inl ⟨?_, hnotice⟩
      cases e with
      | encrypted i => exact absurd rfl (hne i)
      | _ => rfl
  | @envelope i enc g henc hof =>
      obtain rfl := List.mem_singleton.1 hf
      exact Or.inr ⟨enc, henc, hof⟩

/-- The log of a run shows everything that has been sent. -/
theorem logged_frames {es : List ServiceEvent} (h : Run (stepRel (step D)) c es m) :
    m.sent = c.sent ++ (trace (step D) (logged D) c es).map (·.1) := by
  rw [← trace_map]
  refine recorded (q := fun c => c.sent) ?_ h
  intro c e d hstep
  obtain ⟨fs, hsent, -, hlog⟩ := logged_of_step hstep
  have hfs : (logged D c e).map (·.1) = fs := by
    rw [hlog, List.map_map]
    exact List.map_id fs
  rw [hsent, hfs]

end Ktty.Client.Connection
