import Ktty.Client.TerminalService

/-!
# Steps of the terminal service

What one step does to `_lastGoodSeq` and to the frames that wait for their decryption, and what it
passes on for display. A step that gets no text and completes no decryption is `Idle`.
-/

set_option autoImplicit false

namespace Ktty.Client

open Ktty.Wire

/-! ## What a step passes on -/

/-- The `seq` of an output that carries one. -/
def TerminalEffect.writtenSeq : TerminalEffect → Option Int
  | .output (some (.int n)) _ _ => some n
  | _ => none

/-- The `seq` that a frame passes on when its decryption completes: it is a `pty` frame, the decryption
has succeeded, and `seq` is an `int`. -/
def Pending.passesOn : Pending → Option Int
  | { kind := .pty, seq := some (.int n), outcome := some _ } => some n
  | _ => none

/-- The `seq` that an event passes on. -/
def TerminalService.passesOn (c : TerminalService) : TerminalEvent → Option Int
  | .decrypted i => (c.pending[i]?).bind Pending.passesOn
  | _ => none

/-- A payload that was passed on for display, with the `seq` of its frame. -/
structure Shown where
  seq : Option Int
  payload : Bytes
  deriving DecidableEq

def TerminalEffect.shown : TerminalEffect → Option Shown
  | .output seq payload _ => some { seq := (asNullableInt seq).join, payload := payload }
  | _ => none

/-- What a frame passes on when its decryption completes. -/
def Pending.shown : Pending → List Shown
  | { kind := .pty, seq := seq, outcome := some bytes } =>
      [{ seq := (asNullableInt seq).join, payload := bytes }]
  | _ => []

/-- The packets that an effect tells the user about: an output, or the range of a warning. -/
def TerminalEffect.range : TerminalEffect → Option (Int × Int)
  | .output (some (.int n)) _ _ => some (n, n)
  | .warning (some (.int start)) (some (.int stop)) => some (start, stop)
  | _ => none

/-- The packets that a frame tells the user about when its decryption completes. -/
def Pending.range (D : Dart) : Pending → Option (Int × Int)
  | { kind := .pty, seq := some (.int n), outcome := some _ } => some (n, n)
  | { kind := .syncWarn, seq := _, outcome := some bytes } =>
      ((D.utf8Decode bytes).bind (jsonDecodeMap D)).bind fun syncData =>
        (TerminalEffect.warning (syncData.get? "dropped_start") (syncData.get? "dropped_end")).range
  | _ => none

/-- The frame that the handler waits for when an envelope of the present session arrives. -/
def frameOf (D : Dart) (key : Bytes) (env : EncryptedEnvelope) : Option Pending :=
  let outcome := (D.prim.base64Decode env.payload).bind (Crypto.decrypt D.aead key)
  if env.type = "pty".toList then
    some { kind := .pty, seq := some (.int env.seq), outcome := outcome }
  else if env.type = "sync_warn".toList then
    some { kind := .syncWarn, seq := some (.int env.seq), outcome := outcome }
  else none

/-- The frames that an arriving frame adds to the waiting ones. -/
def TerminalService.Arrival.waiting : TerminalService.Arrival → List Pending
  | .decrypt p => [p]
  | _ => []

namespace TerminalService

/-! ## Steps that concern no frame -/

/-- `_lastGoodSeq`, the waiting frames and the session are left alone. -/
structure Undisturbed (c d : TerminalService) : Prop where
  lastGoodSeq : d.lastGoodSeq = c.lastGoodSeq
  pending : d.pending = c.pending
  ws : d.ws = c.ws

/-- A step that concerns no frame: nothing is passed on, and the session changes with the handshake
only. -/
structure Idle (c : TerminalService) (e : TerminalEvent) (d : TerminalService)
    (effs : List TerminalEffect) : Prop where
  lastGoodSeq : d.lastGoodSeq = c.lastGoodSeq
  pending : d.pending = c.pending
  ws : (∀ ws, e ≠ .session ws) → d.ws = c.ws
  writtenSeq : effs.filterMap TerminalEffect.writtenSeq = []
  shown : effs.filterMap TerminalEffect.shown = []
  range : effs.filterMap TerminalEffect.range = []

section Steps

variable {D : Dart} {c d : TerminalService} {effs : List TerminalEffect}

theorem Undisturbed.refl (c : TerminalService) : Undisturbed c c := ⟨rfl, rfl, rfl⟩

theorem scheduleSyncRecovery_undisturbed (c : TerminalService) :
    Undisturbed c c.scheduleSyncRecovery := by
  rw [scheduleSyncRecovery]
  split
  · exact Undisturbed.refl c
  · exact ⟨rfl, rfl, rfl⟩

/-- A sync request is nothing that is passed on. -/
theorem requestSync_filterMap {α : Type} (c : TerminalService) {f : TerminalEffect → Option α}
    (hf : ∀ n, f (.syncRequest n) = none) : c.requestSync.filterMap f = [] := by
  rw [requestSync]
  split
  · exact List.filterMap_cons_none (hf _)
  · rfl

theorem requestSync_shown (c : TerminalService) :
    c.requestSync.filterMap TerminalEffect.shown = [] :=
  c.requestSync_filterMap fun _ => rfl

/-- An undisturbed service without effects. -/
theorem Undisturbed.idle {e : TerminalEvent} (h : Undisturbed c d) : Idle c e d [] :=
  ⟨h.lastGoodSeq, h.pending, fun _ => h.ws, rfl, rfl, rfl⟩

/-- An undisturbed service with a sync request. -/
theorem Undisturbed.idle_requestSync {e : TerminalEvent} (h : Undisturbed c d) :
    Idle c e d c.requestSync :=
  ⟨h.lastGoodSeq, h.pending, fun _ => h.ws, c.requestSync_filterMap fun _ => rfl,
    c.requestSync_shown, c.requestSync_filterMap fun _ => rfl⟩

/-- Apart from texts and completed decryptions, every step is idle. -/
theorem step_idle {e : TerminalEvent} (h : c.step D e = some (d, effs))
    (hm : ∀ raw, e ≠ .message raw) (hd : ∀ i, e ≠ .decrypted i) : Idle c e d effs := by
  cases e with
  | message raw => exact absurd rfl (hm raw)
  | decrypted i => exact absurd rfl (hd i)
  | recover =>
      simp only [step] at h
      split at h
      · obtain ⟨rfl, rfl⟩ := Prod.mk.inj (Option.some.inj h)
        exact Undisturbed.idle_requestSync ⟨rfl, rfl, rfl⟩
      · cases h
  | recovered =>
      simp only [step] at h
      split at h
      · obtain ⟨rfl, rfl⟩ := Prod.mk.inj (Option.some.inj h)
        exact Undisturbed.idle ⟨rfl, rfl, rfl⟩
      · cases h
  | typed bytes =>
      obtain ⟨rfl, rfl⟩ := Prod.mk.inj (Option.some.inj h)
      exact ⟨rfl, rfl, fun _ => rfl, rfl, rfl, rfl⟩
  | injected bytes =>
      obtain ⟨rfl, rfl⟩ := Prod.mk.inj (Option.some.inj h)
      exact Undisturbed.idle ⟨rfl, rfl, rfl⟩
  | flush =>
      simp only [step, flushInput] at h
      split at h
      · -- nothing to send
        obtain ⟨rfl, rfl⟩ := Prod.mk.inj (Option.some.inj h)
        exact (Undisturbed.refl _).idle
      · obtain ⟨rfl, rfl⟩ := Prod.mk.inj (Option.some.inj h)
        exact ⟨rfl, rfl, fun _ => rfl, rfl, rfl, rfl⟩
  | sent ok =>
      simp only [step] at h
      split at h
      · obtain ⟨rfl, rfl⟩ := Prod.mk.inj (Option.some.inj h)
        cases ok with
        | false =>
            -- a failed send schedules a recovery
            obtain ⟨hlast, hpending, hws⟩ :=
              scheduleSyncRecovery_undisturbed { c with sending := c.sending - 1 }
            exact Undisturbed.idle ⟨hlast, hpending, hws⟩
        | true => exact Undisturbed.idle ⟨rfl, rfl, rfl⟩
      · cases h
  | session ws =>
      obtain ⟨rfl, rfl⟩ := Prod.mk.inj (Option.some.inj h)
      exact ⟨rfl, rfl, fun hne => absurd rfl (hne ws), rfl, rfl, rfl⟩
  | reattachAfterReconnect =>
      obtain ⟨rfl, rfl⟩ := Prod.mk.inj (Option.some.inj h)
      exact Undisturbed.idle_requestSync ⟨rfl, rfl, rfl⟩

/-! ## A frame behind its `await` -/

/-- A frame that passes on its `seq` puts it into `_lastGoodSeq`, whatever stood there. -/
theorem resume_passed {p : Pending} {n : Int} (h : p.passesOn = some n) :
    (c.resume D p).1.lastGoodSeq = n ∧ (c.resume D p).1.pending = c.pending ∧
      (c.resume D p).1.ws = c.ws ∧
      ∃ payload filtered, (c.resume D p).2 = [.output (some (.int n)) payload filtered] := by
  unfold Pending.passesOn at h
  split at h
  -- the frame is a decrypted `pty` frame with an `int`:
  · obtain rfl := Option.some.inj h
    exact ⟨rfl, rfl, rfl, _, _, rfl⟩
  · cases h

theorem resumeSyncWarn_undisturbed (outcome : Option Bytes) :
    Undisturbed c (c.resumeSyncWarn D outcome).1 := by
  cases outcome with
  | none => exact scheduleSyncRecovery_undisturbed c
  | some bytes =>
      rw [resumeSyncWarn]
      split
      · exact scheduleSyncRecovery_undisturbed c
      · exact Undisturbed.refl c

/-- Other frames leave `_lastGoodSeq`, and no `seq` is passed on. -/
theorem resume_quiet {p : Pending} (h : p.passesOn = none) :
    Undisturbed c (c.resume D p).1 ∧
      (c.resume D p).2.filterMap TerminalEffect.writtenSeq = [] := by
  rcases p with ⟨kind, seq, outcome⟩
  cases kind with
  | pty =>
      cases outcome with
      | none => exact ⟨scheduleSyncRecovery_undisturbed c, rfl⟩
      | some bytes =>
          -- a recovery after the predictions have been taken off:
          have recovers : ∀ predicted,
              Undisturbed c { c with predictedEcho := predicted }.scheduleSyncRecovery := by
            intro predicted
            obtain ⟨hlast, hpending, hws⟩ :=
              scheduleSyncRecovery_undisturbed { c with predictedEcho := predicted }
            exact ⟨hlast, hpending, hws⟩
          -- `seq` is missing or null, or the cast to `int` throws
          rcases seq with _ | v
          · exact ⟨⟨rfl, rfl, rfl⟩, rfl⟩
          · cases v with
            | null => exact ⟨⟨rfl, rfl, rfl⟩, rfl⟩
            | int n => cases h
            | bool b => exact ⟨recovers _, rfl⟩
            | real r => exact ⟨recovers _, rfl⟩
            | str s => exact ⟨recovers _, rfl⟩
            | arr vs => exact ⟨recovers _, rfl⟩
            | obj ms => exact ⟨recovers _, rfl⟩
  | syncWarn =>
      refine ⟨resumeSyncWarn_undisturbed outcome, ?_⟩
      change (c.resumeSyncWarn D outcome).2.filterMap TerminalEffect.writtenSeq = []
      cases outcome with
      | none => rfl
      | some bytes =>
          rw [resumeSyncWarn]
          split <;> rfl

/-- The handler of a frame touches neither the frames that still wait nor the session. -/
theorem resume_pending (p : Pending) :
    (c.resume D p).1.pending = c.pending ∧ (c.resume D p).1.ws = c.ws := by
  cases h : p.passesOn with
  | some n =>
      obtain ⟨-, hpending, hws, -⟩ := resume_passed (D := D) (c := c) h
      exact ⟨hpending, hws⟩
  | none =>
      obtain ⟨hsame, -⟩ := resume_quiet (D := D) (c := c) h
      exact ⟨hsame.pending, hsame.ws⟩

theorem resume_shown (p : Pending) :
    (c.resume D p).2.filterMap TerminalEffect.shown = p.shown := by
  rcases p with ⟨kind, seq, outcome⟩
  cases kind with
  | pty => cases outcome <;> rfl
  | syncWarn =>
      change (c.resumeSyncWarn D outcome).2.filterMap TerminalEffect.shown = []
      cases outcome with
      | none => rfl
      | some bytes =>
          rw [resumeSyncWarn]
          split <;> rfl

theorem resume_range (p : Pending) :
    (c.resume D p).2.filterMap TerminalEffect.range = (p.range D).toList := by
  rcases p with ⟨kind, seq, outcome⟩
  cases kind with
  | pty =>
      rcases seq with _ | v
      · cases outcome <;> rfl
      · cases outcome <;> cases v <;> rfl
  | syncWarn =>
      change (c.resumeSyncWarn D outcome).2.filterMap TerminalEffect.range = _
      cases outcome with
      | none => rfl
      | some bytes =>
          rw [resumeSyncWarn, Pending.range]
          cases (D.utf8Decode bytes).bind (jsonDecodeMap D) with
          | none => rfl
          | some syncData =>
              dsimp only
              rw [Option.bind_some]
              cases hrange : (TerminalEffect.warning (syncData.get? "dropped_start")
                  (syncData.get? "dropped_end")).range with
              | none => exact List.filterMap_cons_none hrange
              | some r => exact List.filterMap_cons_some hrange

/-! ## Steps -/

/-- A text adds the frame it carries to the waiting ones. -/
theorem step_message {raw : Text} (h : c.step D (.message raw) = some (d, effs)) :
    d.pending = c.pending ++ (c.arrival D raw).waiting ∧ effs = [] := by
  obtain ⟨rfl, rfl⟩ := Prod.mk.inj (Option.some.inj h)
  refine ⟨?_, rfl⟩
  rw [handleMessage]
  cases c.arrival D raw with
  | skip => exact (List.append_nil _).symm
  | recover =>
      exact (scheduleSyncRecovery_undisturbed c).pending.trans (List.append_nil _).symm
  | decrypt p => rfl

theorem handleMessage_same (D : Dart) (c : TerminalService) (raw : Text) :
    (c.handleMessage D raw).lastGoodSeq = c.lastGoodSeq ∧ (c.handleMessage D raw).ws = c.ws := by
  rw [handleMessage]
  cases c.arrival D raw with
  | skip => exact ⟨rfl, rfl⟩
  | recover =>
      have hsame := scheduleSyncRecovery_undisturbed c
      exact ⟨hsame.lastGoodSeq, hsame.ws⟩
  | decrypt p => exact ⟨rfl, rfl⟩

/-- A completed decryption passes its frame on. -/
theorem step_decrypted {i : Nat} (h : c.step D (.decrypted i) = some (d, effs)) :
    ∃ p, c.pending[i]? = some p ∧ d.pending = c.pending.eraseIdx i ∧
      effs.filterMap TerminalEffect.shown = p.shown ∧
      effs.filterMap TerminalEffect.range = (p.range D).toList := by
  simp only [step, Option.map_eq_some_iff] at h
  obtain ⟨p, hp, hres⟩ := h
  obtain ⟨hpending, -⟩ :=
    resume_pending (D := D) (c := { c with pending := c.pending.eraseIdx i }) p
  have hshown := resume_shown (D := D) (c := { c with pending := c.pending.eraseIdx i }) p
  have hrange := resume_range (D := D) (c := { c with pending := c.pending.eraseIdx i }) p
  -- the frame is off the list before its handler goes on:
  rw [hres] at hpending hshown hrange
  exact ⟨p, hp, hpending, hshown, hrange⟩

theorem step_passed {e : TerminalEvent} {n : Int} (h : c.step D e = some (d, effs))
    (hn : c.passesOn e = some n) :
    d.lastGoodSeq = n ∧ ∃ payload filtered, effs = [.output (some (.int n)) payload filtered] := by
  cases e with
  | decrypted i =>
      simp only [passesOn, Option.bind_eq_some_iff] at hn
      obtain ⟨p, hp, hpass⟩ := hn
      simp only [step, hp, Option.map_some, Option.some.injEq] at h
      obtain ⟨hlast, -, -, heffs⟩ :=
        resume_passed (D := D) (c := { c with pending := c.pending.eraseIdx i }) hpass
      rw [h] at hlast heffs
      exact ⟨hlast, heffs⟩
  | _ => cases hn

theorem step_quiet {e : TerminalEvent} (h : c.step D e = some (d, effs))
    (hn : c.passesOn e = none) :
    d.lastGoodSeq = c.lastGoodSeq ∧ effs.filterMap TerminalEffect.writtenSeq = [] := by
  cases e with
  | message raw =>
      obtain ⟨rfl, rfl⟩ := Prod.mk.inj (Option.some.inj h)
      exact ⟨(handleMessage_same D c raw).1, rfl⟩
  | decrypted i =>
      simp only [step, Option.map_eq_some_iff] at h
      obtain ⟨p, hp, h⟩ := h
      -- what the event does not pass on, its frame does not:
      have hquiet : p.passesOn = none := by
        rw [passesOn, hp] at hn
        exact hn
      obtain ⟨hsame, hwritten⟩ :=
        resume_quiet (D := D) (c := { c with pending := c.pending.eraseIdx i }) hquiet
      rw [h] at hsame hwritten
      exact ⟨hsame.lastGoodSeq, hwritten⟩
  | _ =>
      have hidle := step_idle h (fun raw he => by cases he) (fun i he => by cases he)
      exact ⟨hidle.lastGoodSeq, hidle.writtenSeq⟩

/-- The session of the service changes with the handshake only. -/
theorem step_ws {e : TerminalEvent} (h : c.step D e = some (d, effs))
    (he : ∀ ws, e ≠ .session ws) : d.ws = c.ws := by
  cases e with
  | message raw =>
      obtain ⟨rfl, rfl⟩ := Prod.mk.inj (Option.some.inj h)
      exact (handleMessage_same D c raw).2
  | decrypted i =>
      simp only [step, Option.map_eq_some_iff] at h
      obtain ⟨p, -, hres⟩ := h
      obtain ⟨-, hws⟩ :=
        resume_pending (D := D) (c := { c with pending := c.pending.eraseIdx i }) p
      rw [hres] at hws
      exact hws
  | _ => exact (step_idle h (fun raw he => by cases he) (fun i he => by cases he)).ws he

end Steps

/-! ## Frames that arrive -/

section Frames

variable {D : Dart} {c : TerminalService}

/-- A frame that is decrypted has passed the session check, and its payload is decrypted under the
present session key. -/
theorem receive_decrypt {kind : FrameKind} {json : Json} {envelopeSessionId : Option Text}
    {p : Pending} (h : c.receive D kind json envelopeSessionId = .decrypt p) :
    ∃ payload, json.get? "payload" = some (.str payload) ∧ p.kind = kind ∧
      p.seq = json.get? "seq" ∧ p.outcome = decryptPayload D c.ws payload := by
  unfold receive at h
  split at h
  · split at h
    · cases h
    · split at h
      · rename_i payload hpayload
        obtain rfl := Arrival.decrypt.inj h
        obtain ⟨v, hv, hstr⟩ := Option.bind_eq_some_iff.1 hpayload
        cases v with
        | str s =>
            obtain rfl := Option.some.inj hstr
            exact ⟨s, hv, rfl, rfl, rfl⟩
        | _ => cases hstr
      · cases h
  · cases h

/-- What the handler takes out of the text of an envelope. -/
theorem arrival_envelope {raw : Text} {env : EncryptedEnvelope} {p : Pending}
    (hraw : (D.jsonDecode raw).bind EncryptedEnvelope.deserialize = some env)
    (h : c.arrival D raw = .decrypt p) :
    (p.kind = .pty → env.type = "pty".toList) ∧ p.seq = some (.int env.seq) ∧
      p.outcome = decryptPayload D c.ws env.payload := by
  obtain ⟨json, hjson, henv⟩ := Option.bind_eq_some_iff.1 hraw
  rw [arrival] at h
  cases hmap : jsonDecodeMap D raw with
  | none =>
      rw [hmap] at h
      cases h
  | some v =>
      -- the handler only reads objects, so the text is one
      obtain ⟨ms, rfl, rfl⟩ : ∃ ms, json = .obj ms ∧ v = .obj ms := by
        rw [jsonDecodeMap, hjson] at hmap
        split at hmap
        · rename_i ms heq
          exact ⟨ms, Option.some.inj heq, (Option.some.inj hmap).symm⟩
        · cases hmap
      obtain ⟨hseq, hsid, htype, hpayload⟩ := EncryptedEnvelope.get?_of_deserialize henv
      simp only [hmap, htype, hsid, asNullableString] at h
      -- either way of `receive` takes number and payload from the envelope:
      have done : ∀ kind, (kind = .pty → env.type = "pty".toList) →
          c.receive D kind (.obj ms) (some env.sessionId) = .decrypt p →
          (p.kind = .pty → env.type = "pty".toList) ∧ p.seq = some (.int env.seq) ∧
            p.outcome = decryptPayload D c.ws env.payload := by
        intro kind hkind hrec
        obtain ⟨payload, hp, hk, hs, ho⟩ := receive_decrypt hrec
        rw [hpayload] at hp
        obtain rfl := Json.str.inj (Option.some.inj hp)
        exact ⟨fun h => hkind (hk ▸ h), hs.trans hseq, ho⟩
      split_ifs at h with hskip hjoin hpty hwarn
      · exact done .pty (fun _ => Option.some.inj hpty) h
      · exact done .syncWarn (fun hk => by cases hk) h

/-- An envelope of the present session becomes a waiting frame. -/
theorem arrival_frame {raw : Text} {ms : List (Text × Json)} {env : EncryptedEnvelope} {key : Bytes}
    (hraw : D.jsonDecode raw = some (.obj ms))
    (henv : EncryptedEnvelope.deserialize (.obj ms) = some env)
    (haction : (Json.obj ms).get? "action" = none)
    (hws : c.ws = { crypto := some key, sessionId := some env.sessionId }) :
    (c.arrival D raw).waiting = (frameOf D key env).toList := by
  obtain ⟨hseq, hsid, htype, hpayload⟩ := EncryptedEnvelope.get?_of_deserialize henv
  have hmap : jsonDecodeMap D raw = some (.obj ms) := by rw [jsonDecodeMap, hraw]
  have hdec : decryptPayload D c.ws env.payload =
      (D.prim.base64Decode env.payload).bind (Crypto.decrypt D.aead key) := by
    rw [decryptPayload, hws, Option.bind_some]
  -- the envelope is of the present session, so it is decrypted:
  have hreceive : ∀ kind, c.receive D kind (.obj ms) (some env.sessionId) =
      .decrypt { kind := kind, seq := some (.int env.seq),
                 outcome := decryptPayload D c.ws env.payload } := by
    intro kind
    simp only [receive, hws, ne_eq, not_true, if_false, hpayload, Option.bind_some, Json.asStr, hseq]
  simp only [arrival, hmap, htype, hsid, haction, asNullableString, Option.bind_none, hreceive]
  rw [frameOf, ← hdec]
  -- the types are tested one after the other, and no two of them are equal
  by_cases hpty : env.type = "pty".toList
  · rw [hpty]
    rfl
  · by_cases hwarn : env.type = "sync_warn".toList
    · rw [hwarn]
      rfl
    · rw [if_neg hpty, if_neg hwarn]
      simp only [Option.some.injEq, hpty, hwarn, if_false]
      split_ifs with hskip hjoin
      · rfl
      · exact hjoin.elim
      · rfl

end Frames

end TerminalService

end Ktty.Client
