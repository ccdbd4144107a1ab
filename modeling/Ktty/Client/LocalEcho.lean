import Ktty.Agent.SampleCrates
import Ktty.Client.Echo
import Ktty.Lib.Execution

/-!
# Keystrokes and their echo

`Typing` is an attached `TerminalService` with what has been typed, received and written since. As long
as what is received is a prefix of what is typed, the local echo has written the typed bytes once, nothing
of what is received is written, and the predictions are the keystrokes whose echo has not come back
(`faithful_echo_is_displayed_once`). A packet that holds all predictions and more writes just what is
behind them.
-/

set_option autoImplicit false

namespace Ktty.Client

open Ktty.Wire Ktty.Lib.Execution

/-- The payload that a `pty` frame brings. -/
def TerminalEffect.payload : TerminalEffect → Bytes
  | .output _ payload _ => payload
  | _ => []

/-- The bytes that the local echo writes. -/
def TerminalEffect.echoed : TerminalEffect → Bytes
  | .echo bytes => bytes
  | _ => []

/-- A `pty` frame that the handler goes on with: it has been decrypted, and its `seq` is an `int` or
missing. -/
def Pending.Sound (p : Pending) : Prop :=
  p.kind = .pty ∧ p.outcome.isSome ∧ (asNullableInt p.seq).isSome

instance (p : Pending) : Decidable p.Sound :=
  inferInstanceAs (Decidable (p.kind = .pty ∧ p.outcome.isSome ∧ (asNullableInt p.seq).isSome))

/-- The keystrokes of an event. -/
def TerminalEvent.keystrokes : TerminalEvent → Bytes
  | .typed bytes => bytes
  | _ => []

namespace TerminalService

/-- Keystrokes are printable, frames that arrive are accepted and decrypted, and no send fails. -/
def Ordinary (D : Dart) (c : TerminalService) : TerminalEvent → Prop
  | .typed bytes => ∀ b ∈ bytes, 0x20 ≤ b ∧ b ≤ 0x7E
  | .message raw =>
      match c.arrival D raw with
      | .recover => False
      | _ => True
  | .decrypted i => ∀ p ∈ c.pending[i]?, p.Sound
  | .sent ok => ok = true
  -- a reattach gives up the predictions
  | .reattachAfterReconnect => False
  | _ => True

instance (D : Dart) (c : TerminalService) (e : TerminalEvent) : Decidable (c.Ordinary D e) :=
  match e with
  | .typed bytes => inferInstanceAs (Decidable (∀ b ∈ bytes, 0x20 ≤ b ∧ b ≤ 0x7E))
  | .message raw =>
      match h : c.arrival D raw with
      | .recover => isFalse (by simp only [Ordinary, h, not_false_eq_true])
      | .skip => isTrue (by simp only [Ordinary, h])
      | .decrypt p => isTrue (by simp only [Ordinary, h])
  | .decrypted i => inferInstanceAs (Decidable (∀ p ∈ c.pending[i]?, p.Sound))
  | .sent ok => inferInstanceAs (Decidable (ok = true))
  | .reattachAfterReconnect => isFalse id
  | .recover | .recovered | .injected _ | .flush | .session _ => isTrue trivial

end TerminalService

/-! ## One event -/

theorem localEcho_printable {bytes : Bytes} (h : ∀ b ∈ bytes, 0x20 ≤ b ∧ b ≤ 0x7E) :
    localEcho bytes = bytes := by
  rw [localEcho, if_neg]
  · rw [List.filter_eq_self]
    intro b hb
    simpa using h b hb
  · -- an escape lies below the printable bytes
    intro hesc
    exact absurd (h _ hesc).1 (by decide)

/-- Bytes that come first among the predictions are matched to the end. -/
theorem strip_of_prefix {predicted bytes : Bytes} (h : bytes <+: predicted) :
    stripPredictedEcho predicted bytes = (predicted.drop bytes.length, []) := by
  obtain ⟨rest, rfl⟩ := h
  have hnone : departure (bytes ++ rest) bytes = none := by
    induction bytes with
    | nil => simp
    | cons b bytes ih => simp [departure, ih]
  rw [strip_of_none hnone]
  simp

/-- A packet of all predictions and more is matched to the end of the predictions. -/
theorem strip_of_append (predicted more : Bytes) :
    stripPredictedEcho predicted (predicted ++ more) = ([], more) := by
  have hnone : departure predicted (predicted ++ more) = none := by
    induction predicted with
    | nil => simp
    | cons p predicted ih => simp [departure, ih]
  rw [strip_of_none hnone]
  simp

namespace TerminalService

variable {D : Dart} {c d : TerminalService} {effs : List TerminalEffect}

/-- Tracking keeps the predictions when the cast of `seq` succeeds. -/
theorem track_predictedEcho {seq : Option Json} (h : (asNullableInt seq).isSome) :
    (c.track seq).predictedEcho = c.predictedEcho := by
  obtain ⟨n, hn⟩ := Option.isSome_iff_exists.1 h
  rw [track, hn]
  cases n <;> rfl

/-- Without predictions there are none behind the tracking either, whatever `seq` is. -/
theorem track_noPrediction {seq : Option Json} (h : c.predictedEcho = []) :
    (c.track seq).predictedEcho = [] := by
  rw [track]
  split
  · rw [scheduleSyncRecovery]
    split
    · exact h
    · rfl
  · exact h
  · exact h

/-- The bytes of a sound frame go through `_stripPredictedEcho`. -/
theorem resume_sound {p : Pending} {bytes : Bytes} (h : p.Sound) (hbytes : p.outcome = some bytes) :
    (c.resume D p).1.predictedEcho = (stripPredictedEcho c.predictedEcho bytes).1 ∧
      (c.resume D p).2 = [.output p.seq bytes (stripPredictedEcho c.predictedEcho bytes).2] := by
  obtain ⟨kind, seq, outcome⟩ := p
  obtain ⟨rfl, -, hseq⟩ := h
  obtain rfl : outcome = some bytes := hbytes
  exact ⟨track_predictedEcho hseq, rfl⟩

theorem requestSync_payload (c : TerminalService) :
    c.requestSync.flatMap TerminalEffect.payload = [] ∧
      c.requestSync.flatMap TerminalEffect.filtered = [] ∧
      c.requestSync.flatMap TerminalEffect.echoed = [] := by
  rw [requestSync]
  split <;> exact ⟨rfl, rfl, rfl⟩

/-- Apart from completed decryptions, an ordinary event adds its keystrokes to the predictions and writes
them as the local echo, and nothing is received. -/
theorem step_ordinary {e : TerminalEvent} (h : c.step D e = some (d, effs)) (he : c.Ordinary D e)
    (hd : ∀ i, e ≠ .decrypted i) :
    d.predictedEcho = c.predictedEcho ++ e.keystrokes ∧
      effs.flatMap TerminalEffect.payload = [] ∧ effs.flatMap TerminalEffect.filtered = [] ∧
      effs.flatMap TerminalEffect.echoed = e.keystrokes := by
  cases e with
  | message raw =>
      obtain ⟨rfl, rfl⟩ := Prod.mk.inj (Option.some.inj h)
      refine ⟨?_, rfl, rfl, rfl⟩
      rw [handleMessage]
      cases harr : c.arrival D raw with
      | skip => exact (List.append_nil _).symm
      | recover =>
          simp only [Ordinary, harr] at he
      | decrypt p => exact (List.append_nil _).symm
  | decrypted i => exact absurd rfl (hd i)
  | recover =>
      simp only [step] at h
      split at h
      · obtain ⟨rfl, rfl⟩ := Prod.mk.inj (Option.some.inj h)
        exact ⟨(List.append_nil _).symm, c.requestSync_payload⟩
      · cases h
  | recovered =>
      simp only [step] at h
      split at h
      · obtain ⟨rfl, rfl⟩ := Prod.mk.inj (Option.some.inj h)
        exact ⟨(List.append_nil _).symm, rfl, rfl, rfl⟩
      · cases h
  | typed bytes =>
      obtain ⟨rfl, rfl⟩ := Prod.mk.inj (Option.some.inj h)
      refine ⟨?_, rfl, rfl, ?_⟩
      · rw [localEcho_printable he]
        rfl
      · exact (List.append_nil _).trans (localEcho_printable he)
  | injected bytes =>
      obtain ⟨rfl, rfl⟩ := Prod.mk.inj (Option.some.inj h)
      exact ⟨(List.append_nil _).symm, rfl, rfl, rfl⟩
  | flush =>
      simp only [step, flushInput] at h
      split at h
      · obtain ⟨rfl, rfl⟩ := Prod.mk.inj (Option.some.inj h)
        exact ⟨(List.append_nil _).symm, rfl, rfl, rfl⟩
      · obtain ⟨rfl, rfl⟩ := Prod.mk.inj (Option.some.inj h)
        exact ⟨(List.append_nil _).symm, rfl, rfl, rfl⟩
  | sent ok =>
      obtain rfl : ok = true := he
      simp only [step] at h
      split at h
      · obtain ⟨rfl, rfl⟩ := Prod.mk.inj (Option.some.inj h)
        exact ⟨(List.append_nil _).symm, rfl, rfl, rfl⟩
      · cases h
  | session ws =>
      obtain ⟨rfl, rfl⟩ := Prod.mk.inj (Option.some.inj h)
      exact ⟨(List.append_nil _).symm, rfl, rfl, rfl⟩
  | reattachAfterReconnect => exact he.elim

end TerminalService

/-! ## Runs -/

/-- An attached service with what has been typed, received and written since. -/
structure Typing where
  service : TerminalService
  typed : Bytes
  received : Bytes
  /-- What has been written of the received bytes. -/
  written : Bytes
  /-- What the local echo has written. -/
  echoes : Bytes

namespace Typing

def attached (c : TerminalService) (syncExisting : Bool) : Typing :=
  { service := (c.attach syncExisting).1, typed := [], received := [], written := [], echoes := [] }

section Step

variable (D : Dart)

def step (t : Typing) (e : TerminalEvent) : Option Typing :=
  (t.service.step D e).map fun (c, effs) =>
    { service := c
      typed := t.typed ++ e.keystrokes
      received := t.received ++ effs.flatMap TerminalEffect.payload
      written := t.written ++ effs.flatMap TerminalEffect.filtered
      echoes := t.echoes ++ effs.flatMap TerminalEffect.echoed }

/-- The event is ordinary. -/
def Ordinary (t : Typing) (e : TerminalEvent) : Prop := t.service.Ordinary D e

end Step

/-- What was received is the echo of what was typed, so far. -/
def Echoed (t : Typing) : Prop := t.received <+: t.typed

/-- What was typed has been written once, by the local echo; nothing that was received is written, and the
predictions are the keystrokes to come back. -/
structure ShownOnce (t : Typing) : Prop where
  echoes : t.echoes = t.typed
  written : t.written = []
  predicted : t.service.predictedEcho = t.typed.drop t.received.length

section Facts

variable {D : Dart} {t u : Typing} {e : TerminalEvent}

/-- An echo that follows what was received is the beginning of what is predicted. -/
theorem prefix_drop {typed received bytes : Bytes} (h : received ++ bytes <+: typed) :
    bytes <+: typed.drop received.length := by
  obtain ⟨rest, rfl⟩ := h
  rw [List.append_assoc, List.drop_left]
  exact List.prefix_append bytes rest

theorem step_shownOnce (ht : t.ShownOnce) (hechoed : t.Echoed) (h : step D t e = some u)
    (he : t.Ordinary D e) (hu : u.Echoed) : u.ShownOnce := by
  simp only [step, Option.map_eq_some_iff] at h
  obtain ⟨⟨d, effs⟩, hstep, rfl⟩ := h
  by_cases hd : ∃ i, e = .decrypted i
  · -- a frame has been decrypted, and its bytes are the next ones of the echo
    obtain ⟨i, rfl⟩ := hd
    simp only [TerminalService.step, Option.map_eq_some_iff] at hstep
    obtain ⟨p, hp, hres⟩ := hstep
    have hsound : p.Sound := he p hp
    obtain ⟨bytes, hbytes⟩ := Option.isSome_iff_exists.1 hsound.2.1
    obtain ⟨hpredicted, heffs⟩ := TerminalService.resume_sound (D := D)
      (c := { t.service with pending := t.service.pending.eraseIdx i }) hsound hbytes
    rw [hres] at hpredicted heffs
    obtain rfl := heffs
    have hnext : t.received ++ bytes <+: t.typed := by
      have hu : t.received ++ (bytes ++ []) <+: t.typed ++ [] := hu
      simpa using hu
    have hstrip : stripPredictedEcho t.service.predictedEcho bytes =
        (t.service.predictedEcho.drop bytes.length, []) := by
      rw [ht.predicted]
      exact strip_of_prefix (prefix_drop hnext)
    dsimp only at hpredicted
    rw [hstrip] at hpredicted
    constructor
    · simp [TerminalEffect.echoed, TerminalEvent.keystrokes, ht.echoes]
    · simp [TerminalEffect.filtered, hstrip, ht.written]
    · simp [TerminalEffect.payload, TerminalEvent.keystrokes, hpredicted, ht.predicted]
  · -- otherwise the predictions grow by what is typed
    obtain ⟨hpredicted, hpayload, hfiltered, hechoes⟩ :=
      TerminalService.step_ordinary hstep he fun i hi => hd ⟨i, hi⟩
    have hle : t.received.length ≤ t.typed.length := hechoed.length_le
    constructor
    · simp [hechoes, ht.echoes]
    · simp [hfiltered, ht.written]
    · simp [hpayload, hpredicted, ht.predicted, List.drop_append_of_le_length hle]

end Facts

/-- As long as what is received is a prefix of what is typed, the local echo has written what is typed
once, nothing of what is received is written and the predictions are the rest of what is typed. In any
state, a frame that is accepted waits for its decryption behind the others, and a packet of all
predictions and more writes what is behind them and leaves no prediction. -/
theorem faithful_echo_is_displayed_once (D : Dart) (c : TerminalService) (syncExisting : Bool)
    (es : List TerminalEvent)
    (hordinary : Guarded (stepRel (step D)) (Ordinary D) (attached c syncExisting) es)
    (hechoed : Along (stepRel (step D)) Echoed (attached c syncExisting) es) :
    Along (stepRel (step D)) ShownOnce (attached c syncExisting) es ∧
      (∀ (d : TerminalService) (raw : Text) (p : Pending), d.arrival D raw = .decrypt p →
        d.step D (.message raw) = some ({ d with pending := d.pending ++ [p] }, [])) ∧
      ∀ (d : TerminalService) (i : Nat) (p : Pending) (more : Bytes), d.pending[i]? = some p →
        p.kind = .pty → p.outcome = some (d.predictedEcho ++ more) →
        ∃ last, d.step D (.decrypted i) =
            some (last, [.output p.seq (d.predictedEcho ++ more) more]) ∧
          last.predictedEcho = [] := by
  refine ⟨?_, ?_, ?_⟩
  · apply along_of_along (I := ShownOnce) (C := Ordinary D) (P := Echoed)
    · intro t e u ht hP h he hu
      exact step_shownOnce ht hP h he hu
    · intro t ht
      exact ht
    · exact ⟨rfl, rfl, rfl⟩
    · exact hordinary
    · exact hechoed
  · intro d raw p harr
    simp only [TerminalService.step, TerminalService.handleMessage, harr]
  · rintro d i ⟨kind, seq, outcome⟩ more hp rfl rfl
    have hstrip := strip_of_append d.predictedEcho more
    refine ⟨TerminalService.track
      { d with pending := d.pending.eraseIdx i, predictedEcho := [] } seq, ?_, ?_⟩
    · simp only [TerminalService.step, hp, Option.map_some, TerminalService.resume,
        TerminalService.resumePty, hstrip]
    · exact TerminalService.track_noPrediction rfl

/-! ## Two keystrokes -/

namespace Sample

open Agent.Sample (output frame)

/-- Libraries that read the echo of `ab` in two chunks. -/
def dart : Dart :=
  Agent.Sample.dart
    (((output 1 [97]).toList ++ (output 2 [98]).toList).map EncryptedEnvelope.toJson)

/-- The keystrokes `a` and `b` and their echo, the first one between them. -/
def events : List TerminalEvent :=
  [.typed [97], .flush, .message (frame 1 [97]), .decrypted 0, .typed [98], .flush, .sent true,
    .message (frame 2 [98]), .decrypted 0]

end Sample

instance (t : Typing) : Decidable t.Echoed := inferInstanceAs (Decidable (t.received <+: t.typed))

instance (D : Dart) (t : Typing) (e : TerminalEvent) : Decidable (t.Ordinary D e) :=
  inferInstanceAs (Decidable (t.service.Ordinary D e))

/-- The echo of two keystrokes, and a packet of the predicted `b` and a line break behind it. -/
theorem echo_of_two_keystrokes :
    Along (stepRel (step Sample.dart)) ShownOnce (attached Agent.Sample.service true) Sample.events ∧
      ∃ last, { Agent.Sample.service with
          predictedEcho := [98]
          pending := [{ kind := .pty, seq := none, outcome := some [98, 10] }] }.step Sample.dart
            (.decrypted 0) = some (last, [.output none [98, 10] [10]]) ∧ last.predictedEcho = [] := by
  obtain ⟨hrun, -, hpacket⟩ := faithful_echo_is_displayed_once Sample.dart Agent.Sample.service true
    Sample.events (guarded_of_checkAll (by decide +kernel)) (along_of_holdsAlong (by decide +kernel))
  exact ⟨hrun, hpacket _ 0 { kind := .pty, seq := none, outcome := some [98, 10] } [10] rfl
    rfl rfl⟩

end Typing

end Ktty.Client
