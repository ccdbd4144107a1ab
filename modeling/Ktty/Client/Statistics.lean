import Ktty.Client.Acknowledge
import Ktty.Client.Input
import Ktty.Client.TerminalSteps
import Ktty.Lib.Trace
import Ktty.Lib.Window

/-!
# Statistics of a session

`TerminalStats`, and the terminal service with the timestamps of its predictions. A `MeasuredService`
does what the `TerminalService` in it does (`step_service`), so measuring shows nowhere on the screen or
on the wire.

The traffic counters are those of what the service has put out (`traffic_exact`). The samples are the
latest ages of predicted keystrokes at the arrival of their echo: no keystroke is measured twice, and they
are measured in the order in which they were typed (`samples_exact`).
-/

set_option autoImplicit false

namespace Ktty.Client

open Ktty.Wire Ktty.Lib.Execution Ktty.Lib.Trace Ktty.Lib.Window

/-! ## `TerminalStats` -/

structure TerminalStats where
  capacity : Nat
  rttSamples : List Int
  bytesSent : Nat
  bytesReceived : Nat
  messagesSent : Nat
  messagesReceived : Nat
  sessionStartedAtMs : Option Int

namespace TerminalStats

/-- The constructor; `capacity` is 100 unless it is given. -/
def new (capacity : Nat) : TerminalStats :=
  { capacity := capacity, rttSamples := [], bytesSent := 0, bytesReceived := 0, messagesSent := 0,
    messagesReceived := 0, sessionStartedAtMs := none }

variable (s : TerminalStats)

def noteSent (byteCount : Nat) : TerminalStats :=
  { s with bytesSent := s.bytesSent + byteCount, messagesSent := s.messagesSent + 1 }

def noteReceived (byteCount : Nat) : TerminalStats :=
  { s with bytesReceived := s.bytesReceived + byteCount, messagesReceived := s.messagesReceived + 1 }

/-- The samples that the clamp of `noteRtt` lets pass. -/
def Sane (ms : Int) : Prop := ¬ (ms < 0 ∨ ms > 60000)

instance (ms : Int) : Decidable (Sane ms) := inferInstanceAs (Decidable (¬ _))

def noteRtt (ms : Int) : TerminalStats :=
  if ms < 0 ∨ ms > 60000 then s
  else
    let samples := s.rttSamples ++ [ms]
    -- the oldest sample goes when there are too many:
    { s with rttSamples := if samples.length > s.capacity then samples.drop 1 else samples }

def markSessionStart (now : Int) : TerminalStats := { s with sessionStartedAtMs := some now }

/-- `List.reduce`, which throws on an empty list; the getters test for it. -/
def reduce (f : Int → Int → Int) : List Int → Option Int
  | [] => none
  | ms :: samples => some (samples.foldl f ms)

def lastRttMs : Option Int := s.rttSamples.getLast?

def minRttMs : Option Int := reduce (fun a b => if a < b then a else b) s.rttSamples

def maxRttMs : Option Int := reduce (fun a b => if a > b then a else b) s.rttSamples

theorem minRttMs_eq : s.minRttMs = s.rttSamples.min? := by
  have hmin : (fun a b : Int => if a < b then a else b) = min := by
    funext a b
    rw [Int.min_def]
    split_ifs <;> omega
  rw [minRttMs, hmin]
  cases s.rttSamples with
  | nil => rfl
  | cons ms samples => rfl

theorem maxRttMs_eq : s.maxRttMs = s.rttSamples.max? := by
  have hmax : (fun a b : Int => if a > b then a else b) = max := by
    funext a b
    rw [Int.max_def]
    split_ifs <;> omega
  rw [maxRttMs, hmax]
  cases s.rttSamples with
  | nil => rfl
  | cons ms samples => rfl

/-- Samples concern the samples only. -/
theorem foldl_noteRtt_frame (s : TerminalStats) (ages : List Int) :
    ∃ samples, ages.foldl noteRtt s = { s with rttSamples := samples } := by
  induction ages generalizing s with
  | nil => exact ⟨s.rttSamples, rfl⟩
  | cons ms ages ih =>
      obtain ⟨samples, hsamples⟩ := ih (s.noteRtt ms)
      refine ⟨samples, ?_⟩
      rw [List.foldl_cons, hsamples, noteRtt]
      split
      · rfl
      · rfl

end TerminalStats

/-! ## The measured service -/

/-- A predicted byte and when it was echoed. -/
structure EchoEntry where
  byte : UInt8
  sentTimeMs : Int
  deriving DecidableEq

/-- The loop of `_stripPredictedEcho` with its clock: the remaining predictions and bytes, or `none` on a
mismatch; the samples of the matches before a mismatch stay. -/
def measureEcho (nowMs : Int) :
    List EchoEntry → Bytes → TerminalStats → Option (List EchoEntry × Bytes) × TerminalStats
  | [], incoming, stats => (some ([], incoming), stats)
  | predicted, [], stats => (some (predicted, []), stats)
  | p :: predicted, b :: incoming, stats =>
      if b = p.byte then
        measureEcho nowMs predicted incoming (stats.noteRtt (nowMs - p.sentTimeMs))
      else (none, stats)

/-- A terminal service with the entries of `_predictedEcho` and the statistics. -/
structure MeasuredService where
  service : TerminalService
  predictedEcho : List EchoEntry
  stats : TerminalStats
  /-- The entries are those of the bytes that the service predicts. -/
  bytes : predictedEcho.map (·.byte) = service.predictedEcho

theorem measureEcho_bytes (nowMs : Int) (predicted : List EchoEntry) (incoming : Bytes)
    (stats : TerminalStats) :
    (measureEcho nowMs predicted incoming stats).1.map (fun r => (r.1.map (·.byte), r.2)) =
      matchEcho (predicted.map (·.byte)) incoming := by
  induction predicted generalizing incoming stats with
  | nil => rfl
  | cons p predicted ih =>
      cases incoming with
      | nil => rfl
      | cons b incoming =>
          rw [measureEcho, List.map_cons, matchEcho]
          split
          · exact ih incoming _
          · rfl

/-- The predictions that a packet confirms: those before the first one that it does not meet. -/
def matched : List EchoEntry → Bytes → List EchoEntry
  | p :: predicted, b :: incoming => if b = p.byte then p :: matched predicted incoming else []
  | _, _ => []

/-- Every match leaves its age, also when a mismatch follows. -/
theorem measureEcho_stats (nowMs : Int) (predicted : List EchoEntry) (incoming : Bytes)
    (stats : TerminalStats) :
    (measureEcho nowMs predicted incoming stats).2 =
      ((matched predicted incoming).map fun p => nowMs - p.sentTimeMs).foldl TerminalStats.noteRtt
        stats := by
  induction predicted generalizing incoming stats with
  | nil =>
      cases incoming with
      | nil => rfl
      | cons b incoming => rfl
  | cons p predicted ih =>
      cases incoming with
      | nil => rfl
      | cons b incoming =>
          rw [measureEcho, matched]
          split
          · rw [ih, List.map_cons, List.foldl_cons]
          · rfl

/-- The matches and what remains are, in order, a part of the predictions. -/
theorem measureEcho_sublist (nowMs : Int) (predicted : List EchoEntry) (incoming : Bytes)
    (stats : TerminalStats) :
    (matched predicted incoming ++
      (measureEcho nowMs predicted incoming stats).1.elim [] Prod.fst).Sublist predicted := by
  induction predicted generalizing incoming stats with
  | nil =>
      cases incoming with
      | nil => exact List.Sublist.refl []
      | cons b incoming => exact List.Sublist.refl []
  | cons p predicted ih =>
      cases incoming with
      | nil => exact List.Sublist.refl _
      | cons b incoming =>
          rw [measureEcho, matched]
          split
          · exact (ih _ _).cons_cons p
          · exact List.nil_sublist _

namespace MeasuredService

variable (D : Dart) (c : MeasuredService)

/-- New predictions and statistics. -/
def predicting (predicted : List EchoEntry) (stats : TerminalStats) : MeasuredService :=
  { service := { c.service with predictedEcho := predicted.map (·.byte) }
    predictedEcho := predicted
    stats := stats
    bytes := rfl }

/-- `_stripPredictedEcho`, with the bytes to write. -/
def stripPredictedEcho (nowMs : Int) (incoming : Bytes) : MeasuredService × Bytes :=
  match measureEcho nowMs c.predictedEcho incoming c.stats with
  | (some (predicted, filtered), stats) => (c.predicting predicted stats, filtered)
  | (none, stats) => (c.predicting [] stats, incoming)

/-- What remains and what is written does not depend on the clock; every match leaves its age. -/
theorem stripPredictedEcho_spec (nowMs : Int) (incoming : Bytes) :
    ∃ predicted filtered, c.stripPredictedEcho nowMs incoming =
      (c.predicting predicted (((matched c.predictedEcho incoming).map fun p =>
        nowMs - p.sentTimeMs).foldl TerminalStats.noteRtt c.stats), filtered) ∧
      (predicted.map (·.byte), filtered) =
        Client.stripPredictedEcho c.service.predictedEcho incoming ∧
      (matched c.predictedEcho incoming ++ predicted).Sublist c.predictedEcho := by
  have hbytes := measureEcho_bytes nowMs c.predictedEcho incoming c.stats
  have hsublist := measureEcho_sublist nowMs c.predictedEcho incoming c.stats
  rw [c.bytes] at hbytes
  rw [Client.stripPredictedEcho, ← hbytes, stripPredictedEcho, ← measureEcho_stats]
  rcases hecho : measureEcho nowMs c.predictedEcho incoming c.stats with ⟨_ | ⟨predicted, filtered⟩, stats⟩
  · rw [hecho] at hsublist
    exact ⟨[], incoming, rfl, rfl, hsublist⟩
  · rw [hecho] at hsublist
    exact ⟨predicted, filtered, rfl, rfl, hsublist⟩

/-- A step of the service that leaves the predictions. -/
def keeping (m : TerminalService) (h : m.predictedEcho = c.service.predictedEcho) : MeasuredService :=
  { c with service := m, bytes := c.bytes.trans h.symm }

/-- `_scheduleSyncRecovery`. -/
def scheduleSyncRecovery : MeasuredService :=
  if h : c.service.syncRecoveryInFlight then c
  else
    { c with
      service := c.service.scheduleSyncRecovery
      predictedEcho := []
      bytes := by rw [TerminalService.scheduleSyncRecovery, if_neg h]; rfl }

/-- The tracking of the agent's `seq`. -/
def track (seq : Option Json) : MeasuredService :=
  match hseq : asNullableInt seq with
  | none => c.scheduleSyncRecovery
  | some none => c
  | some (some n) => c.keeping (c.service.track seq) (by rw [TerminalService.track, hseq])

/-- `_handleMessage` up to its `await`. -/
def handleMessage (raw : Text) : MeasuredService :=
  match c.service.arrival D raw with
  | .skip => c
  | .recover => c.scheduleSyncRecovery
  | .decrypt p => c.keeping { c.service with pending := c.service.pending ++ [p] } rfl

/-- A `pty` frame behind its `await`. -/
def resumePty (nowMs : Int) (seq : Option Json) : Option Bytes → MeasuredService × List TerminalEffect
  | none => (c.scheduleSyncRecovery, [])
  | some bytes =>
      let c := { c with stats := c.stats.noteReceived bytes.length }
      let (c, filtered) := c.stripPredictedEcho nowMs bytes
      (c.track seq, [.output seq bytes filtered])

/-- A `sync_warn` frame behind its `await`; it is not counted. -/
def resumeSyncWarn : Option Bytes → MeasuredService × List TerminalEffect
  | none => (c.scheduleSyncRecovery, [])
  | some bytes =>
      match (D.utf8Decode bytes).bind (jsonDecodeMap D) with
      | none => (c.scheduleSyncRecovery, [])
      | some syncData =>
          (c, [.warning (syncData.get? "dropped_start") (syncData.get? "dropped_end")])

/-- The handler of a frame goes on behind its `await`. -/
def resume (nowMs : Int) (p : Pending) : MeasuredService × List TerminalEffect :=
  match p.kind with
  | .pty => c.resumePty nowMs p.seq p.outcome
  | .syncWarn => c.resumeSyncWarn D p.outcome

/-- `terminal.onOutput`: all predictions of one call have the same time. -/
def typed (nowMs : Int) (bytes : Bytes) : MeasuredService × List TerminalEffect :=
  let entries := (localEcho bytes).map fun b => { byte := b, sentTimeMs := nowMs }
  ({ c with
    service := { c.service with
      predictedEcho := c.service.predictedEcho ++ localEcho bytes
      inputBuffer := c.service.inputBuffer ++ bytes }
    predictedEcho := c.predictedEcho ++ entries
    bytes := by
      rw [List.map_append, c.bytes, List.map_map]
      exact congrArg _ (List.map_id _) }, [.echo (localEcho bytes)])

/-- `_flushInput` with `_sendPty`, up to its `await`. -/
def flushInput : MeasuredService × List TerminalEffect :=
  if c.service.inputBuffer = [] then (c, [])
  else
    ({ c with
      service := { c.service with
        inputBuffer := [], seq := c.service.seq + 1, sending := c.service.sending + 1 }
      -- counted before the batch is encrypted, whether or not it goes out:
      stats := c.stats.noteSent c.service.inputBuffer.length },
      [.sendPty (c.service.seq + 1) c.service.inputBuffer])

/-- `attach`. -/
def attach (nowMs : Int) (syncExisting : Bool) : MeasuredService × List TerminalEffect :=
  ({ service := (c.service.attach syncExisting).1
     predictedEcho := []
     stats := c.stats.markSessionStart nowMs
     bytes := rfl }, (c.service.attach syncExisting).2)

/-- One step at a time of the clock. -/
def step (nowMs : Int) : TerminalEvent → Option (MeasuredService × List TerminalEffect)
  | .message raw => some (c.handleMessage D raw, [])
  | .decrypted i =>
      (c.service.pending[i]?).map
        ((c.keeping { c.service with pending := c.service.pending.eraseIdx i } rfl).resume D nowMs)
  | .recover =>
      if 0 < c.service.microtasks then
        some (c.keeping { c.service with
          microtasks := c.service.microtasks - 1
          recovering := c.service.recovering + 1 } rfl, c.service.requestSync)
      else none
  | .recovered =>
      if 0 < c.service.recovering then
        some (c.keeping { c.service with
          recovering := c.service.recovering - 1
          syncRecoveryInFlight := false } rfl, [])
      else none
  | .typed bytes => some (c.typed nowMs bytes)
  | .injected bytes =>
      some (c.keeping { c.service with inputBuffer := c.service.inputBuffer ++ bytes } rfl, [])
  | .flush => some c.flushInput
  | .sent ok =>
      if 0 < c.service.sending then
        let c := c.keeping { c.service with sending := c.service.sending - 1 } rfl
        some (if ok then c else c.scheduleSyncRecovery, [])
      else none
  | .session ws => some (c.keeping { c.service with ws := ws } rfl, [])
  | .reattachAfterReconnect =>
      some ({ c with
        service := { c.service with syncRecoveryInFlight := false, predictedEcho := [] }
        predictedEcho := []
        bytes := rfl }, c.service.requestSync)

/-! ## Measuring shows nowhere -/

section Refinement

variable {D} {c}

@[simp] theorem keeping_service (c : MeasuredService) (m : TerminalService)
    (h : m.predictedEcho = c.service.predictedEcho) : (c.keeping m h).service = m := rfl

@[simp] theorem scheduleSyncRecovery_service (c : MeasuredService) :
    c.scheduleSyncRecovery.service = c.service.scheduleSyncRecovery := by
  rw [scheduleSyncRecovery]
  split
  · rename_i h
    rw [TerminalService.scheduleSyncRecovery, if_pos h]
  · rfl

@[simp] theorem track_service (c : MeasuredService) (seq : Option Json) :
    (c.track seq).service = c.service.track seq := by
  rw [track]
  split
  · rename_i hseq
    rw [TerminalService.track, hseq]
    exact scheduleSyncRecovery_service c
  · rename_i hseq
    rw [TerminalService.track, hseq]
  · rfl

theorem handleMessage_service (c : MeasuredService) (raw : Text) :
    (c.handleMessage D raw).service = c.service.handleMessage D raw := by
  rw [handleMessage, TerminalService.handleMessage]
  cases c.service.arrival D raw with
  | skip => rfl
  | recover => exact scheduleSyncRecovery_service c
  | decrypt p => rfl

theorem resumePty_service (c : MeasuredService) (nowMs : Int) (seq : Option Json)
    (outcome : Option Bytes) :
    ((c.resumePty nowMs seq outcome).1.service, (c.resumePty nowMs seq outcome).2) =
      c.service.resumePty seq outcome := by
  cases outcome with
  | none => exact Prod.ext (scheduleSyncRecovery_service c) rfl
  | some bytes =>
      let noted : MeasuredService := { c with stats := c.stats.noteReceived bytes.length }
      obtain ⟨predicted, filtered, hstrip, hbytes, -⟩ := noted.stripPredictedEcho_spec nowMs bytes
      rw [TerminalService.resumePty, ← hbytes, resumePty, hstrip]
      exact Prod.ext (track_service _ seq) rfl

theorem resume_service (c : MeasuredService) (nowMs : Int) (p : Pending) :
    ((c.resume D nowMs p).1.service, (c.resume D nowMs p).2) = c.service.resume D p := by
  rw [resume, TerminalService.resume]
  cases p.kind with
  | pty => exact resumePty_service c nowMs p.seq p.outcome
  | syncWarn =>
      cases p.outcome with
      | none => exact Prod.ext (scheduleSyncRecovery_service c) rfl
      | some bytes =>
          dsimp only
          rw [resumeSyncWarn, TerminalService.resumeSyncWarn]
          cases (D.utf8Decode bytes).bind (jsonDecodeMap D) with
          | none => exact Prod.ext (scheduleSyncRecovery_service c) rfl
          | some syncData => rfl

/-- The service of a measured one takes its own step, with the same effects. -/
theorem step_service (c : MeasuredService) (nowMs : Int) (e : TerminalEvent) :
    (c.step D nowMs e).map (fun r => (r.1.service, r.2)) = c.service.step D e := by
  cases e with
  | message raw => exact congrArg some (Prod.ext (handleMessage_service c raw) rfl)
  | decrypted i =>
      rw [step, TerminalService.step, Option.map_map]
      apply congrArg (fun f => Option.map f c.service.pending[i]?)
      funext p
      exact resume_service _ nowMs p
  | recover =>
      rw [step, TerminalService.step]
      split
      · rfl
      · rfl
  | recovered =>
      rw [step, TerminalService.step]
      split
      · rfl
      · rfl
  | typed bytes => rfl
  | injected bytes => rfl
  | flush =>
      rw [step, TerminalService.step, flushInput, TerminalService.flushInput]
      split
      · rfl
      · rfl
  | sent ok =>
      rw [step, TerminalService.step]
      split
      · cases ok with
        | true => rfl
        | false => exact congrArg some (Prod.ext (scheduleSyncRecovery_service _) rfl)
      · rfl
  | session ws => rfl
  | reattachAfterReconnect => rfl

end Refinement

/-! ## Runs -/

/-- A step as a step relation; an event carries its time. -/
def tick (c : MeasuredService) (e : Int × TerminalEvent) : Option MeasuredService :=
  (c.step D e.1 e.2).map Prod.fst

end MeasuredService

/-- The service after a step. -/
def TerminalService.next (D : Dart) (c : TerminalService) (e : TerminalEvent) :
    Option TerminalService :=
  (c.step D e).map Prod.fst

/-- What a step does. -/
def TerminalService.effects (D : Dart) (c : TerminalService) (e : TerminalEvent) :
    List TerminalEffect :=
  (c.step D e).elim [] Prod.snd

/-- The payload of an output. -/
def TerminalEffect.received : TerminalEffect → Option Bytes
  | .output _ payload _ => some payload
  | _ => none

/-- The bytes that an event puts into the buffer. -/
def TerminalEvent.input : TerminalEvent → Bytes
  | .typed bytes | .injected bytes => bytes
  | _ => []

namespace MeasuredService

/-! ## Traffic -/

/-- The counters have gone up by what the effects sent and received, and by nothing else; what was put
into the buffer is counted or still there. -/
structure Counted (c m : MeasuredService) (effs : List TerminalEffect) (input : Bytes) : Prop where
  messagesSent : m.stats.messagesSent =
    c.stats.messagesSent + (effs.filterMap TerminalEffect.batch).length
  bytesSent : m.stats.bytesSent =
    c.stats.bytesSent + (effs.filterMap TerminalEffect.batch).flatten.length
  messagesReceived : m.stats.messagesReceived =
    c.stats.messagesReceived + (effs.filterMap TerminalEffect.received).length
  bytesReceived : m.stats.bytesReceived =
    c.stats.bytesReceived + (effs.filterMap TerminalEffect.received).flatten.length
  buffered : m.stats.bytesSent + m.service.inputBuffer.length =
    c.stats.bytesSent + c.service.inputBuffer.length + input.length

section Traffic

variable {D : Dart} {c m t : MeasuredService} {effs effs' : List TerminalEffect} {input input' : Bytes}

theorem Counted.refl (c : MeasuredService) : Counted c c [] [] := ⟨rfl, rfl, rfl, rfl, rfl⟩

theorem Counted.trans (h : Counted c m effs input) (k : Counted m t effs' input') :
    Counted c t (effs ++ effs') (input ++ input') := by
  constructor
  · rw [k.messagesSent, h.messagesSent, List.filterMap_append, List.length_append, Nat.add_assoc]
  · rw [k.bytesSent, h.bytesSent, List.filterMap_append, List.flatten_append, List.length_append,
      Nat.add_assoc]
  · rw [k.messagesReceived, h.messagesReceived, List.filterMap_append, List.length_append, Nat.add_assoc]
  · rw [k.bytesReceived, h.bytesReceived, List.filterMap_append, List.flatten_append,
      List.length_append, Nat.add_assoc]
  · rw [k.buffered, h.buffered, List.length_append, Nat.add_assoc _ input.length]

/-- The statistics and the buffer are left, and nothing is sent or received. -/
theorem counted_of_kept (hstats : m.stats = c.stats)
    (hbuffer : m.service.inputBuffer = c.service.inputBuffer)
    (hbatch : effs.filterMap TerminalEffect.batch = [])
    (hreceived : effs.filterMap TerminalEffect.received = []) : Counted c m effs [] := by
  constructor
  · rw [hstats, hbatch]; rfl
  · rw [hstats, hbatch]; rfl
  · rw [hstats, hreceived]; rfl
  · rw [hstats, hreceived]; rfl
  · rw [hstats, hbuffer]; rfl

theorem counted_scheduleSyncRecovery (c : MeasuredService) : Counted c c.scheduleSyncRecovery [] [] := by
  rw [scheduleSyncRecovery]
  split
  · exact Counted.refl c
  · apply counted_of_kept
    · rfl
    · show (c.service.scheduleSyncRecovery).inputBuffer = _
      rw [TerminalService.scheduleSyncRecovery]
      split_ifs
      rfl
    · rfl
    · rfl

theorem counted_track (c : MeasuredService) (seq : Option Json) : Counted c (c.track seq) [] [] := by
  rw [track]
  split
  · exact counted_scheduleSyncRecovery c
  · exact Counted.refl c
  · rename_i n hseq
    apply counted_of_kept
    · rfl
    · show (c.service.track seq).inputBuffer = _
      rw [TerminalService.track, hseq]
    · rfl
    · rfl

theorem counted_resumePty (c : MeasuredService) (nowMs : Int) (seq : Option Json)
    (outcome : Option Bytes) :
    Counted c (c.resumePty nowMs seq outcome).1 (c.resumePty nowMs seq outcome).2 [] := by
  cases outcome with
  | none => exact counted_scheduleSyncRecovery c
  | some bytes =>
      let noted : MeasuredService := { c with stats := c.stats.noteReceived bytes.length }
      obtain ⟨predicted, filtered, hstrip, -, -⟩ := noted.stripPredictedEcho_spec nowMs bytes
      obtain ⟨samples, hsamples⟩ := TerminalStats.foldl_noteRtt_frame noted.stats
        ((matched noted.predictedEcho bytes).map fun p => nowMs - p.sentTimeMs)
      rw [hsamples] at hstrip
      rw [resumePty, hstrip]
      have hflatten : [bytes].flatten.length = bytes.length := by simp
      have hcounted : Counted c (noted.predicting predicted { noted.stats with rttSamples := samples })
          [.output seq bytes filtered] [] :=
        ⟨rfl, rfl, rfl, congrArg (c.stats.bytesReceived + ·) hflatten.symm, rfl⟩
      exact hcounted.trans (counted_track _ seq)

theorem counted_resume (c : MeasuredService) (nowMs : Int) (p : Pending) :
    Counted c (c.resume D nowMs p).1 (c.resume D nowMs p).2 [] := by
  rw [resume]
  cases p.kind with
  | pty => exact counted_resumePty c nowMs p.seq p.outcome
  | syncWarn =>
      dsimp only
      cases p.outcome with
      | none => exact counted_scheduleSyncRecovery c
      | some bytes =>
          rw [resumeSyncWarn]
          split
          · exact counted_scheduleSyncRecovery c
          · exact counted_of_kept rfl rfl rfl rfl

theorem counted_handleMessage (c : MeasuredService) (raw : Text) :
    Counted c (c.handleMessage D raw) [] [] := by
  rw [handleMessage]
  cases c.service.arrival D raw with
  | skip => exact Counted.refl c
  | recover => exact counted_scheduleSyncRecovery c
  | decrypt p => exact counted_of_kept rfl rfl rfl rfl

theorem counted_flushInput (c : MeasuredService) : Counted c c.flushInput.1 c.flushInput.2 [] := by
  rw [flushInput]
  split
  · exact Counted.refl c
  · have hflatten : ([c.service.inputBuffer].flatten).length = c.service.inputBuffer.length := by simp
    constructor
    · rfl
    · exact congrArg (c.stats.bytesSent + ·) hflatten.symm
    · rfl
    · rfl
    · rfl

theorem counted_step {nowMs : Int} {e : TerminalEvent} (h : c.step D nowMs e = some (m, effs)) :
    Counted c m effs e.input := by
  have hrequest : ∀ f : TerminalEffect → Option Bytes, (∀ n, f (.syncRequest n) = none) →
      c.service.requestSync.filterMap f = [] := fun _ => TerminalService.requestSync_filterMap _
  cases e with
  | message raw =>
      cases h
      exact counted_handleMessage c raw
  | decrypted i =>
      obtain ⟨p, -, hp⟩ := Option.map_eq_some_iff.1 h
      have hcounted := counted_resume (D := D)
        (c.keeping { c.service with pending := c.service.pending.eraseIdx i } rfl) nowMs p
      rw [hp] at hcounted
      exact ⟨hcounted.1, hcounted.2, hcounted.3, hcounted.4, hcounted.5⟩
  | recover =>
      rw [step] at h
      split_ifs at h
      cases h
      exact counted_of_kept rfl rfl (hrequest _ fun _ => rfl) (hrequest _ fun _ => rfl)
  | recovered =>
      rw [step] at h
      split_ifs at h
      cases h
      exact counted_of_kept rfl rfl rfl rfl
  | typed bytes =>
      cases h
      refine ⟨rfl, rfl, rfl, rfl, ?_⟩
      show c.stats.bytesSent + (c.service.inputBuffer ++ bytes).length = _
      rw [List.length_append, Nat.add_assoc]
      rfl
  | injected bytes =>
      cases h
      refine ⟨rfl, rfl, rfl, rfl, ?_⟩
      show c.stats.bytesSent + (c.service.inputBuffer ++ bytes).length = _
      rw [List.length_append, Nat.add_assoc]
      rfl
  | flush =>
      have hflush : c.flushInput = (m, effs) := Option.some.inj h
      have hcounted := counted_flushInput c
      rw [hflush] at hcounted
      exact hcounted
  | sent ok =>
      rw [step] at h
      split_ifs at h
      · cases h
        exact counted_of_kept rfl rfl rfl rfl
      · cases h
        have hcounted := counted_scheduleSyncRecovery
          (c.keeping { c.service with sending := c.service.sending - 1 } rfl)
        exact ⟨hcounted.1, hcounted.2, hcounted.3, hcounted.4, hcounted.5⟩
  | session ws =>
      cases h
      exact counted_of_kept rfl rfl rfl rfl
  | reattachAfterReconnect =>
      cases h
      exact counted_of_kept rfl rfl (hrequest _ fun _ => rfl) (hrequest _ fun _ => rfl)

/-- The counters tell what the terminal service itself does in the same run. -/
theorem traffic_exact {es : List (Int × TerminalEvent)} (h : Run (stepRel (tick D)) c es t) :
    Counted c t (trace (TerminalService.next D) (TerminalService.effects D) c.service (es.map Prod.snd))
      (es.flatMap fun e => e.2.input) := by
  induction h with
  | nil c => exact Counted.refl c
  | @cons c m t e es hstep _ ih =>
      obtain ⟨⟨m, effs⟩, hm, rfl⟩ := Option.map_eq_some_iff.1 hstep
      have hservice : c.service.step D e.2 = some (m.service, effs) := by
        rw [← step_service c e.1, hm]
        rfl
      have hnext : stepRel (TerminalService.next D) c.service e.2 m.service := by
        show (c.service.step D e.2).map Prod.fst = _
        rw [hservice]
        rfl
      have heffects : c.service.effects D e.2 = effs := by
        rw [TerminalService.effects, hservice]
        rfl
      rw [List.map_cons, trace_cons hnext, heffects, List.flatMap_cons]
      exact (counted_step hm).trans ih

end Traffic

/-! ## Samples -/

/-- The predictions that a frame confirms when its decryption completes. -/
def confirmed (c : MeasuredService) : Pending → List EchoEntry
  | { kind := .pty, seq := _, outcome := some bytes } => matched c.predictedEcho bytes
  | _ => []

/-- The keystrokes whose echo an event brings, with the time of its arrival. -/
def measured (c : MeasuredService) (e : Int × TerminalEvent) : List (EchoEntry × Int) :=
  match e.2 with
  | .decrypted i => ((c.service.pending[i]?).elim [] c.confirmed).map fun p => (p, e.1)
  | _ => []

/-- The keystrokes that an event predicts. -/
def predictions (e : Int × TerminalEvent) : List EchoEntry :=
  match e.2 with
  | .typed bytes => (localEcho bytes).map fun b => { byte := b, sentTimeMs := e.1 }
  | _ => []

/-- From the local echo to the one of the agent. -/
def age (r : EchoEntry × Int) : Int := r.2 - r.1.sentTimeMs

/-- The keystrokes `ms` were measured, and `ps` were predicted. -/
structure Sampled (c m : MeasuredService) (ms : List (EchoEntry × Int)) (ps : List EchoEntry) :
    Prop where
  once : (ms.map Prod.fst ++ m.predictedEcho).Sublist (c.predictedEcho ++ ps)
  capacity : m.stats.capacity = c.stats.capacity
  window : ∀ l, LongestSuffix (fun _ => 1) c.stats.capacity l c.stats.rttSamples →
    LongestSuffix (fun _ => 1) c.stats.capacity (l ++ (ms.map age).filter TerminalStats.Sane)
      m.stats.rttSamples

section Samples

variable {D : Dart} {c m t : MeasuredService} {ms ms' : List (EchoEntry × Int)}
  {ps ps' : List EchoEntry}

theorem Sampled.trans (h : Sampled c m ms ps) (k : Sampled m t ms' ps') :
    Sampled c t (ms ++ ms') (ps ++ ps') := by
  constructor
  · have hfirst := h.once.append_right ps'
    have hrest := k.once.append_left (ms.map Prod.fst)
    rw [List.append_assoc, List.append_assoc] at hfirst
    rw [List.map_append, List.append_assoc]
    exact hrest.trans hfirst
  · rw [k.capacity, h.capacity]
  · intro l hl
    have hlast := k.window _ (h.capacity ▸ h.window l hl)
    rw [h.capacity, List.append_assoc, ← List.filter_append, ← List.map_append] at hlast
    exact hlast

/-- Nothing is measured or predicted; predictions may be given up. -/
theorem sampled_of_kept (hstats : m.stats.rttSamples = c.stats.rttSamples)
    (hcapacity : m.stats.capacity = c.stats.capacity)
    (hpredicted : m.predictedEcho.Sublist c.predictedEcho) : Sampled c m [] [] := by
  refine ⟨?_, hcapacity, fun l hl => ?_⟩
  · rw [List.append_nil]
    exact hpredicted
  · rw [hstats]
    simpa using hl

theorem sampled_scheduleSyncRecovery (c : MeasuredService) :
    Sampled c c.scheduleSyncRecovery [] [] := by
  rw [scheduleSyncRecovery]
  split
  · exact sampled_of_kept rfl rfl (List.Sublist.refl _)
  · exact sampled_of_kept rfl rfl (List.nil_sublist _)

theorem sampled_track (c : MeasuredService) (seq : Option Json) : Sampled c (c.track seq) [] [] := by
  rw [track]
  split
  · exact sampled_scheduleSyncRecovery c
  · exact sampled_of_kept rfl rfl (List.Sublist.refl _)
  · exact sampled_of_kept rfl rfl (List.Sublist.refl _)

/-- `noteRtt` keeps a window of the sane samples. -/
theorem noteRtt_window {s : TerminalStats} {l : List Int}
    (h : LongestSuffix (fun _ => 1) s.capacity l s.rttSamples) (ms : Int) :
    LongestSuffix (fun _ => 1) s.capacity (l ++ [ms].filter TerminalStats.Sane)
      (s.noteRtt ms).rttSamples := by
  rw [TerminalStats.noteRtt]
  split_ifs with hinsane
  · rw [List.filter_cons_of_neg (by simp [TerminalStats.Sane, hinsane]), List.filter_nil, List.append_nil]
    exact h
  · rw [List.filter_cons_of_pos (by simp [TerminalStats.Sane, hinsane]), List.filter_nil]
    exact h.push ms

theorem foldl_noteRtt_window {s : TerminalStats} {l : List Int}
    (h : LongestSuffix (fun _ => 1) s.capacity l s.rttSamples) (ages : List Int) :
    LongestSuffix (fun _ => 1) s.capacity (l ++ ages.filter TerminalStats.Sane)
      (ages.foldl TerminalStats.noteRtt s).rttSamples := by
  induction ages generalizing s l with
  | nil =>
      rw [List.filter_nil, List.append_nil]
      exact h
  | cons ms ages ih =>
      obtain ⟨samples, hsamples⟩ := TerminalStats.foldl_noteRtt_frame s [ms]
      have hcapacity : (s.noteRtt ms).capacity = s.capacity := congrArg (·.capacity) hsamples
      have hrest := ih (hcapacity ▸ noteRtt_window h ms)
      rw [hcapacity, List.append_assoc, ← List.filter_append] at hrest
      exact hrest

theorem sampled_resumePty (c : MeasuredService) (nowMs : Int) (seq : Option Json) (bytes : Bytes) :
    Sampled c (c.resumePty nowMs seq (some bytes)).1
      ((matched c.predictedEcho bytes).map fun p => (p, nowMs)) [] := by
  let noted : MeasuredService := { c with stats := c.stats.noteReceived bytes.length }
  obtain ⟨predicted, filtered, hstrip, -, hsublist⟩ := noted.stripPredictedEcho_spec nowMs bytes
  have hwindow := fun l (hl : LongestSuffix (fun _ => 1) c.stats.capacity l c.stats.rttSamples) =>
    foldl_noteRtt_window (s := noted.stats) hl
      ((matched noted.predictedEcho bytes).map fun p => nowMs - p.sentTimeMs)
  obtain ⟨samples, hsamples⟩ := TerminalStats.foldl_noteRtt_frame noted.stats
    ((matched noted.predictedEcho bytes).map fun p => nowMs - p.sentTimeMs)
  rw [hsamples] at hstrip hwindow
  have hstripped : Sampled c (noted.predicting predicted { noted.stats with rttSamples := samples })
      ((matched c.predictedEcho bytes).map fun p => (p, nowMs)) [] := by
    refine ⟨?_, rfl, fun l hl => ?_⟩
    · rw [List.append_nil, List.map_map]
      exact (List.map_id (matched c.predictedEcho bytes)).symm ▸ hsublist
    · rw [List.map_map]
      exact hwindow l hl
  rw [resumePty, hstrip]
  have hall := hstripped.trans (sampled_track _ seq)
  rw [List.append_nil] at hall
  exact hall

theorem sampled_handleMessage (c : MeasuredService) (raw : Text) :
    Sampled c (c.handleMessage D raw) [] [] := by
  rw [handleMessage]
  cases c.service.arrival D raw with
  | skip => exact sampled_of_kept rfl rfl (List.Sublist.refl _)
  | recover => exact sampled_scheduleSyncRecovery c
  | decrypt p => exact sampled_of_kept rfl rfl (List.Sublist.refl _)

/-- Only a `pty` frame that opens confirms predictions. -/
theorem sampled_resume (c : MeasuredService) (nowMs : Int) (p : Pending) :
    Sampled c (c.resume D nowMs p).1 ((c.confirmed p).map fun p => (p, nowMs)) [] := by
  rcases p with ⟨kind, seq, outcome⟩
  cases kind with
  | pty =>
      cases outcome with
      | none => exact sampled_scheduleSyncRecovery c
      | some bytes => exact sampled_resumePty c nowMs seq bytes
  | syncWarn =>
      cases outcome with
      | none => exact sampled_scheduleSyncRecovery c
      | some bytes =>
          show Sampled c (c.resumeSyncWarn D (some bytes)).1 [] []
          rw [resumeSyncWarn]
          split
          · exact sampled_scheduleSyncRecovery c
          · exact sampled_of_kept rfl rfl (List.Sublist.refl _)

theorem sampled_step {nowMs : Int} {e : TerminalEvent} {effs : List TerminalEffect}
    (h : c.step D nowMs e = some (m, effs)) :
    Sampled c m (measured c (nowMs, e)) (predictions (nowMs, e)) := by
  cases e with
  | message raw =>
      cases h
      exact sampled_handleMessage c raw
  | decrypted i =>
      obtain ⟨p, hp, hm⟩ := Option.map_eq_some_iff.1 h
      have hsampled := sampled_resume (D := D)
        (c.keeping { c.service with pending := c.service.pending.eraseIdx i } rfl) nowMs p
      rw [hm] at hsampled
      have hmeasured : measured c (nowMs, .decrypted i) = (c.confirmed p).map fun p => (p, nowMs) := by
        rw [measured]
        dsimp only
        rw [hp]
        rfl
      rw [hmeasured]
      exact ⟨hsampled.1, hsampled.2, hsampled.3⟩
  | recover =>
      rw [step] at h
      split_ifs at h
      cases h
      exact sampled_of_kept rfl rfl (List.Sublist.refl _)
  | recovered =>
      rw [step] at h
      split_ifs at h
      cases h
      exact sampled_of_kept rfl rfl (List.Sublist.refl _)
  | typed bytes =>
      cases h
      refine ⟨List.Sublist.refl _, rfl, fun l hl => ?_⟩
      show LongestSuffix _ _ (l ++ []) _
      rw [List.append_nil]
      exact hl
  | injected bytes =>
      cases h
      exact sampled_of_kept rfl rfl (List.Sublist.refl _)
  | flush =>
      have hflush : c.flushInput = (m, effs) := Option.some.inj h
      rw [flushInput] at hflush
      split_ifs at hflush
      · cases hflush
        exact sampled_of_kept rfl rfl (List.Sublist.refl _)
      · cases hflush
        exact sampled_of_kept rfl rfl (List.Sublist.refl _)
  | sent ok =>
      rw [step] at h
      split_ifs at h
      · cases h
        exact sampled_of_kept rfl rfl (List.Sublist.refl _)
      · cases h
        have hsampled := sampled_scheduleSyncRecovery
          (c.keeping { c.service with sending := c.service.sending - 1 } rfl)
        exact ⟨hsampled.1, hsampled.2, hsampled.3⟩
  | session ws =>
      cases h
      exact sampled_of_kept rfl rfl (List.Sublist.refl _)
  | reattachAfterReconnect =>
      cases h
      exact sampled_of_kept rfl rfl (List.nil_sublist _)

theorem sampled_run {es : List (Int × TerminalEvent)} (h : Run (stepRel (tick D)) c es t) :
    Sampled c t (trace (tick D) measured c es) (es.flatMap predictions) := by
  induction h with
  | nil c => exact sampled_of_kept rfl rfl (List.Sublist.refl _)
  | @cons c m t e es hstep _ ih =>
      obtain ⟨⟨m, effs⟩, hm, rfl⟩ := Option.map_eq_some_iff.1 hstep
      rw [trace_cons hstep, List.flatMap_cons]
      exact (sampled_step hm).trans ih

end Samples

/-- A new service on its first `attach`. -/
def attached (ws : WebSocketService) (capacity : Nat) (nowMs : Int) (syncExisting : Bool) :
    MeasuredService :=
  (({ service := .new ws, predictedEcho := [], stats := .new capacity, bytes := rfl } :
    MeasuredService).attach nowMs syncExisting).1

/-- A keystroke is flushed, and its echo comes 90 ms after it was typed. -/
def Sample.echoed : List (Int × TerminalEvent) :=
  [(0, .typed [120]), (50, .flush), (80, .message (Agent.Sample.frame 1 [120])), (90, .decrypted 0)]

/-- A new service that is attached on the small crates. -/
def Sample.start : MeasuredService := attached Agent.Sample.service.ws 100 0 false

/-- One byte out and one in. -/
theorem traffic_exact_echo :
    ∃ t : MeasuredService, t.stats.bytesSent = 1 ∧ t.stats.bytesReceived = 1 ∧
      Counted Sample.start t
        (trace (TerminalService.next Acked.Sample.dart) (TerminalService.effects Acked.Sample.dart)
          Sample.start.service (Sample.echoed.map Prod.snd))
        (Sample.echoed.flatMap fun e => e.2.input) := by
  obtain ⟨t, hrun, hsent, hreceived⟩ : ∃ t,
      Run (stepRel (tick Acked.Sample.dart)) Sample.start Sample.echoed t ∧
      t.stats.bytesSent = 1 ∧ t.stats.bytesReceived = 1 := exists_run_of_exec (by decide +kernel)
  exact ⟨t, hsent, hreceived, traffic_exact hrun⟩

section Attached

variable {D : Dart} {ws : WebSocketService} {capacity : Nat} {nowMs : Int} {syncExisting : Bool}
  {es : List (Int × TerminalEvent)} {t : MeasuredService}

/-- The samples are a window of the sane ages. -/
theorem window_of_run (h : Run (stepRel (tick D)) (attached ws capacity nowMs syncExisting) es t) :
    LongestSuffix (fun _ => 1) capacity
      (((trace (tick D) measured (attached ws capacity nowMs syncExisting) es).map age).filter
        TerminalStats.Sane) t.stats.rttSamples :=
  (sampled_run h).window [] ⟨List.suffix_refl [], Nat.zero_le _, fun _ hr _ => hr⟩

/-- The samples are the latest sane ages of the echoes that have come. Each belongs to a keystroke of its
own, in the order of typing. -/
theorem samples_exact (h : Run (stepRel (tick D)) (attached ws capacity nowMs syncExisting) es t) :
    LongestSuffix (fun _ => 1) capacity
      (((trace (tick D) measured (attached ws capacity nowMs syncExisting) es).map age).filter
        TerminalStats.Sane) t.stats.rttSamples ∧
    ((trace (tick D) measured (attached ws capacity nowMs syncExisting) es).map Prod.fst).Sublist
      (es.flatMap predictions) :=
  ⟨window_of_run h, (List.sublist_append_left _ _).trans (sampled_run h).once⟩

/-- Three keystrokes, and their echoes after 60, 80 and 105 ms. -/
def Sample.typing : List (Int × TerminalEvent) :=
  [(0, .typed [120]), (10, .typed [120]), (25, .typed [120]), (50, .flush),
    (60, .message (Agent.Sample.frame 1 [120])), (60, .decrypted 0),
    (90, .message (Agent.Sample.frame 3 [120])), (90, .decrypted 0),
    (130, .message (Agent.Sample.frame 1 [120])), (130, .decrypted 0)]

/-- A window of two samples keeps the last two. -/
theorem samples_exact_echo :
    ∃ t : MeasuredService, t.stats.rttSamples = [80, 105] ∧
      LongestSuffix (fun _ => 1) 2
        (((trace (tick Acked.Sample.dart) measured (attached Agent.Sample.service.ws 2 0 false)
          Sample.typing).map age).filter TerminalStats.Sane) t.stats.rttSamples ∧
      ((trace (tick Acked.Sample.dart) measured (attached Agent.Sample.service.ws 2 0 false)
        Sample.typing).map Prod.fst).Sublist (Sample.typing.flatMap predictions) := by
  obtain ⟨t, hrun, hsamples⟩ : ∃ t,
      Run (stepRel (tick Acked.Sample.dart)) (attached Agent.Sample.service.ws 2 0 false)
        Sample.typing t ∧
      t.stats.rttSamples = [80, 105] := exists_run_of_exec (by decide +kernel)
  exact ⟨t, hsamples, samples_exact hrun⟩

/-- What the dialog shows of the samples is in order and sane. -/
theorem shown_in_order {low last high : Int}
    (h : Run (stepRel (tick D)) (attached ws capacity nowMs syncExisting) es t)
    (hlow : t.stats.minRttMs = some low) (hlast : t.stats.lastRttMs = some last)
    (hhigh : t.stats.maxRttMs = some high) :
    0 ≤ low ∧ low ≤ last ∧ last ≤ high ∧ high ≤ 60000 ∧ t.stats.rttSamples.length ≤ capacity := by
  have hwindow := window_of_run h
  rw [TerminalStats.minRttMs_eq] at hlow
  rw [TerminalStats.maxRttMs_eq] at hhigh
  obtain ⟨hlowmem, hlowest⟩ := List.min?_eq_some_iff.1 hlow
  obtain ⟨hhighmem, hhighest⟩ := List.max?_eq_some_iff.1 hhigh
  have hlastmem := List.mem_of_getLast? hlast
  have hsane : ∀ ms ∈ t.stats.rttSamples, TerminalStats.Sane ms := by
    intro ms hms
    have hfiltered := hwindow.suffix.subset hms
    simpa using (List.mem_filter.1 hfiltered).2
  have hlowsane := hsane low hlowmem
  have hhighsane := hsane high hhighmem
  rw [TerminalStats.Sane] at hlowsane hhighsane
  have hfits := hwindow.fits
  rw [total_one] at hfits
  exact ⟨by omega, hlowest last hlastmem, hhighest last hlastmem, by omega, hfits⟩

end Attached

end MeasuredService

end Ktty.Client
