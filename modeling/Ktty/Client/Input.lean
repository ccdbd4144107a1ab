import Ktty.Client.LocalEcho

/-!
# Typed input on its way out

What becomes of the bytes that the user types, injects or pastes: they are buffered until the flush
timer fires or `detach` empties the buffer, and each batch is then sent by a call of `sendEncrypted` that
nobody awaits. `InputPath` records the batches whose calls have not completed and those that were sent.

A batch leaves the buffer before its call completes, and a call that throws drops it. So no byte is lost
or moved exactly when every call succeeds and no batch overtakes another one with different bytes
(`input_conserved_iff`).
-/

set_option autoImplicit false

namespace Ktty.Client

open Ktty.Wire Ktty.Lib.Execution

/-- The batch that an effect passes to `sendEncrypted`. -/
def TerminalEffect.batch : TerminalEffect → Option Bytes
  | .sendPty _ data => some data
  | _ => none

namespace TerminalService

variable (c : TerminalService)

/-- The sending part of `detach`, up to the `await` of `_sendPty`. -/
def detach : TerminalService × List TerminalEffect :=
  if c.inputBuffer ≠ [] then
    ({ c with seq := c.seq + 1, sending := c.sending + 1, inputBuffer := [] },
      [.sendPty (c.seq + 1) c.inputBuffer])
  else (c, [])

/-- `detach` sends what the flush timer would have sent. -/
theorem detach_eq_flushInput : c.detach = c.flushInput := by
  rw [detach, flushInput]
  by_cases h : c.inputBuffer = []
  · rw [if_neg (not_not.2 h), if_pos h]
  · rw [if_pos h, if_neg h]

/-- Sending empties the buffer into one batch, if it holds anything. -/
theorem flushInput_facts :
    c.flushInput.1.inputBuffer = [] ∧
      c.flushInput.2.filterMap TerminalEffect.batch =
        (if c.inputBuffer = [] then [] else [c.inputBuffer]) := by
  rw [flushInput]
  split
  · rename_i h
    exact ⟨h, rfl⟩
  · exact ⟨rfl, rfl⟩

end TerminalService

/-! ## Steps -/

/-- A service with the batches it has sent. -/
structure InputPath where
  service : TerminalService
  attached : Bool
  /-- `_inputFlushTimer` is not null. -/
  flushTimer : Bool
  /-- The batches whose `sendEncrypted` has not completed. -/
  inFlight : List Bytes
  /-- The batches that were sent. -/
  sent : List Bytes
  /-- All bytes of the input events. -/
  input : Bytes

inductive InputEvent where
  | attach (syncExisting : Bool)
  /-- `terminal.onOutput`. -/
  | typed (bytes : Bytes)
  /-- `sendText` and `pastePlainText` with the bytes that they encode. -/
  | injected (bytes : Bytes)
  /-- The flush timer fires. -/
  | flush
  | detach
  /-- The `sendEncrypted` of the `i`-th batch under way completes or throws. -/
  | completed (i : Nat) (ok : Bool)

namespace InputPath

/-- The service after its constructor. -/
def new (ws : WebSocketService) : InputPath :=
  { service := .new ws, attached := false, flushTimer := false, inFlight := [], sent := [], input := [] }

section Step

variable (D : Dart) (p : InputPath)

/-- Take over what the service has done. -/
def after (r : TerminalService × List TerminalEffect) : InputPath :=
  { p with service := r.1, inFlight := p.inFlight ++ r.2.filterMap TerminalEffect.batch }

/-- Bytes go into the buffer, and the flush timer is armed if it is not. -/
def buffered (bytes : Bytes) (r : TerminalService × List TerminalEffect) : InputPath :=
  { p.after r with flushTimer := true, input := p.input ++ bytes }

def step : InputEvent → Option InputPath
  | .attach syncExisting =>
      some { p.after (p.service.attach syncExisting) with attached := true }
  | .typed bytes =>
      -- `detach` has taken the callback away
      if p.attached then (p.service.step D (.typed bytes)).map (p.buffered bytes) else none
  | .injected bytes => (p.service.step D (.injected bytes)).map (p.buffered bytes)
  | .flush =>
      if p.flushTimer then some { p.after p.service.flushInput with flushTimer := false } else none
  | .detach => some { p.after p.service.detach with attached := false, flushTimer := false }
  | .completed i ok =>
      (p.inFlight[i]?).bind fun batch =>
        (p.service.step D (.sent ok)).map fun r =>
          { p.after r with
            inFlight := p.inFlight.eraseIdx i
            sent := if ok then p.sent ++ [batch] else p.sent }

/-- The batches that were sent, those under way and the buffer are the input. Without a batch under way
this says that what was sent and what is buffered is the input. -/
def Conserved : Prop :=
  p.sent.flatten ++ p.inFlight.flatten ++ p.service.inputBuffer = p.input

/-- A call that completes has succeeded, and its batch may change places with those in front of it. (With
the oldest call there are none.) -/
def Kept : InputEvent → Prop
  | .completed i ok =>
      ok = true ∧ ∀ batch ∈ p.inFlight[i]?,
        (p.inFlight.take i).flatten ++ batch = batch ++ (p.inFlight.take i).flatten
  | _ => True

/-- No batch is empty, and the flush timer is armed for what is buffered. -/
structure Armed : Prop where
  nonempty : ∀ batch ∈ p.inFlight, batch ≠ []
  timer : p.service.inputBuffer ≠ [] → p.flushTimer = true

/-- What an event does with the bytes: it buffers some, sends the buffer as one batch, completes a call,
or moves nothing. -/
inductive Moves (q : InputPath) : InputEvent → Prop
  | nothing {e : InputEvent} (kept : ∀ i ok, e ≠ .completed i ok) (input : q.input = p.input)
      (sent : q.sent = p.sent) (inFlight : q.inFlight = p.inFlight)
      (buffer : q.service.inputBuffer = p.service.inputBuffer)
      (timer : p.service.inputBuffer ≠ [] → q.flushTimer = p.flushTimer) : Moves q e
  | buffers {e : InputEvent} (bytes : Bytes) (kept : ∀ i ok, e ≠ .completed i ok)
      (input : q.input = p.input ++ bytes) (sent : q.sent = p.sent) (inFlight : q.inFlight = p.inFlight)
      (buffer : q.service.inputBuffer = p.service.inputBuffer ++ bytes)
      (timer : q.flushTimer = true) : Moves q e
  | sends {e : InputEvent} (kept : ∀ i ok, e ≠ .completed i ok)
      (filled : p.service.inputBuffer ≠ [])
      (input : q.input = p.input) (sent : q.sent = p.sent)
      (inFlight : q.inFlight = p.inFlight ++ [p.service.inputBuffer])
      (buffer : q.service.inputBuffer = []) : Moves q e
  | completes (i : Nat) (ok : Bool) (batch : Bytes) (under_way : p.inFlight[i]? = some batch)
      (input : q.input = p.input) (sent : q.sent = if ok then p.sent ++ [batch] else p.sent)
      (inFlight : q.inFlight = p.inFlight.eraseIdx i)
      (buffer : q.service.inputBuffer = p.service.inputBuffer)
      (timer : q.flushTimer = p.flushTimer) : Moves q (.completed i ok)

end Step

section Facts

variable {D : Dart} {p q : InputPath} {e : InputEvent}

theorem attach_facts (c : TerminalService) (syncExisting : Bool) :
    (c.attach syncExisting).1.inputBuffer = c.inputBuffer ∧
      (c.attach syncExisting).2.filterMap TerminalEffect.batch = [] := by
  refine ⟨rfl, ?_⟩
  rw [TerminalService.attach]
  dsimp only
  split
  · rw [TerminalService.requestSync]
    split <;> rfl
  · rfl

/-- A completed call leaves the buffer, also when a failed one schedules a recovery. -/
theorem sent_facts {c : TerminalService} {ok : Bool} {r : TerminalService × List TerminalEffect}
    (h : c.step D (.sent ok) = some r) : r.1.inputBuffer = c.inputBuffer := by
  simp only [TerminalService.step] at h
  split at h
  · obtain rfl := Option.some.inj h
    cases ok with
    | true => rfl
    | false =>
        dsimp only [Bool.false_eq_true, if_false]
        rw [if_neg Bool.false_ne_true, TerminalService.scheduleSyncRecovery]
        split <;> rfl
  · cases h

/-- Either sending path. -/
theorem moves_of_flush (he : ∀ i ok, e ≠ .completed i ok) (attached : Bool) :
    Moves p { p.after p.service.flushInput with attached := attached, flushTimer := false } e := by
  obtain ⟨hbuffer, hbatch⟩ := p.service.flushInput_facts
  by_cases hempty : p.service.inputBuffer = []
  · rw [if_pos hempty] at hbatch
    refine .nothing he rfl rfl ?_ (hbuffer.trans hempty.symm) fun h => absurd hempty h
    simp [after, hbatch]
  · rw [if_neg hempty] at hbatch
    refine .sends he hempty rfl rfl ?_ hbuffer
    simp [after, hbatch]

theorem step_moves (h : step D p e = some q) : Moves p q e := by
  cases e with
  | attach syncExisting =>
      obtain rfl := Option.some.inj h
      obtain ⟨hbuffer, hbatch⟩ := attach_facts p.service syncExisting
      refine .nothing (fun _ _ he => by cases he) rfl rfl ?_ hbuffer fun _ => rfl
      simp [after, hbatch]
  | typed bytes =>
      simp only [step] at h
      split at h
      · obtain rfl := Option.some.inj h
        exact .buffers bytes (fun _ _ he => by cases he) rfl rfl (List.append_nil _) rfl rfl
      · cases h
  | injected bytes =>
      obtain rfl := Option.some.inj h
      exact .buffers bytes (fun _ _ he => by cases he) rfl rfl (List.append_nil _) rfl rfl
  | flush =>
      simp only [step] at h
      split at h
      · obtain rfl := Option.some.inj h
        exact moves_of_flush (fun _ _ he => by cases he) p.attached
      · cases h
  | detach =>
      obtain rfl := Option.some.inj h
      rw [TerminalService.detach_eq_flushInput]
      exact moves_of_flush (fun _ _ he => by cases he) false
  | completed i ok =>
      simp only [step, Option.bind_eq_some_iff, Option.map_eq_some_iff] at h
      obtain ⟨batch, hbatch, r, hr, rfl⟩ := h
      exact .completes i ok batch hbatch rfl rfl rfl (sent_facts hr) rfl

theorem armed_step (hp : p.Armed) (h : step D p e = some q) : q.Armed := by
  cases step_moves h with
  | nothing _ _ _ hinFlight hbuffer htimer =>
      constructor
      · rw [hinFlight]
        exact hp.nonempty
      · intro hne
        rw [hbuffer] at hne
        rw [htimer hne]
        exact hp.timer hne
  | buffers bytes _ _ _ hinFlight _ htimer =>
      constructor
      · rw [hinFlight]
        exact hp.nonempty
      · intro _
        exact htimer
  | sends _ hsome _ _ hinFlight hbuffer =>
      constructor
      · intro batch hbatch
        rw [hinFlight, List.mem_append, List.mem_singleton] at hbatch
        rcases hbatch with hbatch | rfl
        · exact hp.nonempty batch hbatch
        · exact hsome
      · intro hne
        exact absurd hbuffer hne
  | completes i ok batch _ _ _ hinFlight hbuffer htimer =>
      constructor
      · intro other hother
        rw [hinFlight] at hother
        exact hp.nonempty other (List.mem_of_mem_eraseIdx hother)
      · intro hne
        rw [hbuffer] at hne
        rw [htimer]
        exact hp.timer hne

/-- The batches around the `i`-th one. -/
theorem flatten_split {l : List Bytes} {i : Nat} {batch : Bytes} (h : l[i]? = some batch) :
    l.flatten = (l.take i).flatten ++ batch ++ (l.drop (i + 1)).flatten ∧
      (l.eraseIdx i).flatten = (l.take i).flatten ++ (l.drop (i + 1)).flatten := by
  obtain ⟨hi, rfl⟩ := List.getElem?_eq_some_iff.1 h
  constructor
  · calc l.flatten = (l.take i ++ l[i] :: l.drop (i + 1)).flatten := by
          rw [List.cons_getElem_drop_succ, List.take_append_drop]
      _ = (l.take i).flatten ++ l[i] ++ (l.drop (i + 1)).flatten := by
          rw [List.flatten_append, List.flatten_cons, List.append_assoc]
  · rw [List.eraseIdx_eq_take_drop_succ, List.flatten_append]

theorem conserved_step (hp : p.Armed) (hconserved : p.Conserved) (h : step D p e = some q) :
    q.Conserved ↔ p.Kept e := by
  unfold Conserved at hconserved
  -- a step other than a completed call is always kept
  have hkept : (∀ i ok, e ≠ .completed i ok) → p.Kept e := by
    intro he
    cases e with
    | completed i ok => exact absurd rfl (he i ok)
    | _ => exact trivial
  cases step_moves h with
  | nothing he hinput hsent hinFlight hbuffer _ =>
      rw [Conserved, hsent, hinFlight, hbuffer, hinput]
      exact ⟨fun _ => hkept he, fun _ => hconserved⟩
  | buffers bytes he hinput hsent hinFlight hbuffer _ =>
      rw [Conserved, hsent, hinFlight, hbuffer, hinput, ← List.append_assoc, hconserved]
      exact ⟨fun _ => hkept he, fun _ => rfl⟩
  | sends he _ hinput hsent hinFlight hbuffer =>
      rw [Conserved, hsent, hinFlight, hbuffer, hinput, ← hconserved]
      exact ⟨fun _ => hkept he, fun _ => by simp⟩
  | completes i ok batch hbatch hinput hsent hinFlight hbuffer _ =>
      obtain ⟨hall, herased⟩ := flatten_split hbatch
      have hone : p.Kept (.completed i ok) ↔ ok = true ∧
          (p.inFlight.take i).flatten ++ batch = batch ++ (p.inFlight.take i).flatten := by
        simp [Kept, hbatch]
      rw [Conserved, hsent, hinFlight, hbuffer, hinput, hone, ← hconserved, hall, herased]
      cases ok with
      | true =>
          -- the batch comes to stand before those in front of it
          simp only [if_true, List.flatten_append, List.flatten_singleton, List.append_assoc,
            List.append_cancel_left_eq, true_and]
          simp only [← List.append_assoc, List.append_cancel_right_eq]
          exact eq_comm
      | false =>
          -- the bytes of the batch are missing
          have hne : batch ≠ [] := hp.nonempty batch (List.mem_of_getElem? hbatch)
          have hpos : 0 < batch.length := List.length_pos_iff.2 hne
          constructor
          · intro heq
            have hlen := congrArg List.length heq
            simp only [Bool.false_eq_true, if_false, List.length_append] at hlen
            omega
          · rintro ⟨hok, -⟩
            cases hok

end Facts

/-- The runs that keep all input and its order are those in which every call of `sendEncrypted` that
completes has succeeded and does not overtake other bytes. -/
theorem input_conserved_iff (D : Dart) (ws : WebSocketService) (es : List InputEvent) :
    Along (stepRel (step D)) Conserved (new ws) es ↔ Guarded (stepRel (step D)) Kept (new ws) es := by
  apply along_iff_guarded (I := Armed)
  · intro p e q hp h
    exact armed_step hp h
  · intro p e q hp hconserved h
    exact conserved_step hp hconserved h
  · constructor
    · intro batch hbatch
      cases hbatch
    · intro hne
      exact absurd rfl hne
  · rfl

instance (p : InputPath) : Decidable p.Conserved :=
  inferInstanceAs
    (Decidable (p.sent.flatten ++ p.inFlight.flatten ++ p.service.inputBuffer = p.input))

/-- A keystroke whose send throws, as it does while no session is established, is neither sent nor
buffered any more. -/
theorem failed_send_drops_keystroke :
    ∃ p, Run (stepRel (step Typing.Sample.dart)) (new { crypto := none, sessionId := none })
        [.attach false, .typed [97], .flush, .completed 0 false] p ∧
      p.input = [97] ∧ p.sent = [] ∧ p.inFlight = [] ∧ p.service.inputBuffer = [] ∧
        ¬ p.Conserved :=
  exists_run_of_exec (by decide +kernel)

/-- In every run, buffered bytes have a flush timer that will send them. -/
theorem buffered_bytes_are_flushed (D : Dart) (ws : WebSocketService) (es : List InputEvent) :
    Along (stepRel (step D)) (fun p => p.service.inputBuffer ≠ [] → p.flushTimer = true) (new ws)
      es := by
  apply along_of_invariant (I := Armed)
  · intro p e q hp h
    exact armed_step hp h
  · intro p hp
    exact hp.timer
  · constructor
    · intro batch hbatch
      cases hbatch
    · intro hne
      exact absurd rfl hne

end InputPath

end Ktty.Client
