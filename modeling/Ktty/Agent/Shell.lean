import Ktty.Agent.SessionSteps
import Ktty.Agent.SampleCrates
import Ktty.Lib.Execution

/-!
# The shell across relay failures

The main loop of the agent with the shell it looks after. `Host` is a session with the state of the
shell and a log of the results that `run` returned and of the shells that `main` started anew, each with
whether the shell was alive at that moment. The contract of `run` is that a live shell comes back as
`Ok(Some(pty))` and an exited one as `Ok(None)`, and of `main` that it starts a new shell only when the
old one has exited (`Host.Kept`).

The code keeps the contract in exactly those runs that never take a `?` out of `run` and never hand the
PTY back once the shell has exited (`kept_iff`).
-/

set_option autoImplicit false

namespace Ktty.Agent

open Ktty.Lib.Execution

/-- What happened to the shell, with whether it was alive. -/
inductive Outcome where
  | returned (r : RunResult) (alive : Bool)
  | respawned (alive : Bool)
  deriving DecidableEq

/-- The main loop around one session. -/
structure Host where
  session : RunState
  shellAlive : Bool
  log : List Outcome

inductive HostEvent where
  /-- The session takes a step. -/
  | run (e : Event)
  /-- The shell process exits. -/
  | shellExit
  /-- The next round of the loop in `main`. -/
  | again

/-- The match of `main` on the result: whether it keeps the PTY handle. -/
def keepsHandle : RunResult → Bool
  | .ptyHandedBack => true
  | .shellExited => false
  | .err => false

/-- A PTY event that the reader thread can produce: chunks fit its buffer, and it ends only after the
shell has exited. -/
def Event.possible (shellAlive : Bool) : Event → Bool
  | .pty none => !shellAlive
  | e => e.fitsBuffer

namespace Host

def start : Host := { session := Session.start, shellAlive := true, log := [] }

/-- The log entry of a session that has just returned. -/
def entry (p : Phase) (alive : Bool) : List Outcome :=
  match p.result with
  | some r => [.returned r alive]
  | none => []

/-- One step of the host. -/
def step (S : Session) (h : Host) : HostEvent → Option Host
  | .run e =>
      if e.possible h.shellAlive then
        (S.step h.session e).map fun r =>
          { h with session := r.1, log := entry r.1.phase h.shellAlive ++ h.log }
      else none
  | .shellExit => if h.shellAlive then some { h with shellAlive := false } else none
  | .again =>
      match h.session.phase.result with
      | some r =>
          if keepsHandle r then some { h with session := Session.start }
          else
            some { session := Session.start, shellAlive := true,
                   log := .respawned h.shellAlive :: h.log }
      | none => none

end Host

/-- The contract on one entry of the log. -/
def Outcome.Sound : Outcome → Prop
  | .returned r alive => r = if alive then .ptyHandedBack else .shellExited
  | .respawned alive => alive = false

instance (o : Outcome) : Decidable o.Sound := by
  cases o <;> unfold Outcome.Sound <;> infer_instance

/-- No live shell was lost and no exited one was handed back. -/
def Host.Kept (h : Host) : Prop := ∀ o ∈ h.log, o.Sound

/-- The condition on a step: it takes no `?` out of `run`, and it gives the relay connection up only
while the shell is alive. -/
def Host.Careful (h : Host) : HostEvent → Prop
  | .run e =>
      failsWithErr h.session e = false ∧ (handsBack h.session e = true → h.shellAlive = true)
  | .shellExit => True
  | .again => True

/-- The result of a session that has returned stands in the log; it was an exited shell only if the
shell is still gone. -/
def Host.Logged (h : Host) : Prop :=
  ∀ r, h.session.phase.result = some r →
    ∃ alive, .returned r alive ∈ h.log ∧ (alive = false → h.shellAlive = false)

theorem possible_fitsBuffer {alive : Bool} {e : Event} (h : e.possible alive = true) :
    e.fitsBuffer = true := by
  cases e with
  | pty result =>
      cases result with
      | none => rfl
      | some data => exact h
  | _ => rfl

/-- The shell is gone when the bridge loop sees the end of the reader. -/
theorem not_alive_of_seesExit {st : RunState} {e : Event} {alive : Bool}
    (h : e.possible alive = true) (hexit : seesExit st e = true) : alive = false := by
  unfold seesExit at hexit
  split at hexit
  · simpa [Event.possible] using h
  · cases hexit

theorem entry_sound_iff {p : Phase} {alive : Bool} :
    (∀ o ∈ Host.entry p alive, o.Sound) ↔
      ∀ r, p.result = some r → r = if alive then .ptyHandedBack else .shellExited := by
  rw [Host.entry]
  cases p.result with
  | none => simp
  | some r => simp [Outcome.Sound]

theorem failsWithErr_of_handsBack {st : RunState} {e : Event} (h : handsBack st e = true) :
    failsWithErr st e = false := by
  unfold handsBack at h
  split at h <;> simp_all [failsWithErr]

/-- An event ends the run as the contract says exactly when it is careful. -/
theorem resultOn_sound_iff {st : RunState} {e : Event} {alive : Bool}
    (hpos : e.possible alive = true) :
    (∀ r, resultOn st e = some r → r = if alive then .ptyHandedBack else .shellExited) ↔
      failsWithErr st e = false ∧ (handsBack st e = true → alive = true) := by
  rw [resultOn]
  cases hback : handsBack st e with
  | true =>
      -- handing back is right for a live shell only
      cases alive <;> simp [failsWithErr_of_handsBack hback]
  | false =>
      cases herr : failsWithErr st e with
      | true =>
          -- an `Err` is never what the contract says
          cases alive <;> simp
      | false =>
          cases hexit : seesExit st e with
          | true => simp [not_alive_of_seesExit hpos hexit]
          | false => simp

namespace Host

/-- A step of the session adds the result it ends with to the log. -/
theorem step_run {S : Session} {h m : Host} {e : Event} (hm : step S h (.run e) = some m) :
    e.possible h.shellAlive = true ∧ m.shellAlive = h.shellAlive ∧
      m.session.phase.result = resultOn h.session e ∧
      m.log = entry m.session.phase h.shellAlive ++ h.log := by
  rw [step] at hm
  split at hm
  · rename_i hpos
    simp only [Option.map_eq_some_iff] at hm
    obtain ⟨r, hr, rfl⟩ := hm
    exact ⟨hpos, rfl, step_result (possible_fitsBuffer hpos) hr, rfl⟩
  · cases hm

theorem step_shellExit {S : Session} {h m : Host} (hm : step S h .shellExit = some m) :
    m = { h with shellAlive := false } := by
  rw [step] at hm
  split at hm
  · exact (Option.some.inj hm).symm
  · cases hm

/-- The next round either keeps the handle or starts a shell. -/
theorem step_again {S : Session} {h m : Host} (hm : step S h .again = some m) :
    ∃ r, h.session.phase.result = some r ∧ m.session = Session.start ∧
      ((r = .ptyHandedBack ∧ m.shellAlive = h.shellAlive ∧ m.log = h.log) ∨
        (r ≠ .ptyHandedBack ∧ m.log = .respawned h.shellAlive :: h.log)) := by
  rw [step] at hm
  split at hm
  · rename_i r hr
    refine ⟨r, hr, ?_⟩
    cases r with
    | ptyHandedBack =>
        obtain rfl := Option.some.inj hm
        exact ⟨rfl, Or.inl ⟨rfl, rfl, rfl⟩⟩
    | shellExited =>
        obtain rfl := Option.some.inj hm
        exact ⟨rfl, Or.inr ⟨by decide, rfl⟩⟩
    | err =>
        obtain rfl := Option.some.inj hm
        exact ⟨rfl, Or.inr ⟨by decide, rfl⟩⟩
  · cases hm

/-- Every step keeps the log complete. -/
theorem logged_step {S : Session} {h m : Host} {e : HostEvent} (hlog : h.Logged)
    (hm : step S h e = some m) : m.Logged := by
  cases e with
  | run e =>
      obtain ⟨-, halive, -, heq⟩ := step_run hm
      intro r hr
      refine ⟨h.shellAlive, ?_, fun hdead => halive.trans hdead⟩
      -- the step has just logged the result:
      rw [heq, entry, hr]
      simp
  | shellExit =>
      obtain rfl := step_shellExit hm
      intro r hr
      obtain ⟨alive, hmem, -⟩ := hlog r hr
      -- the entry stays; only the shell has gone since:
      exact ⟨alive, hmem, fun _ => rfl⟩
  | again =>
      obtain ⟨r, -, hstart, -⟩ := step_again hm
      intro r' hr'
      rw [hstart] at hr'
      cases hr'

/-- One step keeps the contract exactly when it is careful. -/
theorem kept_step {S : Session} {h m : Host} {e : HostEvent} (hlog : h.Logged) (hk : h.Kept)
    (hm : step S h e = some m) : m.Kept ↔ h.Careful e := by
  cases e with
  | run e =>
      obtain ⟨hpos, -, hres, heq⟩ := step_run hm
      -- the older entries are sound, so all depends on the new one:
      have hsplit : m.Kept ↔ ∀ o ∈ entry m.session.phase h.shellAlive, o.Sound := by
        rw [Kept, heq]
        constructor
        · intro hall o ho
          exact hall o (List.mem_append_left _ ho)
        · intro hnew o ho
          rcases List.mem_append.1 ho with ho | ho
          · exact hnew o ho
          · exact hk o ho
      rw [hsplit, entry_sound_iff, hres]
      exact resultOn_sound_iff hpos
  | shellExit =>
      obtain rfl := step_shellExit hm
      exact ⟨fun _ => trivial, fun _ => hk⟩
  | again =>
      refine ⟨fun _ => trivial, fun _ => ?_⟩
      obtain ⟨r, hr, -, hcase⟩ := step_again hm
      rcases hcase with ⟨-, -, heq⟩ | ⟨hne, heq⟩
      · -- the handle is kept and nothing is logged
        rw [Kept, heq]
        exact hk
      · -- the result that made `main` start a shell was logged as an exited shell
        obtain ⟨alive, hmem, hdead⟩ := hlog r hr
        have hsound : r = if alive then .ptyHandedBack else .shellExited := hk _ hmem
        have hgone : h.shellAlive = false := by
          apply hdead
          cases alive with
          | false => rfl
          | true => exact absurd hsound hne
        rw [Kept, heq]
        intro o ho
        rcases List.mem_cons.1 ho with rfl | ho
        · exact hgone
        · exact hk o ho

theorem start_logged : start.Logged := by
  intro r hr
  cases hr

/-- The runs that keep the contract are those whose every step is careful. -/
theorem kept_iff (S : Session) (es : List HostEvent) :
    Along (stepRel (step S)) Kept start es ↔ Guarded (stepRel (step S)) Careful start es := by
  apply along_iff_guarded (I := Logged)
  · intro h e m hlog hm
    exact logged_step hlog hm
  · intro h e m hlog hk hm
    exact kept_step hlog hk hm
  · exact start_logged
  · intro o ho
    cases ho

/-- The relay refuses the first connection: `run` returns `Err` with the live shell, and `main` starts
another one. -/
theorem connection_refused_loses_shell :
    ∃ h, Run (stepRel (step (Sample.session []))) start [.run (.connected false), .again] h ∧
      h.log = [.respawned true, .returned .err true] ∧ ¬ h.Kept := by
  refine ⟨_, run_of_exec rfl, rfl, ?_⟩
  intro hk
  have hsound := hk (.respawned true) (List.mem_cons_self ..)
  cases hsound

end Host

end Ktty.Agent
