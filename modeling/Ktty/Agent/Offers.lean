import Ktty.Agent.SessionSteps
import Ktty.Agent.SampleCrates
import Ktty.Lib.Execution

/-!
# Joins and offers

A client that joins waits for an ML-KEM offer. `Traced` is a session with the history of the join
notifications it has consumed and the offers it has sent. `Answered` says that the session stands in
the receive loop of the handshake only when the latest of them is an offer.

The init, wait and bridge loops lead from a join to a new offer. The receive loop of the handshake has
no branch for a join, and `answered_iff` shows that this is the only place where one gets lost.
-/

set_option autoImplicit false

namespace Ktty.Agent

open Ktty.Wire Ktty.Lib.Execution

inductive Mark where
  /-- A join notification was consumed. -/
  | joined
  /-- An offer was sent. -/
  | offered
  deriving DecidableEq

/-- A session with its history, latest mark first. -/
structure Traced where
  run : RunState
  history : List Mark

/-- The event consumes a join notification. -/
def Event.isJoin : Event → Bool
  | .ws (.text t) => isJoinText t
  | _ => false

/-- The marks of one step: the event is consumed before the effects happen. -/
def marks (e : Event) (effs : List Effect) : List Mark :=
  (effs.filter Effect.isOffer).map (fun _ => .offered) ++ if e.isJoin then [.joined] else []

/-- The text neither makes the log line panic nor carries a ciphertext: `perform_handshake` drops it
and keeps waiting. -/
def keepsWaiting (L : Crates) (t : Text) : Bool := previewOk 80 t && !carriesCiphertext L t

namespace Traced

def start : Traced := { run := Session.start, history := [] }

def step (S : Session) (t : Traced) (e : Event) : Option Traced :=
  (S.step t.run e).map fun r => { run := r.1, history := marks e r.2 ++ t.history }

/-- In the receive loop of the handshake, an offer was sent after the last join that was consumed. -/
def Answered (t : Traced) : Prop :=
  t.run.phase.inHandshake = true → t.history.head? = some .offered

/-- The condition on a step: the receive loop of the handshake does not drop a join notification. -/
def DropsNoJoin (S : Session) (t : Traced) (e : Event) : Prop :=
  ∀ text, t.run.phase.inHandshake = true → e = .ws (.text text) → isJoinText text = true →
    keepsWaiting S.crates text = false

theorem marks_of_noOffer {e : Event} {effs : List Effect} (h : ∀ eff ∈ effs, eff.isOffer = false) :
    marks e effs = if e.isJoin then [.joined] else [] := by
  have hnil : effs.filter Effect.isOffer = [] := by
    rw [List.filter_eq_nil_iff]
    intro eff heff
    simp [h eff heff]
  rw [marks, hnil]
  rfl

/-- A step into the receive loop of the handshake that starts there: the loop keeps waiting, and the
history grows by the join that it drops, if the item was one. -/
theorem answered_waiting {S : Session} {t : Traced} {dk : Bytes} {item : WsItem}
    (hp : t.run.phase = .handshake dk) (ha : t.Answered)
    (hr : (handshakeRecv S t.run dk item).1.phase.inHandshake = true) :
    (marks (.ws item) (handshakeRecv S t.run dk item).2 ++ t.history).head? = some .offered ↔
      DropsNoJoin S t (.ws item) := by
  have hin : t.run.phase.inHandshake = true := by rw [hp]; rfl
  rw [marks_of_noOffer (handshakeRecv_noOffer dk item)]
  cases hjoin : (Event.ws item).isJoin with
  | false =>
      -- the history does not grow
      refine ⟨fun _ text _ he htext => ?_, fun _ => ha hin⟩
      cases he
      rw [Event.isJoin, htext] at hjoin
      cases hjoin
  | true =>
      cases item with
      | text text =>
          rw [handshakeRecv_text hp] at hr
          constructor
          · intro hhead
            cases hhead
          · intro hdrop
            -- a text that keeps the loop waiting and is a join is what the condition excludes:
            have hfalse := hdrop text hin rfl hjoin
            rw [keepsWaiting, hr] at hfalse
            cases hfalse
      | _ => cases hjoin

/-- One step keeps the session answered exactly when it drops no join. -/
theorem answered_step {S : Session} {t m : Traced} {e : Event} (ha : t.Answered)
    (hm : step S t e = some m) : m.Answered ↔ DropsNoJoin S t e := by
  simp only [step, Option.map_eq_some_iff] at hm
  obtain ⟨r, hr, rfl⟩ := hm
  cases hin : r.1.phase.inHandshake with
  | true =>
      rcases step_inHandshake hr hin with ⟨pk, auth, hoffer, heff⟩ | ⟨hold, he, heff⟩ |
        ⟨dk, item, hp, he, hrecv⟩
      · -- the offer has just been sent
        have hstart : t.run.phase.inHandshake = false := by rw [hoffer]; rfl
        refine ⟨fun _ text h _ _ => ?_, fun _ _ => ?_⟩
        · rw [hstart] at h
          cases h
        · rw [heff]
          rfl
      · -- the writer task has ended meanwhile
        subst he
        refine ⟨fun _ text _ he _ => (by cases he), fun _ _ => ?_⟩
        rw [heff]
        exact ha hold
      · -- the loop has received an item and goes on waiting
        subst he hrecv
        rw [← answered_waiting hp ha hin]
        exact ⟨fun h => h hin, fun h _ => h⟩
  | false =>
      refine ⟨fun _ text hold he hjoin => ?_, fun _ h => ?_⟩
      · -- a text that makes the loop stop waiting
        subst he
        cases hp : t.run.phase with
        | handshake dk =>
            rw [step_eq_react (by simp), hp] at hr
            obtain rfl := Option.some.inj hr
            rw [handshakeRecv_text hp] at hin
            exact hin
        | _ => simp [hp, Phase.inHandshake] at hold
      · rw [hin] at h
        cases h

/-- The runs in which every join is answered are those in which the receive loop of the handshake
drops no join. -/
theorem answered_iff (S : Session) (es : List Event) :
    Along (stepRel (step S)) Answered start es ↔
      Guarded (stepRel (step S)) (DropsNoJoin S) start es := by
  apply along_iff_guarded (I := fun _ => True)
  · intro t e m _ _
    trivial
  · intro t e m _ ha hm
    exact answered_step ha hm
  · trivial
  · intro h
    cases h

/-- A second client joins while the agent waits for the ciphertext of the first. -/
theorem second_join_unanswered :
    let join := Json.ofFields [("action", .str "join".toList), ("room_id", .str "r".toList)]
    ∃ t, Run (stepRel (step (Sample.session [join]))) start
        [.connected true, .proceed, .ws (.text join.encode), .proceed, .proceed,
          .ws (.text join.encode)] t ∧
      ¬ t.Answered := by
  refine ⟨_, run_of_exec rfl, ?_⟩
  intro ha
  have hhead := ha rfl
  cases hhead

end Traced

end Ktty.Agent
