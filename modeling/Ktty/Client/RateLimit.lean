import Ktty.Client.Dashboard
import Ktty.Lib.Execution

/-!
# The PIN rate limiter

`Tally` records the times of the failed attempts since the last success or expired lockout; the 30
seconds after the fifth of them are the lockout that is due. A call conforms exactly when the fields of
the limiter lock it out while a lockout is due (`rateLimited_connect`), and they would do so if a failure
set the deadline (`rateLimited_of_deadline`). But no step writes them, neither a failure nor a success
(`step_untouched`), so the runs that conform are those without a call during a lockout
(`rate_limited_iff`).
-/

set_option autoImplicit false

namespace Ktty.Client.Dashboard

open Ktty.Wire Ktty.Lib.Execution

/-- The dashboard of the PWA with the times of the failures that count, oldest first. -/
structure Tally where
  dashboard : Dashboard
  /-- The failures since the last success or expired lockout. -/
  failures : List Nat

/-- The lockout that the failures call for is over. -/
def lockoutExpired (failures : List Nat) (now : Nat) : Bool :=
  failures[maxAttempts - 1]?.any fun fifth => fifth + lockoutDuration < now

/-- The failures that count after an event. -/
def record (failures : List Nat) (now : Nat) : DashboardEvent → List Nat
  | .relay _ (some _) => failures ++ [now]
  | .handshake _ (some _) => failures ++ [now]
  | .handshake _ none => []
  | .elapse _ => if lockoutExpired failures now then [] else failures
  | _ => failures

namespace Tally

def start : Tally := { dashboard := .start, failures := [] }

def step (w : Tally) (e : DashboardEvent) : Option Tally :=
  (w.dashboard.step true e).map fun r =>
    { dashboard := r.1, failures := record w.failures r.1.now e }

variable (w : Tally)

/-- Five attempts have failed, and the 30 seconds after the fifth failure are not over. -/
def LockoutDue : Prop :=
  ∃ fifth, w.failures[maxAttempts - 1]? = some fifth ∧ w.dashboard.now ≤ fifth + lockoutDuration

/-- The call is refused, and the relay is not contacted. -/
def Refused (r : Dashboard × List DashboardEffect) : Prop :=
  r.1.attempts = w.dashboard.attempts ∧ ∀ url, .connect url ∉ r.2

/-- A call whose PIN passes the length check is refused during a lockout, and otherwise not turned away
by the limiter. -/
def RateLimited (e : DashboardEvent) : Prop :=
  ∀ pinText urlText r, e = .connect pinText urlText → 8 ≤ (pinOf pinText).length →
    w.dashboard.step true e = some r →
      (w.LockoutDue → w.Refused r) ∧
        (¬ w.LockoutDue → usesTls (trim urlText) = true → .connect (trim urlText) ∈ r.2)

/-- The condition on a step: no call that passes the other checks is made during a lockout. -/
def OutsideLockout : DashboardEvent → Prop
  | .connect pinText urlText =>
      8 ≤ (pinOf pinText).length → usesTls (trim urlText) = true → ¬ w.LockoutDue
  | _ => True

end Tally

/-! ## A call -/

section Call

variable {s : Dashboard} {pinText urlText : Text}

theorem step_connect {kIsWeb : Bool} (hmounted : s.mounted = true) :
    s.step kIsWeb (.connect pinText urlText) = some (s.connect kIsWeb pinText urlText) := by
  rw [step, if_pos hmounted]

/-- The limiter decides about a PIN that is long enough. -/
theorem connect_of_length (hpin : 8 ≤ (pinOf pinText).length) :
    s.connect true pinText urlText =
      if s.isLockedOut.1 then (s.isLockedOut.2, [.snackBar s.isLockedOut.2.tooManyAttempts 3])
      else s.isLockedOut.2.connectTo (trim urlText) (pinOf pinText) := by
  have hne : (pinOf pinText).isEmpty = false := by
    cases hp : pinOf pinText with
    | nil => simp [hp] at hpin
    | cons c cs => rfl
  rw [connect, hne, if_neg Bool.false_ne_true, if_neg (Nat.not_lt.2 hpin), if_pos rfl]

theorem connectTo_tls {url pin : Text} (h : usesTls url = true) :
    s.connectTo url pin = s.begin url pin := by
  have hne : url.isEmpty = false := by
    cases url with
    | nil => cases h
    | cons c cs => rfl
  rw [connectTo, hne, if_neg Bool.false_ne_true, h, if_neg (by simp)]

/-- A URL without TLS is refused whatever the limiter says. -/
theorem connectTo_cleartext (s : Dashboard) {url : Text} (pin : Text) (h : usesTls url = false) :
    (s.connectTo url pin).1 = s ∧ ∀ url', .connect url' ∉ (s.connectTo url pin).2 := by
  rw [connectTo, h]
  split
  · simp
  · simp

end Call

/-! ## A step -/

/-- The fields of the limiter have their initial values. -/
def Untouched (s : Dashboard) : Prop := s.pinAttempts = 0 ∧ s.lockoutUntil = none

section Step

variable {s : Dashboard} {w : Tally} {e : DashboardEvent}

theorem isLockedOut_untouched (hs : Untouched s) : s.isLockedOut = (false, s) := by
  rw [isLockedOut, hs.2]

theorem connectTo_untouched (hs : Untouched s) (url pin : Text) :
    Untouched (s.connectTo url pin).1 := by
  rw [connectTo]
  split
  · exact hs
  · split
    · exact hs
    · exact hs

theorem connect_untouched (hs : Untouched s) (kIsWeb : Bool) (pinText urlText : Text) :
    Untouched (s.connect kIsWeb pinText urlText).1 := by
  rw [connect]
  split
  · exact hs
  · split
    · exact hs
    · rw [isLockedOut_untouched hs]
      split
      · exact connectTo_untouched hs _ _
      · exact connectTo_untouched hs _ _

theorem fail_untouched (hs : Untouched s) (i : Nat) (a : Attempt) (error : Text) :
    Untouched (s.fail i a error).1 := by
  rw [fail]
  dsimp only
  split
  · exact hs
  · exact hs

/-- No step writes the fields of the limiter. -/
theorem step_untouched {kIsWeb : Bool} {r : Dashboard × List DashboardEffect} (hs : Untouched s)
    (h : s.step kIsWeb e = some r) : Untouched r.1 := by
  cases e with
  | connect pinText urlText =>
      rw [step] at h
      split at h
      · obtain rfl := Option.some.inj h
        exact connect_untouched hs kIsWeb pinText urlText
      · cases h
  | relay i error =>
      obtain ⟨a, -, rfl⟩ := Option.map_eq_some_iff.1 h
      cases error with
      | none => exact hs
      | some error => exact fail_untouched hs i a error
  | handshake i error =>
      obtain ⟨a, -, rfl⟩ := Option.map_eq_some_iff.1 h
      cases error with
      | none =>
          dsimp only [succeed]
          split
          · exact hs
          · exact hs
      | some error => exact fail_untouched hs i a error
  | cooled i =>
      obtain ⟨a, -, rfl⟩ := Option.map_eq_some_iff.1 h
      dsimp only [cooled]
      split
      · exact hs
      · exact hs
  | connectionChanged connected =>
      obtain rfl := Option.some.inj h
      exact hs
  | disposed =>
      obtain rfl := Option.some.inj h
      exact hs
  | shown =>
      rw [step] at h
      split at h
      · cases h
      · -- a new `State` object has the initial values
        obtain rfl := Option.some.inj h
        exact ⟨rfl, rfl⟩
  | elapse d =>
      obtain rfl := Option.some.inj h
      exact hs

/-- A call with a PIN that is long enough and a TLS URL contacts the relay unless it is locked out. -/
theorem contacted_iff {pinText urlText : Text} (hpin : 8 ≤ (pinOf pinText).length)
    (htls : usesTls (trim urlText) = true) :
    .connect (trim urlText) ∈ (s.connect true pinText urlText).2 ↔ s.isLockedOut.1 = false := by
  rw [connect_of_length hpin, connectTo_tls htls]
  cases s.isLockedOut.1 with
  | true => simp
  | false => simp [begin]

/-- It is refused if it is locked out or its URL is cleartext. -/
theorem refused_iff {pinText urlText : Text} (hpin : 8 ≤ (pinOf pinText).length) :
    w.Refused (w.dashboard.connect true pinText urlText) ↔
      (usesTls (trim urlText) = true → w.dashboard.isLockedOut.1 = true) := by
  constructor
  · intro hrefused htls
    rw [← Bool.not_eq_false]
    intro hopen
    exact hrefused.2 _ ((contacted_iff hpin htls).2 hopen)
  · intro h
    rw [connect_of_length hpin]
    cases hlocked : w.dashboard.isLockedOut.1 with
    | true => exact ⟨isLockedOut_attempts _, by simp⟩
    | false =>
        have htls : usesTls (trim urlText) = false := by
          rw [← Bool.not_eq_true]
          intro htls
          rw [h htls] at hlocked
          cases hlocked
        obtain ⟨hsame, hmem⟩ :=
          connectTo_cleartext w.dashboard.isLockedOut.2 (pinOf pinText) htls
        refine ⟨?_, hmem⟩
        rw [if_neg Bool.false_ne_true, hsame, isLockedOut_attempts]

/-- A call conforms exactly when the fields of the limiter lock it out while a lockout is due. -/
theorem rateLimited_connect {pinText urlText : Text} (hmounted : w.dashboard.mounted = true) :
    w.RateLimited (.connect pinText urlText) ↔
      (8 ≤ (pinOf pinText).length → usesTls (trim urlText) = true →
        (w.dashboard.isLockedOut.1 = true ↔ w.LockoutDue)) := by
  have hstep : w.dashboard.step true (.connect pinText urlText) = _ := step_connect hmounted
  constructor
  · intro h hpin htls
    obtain ⟨hdue, hfree⟩ := h _ _ _ rfl hpin hstep
    rw [refused_iff hpin] at hdue
    rw [contacted_iff hpin htls] at hfree
    constructor
    · intro hlocked
      by_contra hnot
      rw [hfree hnot htls] at hlocked
      cases hlocked
    · intro hlock
      exact hdue hlock htls
  · intro h pinText' urlText' r he hpin hr
    cases he
    rw [hstep] at hr
    obtain rfl := Option.some.inj hr
    rw [refused_iff hpin]
    constructor
    · intro hdue htls
      exact (h hpin htls).2 hdue
    · intro hnot htls
      rw [contacted_iff hpin htls, ← Bool.not_eq_true, h hpin htls]
      exact hnot

/-- The fields lock a call out up to the moment that they name. -/
theorem isLockedOut_iff : s.isLockedOut.1 = true ↔
    ∃ lockoutUntil, s.lockoutUntil = some lockoutUntil ∧ s.now ≤ lockoutUntil := by
  rw [isLockedOut]
  cases s.lockoutUntil with
  | none => simp
  | some lockoutUntil =>
      dsimp only
      split
      · rename_i hover
        simp [hover]
      · rename_i hnot
        simpa using Nat.not_lt.1 hnot

/-- If a failure would set the deadline, the calls would conform: the reading side is right. -/
theorem rateLimited_of_deadline (hmounted : w.dashboard.mounted = true)
    (hdeadline : w.dashboard.lockoutUntil = w.failures[maxAttempts - 1]?.map (· + lockoutDuration))
    (pinText urlText : Text) : w.RateLimited (.connect pinText urlText) := by
  rw [rateLimited_connect hmounted, isLockedOut_iff, hdeadline, Tally.LockoutDue]
  intro _ _
  simp [Option.map_eq_some_iff]

/-- With the fields untouched, a call conforms exactly when no lockout is due. -/
theorem rateLimited_iff {m : Tally} (hs : Untouched w.dashboard) (h : w.step e = some m) :
    w.RateLimited e ↔ w.OutsideLockout e := by
  cases e with
  | connect pinText urlText =>
      obtain ⟨r, hr, -⟩ := Option.map_eq_some_iff.1 h
      have hmounted : w.dashboard.mounted = true := by
        rw [step] at hr
        split at hr
        · assumption
        · cases hr
      rw [rateLimited_connect hmounted, isLockedOut_untouched hs, Tally.OutsideLockout]
      simp
  | _ =>
      refine iff_of_true ?_ trivial
      intro pinText urlText r he
      cases he

end Step

/-! ## Runs -/

theorem untouched_step {w m : Tally} {e : DashboardEvent} (hs : Untouched w.dashboard)
    (h : w.step e = some m) : Untouched m.dashboard := by
  obtain ⟨r, hr, rfl⟩ := Option.map_eq_some_iff.1 h
  exact step_untouched hs hr

/-- The runs in which every call conforms are those in which no call is made during a lockout. -/
theorem rate_limited_iff (es : List DashboardEvent) :
    Guarded (stepRel Tally.step) Tally.RateLimited .start es ↔
      Guarded (stepRel Tally.step) Tally.OutsideLockout .start es := by
  apply guarded_iff_guarded (I := fun w => Untouched w.dashboard)
  · intro w e m hs h
    exact untouched_step hs h
  · intro w e m hs h
    exact rateLimited_iff hs h
  · exact ⟨rfl, rfl⟩

/-! ## Six calls -/

/-- The URL that the PWA uses. -/
def relayUrl : Text := "wss://ktty-relay.fly.dev/ws".toList

def wrongPin : Text := "12345678".toList

/-- The `i`-th attempt: nobody is in the room of this PIN, and the button is disabled for five more
seconds. -/
def failedAttempt (i : Nat) : List DashboardEvent :=
  [.connect wrongPin relayUrl, .relay i none, .elapse 15000000,
    .handshake i (some "Exception: No agent found.".toList), .elapse 5000000, .cooled i]

def fiveFailures : List DashboardEvent := (List.range maxAttempts).flatMap failedAttempt

instance (w : Tally) : Decidable w.LockoutDue :=
  decidable_of_iff (w.failures[maxAttempts - 1]?.any fun fifth =>
      w.dashboard.now ≤ fifth + lockoutDuration) (by
    simp [Tally.LockoutDue, Option.any_eq_true])

/-- Five seconds after the fifth failure, the sixth call contacts the relay. -/
theorem sixth_call_contacts_relay :
    ¬ Guarded (stepRel Tally.step) Tally.RateLimited .start
      (fiveFailures ++ [.connect wrongPin relayUrl]) := by
  intro h
  obtain ⟨w, hrun, hdue, hmounted, hcall⟩ :
      ∃ w, Run (stepRel Tally.step) .start fiveFailures w ∧ w.LockoutDue ∧
        w.dashboard.mounted = true ∧
        .connect relayUrl ∈ (w.dashboard.connect true wrongPin relayUrl).2 :=
    exists_run_of_exec (by decide +kernel)
  have hr : w.dashboard.step true (.connect wrongPin relayUrl) = _ := step_connect hmounted
  have hstep : stepRel Tally.step w (.connect wrongPin relayUrl) _ :=
    Option.map_eq_some_iff.2 ⟨_, hr, rfl⟩
  have hlimited : w.RateLimited (.connect wrongPin relayUrl) := h.step hrun hstep
  have hpin : 8 ≤ (pinOf wrongPin).length := by decide
  exact ((hlimited _ _ _ rfl hpin hr).1 hdue).2 relayUrl hcall

end Ktty.Client.Dashboard
