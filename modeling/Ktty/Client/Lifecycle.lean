import Ktty.Client.CurrentChannel
import Ktty.Client.Dashboard
import Ktty.Client.Reconnecting
import Ktty.Lib.Execution

/-!
# The life cycle of the app

`KttyApp` with the dashboard, the disconnect button of the terminal screen and the WebSocket service. An
attempt of the dashboard awaits a task of the service (`calls`); what the dashboard does to the service
is done in the same step. The system reports that the app goes to the background or comes back
(`didChangeAppLifecycleState`), and the service reports that a connection was lost or regained.

In the foreground a service with a URL keeps auto-reconnect on, or an attempt of the dashboard will see to
it, in exactly the runs in which each return of the app finds one of three things (`ComesBackLost`,
`stays_persistent_iff`): auto-reconnect on, such an attempt, or an established session that has lost its
channel and whose PIN is known. A return that finds none of them, as one to an open channel, does not undo
`suppressReconnect` (`resumed_on_live_socket`). In those runs an app with a URL and a PIN is never stuck
without a connection, if each handshake of the dashboard begins on an open channel: a channel is open, the
reconnect timer is armed, or a call is under way that opens a channel or ends in an exception, which is
handled (`recovers_of_orderly`). In the background no timer is armed, and none would be, exactly in the
runs in which no channel opens there (`background_quiet_iff`).
-/

set_option autoImplicit false

namespace Ktty.Client

open Ktty.Wire Ktty.Lib.Execution

inductive AppLifecycleState where
  | resumed
  | inactive
  | hidden
  | paused
  | detached
  deriving DecidableEq

structure App where
  dashboard : Dashboard
  service : Connection
  /-- The task that each attempt of the dashboard awaits, or last awaited. -/
  calls : List Nat
  background : Bool

inductive AppEvent where
  /-- The service takes a step of its own, or the terminal sends. -/
  | service (e : ServiceEvent)
  /-- The dashboard takes a step; what an attempt awaited has ended as its task says. -/
  | dashboard (e : DashboardEvent)
  | didChangeAppLifecycleState (state : AppLifecycleState)
  /-- `_disconnect` of the terminal screen. -/
  | disconnect
  deriving DecidableEq

namespace App

def start : App :=
  { dashboard := .start, service := .new, calls := [], background := false }

variable (D : Dart) (kIsWeb : Bool) (a : App)

/-- A call of a method of the service. -/
def call (e : ServiceEvent) : App := { a with service := (a.service.step D e).getD a.service }

/-- What the dashboard does to the service on behalf of its `i`-th attempt. -/
def act (i : Nat) : DashboardEffect → App
  | .connect url =>
      { a.call D (.connect url) with calls := a.calls ++ [a.service.tasks.length] }
  | .performHandshake pin =>
      { a.call D (.performHandshake pin) with calls := a.calls.set i a.service.tasks.length }
  | .disconnect => a.call D .disconnect
  | _ => a

/-- The dashboard takes a step on behalf of its `i`-th attempt. -/
def runDashboard (i : Nat) (e : DashboardEvent) : Option App :=
  (a.dashboard.step kIsWeb e).map fun (dashboard, effects) =>
    effects.foldl (fun a effect => a.act D i effect) { a with dashboard := dashboard }

/-- What the `i`-th attempt awaits has ended at this stage. -/
def ends (i : Nat) (stage : Stage) : Bool := (a.calls[i]?).bind a.service.stage == some stage

/-- The steps of the dashboard. -/
def dashboardStep : DashboardEvent → Option App
  | .relay i none => if a.ends i .connected then a.runDashboard D kIsWeb i (.relay i none) else none
  | .relay i (some e) =>
      if a.ends i .thrown then a.runDashboard D kIsWeb i (.relay i (some e)) else none
  | .handshake i none =>
      if a.ends i .established then a.runDashboard D kIsWeb i (.handshake i none) else none
  | .handshake i (some e) =>
      if a.ends i .thrown then a.runDashboard D kIsWeb i (.handshake i (some e)) else none
  -- reported by the service
  | .connectionChanged _ => none
  | e => a.runDashboard D kIsWeb 0 e

/-- What a step of the service reports: `onConnectionChanged(false)`, or `onConnectionChanged(true)`
with `onReconnected`. -/
def reports : ServiceEvent → Option Bool
  | .done _ => some false
  | .error _ => if a.service.closed then none else some false
  | .proceed i => if a.service.tasks[i]? = some ⟨.timer, .established⟩ then some true else none
  | _ => none

/-- `SessionState.setStatus`. -/
def setStatus (status : ConnectionStatus) : App :=
  { a with dashboard := { a.dashboard with status := status } }

/-- The callbacks of the service; `onConnectionChanged` is set by the first attempt. -/
def notify : Option Bool → App
  | some true => a.setStatus .connected
  | some false => if a.dashboard.attempts = [] then a else a.setStatus .syncing
  | none => a

/-- The session is, or was, established. -/
def isEstablished : Bool := a.dashboard.status == .connected || a.dashboard.status == .syncing

/-- `didChangeAppLifecycleState`. -/
def didChangeAppLifecycleState : AppLifecycleState → App
  | .paused | .hidden => { a.call D .suppressReconnect with background := true }
  | .resumed =>
      let a := { a with background := false }
      if a.isEstablished && a.service.channel.isNone then
        (a.setStatus .syncing).call D .attemptReconnect
      -- auto-reconnect stays as `suppressReconnect` has left it:
      else a
  | .inactive | .detached => a

/-- One step; `none` for an event that cannot happen. -/
def step : AppEvent → Option App
  | .service e =>
      if Connection.isInternal e then
        (a.service.step D e).map fun c => { a with service := c }.notify (a.reports e)
      else none
  | .dashboard e => a.dashboardStep D kIsWeb e
  | .didChangeAppLifecycleState state => some (a.didChangeAppLifecycleState D state)
  | .disconnect => some ((a.call D .disconnect).setStatus .disconnected)

/-! ## What the steps of the dashboard do -/

/-- What a step of the dashboard does to its attempts and to the service. -/
inductive Change (D : Dart) (a : App) : DashboardEvent → App → Prop
  | idle {e : DashboardEvent} {d : Dashboard} :
      d.attempts = a.dashboard.attempts → Change D a e { a with dashboard := d }
  | begins {e : DashboardEvent} {d : Dashboard} {url : Text} (att : Attempt) :
      d.attempts = a.dashboard.attempts ++ [att] → att.stage = .connecting →
      Change D a e
        { a with
          dashboard := d
          service := (a.service.connect url).spawn .outside .connecting
          calls := a.calls ++ [a.service.tasks.length] }
  | joins {i : Nat} {d : Dashboard} {att : Attempt} {pin : Text} (att' : Attempt) :
      a.ends i .connected = true → a.dashboard.attempts[i]? = some att →
      d.attempts = a.dashboard.attempts.set i att' → att'.stage = .handshaking →
      Change D a (.relay i none)
        { a with
          dashboard := d
          service := { a.service with lastPin := some pin }.spawn .outside (.derivingKey pin)
          calls := a.calls.set i a.service.tasks.length }
  | ends {i : Nat} {e : DashboardEvent} {d : Dashboard} {att : Attempt} (att' : Attempt) :
      a.dashboard.attempts[i]? = some att → att.stage = .cooling ∨ a.ends i .established = true →
      d.attempts = a.dashboard.attempts.set i att' → Change D a e { a with dashboard := d }
  | fails {i : Nat} {e : DashboardEvent} {d : Dashboard} {att : Attempt} (att' : Attempt) :
      a.dashboard.attempts[i]? = some att → d.attempts = a.dashboard.attempts.set i att' →
      Change D a e { a with dashboard := d, service := a.service.disconnect }

variable {D : Dart} {kIsWeb : Bool} {a b : App}

theorem connectTo_change {s : Dashboard} {url pin : Text} {e : DashboardEvent}
    (h : s.attempts = a.dashboard.attempts) :
    Change D a e ((s.connectTo url pin).2.foldl (fun a effect => a.act D 0 effect)
      { a with dashboard := (s.connectTo url pin).1 }) := by
  rw [Dashboard.connectTo]
  split_ifs
  · exact Change.idle h
  · exact Change.idle h
  · exact Change.begins ⟨s.screen, pin, .connecting⟩ (congrArg (· ++ [_]) h) rfl

theorem connect_change {pinText urlText : Text} {e : DashboardEvent} :
    Change D a e ((a.dashboard.connect kIsWeb pinText urlText).2.foldl
      (fun a effect => a.act D 0 effect)
      { a with dashboard := (a.dashboard.connect kIsWeb pinText urlText).1 }) := by
  rw [Dashboard.connect]
  split_ifs
  · exact Change.idle rfl
  · exact Change.idle rfl
  · have hattempts := Dashboard.isLockedOut_attempts a.dashboard
    dsimp only
    split_ifs
    · exact Change.idle hattempts
    · exact connectTo_change hattempts
  · exact connectTo_change rfl

theorem fail_change {i : Nat} {att : Attempt} {text : Text} {e : DashboardEvent}
    (h : a.dashboard.attempts[i]? = some att) :
    Change D a e ((a.dashboard.fail i att text).2.foldl (fun a effect => a.act D i effect)
      { a with dashboard := (a.dashboard.fail i att text).1 }) := by
  rw [Dashboard.fail]
  split_ifs
  · exact Change.fails { att with stage := .cooling } h rfl
  · exact Change.fails { att with stage := .ended } h rfl

/-- Every step of the dashboard is one of these changes. -/
theorem dashboardStep_change {e : DashboardEvent} (h : a.dashboardStep D kIsWeb e = some b) :
    Change D a e b := by
  cases e with
  | connect pinText urlText =>
      obtain ⟨r, hr, rfl⟩ := Option.map_eq_some_iff.1 h
      rw [Dashboard.step] at hr
      split_ifs at hr
      cases hr
      exact connect_change
  | relay i error =>
      cases error with
      | none =>
          rw [dashboardStep] at h
          split_ifs at h with hends
          obtain ⟨r, hr, rfl⟩ := Option.map_eq_some_iff.1 h
          obtain ⟨att, hatt, rfl⟩ := Option.map_eq_some_iff.1 hr
          exact Change.joins { att with stage := .handshaking } hends
            (Dashboard.attemptAt_some hatt).1 rfl rfl
      | some text =>
          rw [dashboardStep] at h
          split_ifs at h
          obtain ⟨r, hr, rfl⟩ := Option.map_eq_some_iff.1 h
          obtain ⟨att, hatt, rfl⟩ := Option.map_eq_some_iff.1 hr
          exact fail_change (Dashboard.attemptAt_some hatt).1
  | handshake i error =>
      cases error with
      | none =>
          rw [dashboardStep] at h
          split_ifs at h with hends
          obtain ⟨r, hr, rfl⟩ := Option.map_eq_some_iff.1 h
          obtain ⟨att, hatt, rfl⟩ := Option.map_eq_some_iff.1 hr
          have hat := (Dashboard.attemptAt_some hatt).1
          dsimp only
          rw [Dashboard.succeed]
          split_ifs
          · exact Change.ends { att with stage := .ended } hat (Or.inr hends) rfl
          · exact Change.ends { att with stage := .ended } hat (Or.inr hends) rfl
      | some text =>
          rw [dashboardStep] at h
          split_ifs at h
          obtain ⟨r, hr, rfl⟩ := Option.map_eq_some_iff.1 h
          obtain ⟨att, hatt, rfl⟩ := Option.map_eq_some_iff.1 hr
          exact fail_change (Dashboard.attemptAt_some hatt).1
  | cooled i =>
      obtain ⟨r, hr, rfl⟩ := Option.map_eq_some_iff.1 h
      obtain ⟨att, hatt, rfl⟩ := Option.map_eq_some_iff.1 hr
      obtain ⟨hat, hstage⟩ := Dashboard.attemptAt_some hatt
      dsimp only
      rw [Dashboard.cooled]
      split_ifs
      · exact Change.ends { att with stage := .ended } hat (Or.inl hstage) rfl
      · exact Change.ends { att with stage := .ended } hat (Or.inl hstage) rfl
  | connectionChanged connected => cases h
  | disposed =>
      cases h
      exact Change.idle rfl
  | shown =>
      obtain ⟨r, hr, rfl⟩ := Option.map_eq_some_iff.1 h
      rw [Dashboard.step] at hr
      split_ifs at hr
      cases hr
      exact Change.idle rfl
  | elapse d =>
      cases h
      exact Change.idle rfl

/-! ## What an attempt awaits -/

/-- An attempt of the dashboard awaits the `i`-th task. -/
def Awaits (a : App) (i : Nat) : Prop :=
  ∃ (k : Nat) (att : Attempt), a.dashboard.attempts[k]? = some att ∧
    (att.stage = .connecting ∨ att.stage = .handshaking) ∧ a.calls[k]? = some i

/-- An attempt awaits a call that opens a channel or has thrown. -/
def Attempting (a : App) : Prop :=
  ∃ (i : Nat) (t : Task), a.Awaits i ∧ a.service.tasks[i]? = some t ∧ t.caller = .outside ∧
    t.stage.unresolved = true

/-- Every attempt has its call. -/
def Called (a : App) : Prop := a.calls.length = a.dashboard.attempts.length

theorem ends_stage {i j : Nat} {stage : Stage} {t : Task} (h : a.ends i stage = true)
    (hcall : a.calls[i]? = some j) (ht : a.service.tasks[j]? = some t) : t.stage = stage := by
  have heq : (a.calls[i]?).bind a.service.stage = some stage := eq_of_beq h
  rw [hcall, Option.bind_some, Connection.stage, ht] at heq
  exact Option.some.inj heq

/-- The rest of the app sees only the attempts, the calls and the unresolved tasks. -/
theorem Attempting.kept (h : a.Attempting) (hattempts : b.dashboard.attempts = a.dashboard.attempts)
    (hcalls : b.calls = a.calls)
    (htasks : Connection.TasksKept (· = .outside) a.service b.service) : b.Attempting := by
  obtain ⟨i, t, ⟨k, att, hatt, hstage, hcall⟩, ht, hcaller, hun⟩ := h
  obtain ⟨t', ht', hcaller', hun'⟩ := htasks i t ht hcaller hun
  refine ⟨i, t', ⟨k, att, ?_, hstage, ?_⟩, ht', hcaller'.trans hcaller, hun'⟩
  · rw [hattempts]
    exact hatt
  · rw [hcalls]
    exact hcall

/-- A task that awaits nothing unresolved makes room for the next without ending an attempt. -/
theorem Attempting.past (h : a.Attempting) {i : Nat}
    (hi : ∀ att, a.dashboard.attempts[i]? = some att →
      att.stage = .connecting ∨ att.stage = .handshaking →
      ∀ j t, a.calls[i]? = some j → a.service.tasks[j]? = some t → t.stage.unresolved = false)
    (hattempts : ∀ k, k ≠ i → b.dashboard.attempts[k]? = a.dashboard.attempts[k]?)
    (hcalls : ∀ k, k ≠ i → b.calls[k]? = a.calls[k]?)
    (htasks : Connection.TasksKept (· = .outside) a.service b.service) : b.Attempting := by
  obtain ⟨j, t, ⟨k, att, hatt, hstage, hcall⟩, ht, hcaller, hun⟩ := h
  have hk : k ≠ i := by
    rintro rfl
    rw [hi att hatt hstage j t hcall ht] at hun
    cases hun
  obtain ⟨t', ht', hcaller', hun'⟩ := htasks j t ht hcaller hun
  refine ⟨j, t', ⟨k, att, ?_, hstage, ?_⟩, ht', hcaller'.trans hcaller, hun'⟩
  · rw [hattempts k hk]
    exact hatt
  · rw [hcalls k hk]
    exact hcall

/-! ## Steps of the app -/

/-- The status says nothing about attempts and calls. -/
structure SameCalls (a b : App) : Prop where
  attempts : b.dashboard.attempts = a.dashboard.attempts
  calls : b.calls = a.calls

theorem notify_same (a : App) (report : Option Bool) :
    SameCalls a (a.notify report) ∧ (a.notify report).service = a.service ∧
      (a.notify report).background = a.background := by
  cases report with
  | none => exact ⟨⟨rfl, rfl⟩, rfl, rfl⟩
  | some connected =>
      cases connected with
      | true => exact ⟨⟨rfl, rfl⟩, rfl, rfl⟩
      | false =>
          simp only [notify]
          split_ifs
          · exact ⟨⟨rfl, rfl⟩, rfl, rfl⟩
          · exact ⟨⟨rfl, rfl⟩, rfl, rfl⟩

/-- What the app does when the system reports a change. -/
inductive LifecycleChange (a : App) : AppLifecycleState → App → Prop
  | hides {state : AppLifecycleState} : state ≠ .resumed →
      LifecycleChange a state { a with service := a.service.suppressReconnect, background := true }
  | retries (dashboard : Dashboard) :
      a.isEstablished = true → a.service.channel = none →
      dashboard.attempts = a.dashboard.attempts →
      LifecycleChange a .resumed
        { a with
          dashboard := dashboard
          service := a.service.attemptReconnect
          background := false }
  | leaves : (a.isEstablished && a.service.channel.isNone) = false →
      LifecycleChange a .resumed { a with background := false }
  | ignores {state : AppLifecycleState} : state ≠ .resumed → LifecycleChange a state a

theorem lifecycle_change (D : Dart) (a : App) (state : AppLifecycleState) :
    LifecycleChange a state (a.didChangeAppLifecycleState D state) := by
  cases state with
  | resumed =>
      cases hlost : a.isEstablished && a.service.channel.isNone with
      | true =>
          have heq : a.didChangeAppLifecycleState D .resumed =
              ({ a with background := false }.setStatus .syncing).call D .attemptReconnect :=
            if_pos hlost
          rw [heq]
          rw [Bool.and_eq_true, Option.isNone_iff_eq_none] at hlost
          exact LifecycleChange.retries { a.dashboard with status := .syncing }
            hlost.1 hlost.2 rfl
      | false =>
          have heq : a.didChangeAppLifecycleState D .resumed = { a with background := false } :=
            if_neg (by rw [Bool.not_eq_true]; exact hlost)
          rw [heq]
          exact LifecycleChange.leaves hlost
  | inactive => exact LifecycleChange.ignores (by decide)
  | hidden => exact LifecycleChange.hides (by decide)
  | paused => exact LifecycleChange.hides (by decide)
  | detached => exact LifecycleChange.ignores (by decide)

theorem LifecycleChange.same {state : AppLifecycleState} (h : LifecycleChange a state b) :
    SameCalls a b := by
  cases h with
  | hides hother => exact ⟨rfl, rfl⟩
  | retries dashboard hestablished hlost hattempts => exact ⟨hattempts, rfl⟩
  | leaves hkeeps => exact ⟨rfl, rfl⟩
  | ignores hother => exact ⟨rfl, rfl⟩

theorem SameCalls.called (h : SameCalls a b) (ha : a.Called) : b.Called := by
  rw [Called, h.calls, h.attempts]
  exact ha

theorem Change.called {e : DashboardEvent} (h : Change D a e b) (ha : a.Called) : b.Called := by
  cases h with
  | idle hattempts => exact SameCalls.called ⟨hattempts, rfl⟩ ha
  | begins att hattempts hstage =>
      show (a.calls ++ [_]).length = _
      rw [hattempts, List.length_append, List.length_append, ha]
      rfl
  | joins att' hends hat hattempts hstage =>
      show (a.calls.set _ _).length = _
      rw [hattempts, List.length_set, List.length_set]
      exact ha
  | ends att' hat hover hattempts =>
      show a.calls.length = _
      rw [hattempts, List.length_set]
      exact ha
  | fails att' hat hattempts =>
      show a.calls.length = _
      rw [hattempts, List.length_set]
      exact ha

theorem called_step {e : AppEvent} (ha : a.Called) (h : a.step D kIsWeb e = some b) : b.Called := by
  cases e with
  | service e =>
      rw [step] at h
      split_ifs at h
      obtain ⟨c, hc, rfl⟩ := Option.map_eq_some_iff.1 h
      exact (notify_same _ _).1.called ha
  | dashboard e => exact (dashboardStep_change h).called ha
  | didChangeAppLifecycleState state =>
      cases h
      exact (lifecycle_change D a state).same.called ha
  | disconnect =>
      cases h
      exact ha

/-! ## The app keeps trying -/

/-- A service that wants to reconnect is connected or about to, as far as an attempt has not taken
over. -/
def Trying (a : App) : Prop := a.service.Trying a.Attempting

/-- In the foreground auto-reconnect is on as long as there is a URL, unless an attempt will turn it on
or give the URL up. -/
def Persistent (a : App) : Prop :=
  a.background = false → a.service.lastUrl.isSome = true →
    a.service.autoReconnectEnabled = true ∨ a.Attempting

/-- The first attempt's task and those before it. -/
theorem spawn_kept {c m : Connection} {caller : Caller} {stage : Stage} (who : Caller → Prop)
    (h : m.tasks = c.tasks) : Connection.TasksKept who c (m.spawn caller stage) := by
  intro i t ht _ hun
  refine ⟨t, ?_, rfl, hun⟩
  have hlt : i < c.tasks.length := (List.getElem?_eq_some_iff.1 ht).1
  rw [Connection.spawn, h, List.getElem?_append_left hlt]
  exact ht

/-- A new attempt awaits its call of `connect`. -/
theorem begins_attempting {d : Dashboard} {att : Attempt} {url : Text} (ha : a.Called)
    (hattempts : d.attempts = a.dashboard.attempts ++ [att]) (hstage : att.stage = .connecting) :
    Attempting
      { a with
        dashboard := d
        service := (a.service.connect url).spawn .outside .connecting
        calls := a.calls ++ [a.service.tasks.length] } := by
  refine ⟨a.service.tasks.length, ⟨.outside, .connecting⟩,
    ⟨a.calls.length, att, ?_, Or.inl hstage, ?_⟩, ?_, rfl, rfl⟩
  · rw [hattempts, ha, List.getElem?_concat_length]
  · exact List.getElem?_concat_length
  · exact List.getElem?_concat_length

/-- The attempt whose `connect` has returned goes on, the others are left alone. -/
theorem joins_attempting {i : Nat} {d : Dashboard} {att' : Attempt} {pin : Text}
    (hends : a.ends i .connected = true)
    (hattempts : d.attempts = a.dashboard.attempts.set i att') (h : a.Attempting) :
    Attempting
      { a with
        dashboard := d
        service := { a.service with lastPin := some pin }.spawn .outside (.derivingKey pin)
        calls := a.calls.set i a.service.tasks.length } := by
  apply h.past (i := i)
  · intro att _ _ j t hcall ht
    rw [ends_stage hends hcall ht]
    rfl
  · intro k hk
    show d.attempts[k]? = _
    rw [hattempts, List.getElem?_set_ne (Ne.symm hk)]
  · intro k hk
    exact List.getElem?_set_ne (Ne.symm hk)
  · exact spawn_kept _ rfl

/-- The attempt that is over awaited nothing unresolved. -/
theorem ends_attempting {i : Nat} {d : Dashboard} {att att' : Attempt}
    (hat : a.dashboard.attempts[i]? = some att)
    (hover : att.stage = .cooling ∨ a.ends i .established = true)
    (hattempts : d.attempts = a.dashboard.attempts.set i att') (h : a.Attempting) :
    Attempting { a with dashboard := d } := by
  apply h.past (i := i)
  · intro att'' hat'' hawaits j t hcall ht
    rw [hat] at hat''
    obtain rfl := Option.some.inj hat''
    rcases hover with hcooling | hends
    · rw [hcooling] at hawaits
      rcases hawaits with h | h <;> cases h
    · rw [ends_stage hends hcall ht]
      rfl
  · intro k hk
    show d.attempts[k]? = _
    rw [hattempts, List.getElem?_set_ne (Ne.symm hk)]
  · intro k _
    rfl
  · exact Connection.tasksKept_rfl _ rfl

theorem SameCalls.attempting (h : SameCalls a b) (k : a.Attempting)
    (htasks : b.service.tasks = a.service.tasks) : b.Attempting :=
  k.kept h.attempts h.calls (Connection.tasksKept_rfl _ htasks)

/-- With a URL and a PIN `attemptReconnect` arms the timer, and otherwise it does nothing. -/
theorem attemptReconnect_cases (c : Connection) :
    c.lastUrl.isSome = true ∧ c.lastPin.isSome = true ∧
        c.attemptReconnect.autoReconnectEnabled = true ∧
        c.attemptReconnect.reconnectTimer.isSome = true ∨
      (c.lastUrl = none ∨ c.lastPin = none) ∧ c.attemptReconnect = c := by
  rw [Connection.attemptReconnect]
  split_ifs with hmissing
  · simp only [Bool.or_eq_true, Option.isNone_iff_eq_none] at hmissing
    exact Or.inr ⟨hmissing, rfl⟩
  · have hknown := hmissing
    simp only [Bool.or_eq_true, not_or, Bool.not_eq_true, Option.isNone_eq_false_iff] at hknown
    rw [Connection.scheduleReconnect]
    rw [if_neg hmissing]
    exact Or.inl ⟨hknown.1, hknown.2, rfl, rfl⟩

/-- An attempt goes on with its handshake. -/
def joins : AppEvent → Bool
  | .dashboard (.relay _ none) => true
  | _ => false

/-- The handshake of an attempt begins only on an open channel: nothing happens between the two awaits
of `_connect`. -/
def JoinsConnected (a : App) (e : AppEvent) : Prop :=
  joins e = true → a.service.channel.isSome = true

theorem trying_service {e : ServiceEvent} {c : Connection} (ha : a.Trying)
    (h : a.service.step D e = some c) (hint : Connection.isInternal e = true) :
    Trying { a with service := c } := by
  have hun := Connection.unaided_step h hint
  intro henabled hurl hpin
  rcases hun.outside with ⟨hchannel, -⟩ | htasks
  · exact Or.inl hchannel
  · rcases hun.trying _ ha henabled hurl hpin with h | h | h | h
    · exact Or.inl h
    · exact Or.inr (Or.inl h)
    · exact Or.inr (Or.inr (Or.inl h))
    · exact Or.inr (Or.inr (Or.inr (h.kept rfl rfl htasks)))

theorem Change.trying {e : DashboardEvent} (h : Change D a e b) (ha : a.Trying) (hc : a.Called)
    (hjoins : JoinsConnected a (.dashboard e)) : b.Trying := by
  cases h with
  | idle hattempts =>
      intro henabled hurl hpin
      rcases ha henabled hurl hpin with h | h | h | h
      · exact Or.inl h
      · exact Or.inr (Or.inl h)
      · exact Or.inr (Or.inr (Or.inl h))
      · exact Or.inr (Or.inr (Or.inr (SameCalls.attempting ⟨hattempts, rfl⟩ h rfl)))
  | begins att hattempts hstage =>
      intro _ _ _
      exact Or.inr (Or.inr (Or.inr (begins_attempting hc hattempts hstage)))
  | joins att' hends hat hattempts hstage =>
      intro _ _ _
      exact Or.inl (hjoins rfl)
  | ends att' hat hover hattempts =>
      intro henabled hurl hpin
      rcases ha henabled hurl hpin with h | h | h | h
      · exact Or.inl h
      · exact Or.inr (Or.inl h)
      · exact Or.inr (Or.inr (Or.inl h))
      · exact Or.inr (Or.inr (Or.inr (ends_attempting hat hover hattempts h)))
  | fails att' hat hattempts =>
      intro _ hurl _
      have hnone : a.service.disconnect.lastUrl = none := rfl
      rw [hnone] at hurl
      cases hurl

theorem LifecycleChange.trying {state : AppLifecycleState} (h : LifecycleChange a state b)
    (ha : a.Trying) : b.Trying := by
  cases h with
  | hides hother => rintro ⟨⟩
  | retries dashboard hestablished hlost hattempts =>
      intro _ hurl hpin
      dsimp only at hurl hpin
      rcases attemptReconnect_cases a.service with ⟨-, -, -, htimer⟩ | ⟨hmissing, hsame⟩
      · exact Or.inr (Or.inl htimer)
      · -- without URL or PIN nothing is promised
        rw [hsame] at hurl hpin
        rcases hmissing with h | h
        · rw [h] at hurl
          cases hurl
        · rw [h] at hpin
          cases hpin
  | leaves hkeeps => exact ha
  | ignores hother => exact ha

theorem trying_step {e : AppEvent} (hc : a.Called) (ha : a.Trying)
    (h : a.step D kIsWeb e = some b) (hjoins : a.JoinsConnected e) : b.Trying := by
  cases e with
  | service e =>
      rw [step] at h
      split_ifs at h with hint
      obtain ⟨c, hstep, rfl⟩ := Option.map_eq_some_iff.1 h
      obtain ⟨hsame, hservice, -⟩ := notify_same { a with service := c } (a.reports e)
      have hc : Trying { a with service := c } := trying_service ha hstep hint
      intro henabled hurl hpin
      rw [hservice] at henabled hurl hpin ⊢
      rcases hc henabled hurl hpin with h | h | h | h
      · exact Or.inl h
      · exact Or.inr (Or.inl h)
      · exact Or.inr (Or.inr (Or.inl h))
      · exact Or.inr (Or.inr (Or.inr (hsame.attempting h (congrArg _ hservice))))
  | dashboard e => exact (dashboardStep_change h).trying ha hc hjoins
  | didChangeAppLifecycleState state =>
      cases h
      exact (lifecycle_change D a state).trying ha
  | disconnect =>
      cases h
      intro _ hurl _
      cases hurl

/-- When the app comes back with a URL, auto-reconnect is on, an attempt will see to it, or the app
finds that the connection of a session is lost and that it has the PIN. -/
def ComesBackLost (a : App) (e : AppEvent) : Prop :=
  e = .didChangeAppLifecycleState .resumed → a.service.lastUrl.isSome = true →
    a.service.autoReconnectEnabled = true ∨ a.Attempting ∨
      a.isEstablished = true ∧ a.service.channel = none ∧ a.service.lastPin.isSome = true

theorem Change.persistent {e : DashboardEvent} (h : Change D a e b) (hc : a.Called)
    (ha : a.Persistent) : b.Persistent := by
  cases h with
  | idle hattempts =>
      intro hforeground hurl
      exact (ha hforeground hurl).imp id fun h => SameCalls.attempting ⟨hattempts, rfl⟩ h rfl
  | begins att hattempts hstage =>
      intro _ _
      exact Or.inr (begins_attempting hc hattempts hstage)
  | joins att' hends hat hattempts hstage =>
      intro hforeground hurl
      exact (ha hforeground hurl).imp id (joins_attempting hends hattempts)
  | ends att' hat hover hattempts =>
      intro hforeground hurl
      exact (ha hforeground hurl).imp id (ends_attempting hat hover hattempts)
  | fails att' hat hattempts =>
      intro _ hurl
      have hnone : a.service.disconnect.lastUrl = none := rfl
      rw [hnone] at hurl
      cases hurl

/-- When the app comes back, that is decided by what it finds. -/
theorem LifecycleChange.persistent_iff {state : AppLifecycleState} (h : LifecycleChange a state b)
    (ha : a.Persistent) : b.Persistent ↔ a.ComesBackLost (.didChangeAppLifecycleState state) := by
  cases h with
  | hides hother =>
      refine ⟨fun _ hresumed => ?_, fun _ hforeground => ?_⟩
      · cases hresumed
        exact absurd rfl hother
      · cases hforeground
  | retries dashboard hestablished hlost hattempts =>
      rcases attemptReconnect_cases a.service with ⟨-, hpin, henabled, -⟩ | ⟨hmissing, hsame⟩
      · exact ⟨fun _ _ _ => Or.inr (Or.inr ⟨hestablished, hlost, hpin⟩), fun _ _ _ => Or.inl henabled⟩
      · constructor
        · intro hb _ hurl
          rcases hb rfl (by dsimp only; rw [hsame]; exact hurl) with h | h
          · dsimp only at h
            rw [hsame] at h
            exact Or.inl h
          · refine Or.inr (Or.inl (h.kept hattempts.symm rfl ?_))
            exact Connection.tasksKept_rfl _ (by dsimp only; rw [hsame])
        · intro hcomes _ hurl
          dsimp only at hurl ⊢
          rw [hsame] at hurl ⊢
          rcases hcomes rfl hurl with h | h | ⟨-, -, hpin⟩
          · exact Or.inl h
          · exact Or.inr (SameCalls.attempting ⟨hattempts, rfl⟩ h rfl)
          · rcases hmissing with hnone | hnone
            · rw [hnone] at hurl
              cases hurl
            · rw [hnone] at hpin
              cases hpin
  | leaves hkeeps =>
      constructor
      · intro hb _ hurl
        exact (hb rfl hurl).imp id Or.inl
      · intro hcomes _ hurl
        rcases hcomes rfl hurl with h | h | ⟨hestablished, hlost, -⟩
        · exact Or.inl h
        · exact Or.inr h
        · rw [hestablished, hlost] at hkeeps
          cases hkeeps
  | ignores hother =>
      refine ⟨fun _ hresumed => ?_, fun _ => ha⟩
      cases hresumed
      exact absurd rfl hother

/-- Only coming back can leave auto-reconnect off. -/
theorem persistent_step {e : AppEvent} (hc : a.Called) (ha : a.Persistent)
    (h : a.step D kIsWeb e = some b) : b.Persistent ↔ a.ComesBackLost e := by
  cases e with
  | service e =>
      refine ⟨fun _ => nofun, fun _ => ?_⟩
      rw [step] at h
      split_ifs at h with hint
      obtain ⟨c, hstep, rfl⟩ := Option.map_eq_some_iff.1 h
      obtain ⟨hsame, hservice, hbackground⟩ := notify_same { a with service := c } (a.reports e)
      have hun := Connection.unaided_step hstep hint
      intro hforeground hurl
      rw [hbackground] at hforeground
      rw [hservice] at hurl ⊢
      dsimp only at hforeground hurl ⊢
      rw [hun.lastUrl] at hurl
      rcases ha hforeground hurl with henabled | hatt
      · exact Or.inl (hun.enabled henabled)
      · rcases hun.outside with ⟨-, henabled⟩ | htasks
        · exact Or.inl henabled
        · have hkept : Attempting { a with service := c } := hatt.kept rfl rfl htasks
          exact Or.inr (hsame.attempting hkept (congrArg _ hservice))
  | dashboard e =>
      exact ⟨fun _ => nofun, fun _ => (dashboardStep_change h).persistent hc ha⟩
  | didChangeAppLifecycleState state =>
      cases h
      exact (lifecycle_change D a state).persistent_iff ha
  | disconnect =>
      cases h
      refine ⟨fun _ => nofun, fun _ _ hurl => ?_⟩
      cases hurl

/-! ## Runs -/

theorem called_start : start.Called := rfl

theorem persistent_start : start.Persistent := by
  rintro - ⟨⟩

theorem trying_start : start.Trying := by
  rintro ⟨⟩

/-- In the foreground a service with a URL has auto-reconnect on, or an attempt that will see to it, in
exactly the runs in which each return of the app finds that, or an established session that has lost its
channel and whose PIN is known. -/
theorem stays_persistent_iff (D : Dart) (kIsWeb : Bool) (es : List AppEvent) :
    Along (stepRel (step D kIsWeb)) Persistent start es ↔
      Guarded (stepRel (step D kIsWeb)) ComesBackLost start es := by
  apply along_iff_guarded (I := Called)
  · intro a e b hc h
    exact called_step hc h
  · intro a e b hc ha h
    exact persistent_step hc ha h
  · exact called_start
  · exact persistent_start

/-- In the foreground, with URL and PIN, something is under way that ends with a channel or with the
next attempt. -/
def Recovering (a : App) : Prop :=
  a.background = false → a.service.lastUrl.isSome = true → a.service.lastPin.isSome = true →
    a.service.channel.isSome = true ∨ a.service.reconnectTimer.isSome = true ∨
      a.service.Retrying ∨ a.Attempting

/-- The two conditions on the steps: a handshake of the dashboard begins on an open channel, and a return of
the app finds what `ComesBackLost` says. -/
def Orderly (a : App) (e : AppEvent) : Prop := a.JoinsConnected e ∧ a.ComesBackLost e

/-- In such a run the app that is in the foreground and has a URL and a PIN is never stuck without a
connection. -/
theorem recovers_of_orderly (D : Dart) (kIsWeb : Bool) (es : List AppEvent)
    (h : Guarded (stepRel (step D kIsWeb)) Orderly start es) :
    Along (stepRel (step D kIsWeb)) Recovering start es := by
  apply along_of_inductive (I := fun a => a.Called ∧ a.Trying ∧ a.Persistent) (C := Orderly)
  · rintro a e b ⟨hc, ha, hp⟩ hstep ⟨hjoins, hback⟩
    exact ⟨called_step hc hstep, trying_step hc ha hstep hjoins, (persistent_step hc hp hstep).2 hback⟩
  · rintro a ⟨-, ha, hp⟩ hforeground hurl hpin
    rcases hp hforeground hurl with henabled | hatt
    · exact ha henabled hurl hpin
    · exact Or.inr (Or.inr (Or.inr hatt))
  · exact ⟨called_start, trying_start, persistent_start⟩
  · exact h

/-- A session is established from the dashboard. -/
def Sample.session : List AppEvent :=
  [.dashboard (.connect Connection.Sample.pin Connection.Sample.url),
    .service (.connectWebSocket 0 true), .dashboard (.relay 0 none)] ++
  (Connection.Sample.handshake 1 0 0).tail.map AppEvent.service ++
  [.service (.proceed 1), .dashboard (.handshake 0 none)]

/-- The two conditions for runs without an attempt under way when the app comes back, decidable. -/
def OrderlyResumed (a : App) (e : AppEvent) : Prop :=
  (joins e = true → a.service.channel.isSome = true) ∧
    (e = .didChangeAppLifecycleState .resumed →
      a.isEstablished = true ∧ a.service.channel = none ∧ a.service.lastPin.isSome = true)

instance (a : App) (e : AppEvent) : Decidable (OrderlyResumed a e) :=
  inferInstanceAs (Decidable ((_ → _) ∧ (_ → _ ∧ _ ∧ _)))

theorem orderly_of_resumed {es : List AppEvent}
    (h : Guarded (stepRel (step D kIsWeb)) OrderlyResumed start es) :
    Guarded (stepRel (step D kIsWeb)) Orderly start es :=
  guarded_of_guarded (I := fun _ => True) (fun _ _ _ _ _ _ => trivial)
    (fun _ _ _ _ _ h => ⟨h.1, fun hresumed _ => Or.inr (Or.inr (h.2 hresumed))⟩) trivial h

/-- The channel of a session closes while the app is in the background, and the app reconnects when it
comes back. -/
theorem recovers_of_orderly_resumed :
    Along (stepRel (step Connection.Sample.dart false)) Recovering start
      (Sample.session ++
        [.didChangeAppLifecycleState .paused, .service (.done 0),
          .didChangeAppLifecycleState .resumed, .service .fire,
          .service (.connectWebSocket 2 true)]) :=
  recovers_of_orderly Connection.Sample.dart false _
    (orderly_of_resumed (guarded_of_checkAll (by decide +kernel)))

/-- If the channel is still open when the app comes back, and closes afterwards, the app is stuck: the
status is `syncing`, no timer is armed, and no call is under way. -/
theorem resumed_on_live_socket :
    ∃ a, Run (stepRel (step Connection.Sample.dart false)) start
      (Sample.session ++
        [.didChangeAppLifecycleState .paused, .didChangeAppLifecycleState .resumed,
          .service (.done 0)]) a ∧
      a.dashboard.status = .syncing ∧ ¬ a.Recovering := by
  have hrun : ∃ a, Run (stepRel (step Connection.Sample.dart false)) start
      (Sample.session ++
        [.didChangeAppLifecycleState .paused, .didChangeAppLifecycleState .resumed,
          .service (.done 0)]) a ∧
      (a.dashboard.status = .syncing ∧ a.background = false) ∧
        (a.service.lastUrl.isSome = true ∧ a.service.lastPin.isSome = true) ∧
        (a.service.channel.isSome = false ∧ a.service.reconnectTimer.isSome = false) ∧
        ∀ t ∈ a.service.tasks, t.stage.unresolved = false :=
    exists_run_of_exec (by decide +kernel)
  obtain ⟨a, hrun, ⟨hstatus, hforeground⟩, ⟨hurl, hpin⟩, ⟨hchannel, htimer⟩, htasks⟩ := hrun
  refine ⟨a, hrun, hstatus, fun hrec => ?_⟩
  rcases hrec hforeground hurl hpin with h | h | ⟨i, t, ht, -, hun⟩ | ⟨i, t, -, ht, -, hun⟩
  · rw [hchannel] at h
    cases h
  · rw [htimer] at h
    cases h
  · rw [htasks t (List.mem_of_getElem? ht)] at hun
    cases hun
  · rw [htasks t (List.mem_of_getElem? ht)] at hun
    cases hun

/-! ## In the background -/

/-- In the background no timer is armed, and none will be. -/
def QuietInBackground (a : App) : Prop := a.background = true → a.service.Quiet

/-- A channel opens. -/
def opens : AppEvent → Bool
  | .service e => Connection.opens e
  | _ => false

/-- A channel opens only in the foreground. -/
def OpensInForeground (a : App) (e : AppEvent) : Prop := a.background = true → opens e = false

theorem Change.quiet {e : DashboardEvent} (h : Change D a e b) (ha : a.QuietInBackground) :
    b.QuietInBackground := by
  cases h with
  | idle hattempts => exact ha
  | begins att hattempts hstage => exact fun hbackground => ⟨(ha hbackground).disabled, rfl⟩
  | joins att' hends hat hattempts hstage =>
      exact fun hbackground => ⟨(ha hbackground).disabled, (ha hbackground).unarmed⟩
  | ends att' hat hover hattempts => exact ha
  | fails att' hat hattempts => exact fun _ => Connection.disconnect_quiet a.service

theorem quietInBackground_step {e : AppEvent} (ha : a.QuietInBackground)
    (h : a.step D kIsWeb e = some b) : b.QuietInBackground ↔ a.OpensInForeground e := by
  cases e with
  | service e =>
      rw [step] at h
      split_ifs at h with hint
      obtain ⟨c, hstep, rfl⟩ := Option.map_eq_some_iff.1 h
      obtain ⟨-, hservice, hbackground⟩ := notify_same { a with service := c } (a.reports e)
      rw [QuietInBackground, hservice, hbackground]
      constructor
      · -- a channel that opens turns auto-reconnect on
        intro hb hhidden
        cases e with
        | connectWebSocket i ok =>
            rw [Connection.step] at hstep
            split_ifs at hstep with hstage hok
            · cases hstep
              have henabled : (a.service.listen i).autoReconnectEnabled = false := (hb hhidden).disabled
              cases henabled
            · rw [Bool.not_eq_true] at hok
              rw [hok]
              rfl
        | _ => rfl
      · intro hopens hhidden
        apply Connection.quiet_step (ha hhidden) (hopens hhidden) _ hstep
        rintro rfl
        cases hint
  | dashboard e => exact ⟨fun _ _ => rfl, fun _ => (dashboardStep_change h).quiet ha⟩
  | didChangeAppLifecycleState state =>
      cases h
      refine ⟨fun _ _ => rfl, fun _ => ?_⟩
      cases state with
      | resumed =>
          have hforeground : (a.didChangeAppLifecycleState D .resumed).background = false := by
            rw [didChangeAppLifecycleState]
            split_ifs <;> rfl
          intro hbackground
          rw [hforeground] at hbackground
          cases hbackground
      | hidden => exact fun _ => Connection.suppressReconnect_quiet a.service
      | paused => exact fun _ => Connection.suppressReconnect_quiet a.service
      | inactive => exact ha
      | detached => exact ha
  | disconnect =>
      cases h
      exact ⟨fun _ _ => rfl, fun _ _ => Connection.disconnect_quiet a.service⟩

/-- In the background the app has no timer armed and would arm none, in exactly the runs in which no
channel opens there. -/
theorem background_quiet_iff (D : Dart) (kIsWeb : Bool) (es : List AppEvent) :
    Along (stepRel (step D kIsWeb)) QuietInBackground start es ↔
      Guarded (stepRel (step D kIsWeb)) OpensInForeground start es := by
  apply along_iff_guarded (I := fun _ => True)
  · intro a e b _ _
    exact trivial
  · intro a e b _ ha h
    exact quietInBackground_step ha h
  · exact trivial
  · rintro ⟨⟩

end App

end Ktty.Client
