import Ktty.Client.CurrentChannel

/-!
# After `disconnect` and `suppressReconnect`

Both turn auto-reconnect off and cancel the timer, and `disconnect` also closes the channel. A `connect`
that waits for `connectWebSocket` at that moment is not cancelled: when it resumes, it opens a channel
and turns auto-reconnect on again. `History` records which of the two was called after the last call of
`connect` or `attemptReconnect` from outside. The calls are final in exactly the runs in which no
`connect` resumes with a channel after them (`disconnect_final`).
-/

set_option autoImplicit false

namespace Ktty.Client

open Ktty.Wire Ktty.Lib.Execution

/-- A connection with what was called since `connect` or `attemptReconnect` was last called from
outside. -/
structure History where
  connection : Connection
  /-- `disconnect` or `suppressReconnect`. -/
  silenced : Bool
  /-- `disconnect`. -/
  hungUp : Bool

namespace History

variable {D : Dart} {h h' : History} {e : ServiceEvent}

def start : History := { connection := .new, silenced := false, hungUp := false }

def silencedBy (silenced : Bool) : ServiceEvent → Bool
  | .disconnect | .dispose | .suppressReconnect => true
  | .connect _ | .attemptReconnect => false
  | _ => silenced

def hungUpBy (hungUp : Bool) : ServiceEvent → Bool
  | .disconnect | .dispose => true
  | .connect _ | .attemptReconnect => false
  | _ => hungUp

def step (D : Dart) (h : History) (e : ServiceEvent) : Option History :=
  (h.connection.step D e).map fun c =>
    { connection := c, silenced := silencedBy h.silenced e, hungUp := hungUpBy h.hungUp e }

/-- Auto-reconnect is off and no timer is armed, and after `disconnect` no channel is open. -/
structure Final (h : History) : Prop where
  quiet : h.silenced = true → h.connection.Quiet
  closed : h.hungUp = true → h.connection.channel = none

/-- No `connect` resumes with a channel after `disconnect` or `suppressReconnect`. -/
def ResumesBefore (h : History) (e : ServiceEvent) : Prop :=
  Connection.opens e = true → h.silenced = false

instance (h : History) (e : ServiceEvent) : Decidable (ResumesBefore h e) :=
  inferInstanceAs (Decidable (_ → _))

/-- `disconnect` does what `suppressReconnect` does. -/
def Ordered (h : History) : Prop := h.hungUp = true → h.silenced = true

theorem step_spec (hstep : h.step D e = some h') :
    h.connection.step D e = some h'.connection ∧ h'.silenced = silencedBy h.silenced e ∧
      h'.hungUp = hungUpBy h.hungUp e := by
  rw [step, Option.map_eq_some_iff] at hstep
  obtain ⟨c, hc, rfl⟩ := hstep
  exact ⟨hc, rfl, rfl⟩

theorem ordered_step (ho : h.Ordered) (hstep : h.step D e = some h') : h'.Ordered := by
  obtain ⟨-, hsilenced, hhungUp⟩ := step_spec hstep
  rw [Ordered, hsilenced, hhungUp]
  cases e with
  | disconnect => exact fun _ => rfl
  | dispose => exact fun _ => rfl
  | suppressReconnect => exact fun _ => rfl
  | connect url => exact id
  | attemptReconnect => exact id
  | _ => exact ho

/-- The calls that begin or end the time of `Final`. -/
def isCall : ServiceEvent → Bool
  | .disconnect | .dispose | .suppressReconnect | .connect _ | .attemptReconnect => true
  | _ => false

/-- Every other step keeps what has been given up. -/
theorem final_other (hf : h.Final) (ho : h.Ordered) (hcall : isCall e = false)
    (hbefore : h.ResumesBefore e) (hstep : h.step D e = some h') : h'.Final := by
  obtain ⟨hconn, hsilenced, hhungUp⟩ := step_spec hstep
  -- no other event touches what `History` records:
  have hsilenced' : h'.silenced = h.silenced := by
    rw [hsilenced]
    cases e with
    | disconnect | dispose | suppressReconnect | attemptReconnect => cases hcall
    | connect url => cases hcall
    | _ => rfl
  have hhungUp' : h'.hungUp = h.hungUp := by
    rw [hhungUp]
    cases e with
    | disconnect | dispose | attemptReconnect => cases hcall
    | connect url => cases hcall
    | _ => rfl
  -- after the call, no channel opens:
  have hopens : h.silenced = true → Connection.opens e = false := by
    intro hs
    cases hopens : Connection.opens e with
    | false => rfl
    | true =>
        rw [hbefore hopens] at hs
        cases hs
  constructor
  · intro hs
    rw [hsilenced'] at hs
    apply Connection.quiet_step (hf.quiet hs) (hopens hs) _ hconn
    rintro rfl
    cases hcall
  · intro hh
    rw [hhungUp'] at hh
    -- the channel can only be given up once more:
    rcases Connection.channel_step (hopens (ho hh)) hconn with hnone | hsame
    · exact hnone
    · rw [hsame]
      exact hf.closed hh

/-- A call that begins the time leaves everything closed, and a call that ends it asks for nothing. -/
theorem final_call (hf : h.Final) (hcall : isCall e = true) (hstep : h.step D e = some h') :
    h'.Final := by
  obtain ⟨hconn, hsilenced, hhungUp⟩ := step_spec hstep
  -- a call of `connect` or `attemptReconnect` starts a new time, of which nothing is asked yet:
  have ended : h'.silenced = false → h'.hungUp = false → h'.Final := by
    intro hs hh
    constructor
    · intro hs'
      rw [hs] at hs'
      cases hs'
    · intro hh'
      rw [hh] at hh'
      cases hh'
  cases e with
  | disconnect =>
      have hc : h.connection.disconnect = h'.connection := Option.some.inj hconn
      constructor
      · intro _
        rw [← hc]
        exact Connection.disconnect_quiet _
      · intro _
        rw [← hc]
        exact (Connection.disconnect_cleared _).channel
  | dispose =>
      have hc : h.connection.dispose = h'.connection := Option.some.inj hconn
      have hkept := Connection.dispose_kept h.connection
      rw [hc] at hkept
      constructor
      · intro _
        -- `dispose` only closes the controller after `disconnect`:
        exact hkept.quiet (Connection.disconnect_quiet _)
      · intro _
        exact hkept.channel.trans (Connection.disconnect_cleared _).channel
  | suppressReconnect =>
      have hc : h.connection.suppressReconnect = h'.connection := Option.some.inj hconn
      constructor
      · intro _
        rw [← hc]
        exact Connection.suppressReconnect_quiet _
      · intro hh
        rw [← hc]
        exact hf.closed (hhungUp.symm.trans hh)
  | connect url => exact ended hsilenced hhungUp
  | attemptReconnect => exact ended hsilenced hhungUp
  | _ => cases hcall

/-- One step out of a state in which the calls are final. -/
theorem final_step (hf : h.Final) (ho : h.Ordered) (hstep : h.step D e = some h') :
    h'.Final ↔ h.ResumesBefore e := by
  constructor
  · -- a channel that opens turns auto-reconnect on
    intro hf' hopens
    obtain ⟨hconn, hsilenced, -⟩ := step_spec hstep
    cases e with
    | connectWebSocket i ok =>
        obtain rfl : ok = true := hopens
        rw [Connection.step, if_pos rfl] at hconn
        split_ifs at hconn
        have hlisten : h.connection.listen i = h'.connection := Option.some.inj hconn
        have henabled : h'.connection.autoReconnectEnabled = true := by
          rw [← hlisten]
          rfl
        -- a quiet connection has auto-reconnect off, which the channel has turned on:
        cases hs : h.silenced with
        | false => rfl
        | true =>
            have hquiet := hf'.quiet (hsilenced.trans hs)
            rw [hquiet.disabled] at henabled
            cases henabled
    | _ => cases hopens
  · intro hbefore
    cases hcall : isCall e with
    | false => exact final_other hf ho hcall hbefore hstep
    | true => exact final_call hf hcall hstep

theorem ordered_start : Ordered start := by
  rintro ⟨⟩

theorem final_start : Final start :=
  ⟨fun h => (by cases h), fun h => (by cases h)⟩

/-- `disconnect` and `suppressReconnect` are final in exactly the runs in which no `connect` resumes
with a channel after them. -/
theorem disconnect_final (D : Dart) (es : List ServiceEvent) :
    Along (stepRel (step D)) Final start es ↔ Guarded (stepRel (step D)) ResumesBefore start es := by
  apply along_iff_guarded (I := Ordered)
  · intro h e h' ho hstep
    exact ordered_step ho hstep
  · intro h e h' ho hf hstep
    exact final_step hf ho hstep
  · exact ordered_start
  · exact final_start

/-- A `connect` that was suspended when `disconnect` or `suppressReconnect` was called opens its channel
afterwards and turns auto-reconnect on. -/
theorem connect_after_disconnect :
    (∃ h, Run (stepRel (step Connection.Sample.dart)) start
      [.connect Connection.Sample.url, .disconnect, .connectWebSocket 0 true] h ∧
      h.hungUp = true ∧ h.connection.channel = some 0 ∧ h.connection.autoReconnectEnabled = true ∧
      ¬ h.Final) ∧
    ∃ h, Run (stepRel (step Connection.Sample.dart)) start
      [.connect Connection.Sample.url, .suppressReconnect, .connectWebSocket 0 true] h ∧
      h.silenced = true ∧ h.connection.autoReconnectEnabled = true ∧ ¬ h.Final := by
  -- auto-reconnect alone already shows that the call was not final:
  have notFinal : ∀ h : History, h.silenced = true → h.connection.autoReconnectEnabled = true →
      ¬ h.Final := by
    intro h hs henabled hf
    rw [(hf.quiet hs).disabled] at henabled
    cases henabled
  constructor
  · have hrun : ∃ h, Run (stepRel (step Connection.Sample.dart)) start
        [.connect Connection.Sample.url, .disconnect, .connectWebSocket 0 true] h ∧
        h.silenced = true ∧ h.hungUp = true ∧ h.connection.channel = some 0 ∧
        h.connection.autoReconnectEnabled = true := exists_run_of_exec (by decide +kernel)
    obtain ⟨h, hrun, hs, hh, hchannel, henabled⟩ := hrun
    exact ⟨h, hrun, hh, hchannel, henabled, notFinal h hs henabled⟩
  · have hrun : ∃ h, Run (stepRel (step Connection.Sample.dart)) start
        [.connect Connection.Sample.url, .suppressReconnect, .connectWebSocket 0 true] h ∧
        h.silenced = true ∧ h.connection.autoReconnectEnabled = true :=
      exists_run_of_exec (by decide +kernel)
    obtain ⟨h, hrun, hs, henabled⟩ := hrun
    exact ⟨h, hrun, hs, henabled, notFinal h hs henabled⟩

end History

end Ktty.Client
