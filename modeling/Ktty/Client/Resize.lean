import Mathlib.Data.List.Basic
import Ktty.Lib.Execution

/-!
# Resizes and pinch gestures

The terminal reports its size to `TerminalService`. The first size is sent at once, later ones by a
debounce timer that every new size restarts, and the sizes of a pinch gesture are kept back until
`notifyPinchEnd`. `notifyPinchStart` and `detach` cancel the timer and do not look at what it would have
sent.

`Resizing` records which size was reported and which was sent last. A size is lost in a few ways only:
it is cancelled and none is reported before the gesture ends or the service is attached again, or it is
stashed for a gesture that has ended without a call of `notifyPinchEnd`. `last_size_sent_iff` says so.
-/

set_option autoImplicit false

namespace Ktty.Client

open Ktty.Lib.Execution

/-! ## The service -/

/-- The fields of `TerminalService` that belong to resizes. -/
structure ResizeState where
  firstResize : Bool
  pinchActive : Bool
  pendingResizeCols : Option Int
  pendingResizeRows : Option Int
  /-- The size that the running debounce timer is going to send. -/
  resizeDebounce : Option (Int × Int)
  deriving DecidableEq

namespace ResizeState

/-- The service after its constructor. -/
def new : ResizeState :=
  { firstResize := true, pinchActive := false, pendingResizeCols := none, pendingResizeRows := none,
    resizeDebounce := none }

variable (r : ResizeState)

/-- The size that is kept back during a pinch. -/
def pendingResize : Option (Int × Int) :=
  match r.pendingResizeCols, r.pendingResizeRows with
  | some cols, some rows => some (cols, rows)
  | _, _ => none

/-- `terminal.onResize`, with the sizes that it sends. -/
def onResize (width height : Int) : ResizeState × List (Int × Int) :=
  if width ≤ 0 ∨ height ≤ 0 then (r, [])
  else if r.firstResize then ({ r with firstResize := false }, [(width, height)])
  else if r.pinchActive then
    ({ r with pendingResizeCols := some width, pendingResizeRows := some height }, [])
  else ({ r with resizeDebounce := some (width, height) }, [])

def notifyPinchStart : ResizeState :=
  { r with pinchActive := true, resizeDebounce := none, pendingResizeCols := none,
           pendingResizeRows := none }

def notifyPinchEnd : ResizeState :=
  let ended := { r with pinchActive := false, pendingResizeCols := none, pendingResizeRows := none }
  match r.pendingResize with
  | none => ended
  | some size => { ended with resizeDebounce := some size }

/-- The part of `detach` that concerns resizes. -/
def detach : ResizeState := { r with resizeDebounce := none }

/-- The size that is still to be sent. -/
def waiting : Option (Int × Int) := r.pendingResize.or r.resizeDebounce

/-! What the operations leave to be sent. -/

@[simp] theorem notifyPinchStart_pendingResize : r.notifyPinchStart.pendingResize = none := rfl

@[simp] theorem notifyPinchStart_waiting : r.notifyPinchStart.waiting = none := rfl

@[simp] theorem detach_pendingResize : r.detach.pendingResize = r.pendingResize := rfl

@[simp] theorem detach_waiting : r.detach.waiting = r.pendingResize := Option.or_none

/-- Ending a pinch hands the stashed size over to the timer. -/
theorem notifyPinchEnd_facts :
    r.notifyPinchEnd.firstResize = r.firstResize ∧ r.notifyPinchEnd.pinchActive = false ∧
      r.notifyPinchEnd.pendingResize = none ∧ r.notifyPinchEnd.resizeDebounce = r.waiting := by
  rw [notifyPinchEnd, waiting]
  cases r.pendingResize with
  | none => exact ⟨rfl, rfl, rfl, rfl⟩
  | some size => exact ⟨rfl, rfl, rfl, rfl⟩

theorem notifyPinchEnd_waiting : r.notifyPinchEnd.waiting = r.waiting := by
  obtain ⟨-, -, hpending, hdebounce⟩ := r.notifyPinchEnd_facts
  rw [waiting, hpending, hdebounce, Option.none_or]

end ResizeState

/-! ## Steps -/

/-- The service with the gesture at the container and the sizes that were reported and sent. -/
structure Resizing where
  service : ResizeState
  attached : Bool
  /-- `_pinching` of the `TerminalContainer`. -/
  pinching : Bool
  /-- The last size reported by the terminal while attached. -/
  reported : Option (Int × Int)
  /-- The last size that `sendResize` sent. -/
  sent : Option (Int × Int)
  /-- The last reported size was cancelled, and it is not the one sent last. -/
  cancelled : Bool

inductive ResizeEvent where
  | attach
  | detach
  | resized (width height : Int)
  /-- A pinch begins at the container, which calls `notifyPinchStart`. -/
  | pinchStart
  /-- The pinch ends at the container, which calls `notifyPinchEnd`. -/
  | pinchEnd
  /-- The container is disposed of, and a gesture in progress with it. -/
  | disposed
  /-- The debounce timer fires. -/
  | debounce

namespace Resizing

/-- A new service, not attached yet. -/
def new : Resizing :=
  { service := .new, attached := false, pinching := false, reported := none, sent := none,
    cancelled := false }

variable (s : Resizing)

/-- What waits now and does not wait in `r` any more would have changed the last size sent. -/
def drops (r : ResizeState) : Bool :=
  s.service.waiting.isSome && r.waiting.isNone && s.service.waiting != s.sent

def step : ResizeEvent → Option Resizing
  | .attach => some { s with attached := true }
  | .detach =>
      some { s with service := s.service.detach, attached := false,
                    cancelled := s.cancelled || s.drops s.service.detach }
  | .resized width height =>
      if s.attached then
        let (service, sizes) := s.service.onResize width height
        -- sizes that are not positive are no sizes
        if width ≤ 0 ∨ height ≤ 0 then some { s with service := service }
        else
          some { s with service := service, reported := some (width, height),
                        sent := sizes.getLast?.or s.sent, cancelled := false }
      else none
  | .pinchStart =>
      some { s with service := s.service.notifyPinchStart, pinching := true,
                    cancelled := s.cancelled || s.drops s.service.notifyPinchStart }
  | .pinchEnd => some { s with service := s.service.notifyPinchEnd, pinching := false }
  | .disposed => some { s with pinching := false }
  | .debounce =>
      s.service.resizeDebounce.map fun size =>
        { s with service := { s.service with resizeDebounce := none }, sent := some size }

/-- Outside gestures and without a running timer, the last size reported was sent. -/
def UpToDate : Prop :=
  s.attached = true → s.pinching = false → s.service.resizeDebounce = none → s.sent = s.reported

/-- No size was cancelled since the last report, and none is stashed that was not sent. -/
def Settled : Prop := s.cancelled = false ∧ ∀ size ∈ s.service.pendingResize, s.sent = some size

/-- The condition on an event. Sizes are stashed for a gesture that is still in progress at the
container, or repeat the last one sent; a gesture that ends has not cancelled the last size; and there is
no unsent size when the service is attached outside a gesture or the container disposed of. -/
def Sends : ResizeEvent → Prop
  | .resized width height =>
      0 < width → 0 < height → s.service.firstResize = false → s.service.pinchActive = true →
        s.pinching = true ∨ s.sent = some (width, height)
  | .pinchEnd => s.attached = true → s.cancelled = false
  | .attach => s.pinching = true ∨ s.Settled
  | .disposed => s.attached = true → s.Settled
  | _ => True

/-- How the fields of the service belong together. -/
structure Coherent : Prop where
  stashed : s.service.pinchActive = false → s.service.pendingResize = none
  held : s.service.pinchActive = true → s.service.resizeDebounce = none
  gesture : s.pinching = true → s.service.pinchActive = true
  lost : s.cancelled = true → s.service.waiting = none ∧ s.sent ≠ s.reported
  newest : s.cancelled = false → s.service.waiting.or s.sent = s.reported
  first : s.service.firstResize = true → s.service.waiting = none ∧ s.sent = none ∧ s.reported = none

section Facts

variable {s t : Resizing} {e : ResizeEvent}

/-- A size that is reported is sent at once, stashed or handed to the timer. -/
theorem step_resized {width height : Int} (hwidth : 0 < width) (hheight : 0 < height)
    (h : s.step (.resized width height) = some t) :
    s.attached = true ∧ t.attached = true ∧ t.pinching = s.pinching ∧
      t.reported = some (width, height) ∧ t.cancelled = false ∧
      t.service.pinchActive = s.service.pinchActive ∧ t.service.firstResize = false ∧
      (s.service.firstResize = true ∧ t.sent = some (width, height) ∧
          t.service.pendingResize = s.service.pendingResize ∧
          t.service.resizeDebounce = s.service.resizeDebounce ∨
        s.service.firstResize = false ∧ t.sent = s.sent ∧
          (s.service.pinchActive = true ∧ t.service.pendingResize = some (width, height) ∧
              t.service.resizeDebounce = s.service.resizeDebounce ∨
            s.service.pinchActive = false ∧ t.service.pendingResize = s.service.pendingResize ∧
              t.service.resizeDebounce = some (width, height))) := by
  have hpos : ¬ (width ≤ 0 ∨ height ≤ 0) := by omega
  rw [step] at h
  split at h
  · rename_i hattached
    rw [ResizeState.onResize, if_neg hpos] at h
    by_cases hfirst : s.service.firstResize = true
    · rw [if_pos hfirst] at h
      obtain rfl := Option.some.inj h
      exact ⟨hattached, hattached, rfl, rfl, rfl, rfl, rfl, Or.inl ⟨hfirst, rfl, rfl, rfl⟩⟩
    · rw [if_neg hfirst] at h
      have hlater : s.service.firstResize = false := by simpa using hfirst
      by_cases hactive : s.service.pinchActive = true
      · rw [if_pos hactive] at h
        obtain rfl := Option.some.inj h
        exact ⟨hattached, hattached, rfl, rfl, rfl, rfl, hlater,
          Or.inr ⟨hlater, rfl, Or.inl ⟨hactive, rfl, rfl⟩⟩⟩
      · rw [if_neg hactive] at h
        obtain rfl := Option.some.inj h
        exact ⟨hattached, hattached, rfl, rfl, rfl, rfl, hlater,
          Or.inr ⟨hlater, rfl, Or.inr ⟨by simpa using hactive, rfl, rfl⟩⟩⟩
  · cases h

/-- A size that is not positive changes nothing. -/
theorem step_resized_skip {width height : Int} (hskip : ¬ (0 < width ∧ 0 < height))
    (h : s.step (.resized width height) = some t) : t = s := by
  have hneg : width ≤ 0 ∨ height ≤ 0 := by omega
  rw [step] at h
  split at h
  · rw [ResizeState.onResize, if_pos hneg] at h
    exact (Option.some.inj h).symm
  · cases h

/-- Without an entry in `cancelled`, taking back what waits leaves the last size sent up to date. -/
theorem cancelled_or_drops {r : ResizeState} (hs : s.Coherent) (hr : r.waiting = none) :
    ((s.cancelled || s.drops r) = true → s.sent ≠ s.reported) ∧
      ((s.cancelled || s.drops r) = false → s.sent = s.reported) := by
  cases hcancelled : s.cancelled with
  | true => simpa using (hs.lost hcancelled).2
  | false =>
      have hnewest := hs.newest hcancelled
      rw [drops, hr]
      cases hwaiting : s.service.waiting with
      | none =>
          rw [hwaiting, Option.none_or] at hnewest
          simp [hnewest]
      | some size =>
          rw [hwaiting, Option.some_or] at hnewest
          rw [← hnewest]
          constructor
          · intro hdropped hsent
            simp [hsent] at hdropped
          · intro hkept
            have heq : some size = s.sent := by simpa using hkept
            exact heq.symm

/-- `detach` cancels the timer and leaves the stash. -/
theorem coherent_detach (hs : s.Coherent) (h : s.step .detach = some t) : t.Coherent := by
  obtain rfl := Option.some.inj h
  cases hpending : s.service.pendingResize with
  | none =>
      have hnone : s.service.detach.waiting = none := by
        rw [ResizeState.detach_waiting, hpending]
      obtain ⟨hlost, hnewest⟩ := cancelled_or_drops hs hnone
      constructor
      · exact hs.stashed
      · intro _
        rfl
      · exact hs.gesture
      · intro hc
        exact ⟨hnone, hlost hc⟩
      · intro hc
        dsimp only
        rw [hnone]
        exact hnewest hc
      · intro hfirst
        exact ⟨hnone, (hs.first hfirst).2⟩
  | some size =>
      -- the stash stays, and no timer runs beside it
      have hactive : s.service.pinchActive = true := by
        by_contra hne
        rw [hs.stashed (by simpa using hne)] at hpending
        cases hpending
      have hsame : s.service.detach.waiting = s.service.waiting := by
        rw [ResizeState.detach_waiting, ResizeState.waiting, hs.held hactive, Option.or_none]
      have hdrops : s.drops s.service.detach = false := by
        rw [drops, hsame]
        cases s.service.waiting <;> rfl
      rw [hdrops, Bool.or_false]
      constructor
      · exact hs.stashed
      · intro _
        rfl
      · exact hs.gesture
      · dsimp only
        rw [hsame]
        exact hs.lost
      · dsimp only
        rw [hsame]
        exact hs.newest
      · dsimp only
        rw [hsame]
        exact hs.first

/-- After the first report, and with nothing taken back, the newest size has to be where it belongs. -/
theorem coherent_of_newest (hcancelled : s.cancelled = false) (hlater : s.service.firstResize = false)
    (hgesture : s.pinching = true → s.service.pinchActive = true)
    (hstashed : s.service.pinchActive = false → s.service.pendingResize = none)
    (hheld : s.service.pinchActive = true → s.service.resizeDebounce = none)
    (hnewest : s.service.waiting.or s.sent = s.reported) : s.Coherent where
  stashed := hstashed
  held := hheld
  gesture := hgesture
  lost hc := by
    rw [hcancelled] at hc
    cases hc
  newest _ := hnewest
  first hfirst := by
    rw [hlater] at hfirst
    cases hfirst

/-- A reported size is the newest one from now on. -/
theorem coherent_resized {width height : Int} (hs : s.Coherent)
    (h : s.step (.resized width height) = some t) : t.Coherent := by
  by_cases hpos : 0 < width ∧ 0 < height
  · obtain ⟨-, -, hpinching, hreported, hcancelled, hactive, hlater, hcase⟩ :=
      step_resized hpos.1 hpos.2 h
    have hgesture : t.pinching = true → t.service.pinchActive = true := by
      rw [hpinching, hactive]
      exact hs.gesture
    apply coherent_of_newest hcancelled hlater hgesture
    · -- only a pinch stashes
      intro hnot
      rw [hactive] at hnot
      rcases hcase with ⟨-, -, hpending, -⟩ | ⟨-, -, ⟨hpinch, -, -⟩ | ⟨-, hpending, -⟩⟩
      · rw [hpending]
        exact hs.stashed hnot
      · rw [hpinch] at hnot
        cases hnot
      · rw [hpending]
        exact hs.stashed hnot
    · -- no timer is started in a pinch
      intro hpinch
      rw [hactive] at hpinch
      rcases hcase with ⟨-, -, -, hdebounce⟩ | ⟨-, -, ⟨-, -, hdebounce⟩ | ⟨hnot, -, -⟩⟩
      · rw [hdebounce]
        exact hs.held hpinch
      · rw [hdebounce]
        exact hs.held hpinch
      · rw [hnot] at hpinch
        cases hpinch
    · rw [hreported]
      rcases hcase with ⟨hfirst, hsent, hpending, hdebounce⟩ | ⟨-, -, hcase⟩
      · -- nothing has waited before the first size
        have hnone : t.service.waiting = none := by
          rw [ResizeState.waiting, hpending, hdebounce]
          exact (hs.first hfirst).1
        rw [hnone, hsent, Option.none_or]
      · rcases hcase with ⟨-, hpending, -⟩ | ⟨hpinch, hpending, hdebounce⟩
        · rw [ResizeState.waiting, hpending]
          rfl
        · rw [ResizeState.waiting, hpending, hs.stashed hpinch, hdebounce]
          rfl
  · rw [step_resized_skip hpos h]
    exact hs

/-- A pinch takes back what waits. -/
theorem coherent_pinchStart (hs : s.Coherent) (h : s.step .pinchStart = some t) : t.Coherent := by
  obtain rfl := Option.some.inj h
  obtain ⟨hlost, hnewest⟩ := cancelled_or_drops (r := s.service.notifyPinchStart) hs rfl
  constructor
  · intro _
    rfl
  · intro _
    rfl
  · intro _
    rfl
  · intro hc
    exact ⟨rfl, hlost hc⟩
  · intro hc
    exact hnewest hc
  · intro hfirst
    exact ⟨rfl, (hs.first hfirst).2⟩

/-- The end of a pinch leaves the newest size with the timer. -/
theorem coherent_pinchEnd (hs : s.Coherent) (h : s.step .pinchEnd = some t) : t.Coherent := by
  obtain rfl := Option.some.inj h
  obtain ⟨hfirst, hactive, hpending, hdebounce⟩ := s.service.notifyPinchEnd_facts
  have hwaiting := s.service.notifyPinchEnd_waiting
  constructor
  · intro _
    exact hpending
  · intro hactive'
    rw [hactive] at hactive'
    cases hactive'
  · intro hpinching
    cases hpinching
  · intro hc
    rw [hwaiting]
    exact hs.lost hc
  · intro hc
    rw [hwaiting]
    exact hs.newest hc
  · intro hfirst'
    rw [hwaiting]
    exact hs.first (hfirst ▸ hfirst')

/-- What the timer is going to send is the last size reported, and nothing is stashed beside it. -/
theorem timer_facts {size : Int × Int} (hs : s.Coherent) (h : s.service.resizeDebounce = some size) :
    s.service.pendingResize = none ∧ s.cancelled = false ∧ s.service.waiting = some size ∧
      s.reported = some size := by
  have hactive : s.service.pinchActive = false := by
    by_contra hne
    rw [hs.held (by simpa using hne)] at h
    cases h
  have hpending := hs.stashed hactive
  have hwaiting : s.service.waiting = some size := by
    rw [ResizeState.waiting, hpending, h, Option.none_or]
  have hkept : s.cancelled = false := by
    by_contra hne
    rw [(hs.lost (by simpa using hne)).1] at hwaiting
    cases hwaiting
  have hnewest := hs.newest hkept
  rw [hwaiting, Option.some_or] at hnewest
  exact ⟨hpending, hkept, hwaiting, hnewest.symm⟩

/-- The timer sends the newest size. -/
theorem coherent_debounce (hs : s.Coherent) (h : s.step .debounce = some t) : t.Coherent := by
  simp only [step, Option.map_eq_some_iff] at h
  obtain ⟨size, hsize, rfl⟩ := h
  obtain ⟨hpending, hkept, hwaiting, hreported⟩ := timer_facts hs hsize
  constructor
  · exact hs.stashed
  · intro _
    rfl
  · exact hs.gesture
  · intro hc
    rw [hkept] at hc
    cases hc
  · intro _
    rw [hreported, ResizeState.waiting]
    exact congrArg (Option.or · (some size)) (congrArg (Option.or · none) hpending)
  · intro hfirst
    rw [(hs.first hfirst).1] at hwaiting
    cases hwaiting

theorem coherent_step (hs : s.Coherent) (h : s.step e = some t) : t.Coherent := by
  cases e with
  | attach =>
      obtain rfl := Option.some.inj h
      obtain ⟨hstashed, hheld, hgesture, hlost, hnewest, hfirst⟩ := hs
      exact ⟨hstashed, hheld, hgesture, hlost, hnewest, hfirst⟩
  | detach => exact coherent_detach hs h
  | resized width height => exact coherent_resized hs h
  | pinchStart => exact coherent_pinchStart hs h
  | pinchEnd => exact coherent_pinchEnd hs h
  | disposed =>
      obtain rfl := Option.some.inj h
      obtain ⟨hstashed, hheld, -, hlost, hnewest, hfirst⟩ := hs
      exact ⟨hstashed, hheld, fun hpinching => absurd hpinching Bool.false_ne_true, hlost, hnewest,
        hfirst⟩
  | debounce => exact coherent_debounce hs h

/-- Without a running timer, a settled state is one whose last size was sent. -/
theorem settled_iff (hs : s.Coherent) :
    s.Settled ↔ (s.service.resizeDebounce = none → s.sent = s.reported) := by
  constructor
  · rintro ⟨hkept, hstash⟩ hdebounce
    have hnewest := hs.newest hkept
    rw [ResizeState.waiting, hdebounce, Option.or_none] at hnewest
    cases hpending : s.service.pendingResize with
    | none => rwa [hpending, Option.none_or] at hnewest
    | some size =>
        rw [hpending, Option.some_or] at hnewest
        rw [← hnewest]
        exact hstash size hpending
  · intro hsent
    have hkept : s.cancelled = false := by
      by_contra hne
      obtain ⟨hwaiting, hdiffers⟩ := hs.lost (by simpa using hne)
      rw [ResizeState.waiting, Option.or_eq_none_iff] at hwaiting
      exact hdiffers (hsent hwaiting.2)
    refine ⟨hkept, ?_⟩
    intro size hsize
    -- a stashed size excludes a running timer
    have hactive : s.service.pinchActive = true := by
      by_contra hne
      rw [hs.stashed (by simpa using hne)] at hsize
      cases hsize
    have hnewest := hs.newest hkept
    have hpending : s.service.pendingResize = some size := hsize
    rw [ResizeState.waiting, hpending, Option.some_or, Option.some_or] at hnewest
    rw [hsent (hs.held hactive), ← hnewest]

theorem upToDate_resized {width height : Int} (hs : s.Coherent) (hup : s.UpToDate)
    (h : s.step (.resized width height) = some t) :
    t.UpToDate ↔ s.Sends (.resized width height) := by
  by_cases hpos : 0 < width ∧ 0 < height
  · obtain ⟨-, hattached, hpinching, hreported, -, -, -, hcase⟩ := step_resized hpos.1 hpos.2 h
    rcases hcase with ⟨hfirst, hsent, -, -⟩ | ⟨hlater, hsent, hcase⟩
    · -- the first size is sent at once
      constructor
      · intro _ _ _ hlater
        rw [hfirst] at hlater
        cases hlater
      · intro _ _ _ _
        rw [hsent, hreported]
    · rcases hcase with ⟨hpinch, -, hdebounce⟩ | ⟨hpinch, -, hdebounce⟩
      · -- a stashed size waits for the end of a gesture that is in progress
        rw [hs.held hpinch] at hdebounce
        constructor
        · intro ht _ _ _ _
          cases hgesture : s.pinching with
          | true => exact Or.inl rfl
          | false =>
              have hsame := ht hattached (hpinching.trans hgesture) hdebounce
              rw [hsent, hreported] at hsame
              exact Or.inr hsame
        · intro hsends _ hnot _
          rw [hpinching] at hnot
          rcases hsends hpos.1 hpos.2 hlater hpinch with hgesture | hsame
          · rw [hgesture] at hnot
            cases hnot
          · rw [hsent, hsame, hreported]
      · -- the timer runs
        constructor
        · intro _ _ _ _ hactive
          rw [hpinch] at hactive
          cases hactive
        · intro _ _ _ hnone
          rw [hdebounce] at hnone
          cases hnone
  · rw [step_resized_skip hpos h]
    exact ⟨fun _ hwidth hheight => absurd ⟨hwidth, hheight⟩ hpos, fun _ => hup⟩

theorem upToDate_step (hs : s.Coherent) (hup : s.UpToDate) (h : s.step e = some t) :
    t.UpToDate ↔ s.Sends e := by
  cases e with
  | attach =>
      obtain rfl := Option.some.inj h
      rw [UpToDate, Sends, settled_iff hs]
      cases s.pinching with
      | true => simp
      | false => simp
  | detach =>
      obtain rfl := Option.some.inj h
      exact ⟨fun _ => trivial, fun _ hattached => absurd hattached Bool.false_ne_true⟩
  | resized width height => exact upToDate_resized hs hup h
  | pinchStart =>
      obtain rfl := Option.some.inj h
      refine ⟨fun _ => trivial, fun _ _ hpinching => ?_⟩
      cases hpinching
  | pinchEnd =>
      obtain rfl := Option.some.inj h
      obtain ⟨-, -, -, hdebounce⟩ := s.service.notifyPinchEnd_facts
      constructor
      · intro ht hattached
        by_contra hne
        -- a cancelled size was the only one that waited
        obtain ⟨hwaiting, hdiffers⟩ := hs.lost (by simpa using hne)
        exact hdiffers (ht hattached rfl (hdebounce.trans hwaiting))
      · intro hsends hattached _ hnone
        have hnewest := hs.newest (hsends hattached)
        rwa [← hdebounce, hnone, Option.none_or] at hnewest
  | disposed =>
      obtain rfl := Option.some.inj h
      rw [UpToDate, Sends, settled_iff hs]
      simp
  | debounce =>
      simp only [step, Option.map_eq_some_iff] at h
      obtain ⟨size, hsize, rfl⟩ := h
      obtain ⟨-, -, -, hreported⟩ := timer_facts hs hsize
      exact ⟨fun _ => trivial, fun _ _ _ _ => hreported.symm⟩

end Facts

/-- The runs in which the last size reported is sent in the end are those whose steps meet the
condition. -/
theorem last_size_sent_iff (es : List ResizeEvent) :
    Along (stepRel step) UpToDate new es ↔ Guarded (stepRel step) Sends new es := by
  apply along_iff_guarded (I := Coherent)
  · intro s e t hs h
    exact coherent_step hs h
  · intro s e t hs hup h
    exact upToDate_step hs hup h
  · constructor
    · intro _
      rfl
    · intro _
      rfl
    · intro hpinching
      cases hpinching
    · intro hc
      cases hc
    · intro _
      rfl
    · intro _
      exact ⟨rfl, rfl, rfl⟩
  · intro _ _ _
    rfl

instance (s : Resizing) : Decidable s.UpToDate :=
  inferInstanceAs (Decidable (s.attached = true → s.pinching = false →
    s.service.resizeDebounce = none → s.sent = s.reported))

/-- A pinch that begins while the timer runs and that changes no size takes the last size back. -/
theorem pinch_drops_resize :
    ∃ s, Run (stepRel step) new [.attach, .resized 80 24, .resized 100 30, .pinchStart, .pinchEnd] s ∧
      s.attached = true ∧ s.service.pinchActive = false ∧ s.service.resizeDebounce = none ∧
      s.reported = some (100, 30) ∧ s.sent = some (80, 24) ∧ ¬ s.UpToDate :=
  exists_run_of_exec (by decide)

end Resizing

end Ktty.Client
