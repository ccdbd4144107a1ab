import Ktty.Client.LocalEcho
import Ktty.Client.TerminalSteps

/-!
# The order of rendering

The listener starts `_handleMessage` for every frame without waiting for it, so a frame is rendered when
its decryption completes. `Rendering` numbers the `pty` frames in the order of their arrival and records
in which order their payloads are passed on. They are passed on in the order of arrival exactly when each
decryption that completes is the one of the frame that has waited longest (`rendered_in_order_iff`).
-/

set_option autoImplicit false

namespace Ktty.Client

open Ktty.Wire Ktty.Lib.Execution

/-- A `pty` frame whose decryption succeeds. -/
def Pending.Decrypts (p : Pending) : Prop := p.kind = .pty ∧ p.outcome.isSome

instance (p : Pending) : Decidable p.Decrypts :=
  inferInstanceAs (Decidable (p.kind = .pty ∧ p.outcome.isSome))

/-- The texts that the listener gets are `pty` frames of the session whose decryption succeeds. -/
def TerminalService.ValidFrame (D : Dart) (c : TerminalService) : TerminalEvent → Prop
  | .message raw => ∃ p ∈ (c.arrival D raw).waiting, p.Decrypts
  | _ => True

instance (D : Dart) (c : TerminalService) (e : TerminalEvent) : Decidable (c.ValidFrame D e) :=
  match e with
  | .message raw => inferInstanceAs (Decidable (∃ p ∈ (c.arrival D raw).waiting, p.Decrypts))
  | .decrypted _ | .recover | .recovered | .typed _ | .injected _ | .flush | .sent _ | .session _
  | .reattachAfterReconnect => isTrue trivial

/-- An attached service with the numbers of its frames, in the order of their arrival. -/
structure Rendering where
  service : TerminalService
  /-- How many frames have arrived. -/
  arrived : Nat
  /-- The numbers of the frames that wait for their decryption. -/
  waiting : List Nat
  /-- The numbers of the frames whose payloads were passed on, in the order in which this happened. -/
  rendered : List Nat

namespace Rendering

def attached (c : TerminalService) (syncExisting : Bool) : Rendering :=
  { service := (c.attach syncExisting).1, arrived := 0, waiting := [], rendered := [] }

section Step

variable (D : Dart)

/-- The numbers of the frames that an event completes. -/
def completes (r : Rendering) : TerminalEvent → List Nat
  | .decrypted i => r.waiting[i]?.toList
  | _ => []

/-- How many frames have arrived behind an event. -/
def arrivedAfter (r : Rendering) : TerminalEvent → Nat
  | .message _ => r.arrived + 1
  | _ => r.arrived

/-- The waiting frames behind an event. -/
def waitingAfter (r : Rendering) : TerminalEvent → List Nat
  | .message _ => r.waiting ++ [r.arrived]
  | .decrypted i => r.waiting.eraseIdx i
  | _ => r.waiting

/-- A step in which the listener only gets valid frames. -/
def step (r : Rendering) (e : TerminalEvent) : Option Rendering :=
  if r.service.ValidFrame D e then
    (r.service.step D e).map fun (c, effs) =>
      { service := c
        arrived := r.arrivedAfter e
        waiting := r.waitingAfter e
        -- one number for each payload that goes through `_stripPredictedEcho`
        rendered := r.rendered ++ (effs.filterMap TerminalEffect.shown).flatMap fun _ => r.completes e }
  else none

/-- What was passed on are the first frames, in the order of their arrival. -/
def InOrder (r : Rendering) : Prop := r.rendered = List.range r.rendered.length

/-- The decryption that completes is the one of the frame that has waited longest. -/
def Oldest (_ : Rendering) : TerminalEvent → Prop
  | .decrypted i => i = 0
  | _ => True

/-- A frame is either waiting or rendered, and the waiting ones are in order. -/
structure Numbered (r : Rendering) : Prop where
  decrypts : ∀ p ∈ r.service.pending, p.Decrypts
  length : r.waiting.length = r.service.pending.length
  sorted : r.waiting.Pairwise (· < ·)
  covered : ∀ n, n ∈ r.waiting ∨ n ∈ r.rendered ↔ n < r.arrived
  apart : ∀ n ∈ r.waiting, n ∉ r.rendered

end Step

section Facts

variable {D : Dart} {r s : Rendering} {e : TerminalEvent}

theorem step_inv (h : step D r e = some s) :
    r.service.ValidFrame D e ∧ ∃ effs, r.service.step D e = some (s.service, effs) ∧
      s.arrived = r.arrivedAfter e ∧ s.waiting = r.waitingAfter e ∧
      s.rendered =
        r.rendered ++ (effs.filterMap TerminalEffect.shown).flatMap fun _ => r.completes e := by
  rw [step] at h
  split at h
  · rename_i hvalid
    obtain ⟨⟨c, effs⟩, hstep, rfl⟩ := Option.map_eq_some_iff.1 h
    exact ⟨hvalid, effs, hstep, rfl, rfl, rfl⟩
  · cases h

/-- A text brings one frame, which waits behind the others. -/
theorem step_message {raw : Text} (h : step D r (.message raw) = some s) :
    s.arrived = r.arrived + 1 ∧ s.waiting = r.waiting ++ [r.arrived] ∧ s.rendered = r.rendered ∧
      ∃ p, p.Decrypts ∧ s.service.pending = r.service.pending ++ [p] := by
  obtain ⟨⟨p, hp, hdecrypts⟩, effs, hstep, harrived, hwaiting, hrendered⟩ := step_inv h
  obtain ⟨hpending, rfl⟩ := TerminalService.step_message hstep
  refine ⟨harrived, hwaiting, ?_, p, hdecrypts, ?_⟩
  · rw [hrendered]
    exact List.append_nil _
  · rw [hpending]
    cases harr : r.service.arrival D raw with
    | decrypt q =>
        rw [harr] at hp
        rw [List.mem_singleton.1 hp]
        rfl
    | _ =>
        rw [harr] at hp
        cases hp

/-- A completed decryption takes the frame off the waiting ones and passes its payload on. -/
theorem step_decrypted {i : Nat} (hr : r.Numbered) (h : step D r (.decrypted i) = some s) :
    ∃ n, r.waiting[i]? = some n ∧ s.arrived = r.arrived ∧ s.waiting = r.waiting.eraseIdx i ∧
      s.rendered = r.rendered ++ [n] ∧ s.service.pending = r.service.pending.eraseIdx i := by
  obtain ⟨-, effs, hstep, harrived, hwaiting, hrendered⟩ := step_inv h
  obtain ⟨p, hp, hpending, hshown, -⟩ := TerminalService.step_decrypted hstep
  have hlt : i < r.waiting.length := by
    rw [hr.length]
    exact (List.getElem?_eq_some_iff.1 hp).1
  have hn : r.waiting[i]? = some r.waiting[i] := List.getElem?_eq_getElem hlt
  -- the frame decrypts, so it passes on one payload
  obtain ⟨x, hx⟩ : ∃ x, p.shown = [x] := by
    have hdecrypts := hr.decrypts p (List.mem_of_getElem? hp)
    obtain ⟨kind, seq, outcome⟩ := p
    obtain ⟨rfl, hsome⟩ := hdecrypts
    obtain ⟨bytes, rfl⟩ := Option.isSome_iff_exists.1 hsome
    exact ⟨_, rfl⟩
  refine ⟨r.waiting[i], hn, harrived, hwaiting, ?_, hpending⟩
  rw [hrendered, hshown, hx]
  simp [completes, hn]

/-- Every other step leaves the frames alone. -/
theorem step_idle (h : step D r e = some s) (hm : ∀ raw, e ≠ .message raw)
    (hd : ∀ i, e ≠ .decrypted i) :
    s.arrived = r.arrived ∧ s.waiting = r.waiting ∧ s.rendered = r.rendered ∧
      s.service.pending = r.service.pending := by
  obtain ⟨-, effs, hstep, harrived, hwaiting, hrendered⟩ := step_inv h
  have hidle := TerminalService.step_idle hstep hm hd
  rw [hidle.shown] at hrendered
  cases e with
  | message raw => exact absurd rfl (hm raw)
  | decrypted i => exact absurd rfl (hd i)
  | _ => exact ⟨harrived, hwaiting, hrendered.trans (List.append_nil _), hidle.pending⟩

theorem numbered_message {raw : Text} (hr : r.Numbered) (h : step D r (.message raw) = some s) :
    s.Numbered := by
  obtain ⟨harrived, hwaiting, hrendered, p, hdecrypts, hpending⟩ := step_message h
  constructor
  · intro q hq
    rw [hpending, List.mem_append, List.mem_singleton] at hq
    rcases hq with hq | rfl
    · exact hr.decrypts q hq
    · exact hdecrypts
  · simp [hwaiting, hpending, hr.length]
  · rw [hwaiting, List.pairwise_append]
    refine ⟨hr.sorted, List.pairwise_singleton _ _, ?_⟩
    intro n hn m hm
    rw [List.mem_singleton.1 hm]
    exact (hr.covered n).1 (Or.inl hn)
  · intro n
    simp only [hwaiting, hrendered, harrived, List.mem_append, List.mem_singleton]
    rw [or_right_comm, hr.covered n, Nat.lt_succ_iff, Nat.le_iff_lt_or_eq]
  · intro n hn
    rw [hrendered]
    rw [hwaiting, List.mem_append, List.mem_singleton] at hn
    rcases hn with hn | rfl
    · exact hr.apart n hn
    · -- the new number is above those that are rendered
      intro hmem
      exact absurd ((hr.covered _).1 (Or.inr hmem)) (Nat.lt_irrefl _)

theorem numbered_decrypted {i : Nat} (hr : r.Numbered) (h : step D r (.decrypted i) = some s) :
    s.Numbered := by
  obtain ⟨n, hn, harrived, hwaiting, hrendered, hpending⟩ := step_decrypted hr h
  obtain ⟨hi, hni⟩ := List.getElem?_eq_some_iff.1 hn
  have hnodup : r.waiting.Nodup := hr.sorted.imp Nat.ne_of_lt
  -- the other waiting frames stay
  have hmem : ∀ m, m ∈ r.waiting.eraseIdx i ↔ m ∈ r.waiting ∧ m ≠ n := by
    intro m
    rw [← hnodup.erase_getElem i hi, hni, hnodup.mem_erase_iff, and_comm]
  constructor
  · intro q hq
    rw [hpending] at hq
    exact hr.decrypts q (List.mem_of_mem_eraseIdx hq)
  · rw [hwaiting, hpending, List.length_eraseIdx, List.length_eraseIdx, hr.length]
  · rw [hwaiting]
    exact hr.sorted.sublist (List.eraseIdx_sublist _ i)
  · intro m
    have hcovered := hr.covered m
    have hn : n ∈ r.waiting := List.mem_of_getElem? hn
    simp only [hwaiting, hrendered, harrived, hmem, List.mem_append, List.mem_singleton]
    by_cases hm : m = n
    · subst hm
      simp [← hcovered, hn]
    · simp [hm, hcovered]
  · intro m hm
    rw [hwaiting, hmem] at hm
    simp [hrendered, hr.apart m hm.1, hm.2]

theorem numbered_step (hr : r.Numbered) (h : step D r e = some s) : s.Numbered := by
  by_cases hm : ∃ raw, e = .message raw
  · obtain ⟨raw, rfl⟩ := hm
    exact numbered_message hr h
  · by_cases hd : ∃ i, e = .decrypted i
    · obtain ⟨i, rfl⟩ := hd
      exact numbered_decrypted hr h
    · obtain ⟨harrived, hwaiting, hrendered, hpending⟩ :=
        step_idle h (fun raw he => hm ⟨raw, he⟩) fun i he => hd ⟨i, he⟩
      obtain ⟨hdecrypts, hlength, hsorted, hcovered, hapart⟩ := hr
      exact ⟨by rwa [hpending], by rwa [hwaiting, hpending], by rwa [hwaiting],
        by rwa [hwaiting, hrendered, harrived], by rwa [hwaiting, hrendered]⟩

/-- Once the first `k` frames are rendered, the next one is the first of the waiting ones. -/
theorem next_iff {i n k : Nat} (hr : r.Numbered) (hk : r.rendered = List.range k)
    (hn : r.waiting[i]? = some n) : n = k ↔ i = 0 := by
  obtain ⟨hi, hni⟩ := List.getElem?_eq_some_iff.1 hn
  have hlow : ∀ m ∈ r.waiting, k ≤ m := by
    intro m hm
    have hapart := hr.apart m hm
    rw [hk, List.mem_range] at hapart
    omega
  have hordered := List.pairwise_iff_getElem.1 hr.sorted
  constructor
  · rintro rfl
    by_contra hpos
    have hfirst : r.waiting[0] < r.waiting[i] := hordered 0 i (by omega) hi (by omega)
    have hge := hlow r.waiting[0] (List.getElem_mem _)
    omega
  · rintro rfl
    -- frame `k` has arrived and is not rendered, so it waits
    have hnlt : n < r.arrived := (hr.covered n).1 (Or.inl (List.mem_of_getElem? hn))
    have hge := hlow n (List.mem_of_getElem? hn)
    have hkmem : k ∈ r.waiting := by
      rcases (hr.covered k).2 (by omega) with hmem | hmem
      · exact hmem
      · rw [hk, List.mem_range] at hmem
        omega
    obtain ⟨j, hj, hjk⟩ := List.getElem_of_mem hkmem
    by_cases hzero : j = 0
    · subst hzero
      omega
    · have hlt : r.waiting[0] < r.waiting[j] := hordered 0 j hi hj (by omega)
      omega

theorem inOrder_step (hr : r.Numbered) (horder : r.InOrder) (h : step D r e = some s) :
    s.InOrder ↔ r.Oldest e := by
  by_cases hd : ∃ i, e = .decrypted i
  · obtain ⟨i, rfl⟩ := hd
    obtain ⟨n, hn, -, -, hrendered, -⟩ := step_decrypted hr h
    have hnext := next_iff hr horder hn
    rw [InOrder, hrendered, List.length_append, List.length_singleton, List.range_succ, ← horder,
      List.append_cancel_left_eq, List.singleton_inj, hnext]
    rfl
  · -- nothing is rendered
    have hsame : s.rendered = r.rendered := by
      by_cases hm : ∃ raw, e = .message raw
      · obtain ⟨raw, rfl⟩ := hm
        exact (step_message h).2.2.1
      · exact (step_idle h (fun raw he => hm ⟨raw, he⟩) fun i he => hd ⟨i, he⟩).2.2.1
    have holdest : r.Oldest e := by
      cases e with
      | decrypted i => exact absurd ⟨i, rfl⟩ hd
      | _ => exact trivial
    rw [InOrder, hsame]
    exact ⟨fun _ => holdest, fun _ => horder⟩

end Facts

/-- The runs on valid frames in which the payloads are passed on in the order of arrival are those in
which each decryption that completes is the one of the frame that has waited longest. -/
theorem rendered_in_order_iff (D : Dart) (c : TerminalService) (syncExisting : Bool)
    (es : List TerminalEvent) (hpending : c.pending = []) :
    Along (stepRel (step D)) InOrder (attached c syncExisting) es ↔
      Guarded (stepRel (step D)) Oldest (attached c syncExisting) es := by
  apply along_iff_guarded (I := Numbered)
  · intro r e s hr h
    exact numbered_step hr h
  · intro r e s hr horder h
    exact inOrder_step hr horder h
  · have hnone : (attached c syncExisting).service.pending = [] := hpending
    constructor
    · simp [hnone]
    · rw [hnone]
      rfl
    · exact List.Pairwise.nil
    · simp [attached]
    · simp [attached]
  · rfl

/-! ## Two frames -/

section Sample

open Typing.Sample (dart)
open Agent.Sample (frame)

instance (r : Rendering) (e : TerminalEvent) : Decidable (r.Oldest e) :=
  match e with
  | .decrypted i => inferInstanceAs (Decidable (i = 0))
  | .message _ | .recover | .recovered | .typed _ | .injected _ | .flush | .sent _ | .session _
  | .reattachAfterReconnect => isTrue trivial

instance (r : Rendering) : Decidable r.InOrder :=
  inferInstanceAs (Decidable (r.rendered = List.range r.rendered.length))

/-- Two frames whose decryptions complete in the order of arrival. -/
theorem rendered_in_order_of_two :
    Along (stepRel (step dart)) InOrder (attached Agent.Sample.service true)
        [.message (frame 1 [97]), .message (frame 2 [98]), .decrypted 0, .decrypted 0] ↔
      Guarded (stepRel (step dart)) Oldest (attached Agent.Sample.service true)
        [.message (frame 1 [97]), .message (frame 2 [98]), .decrypted 0, .decrypted 0] :=
  rendered_in_order_iff dart Agent.Sample.service true _ rfl

/-- The second of two frames is decrypted first, and the terminal gets `ba` for the output `ab`. -/
theorem second_frame_rendered_first :
    ∃ r, Run (stepRel (step dart)) (attached Agent.Sample.service true)
        [.message (frame 1 [97]), .message (frame 2 [98]), .decrypted 1, .decrypted 0] r ∧
      r.service.pending.length = 0 ∧ r.rendered = [1, 0] ∧ ¬ r.InOrder :=
  exists_run_of_exec (by decide +kernel)

end Sample

end Rendering

end Ktty.Client
