import Ktty.Agent.SampleCrates
import Ktty.Client.TerminalSteps
import Ktty.Lib.Cumulative
import Ktty.Lib.Execution

/-!
# The cumulative acknowledgement

`_lastGoodSeq` is what the client asks the agent to replay from. `Acked` runs an attached
`TerminalService` and records beside it which packets it has passed on, which ranges a `sync_warn` has
reported and from where recoveries have asked for a replay.

The handler takes over the `seq` of every `pty` frame without comparing it with anything. So the
acknowledgement is sound exactly in the runs in which every frame that is passed on carries a `seq` not
below the last one and leaves no gap that no recovery has asked for (`lastGoodSeq_sound_iff`).
-/

set_option autoImplicit false

namespace Ktty.Client

open Ktty.Wire Ktty.Lib Ktty.Lib.Execution

/-! ## Acknowledgements -/

/-- The range of a warning that carries one. -/
def TerminalEffect.warnedRange : TerminalEffect → Option (Int × Int)
  | .warning (some (.int start)) (some (.int stop)) => some (start, stop)
  | _ => none

/-- From where a recovery that an event starts asks for a replay. -/
def TerminalService.recoveryStart (c : TerminalService) : TerminalEvent → List Int
  | .recover => [c.lastGoodSeq]
  | _ => []

/-- An attached service with the record of what it has done since. -/
structure Acked where
  client : TerminalService
  /-- The packets that were passed on for display. -/
  written : List Int
  /-- The ranges of the data loss warnings. -/
  warned : List (Int × Int)
  /-- The `_lastGoodSeq` from which recoveries have asked for a replay. A recovery that is scheduled
  but has not run would ask from the present one. -/
  recoveries : List Int
  /-- The largest value of `_lastGoodSeq`. -/
  peak : Int

namespace Acked

def attached (c : TerminalService) (syncExisting : Bool) : Acked :=
  { client := (c.attach syncExisting).1, written := [], warned := [], recoveries := [], peak := 0 }

section Step

variable (D : Dart)

def step (w : Acked) (e : TerminalEvent) : Option Acked :=
  (w.client.step D e).map fun (c, effs) =>
    { client := c
      written := w.written ++ effs.filterMap TerminalEffect.writtenSeq
      warned := w.warned ++ effs.filterMap TerminalEffect.warnedRange
      recoveries := w.recoveries ++ w.client.recoveryStart e
      peak := max w.peak c.lastGoodSeq }

/-- Packet `m` was passed on, or lies in a range that was reported as lost. -/
def Accounted (w : Acked) (m : Nat) : Prop :=
  (m : Int) ∈ w.written ∨ ∃ r ∈ w.warned, r.1 ≤ m ∧ (m : Int) ≤ r.2

/-- A recovery has asked for the packets from before `m` on. -/
def Recovered (w : Acked) (m : Nat) : Prop := ∃ l ∈ w.recoveries, l < (m : Int)

/-- `_lastGoodSeq` has never decreased, and up to it everything is accounted for or the first missing
packet has been asked for. -/
structure Sound (w : Acked) : Prop where
  monotone : w.peak ≤ w.client.lastGoodSeq
  cumulative : (∀ m : Nat, 1 ≤ m → (m : Int) ≤ w.client.lastGoodSeq → w.Accounted m) ∨
    ∃ m : Nat, (m : Int) ≤ w.client.lastGoodSeq ∧ Cumulative.FirstGap w.Accounted m ∧ w.Recovered m

/-- The condition on a step: a frame that is passed on is not below the last one, and between them is no
first gap that no recovery has asked for. -/
def InSequence (w : Acked) (e : TerminalEvent) : Prop :=
  ∀ n, w.client.passesOn e = some n → w.client.lastGoodSeq ≤ n ∧
    ∀ m : Nat, w.client.lastGoodSeq < m → (m : Int) < n →
      Cumulative.FirstGap w.Accounted m → w.Recovered m

end Step

section Facts

variable {D : Dart} {w v : Acked} {e : TerminalEvent}

theorem sound_iff_cumulative : w.Sound ↔ w.peak ≤ w.client.lastGoodSeq ∧
    Cumulative.Sound w.Accounted w.Recovered w.client.lastGoodSeq := by
  rw [Cumulative.sound_iff]
  exact ⟨fun h => ⟨h.monotone, h.cumulative⟩, fun h => ⟨h.1, h.2⟩⟩

theorem Recovered.mono {k l : Nat} (hkl : k ≤ l) (h : w.Recovered k) : w.Recovered l := by
  obtain ⟨s, hs, hlt⟩ := h
  exact ⟨s, hs, by omega⟩

/-- A step that passes on packet `n` adds it to the record. -/
theorem step_passed {n : Int} (h : step D w e = some v) (hn : w.client.passesOn e = some n) :
    v.client.lastGoodSeq = n ∧ v.peak = max w.peak n ∧
      v.Accounted = (fun m => w.Accounted m ∨ (m : Int) = n) ∧ v.Recovered = w.Recovered := by
  simp only [step, Option.map_eq_some_iff] at h
  obtain ⟨⟨d, effs⟩, hstep, rfl⟩ := h
  obtain ⟨hlast, payload, filtered, rfl⟩ := TerminalService.step_passed hstep hn
  -- an event that passes a frame on starts no recovery:
  have hstart : w.client.recoveryStart e = [] := by
    cases e with
    | recover => cases hn
    | _ => rfl
  refine ⟨hlast, by dsimp only; rw [hlast], ?_, ?_⟩
  -- one number is written, and nothing is warned of:
  · funext m
    have hwritten : [TerminalEffect.output (some (.int n)) payload filtered].filterMap
        TerminalEffect.writtenSeq = [n] := rfl
    have hwarned : [TerminalEffect.output (some (.int n)) payload filtered].filterMap
        TerminalEffect.warnedRange = [] := rfl
    simp only [Accounted, hwritten, hwarned, List.append_nil, List.mem_append, List.mem_singleton,
      eq_iff_iff]
    exact or_right_comm
  · funext m
    simp only [Recovered, hstart, List.append_nil]

/-- Every other step leaves `_lastGoodSeq` and only adds to the record. -/
theorem step_quiet (h : step D w e = some v) (hn : w.client.passesOn e = none) :
    v.client.lastGoodSeq = w.client.lastGoodSeq ∧ v.peak = max w.peak w.client.lastGoodSeq ∧
      (∀ m, w.Accounted m → v.Accounted m) ∧ ∀ m, w.Recovered m → v.Recovered m := by
  simp only [step, Option.map_eq_some_iff] at h
  obtain ⟨⟨d, effs⟩, hstep, rfl⟩ := h
  obtain ⟨hlast, hwritten⟩ := TerminalService.step_quiet hstep hn
  refine ⟨hlast, by dsimp only; rw [hlast], ?_, ?_⟩
  · intro m hm
    rcases hm with hm | ⟨r, hr, hrange⟩
    · exact Or.inl (List.mem_append_left _ hm)
    · exact Or.inr ⟨r, List.mem_append_left _ hr, hrange⟩
  · rintro m ⟨l, hl, hlt⟩
    exact ⟨l, List.mem_append_left _ hl, hlt⟩

/-- The present value of `_lastGoodSeq` is among those that the peak ranges over. -/
theorem step_peak (h : step D w e = some v) : v.client.lastGoodSeq ≤ v.peak := by
  simp only [step, Option.map_eq_some_iff] at h
  obtain ⟨⟨d, effs⟩, -, rfl⟩ := h
  exact Int.le_max_right _ _

/-- One step keeps the acknowledgement sound exactly when it is in sequence. -/
theorem sound_step (hpeak : w.client.lastGoodSeq ≤ w.peak) (hw : w.Sound)
    (h : step D w e = some v) : v.Sound ↔ w.InSequence e := by
  obtain ⟨hmono, hcumulative⟩ := sound_iff_cumulative.1 hw
  -- a sound state stands at its peak:
  have hpeak : w.peak = w.client.lastGoodSeq := Int.le_antisymm hmono hpeak
  rw [sound_iff_cumulative]
  cases hn : w.client.passesOn e with
  | none =>
      -- the number stays, and the record only grows
      obtain ⟨hlast, hmax, hacc, hrec⟩ := step_quiet h hn
      constructor
      · intro _ n hn'
        rw [hn] at hn'
        cases hn'
      · intro _
        refine ⟨?_, ?_⟩
        · rw [hmax, hlast, hpeak]
          omega
        · rw [hlast]
          exact hcumulative.mono hacc hrec fun k l hkl => Recovered.mono hkl
  | some n =>
      -- the number becomes `n`, whether it lies above or below the old one
      obtain ⟨hlast, hmax, hacc, hrec⟩ := step_passed h hn
      constructor
      · rintro ⟨hmono, hcum⟩ n' hn'
        rw [hn] at hn'
        obtain rfl := Option.some.inj hn'
        rw [hmax, hlast, hpeak] at hmono
        rw [hacc, hrec, hlast, Cumulative.sound_insert_iff] at hcum
        exact ⟨by omega, fun m _ hlt hgap => hcum m hlt hgap⟩
      · intro hseq
        obtain ⟨hle, hgaps⟩ := hseq n hn
        refine ⟨?_, ?_⟩
        · rw [hmax, hlast, hpeak]
          omega
        · rw [hacc, hrec, hlast, Cumulative.sound_insert_iff]
          intro m hlt hgap
          -- up to the old number the soundness before the step answers for the gap
          by_cases hm : (m : Int) ≤ w.client.lastGoodSeq
          · exact hcumulative m hm hgap
          · exact hgaps m (by omega) hlt hgap

end Facts

/-- The runs after an attach in which `_lastGoodSeq` is a sound cumulative acknowledgement are those
that pass on frames in sequence. -/
theorem lastGoodSeq_sound_iff (D : Dart) (c : TerminalService) (syncExisting : Bool)
    (es : List TerminalEvent) :
    Along (stepRel (step D)) Sound (attached c syncExisting) es ↔
      Guarded (stepRel (step D)) InSequence (attached c syncExisting) es := by
  apply along_iff_guarded (I := fun w => w.client.lastGoodSeq ≤ w.peak)
  · intro w e v _ h
    exact step_peak h
  · intro w e v hpeak hw h
    exact sound_step hpeak hw h
  · exact Int.le_refl 0
  · refine ⟨Int.le_refl 0, Or.inl ?_⟩
    intro m hpos hle
    have hle : (m : Int) ≤ 0 := hle
    omega

/-! ## A lost packet -/

namespace Sample

open Agent.Sample (output)

/-- Libraries that read the chunks 1 and 3. -/
def dart : Dart :=
  Agent.Sample.dart
    (((output 1 [120]).toList ++ (output 3 [120]).toList).map EncryptedEnvelope.toJson)

end Sample

open Agent.Sample (frame service)

/-- The relay drops chunk 2; chunk 3 moves `_lastGoodSeq` over it, and no recovery is scheduled. -/
theorem dropped_chunk_is_acknowledged :
    ∃ w, Run (stepRel (step Sample.dart)) (attached service true)
        [.message (frame 1 [120]), .decrypted 0, .message (frame 3 [120]), .decrypted 0] w ∧
      w.client.lastGoodSeq = 3 ∧ w.written = [1, 3] ∧ w.recoveries = [] ∧ ¬ w.Sound := by
  obtain ⟨w, hrun, hlast, hwritten, hwarned, hrec⟩ : ∃ w, Run (stepRel (step Sample.dart))
      (attached service true)
      [.message (frame 1 [120]), .decrypted 0, .message (frame 3 [120]), .decrypted 0] w ∧
        w.client.lastGoodSeq = 3 ∧ w.written = [1, 3] ∧ w.warned = [] ∧ w.recoveries = [] :=
    exists_run_of_exec (by decide +kernel)
  refine ⟨w, hrun, hlast, hwritten, hrec, fun hw => ?_⟩
  have hacc : ∀ m, w.Accounted m ↔ m = 1 ∨ m = 3 := by
    intro m
    simp only [Accounted, hwritten, hwarned, List.mem_cons, List.not_mem_nil, or_false,
      false_and, exists_false]
    omega
  -- chunk 2 is the first gap, and nothing has asked for it:
  have hgap : Cumulative.FirstGap w.Accounted 2 := by
    refine ⟨by omega, ?_, ?_⟩
    · rw [hacc]
      omega
    · intro k hk hlt
      rw [hacc]
      omega
  obtain ⟨l, hl, -⟩ := (sound_iff_cumulative.1 hw).2 2 (by omega) hgap
  rw [hrec] at hl
  cases hl

end Acked

end Ktty.Client
