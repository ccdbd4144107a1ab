/-!
# Labelled executions

A system is a relation `R s e t`: in state `s` the event `e` can lead to `t`. A run is a list of
events with the states between them (`Run`). Two predicates speak about all states of the runs of an
event list: `Along R P s es` says that `P` holds in every state those runs pass through, and
`Guarded R C s es` that every step they take meets the condition `C` on the state before it and on its
event.

The rules below turn facts about one step into facts about runs. `along_of_inductive` is the invariant
rule for runs whose steps meet a condition. `along_iff_guarded` characterizes the runs that stay inside
`P` by the steps they take: if, under an invariant, a step out of a `P` state lands in `P` exactly when
it meets `C`, then a run stays inside `P` exactly when all its steps meet `C`.

A deterministic system is given by a partial step function, read as a relation by `stepRel` and run by
`exec`.
-/

set_option autoImplicit false

namespace Ktty.Lib.Execution

universe u v

variable {σ : Type u} {ε : Type v}

/-- A run from `s` to `t` with its events in order. -/
inductive Run (R : σ → ε → σ → Prop) : σ → List ε → σ → Prop
  | nil (s : σ) : Run R s [] s
  | cons {s m t : σ} {e : ε} {es : List ε} : R s e m → Run R m es t → Run R s (e :: es) t

theorem Run.append {R : σ → ε → σ → Prop} {s m t : σ} {es fs : List ε} (h : Run R s es m)
    (k : Run R m fs t) : Run R s (es ++ fs) t := by
  induction h with
  | nil s => exact k
  | cons hstep _ ih => exact Run.cons hstep (ih k)

/-- `P` holds in every state that the runs of `es` from `s` pass through, both ends included. -/
def Along (R : σ → ε → σ → Prop) (P : σ → Prop) : σ → List ε → Prop
  | s, [] => P s
  | s, e :: es => P s ∧ ∀ m, R s e m → Along R P m es

/-- Every step that the runs of `es` from `s` take meets `C` in the state before it. -/
def Guarded (R : σ → ε → σ → Prop) (C : σ → ε → Prop) : σ → List ε → Prop
  | _, [] => True
  | s, e :: es => ∀ m, R s e m → C s e ∧ Guarded R C m es

section Rules

variable {R : σ → ε → σ → Prop} {I P : σ → Prop} {C : σ → ε → Prop}

theorem Along.head {s : σ} {es : List ε} (h : Along R P s es) : P s := by
  cases es with
  | nil => exact h
  | cons e es => exact h.1

theorem Along.last {s t : σ} {es : List ε} (h : Along R P s es) (hrun : Run R s es t) : P t := by
  induction hrun with
  | nil s => exact h
  | cons hstep _ ih => exact ih (h.2 _ hstep)

/-- A step in the middle of a guarded run meets the condition. -/
theorem Guarded.step {s t m : σ} {e : ε} {es fs : List ε} (h : Guarded R C s (es ++ e :: fs))
    (hrun : Run R s es t) (hstep : R t e m) : C t e := by
  induction hrun with
  | nil s => exact (h m hstep).1
  | cons hfirst _ ih => exact ih (h _ hfirst).2 hstep

/-- A condition that follows from an invariant is met by every step. -/
theorem guarded_of_invariant (hI : ∀ s e m, I s → R s e m → I m)
    (hC : ∀ s e m, I s → R s e m → C s e) {s : σ} (es : List ε) (hs : I s) : Guarded R C s es := by
  induction es generalizing s with
  | nil => exact trivial
  | cons e es ih =>
    intro m hm
    exact ⟨hC s e m hs hm, ih (hI s e m hs hm)⟩

/-- The invariant rule: guarded steps keep `I`, and `I` implies `P`. -/
theorem along_of_inductive (hI : ∀ s e m, I s → R s e m → C s e → I m) (hP : ∀ s, I s → P s)
    {s : σ} {es : List ε} (hs : I s) (h : Guarded R C s es) : Along R P s es := by
  induction es generalizing s with
  | nil => exact hP s hs
  | cons e es ih =>
    refine ⟨hP s hs, fun m hm => ?_⟩
    obtain ⟨hC, hrest⟩ := h m hm
    exact ih (hI s e m hs hm hC) hrest

/-- Steps that meet `C` and so keep `I` meet whatever follows from both. -/
theorem guarded_of_guarded {D : σ → ε → Prop} (hI : ∀ s e m, I s → R s e m → C s e → I m)
    (hD : ∀ s e m, I s → R s e m → C s e → D s e) {s : σ} {es : List ε}
    (hs : I s) (h : Guarded R C s es) : Guarded R D s es := by
  induction es generalizing s with
  | nil => exact trivial
  | cons e es ih =>
    intro m hm
    obtain ⟨hC, hrest⟩ := h m hm
    exact ⟨hD s e m hs hm hC, ih (hI s e m hs hm hC) hrest⟩

/-- Two conditions that come to the same on every step, under an invariant, guard the same runs. -/
theorem guarded_iff_guarded {D : σ → ε → Prop} (hI : ∀ s e m, I s → R s e m → I m)
    (hCD : ∀ s e m, I s → R s e m → (C s e ↔ D s e)) {s : σ} (es : List ε) (hs : I s) :
    Guarded R C s es ↔ Guarded R D s es := by
  constructor
  · exact guarded_of_guarded (fun s e m hs hm _ => hI s e m hs hm)
      (fun s e m hs hm hC => (hCD s e m hs hm).1 hC) hs
  · exact guarded_of_guarded (fun s e m hs hm _ => hI s e m hs hm)
      (fun s e m hs hm hD => (hCD s e m hs hm).2 hD) hs

/-- The invariant rule for all runs. -/
theorem along_of_invariant (hI : ∀ s e m, I s → R s e m → I m) (hP : ∀ s, I s → P s)
    {s : σ} (es : List ε) (hs : I s) : Along R P s es := by
  induction es generalizing s with
  | nil => exact hP s hs
  | cons e es ih => exact ⟨hP s hs, fun m hm => ih (hI s e m hs hm)⟩

/-- Guarded steps keep `P` under an invariant that every step keeps. -/
theorem along_of_guarded (hI : ∀ s e m, I s → R s e m → I m)
    (hP : ∀ s e m, I s → P s → R s e m → C s e → P m) {s : σ} {es : List ε}
    (hs : I s) (hPs : P s) (h : Guarded R C s es) : Along R P s es := by
  apply along_of_inductive (I := fun s => I s ∧ P s) (C := C)
  · rintro s e m ⟨hs, hPs⟩ hm hC
    exact ⟨hI s e m hs hm, hP s e m hs hPs hm hC⟩
  · intro s hs
    exact hs.2
  · exact ⟨hs, hPs⟩
  · exact h

/-- The invariant rule for runs that are known to stay inside `P`. -/
theorem along_of_along {Q : σ → Prop} (hI : ∀ s e m, I s → P s → R s e m → C s e → P m → I m)
    (hQ : ∀ s, I s → Q s) {s : σ} {es : List ε} (hs : I s) (h : Guarded R C s es)
    (hP : Along R P s es) : Along R Q s es := by
  induction es generalizing s with
  | nil => exact hQ s hs
  | cons e es ih =>
    refine ⟨hQ s hs, fun m hm => ?_⟩
    obtain ⟨hC, hrest⟩ := h m hm
    have hPrest : Along R P m es := hP.2 m hm
    exact ih (hI s e m hs hP.1 hm hC hPrest.head) hrest hPrest

/-- The runs that stay inside `P` are the runs all of whose steps meet `C`, if that is so for each
single step out of a `P` state that satisfies the invariant `I`. -/
theorem along_iff_guarded (hI : ∀ s e m, I s → R s e m → I m)
    (hP : ∀ s e m, I s → P s → R s e m → (P m ↔ C s e)) {s : σ} (es : List ε)
    (hs : I s) (hPs : P s) : Along R P s es ↔ Guarded R C s es := by
  constructor
  · intro h
    induction es generalizing s with
    | nil => exact trivial
    | cons e es ih =>
      intro m hm
      have hrest : Along R P m es := h.2 m hm
      exact ⟨(hP s e m hs hPs hm).1 hrest.head, ih (hI s e m hs hm) hrest.head hrest⟩
  · exact along_of_guarded hI (fun s e m hs hPs hm hC => (hP s e m hs hPs hm).2 hC) hs hPs

/-- Two systems whose steps agree under an invariant of one of them have the same runs. -/
theorem run_iff_of_agree {R' : σ → ε → σ → Prop} (hI : ∀ s e m, I s → R s e m → I m)
    (hagree : ∀ s e m, I s → (R' s e m ↔ R s e m)) {s t : σ} {es : List ε} (hs : I s) :
    Run R' s es t ↔ Run R s es t := by
  constructor
  · intro h
    induction h with
    | nil s => exact Run.nil s
    | cons hstep _ ih =>
      have hm := (hagree _ _ _ hs).1 hstep
      exact Run.cons hm (ih (hI _ _ _ hs hm))
  · intro h
    induction h with
    | nil s => exact Run.nil s
    | cons hstep _ ih => exact Run.cons ((hagree _ _ _ hs).2 hstep) (ih (hI _ _ _ hs hstep))

end Rules

/-! ## Deterministic systems -/

/-- The relation of a partial step function. -/
def stepRel (step : σ → ε → Option σ) (s : σ) (e : ε) (t : σ) : Prop := step s e = some t

/-- Run a partial step function over a list of events. -/
def exec (step : σ → ε → Option σ) : σ → List ε → Option σ
  | s, [] => some s
  | s, e :: es => (step s e).bind fun m => exec step m es

theorem run_of_exec {step : σ → ε → Option σ} {s t : σ} {es : List ε}
    (h : exec step s es = some t) : Run (stepRel step) s es t := by
  induction es generalizing s with
  | nil =>
    simp only [exec, Option.some.injEq] at h
    subst h
    exact Run.nil s
  | cons e es ih =>
    simp only [exec, Option.bind_eq_some_iff] at h
    obtain ⟨m, hm, hrest⟩ := h
    exact Run.cons hm (ih hrest)

/-- `C` holds at every step of a run of a partial step function. -/
def checkAll (step : σ → ε → Option σ) (C : σ → ε → Bool) : σ → List ε → Bool
  | _, [] => true
  | s, e :: es =>
      match step s e with
      | some m => C s e && checkAll step C m es
      | none => true

/-- Conditions on the steps of a concrete run can be checked by evaluation. -/
theorem guarded_of_checkAll {step : σ → ε → Option σ} {C : σ → ε → Prop}
    [∀ s e, Decidable (C s e)] {s : σ} {es : List ε}
    (h : checkAll step (fun s e => decide (C s e)) s es = true) : Guarded (stepRel step) C s es := by
  induction es generalizing s with
  | nil => exact trivial
  | cons e es ih =>
    intro m hm
    have hstep : step s e = some m := hm
    rw [checkAll, hstep] at h
    simp only [Bool.and_eq_true, decide_eq_true_eq] at h
    exact ⟨h.1, ih h.2⟩

/-- `P` holds in every state of a run of a partial step function. -/
def holdsAlong (step : σ → ε → Option σ) (P : σ → Bool) : σ → List ε → Bool
  | s, [] => P s
  | s, e :: es =>
      P s &&
        match step s e with
        | some m => holdsAlong step P m es
        | none => true

/-- A test on all states of a concrete run can be checked by evaluation. -/
theorem along_of_holdsAlong {step : σ → ε → Option σ} {P : σ → Prop} [∀ s, Decidable (P s)]
    {s : σ} {es : List ε} (h : holdsAlong step (fun s => decide (P s)) s es = true) :
    Along (stepRel step) P s es := by
  induction es generalizing s with
  | nil =>
    have hP : P s := of_decide_eq_true h
    exact hP
  | cons e es ih =>
    rw [holdsAlong, Bool.and_eq_true] at h
    have hP : P s := of_decide_eq_true h.1
    refine ⟨hP, fun m hm => ?_⟩
    have hstep : step s e = some m := hm
    rw [hstep] at h
    exact ih h.2

/-- A test on the last state of a run can be checked by evaluation. -/
theorem exists_run_of_exec {step : σ → ε → Option σ} {P : σ → Prop} [∀ s, Decidable (P s)]
    {s : σ} {es : List ε} (h : (exec step s es).any (fun t => decide (P t)) = true) :
    ∃ t, Run (stepRel step) s es t ∧ P t := by
  rw [Option.any_eq_true] at h
  obtain ⟨t, ht, hP⟩ := h
  exact ⟨t, run_of_exec ht, of_decide_eq_true hP⟩

end Ktty.Lib.Execution
