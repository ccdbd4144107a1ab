import Mathlib.Data.Set.Basic

/-!
# Deduction from a set of messages

A rule says that a message can be computed from a list of others. `Deducible rule S` is everything that
can be computed from the messages of `S` by finitely many applications of the rules.

`Deducible.mem_of_closed` is the method by which a message is shown not to be deducible: a set that
contains `S` and is closed under the rules contains every deducible message.
-/

set_option autoImplicit false

namespace Ktty.Lib.Deduction

universe u

variable {M : Type u}

/-- The messages that can be computed from those of `S`; `rule ts t` says that `t` can be computed from
the messages `ts`. -/
inductive Deducible (rule : List M → M → Prop) (S : Set M) : M → Prop
  | base {t : M} : t ∈ S → Deducible rule S t
  | apply {ts : List M} {t : M} : rule ts t → (∀ s ∈ ts, Deducible rule S s) → Deducible rule S t

/-- No rule leads out of `T`. -/
def Closed (rule : List M → M → Prop) (T : Set M) : Prop :=
  ∀ ts t, rule ts t → (∀ s ∈ ts, s ∈ T) → t ∈ T

/-- The rules but for the one application that computes `t` from `ts`. -/
def without (rule : List M → M → Prop) (ts : List M) (t : M) (us : List M) (u : M) : Prop :=
  rule us u ∧ ¬ (us = ts ∧ u = t)

section Rules

variable {rule : List M → M → Prop} {S T : Set M}

/-- What can be computed from a subset of a closed set lies in the closed set. -/
theorem Deducible.mem_of_closed {t : M} (h : Deducible rule S t) (hS : S ⊆ T)
    (hT : Closed rule T) : t ∈ T := by
  induction h with
  | base ht => exact hS ht
  | apply hrule _ ih => exact hT _ _ hrule ih

theorem Deducible.mono {t : M} (h : Deducible rule S t) (hST : S ⊆ T) : Deducible rule T t := by
  induction h with
  | base ht => exact .base (hST ht)
  | apply hrule _ ih => exact .apply hrule ih

theorem Deducible.unary {s t : M} (hrule : rule [s] t) (hs : Deducible rule S s) :
    Deducible rule S t := by
  refine .apply hrule fun u hu => ?_
  obtain rfl := List.mem_singleton.1 hu
  exact hs

theorem Deducible.binary {s s' t : M} (hrule : rule [s, s'] t) (hs : Deducible rule S s)
    (hs' : Deducible rule S s') : Deducible rule S t := by
  refine .apply hrule fun u hu => ?_
  rcases List.mem_cons.1 hu with rfl | hu
  · exact hs
  · obtain rfl := List.mem_singleton.1 hu
    exact hs'

end Rules

end Ktty.Lib.Deduction
