import Mathlib.Algebra.Order.Ring.Int
import Mathlib.Algebra.Order.Ring.Nat
import Mathlib.Data.List.Infix
import Mathlib.Order.Basic

/-!
# Windows on a stream

A window keeps the latest items of a stream, as many as fit a bound on their total size.
`LongestSuffix bound l s` says that `s` is the longest suffix of `l` whose total is at most `bound`;
there is exactly one (`LongestSuffix.unique`), and it is empty exactly when the last item alone is too
large (`LongestSuffix.eq_nil_iff`).

`trim` computes it by dropping items from the front. `LongestSuffix.append` is the rule for a stream: what
is outside of the window never comes back, so the next window is a window on the present one;
`LongestSuffix.push` is the case in which items are counted.
-/

set_option autoImplicit false

namespace Ktty.Lib.Window

universe u

variable {α : Type u}

/-- The total size of a list. -/
def total (size : α → Nat) (l : List α) : Nat := (l.map size).sum

/-- `s` is the longest suffix of `l` whose total is at most `bound`. -/
structure LongestSuffix (size : α → Nat) (bound : Nat) (l s : List α) : Prop where
  suffix : s <:+ l
  fits : total size s ≤ bound
  longest : ∀ r, r <:+ l → total size r ≤ bound → r <:+ s

/-- Drop items from the front until the rest fits. -/
def trim (size : α → Nat) (bound : Nat) : List α → List α
  | [] => []
  | a :: l => if bound < total size (a :: l) then trim size bound l else a :: l

section Window

variable {size : α → Nat} {bound : Nat} {l s t : List α} {a : α}

@[simp] theorem total_nil (size : α → Nat) : total size [] = 0 := rfl

@[simp] theorem total_cons (size : α → Nat) (a : α) (l : List α) :
    total size (a :: l) = size a + total size l := by
  rw [total, List.map_cons, List.sum_cons, ← total]

@[simp] theorem total_append (size : α → Nat) (l s : List α) :
    total size (l ++ s) = total size l + total size s := by
  rw [total, List.map_append, List.sum_append, ← total, ← total]

/-- A suffix has at most the total of the list. -/
theorem total_le_of_suffix (size : α → Nat) (h : s <:+ l) : total size s ≤ total size l := by
  obtain ⟨older, rfl⟩ := h
  rw [total_append]
  omega

theorem trim_longest (size : α → Nat) (bound : Nat) (l : List α) :
    LongestSuffix size bound l (trim size bound l) := by
  induction l with
  | nil =>
      exact ⟨List.suffix_refl [], Nat.zero_le _, fun r hr _ => hr⟩
  | cons a l ih =>
      rw [trim]
      split
      · rename_i hlarge
        refine ⟨ih.suffix.trans (List.suffix_cons a l), ih.fits, fun r hr hfits => ?_⟩
        -- the whole list does not fit, so a suffix that does is one of the tail
        rcases List.suffix_cons_iff.1 hr with rfl | hr
        · omega
        · exact ih.longest r hr hfits
      · rename_i hfits
        exact ⟨List.suffix_refl _, by omega, fun r hr _ => hr⟩

theorem LongestSuffix.unique (h : LongestSuffix size bound l s) (k : LongestSuffix size bound l t) :
    s = t := by
  have hst : s <:+ t := k.longest s h.suffix h.fits
  have hts : t <:+ s := h.longest t k.suffix k.fits
  exact hst.eq_of_length_le hts.length_le

/-- The window after one more item is the window on the present one with the item behind it. -/
theorem LongestSuffix.append (h : LongestSuffix size bound l s)
    (k : LongestSuffix size bound (s ++ [a]) t) : LongestSuffix size bound (l ++ [a]) t := by
  have hsa : s ++ [a] <:+ l ++ [a] := by
    obtain ⟨older, rfl⟩ := h.suffix
    exact ⟨older, by rw [List.append_assoc]⟩
  refine ⟨k.suffix.trans hsa, k.fits, fun r hr hfits => ?_⟩
  apply k.longest r _ hfits
  -- without the new item the suffix was a fitting one before:
  rcases List.suffix_concat_iff.1 hr with rfl | ⟨q, rfl, hq⟩
  · exact List.nil_suffix
  · rw [total_append] at hfits
    have hqs : q <:+ s := h.longest q hq (by omega)
    obtain ⟨older, rfl⟩ := hqs
    exact ⟨older, by rw [List.append_assoc]⟩

/-- A window is empty when there is nothing, or when the last item alone is too large. -/
theorem LongestSuffix.eq_nil_iff (h : LongestSuffix size bound l s) :
    s = [] ↔ ∀ a, l.getLast? = some a → bound < size a := by
  constructor
  · rintro rfl a ha
    by_contra hfits
    have hlast : [a] <:+ l := by
      obtain ⟨front, rfl⟩ := List.getLast?_eq_some_iff.1 ha
      exact List.suffix_append front [a]
    have hnil : [a] <:+ [] := h.longest [a] hlast (by rw [total_cons, total_nil]; omega)
    exact absurd (List.suffix_nil.1 hnil) (List.cons_ne_nil a [])
  · intro hlarge
    by_contra hne
    -- a window that is not empty holds the last item
    obtain ⟨older, hl⟩ := h.suffix
    have hlast : l.getLast? = some (s.getLast hne) := by
      rw [← hl, List.getLast?_append_of_ne_nil _ hne, List.getLast?_eq_some_getLast hne]
    have hsuffix : [s.getLast hne] <:+ s := ⟨s.dropLast, List.dropLast_append_getLast hne⟩
    have hle := total_le_of_suffix size hsuffix
    rw [total_cons, total_nil] at hle
    have hsize := hlarge _ hlast
    have hfits := h.fits
    omega

/-! ## Windows that count items -/

@[simp] theorem total_one (l : List α) : total (fun _ => 1) l = l.length := by
  induction l with
  | nil => rfl
  | cons a l ih => rw [total_cons, ih, List.length_cons, Nat.add_comm]

/-- A window of so many items is kept by dropping the oldest one when there is one too many. -/
theorem LongestSuffix.push (h : LongestSuffix (fun _ => 1) bound l s) (a : α) :
    LongestSuffix (fun _ => 1) bound (l ++ [a])
      (if bound < (s ++ [a]).length then (s ++ [a]).drop 1 else s ++ [a]) := by
  apply h.append
  have hfits : s.length ≤ bound := total_one s ▸ h.fits
  have hlength : (s ++ [a]).length = s.length + 1 := List.length_append
  split_ifs with hlarge
  · have hdrop : ((s ++ [a]).drop 1).length = bound := by
      rw [List.length_drop]
      omega
    refine ⟨List.drop_suffix 1 _, by rw [total_one, hdrop], fun r hr hrfits => ?_⟩
    rw [total_one] at hrfits
    exact List.suffix_of_suffix_length_le hr (List.drop_suffix 1 _) (by omega)
  · exact ⟨List.suffix_refl _, by rw [total_one]; omega, fun r hr _ => hr⟩

end Window

end Ktty.Lib.Window
