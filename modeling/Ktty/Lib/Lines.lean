import Mathlib.Data.List.DropRight
import Mathlib.Data.List.Range

/-!
# Lines of text

Trimming the end of a text, cutting a text into rows of a given width, and joining lines. A text that is
written block by block is trimmed block by block (`rdropWhile_flatMap`), and cutting a text into rows and
shortening the rows gives the text back only if no row was shortened (`flatten_map_eq_iff`).
-/

set_option autoImplicit false

namespace Ktty.Lib.Lines

universe u v

variable {α : Type u} {β : Type v}

/-! ## Trimming -/

section Trim

variable {p : α → Bool} {xs ys : List α}

/-- What is dropped at the end does not matter. -/
theorem rdropWhile_append_of_forall (h : ∀ x ∈ ys, p x = true) :
    (xs ++ ys).rdropWhile p = xs.rdropWhile p := by
  induction ys using List.reverseRecOn with
  | nil => rw [List.append_nil]
  | append_singleton ys y ih =>
      have hy : p y = true := h y (List.mem_append_right ys List.mem_cons_self)
      rw [← List.append_assoc, List.rdropWhile_concat_pos _ _ _ hy]
      exact ih fun x hx => h x (List.mem_append_left _ hx)

/-- A trimmed list is empty or ends in something that is not dropped. -/
theorem rdropWhile_eq_append (p : α → Bool) (xs : List α) :
    xs.rdropWhile p = [] ∨ ∃ init x, xs.rdropWhile p = init ++ [x] ∧ p x = false := by
  induction xs using List.reverseRecOn with
  | nil => exact Or.inl rfl
  | append_singleton xs x ih =>
      cases hx : p x with
      | true =>
          rw [List.rdropWhile_concat_pos _ _ _ hx]
          exact ih
      | false =>
          rw [List.rdropWhile_concat_neg _ _ _ (by simp [hx])]
          exact Or.inr ⟨xs, x, rfl, hx⟩

theorem rdropWhile_of_last {init : List α} {x : α} (h : p x = false) :
    (init ++ [x]).rdropWhile p = init ++ [x] :=
  List.rdropWhile_concat_neg _ _ _ (by simp [h])

/-- What is dropped. -/
theorem exists_append_rdropWhile (p : α → Bool) (xs : List α) :
    ∃ dropped, xs = xs.rdropWhile p ++ dropped ∧ ∀ x ∈ dropped, p x = true := by
  refine ⟨xs.rtakeWhile p, (List.rdropWhile_append_rtakeWhile ..).symm, fun x hx => ?_⟩
  exact List.mem_rtakeWhile_imp hx

/-- A text that is written block by block is trimmed block by block, if a block is dropped as a whole or
its last symbol is not dropped. -/
theorem rdropWhile_flatMap {f : α → List β} {q : β → Bool} (hdrop : ∀ x, p x = true → ∀ y ∈ f x, q y = true)
    (hkeep : ∀ x, p x = false → ∃ init y, f x = init ++ [y] ∧ q y = false) (xs : List α) :
    (xs.flatMap f).rdropWhile q = (xs.rdropWhile p).flatMap f := by
  induction xs using List.reverseRecOn with
  | nil => rfl
  | append_singleton xs x ih =>
      rw [List.flatMap_append, List.flatMap_singleton]
      cases hx : p x with
      | true =>
          rw [rdropWhile_append_of_forall (hdrop x hx), ih, List.rdropWhile_concat_pos _ _ _ hx]
      | false =>
          obtain ⟨init, y, hf, hy⟩ := hkeep x hx
          rw [rdropWhile_of_last hx, List.flatMap_append, List.flatMap_singleton, hf, ← List.append_assoc,
            rdropWhile_of_last hy]

end Trim

/-! ## Rows -/

/-- Row `i` has the symbols `i * w` to `(i + 1) * w - 1`. -/
def rows (w : Nat) (xs : List α) : List (List α) :=
  (List.range ((xs.length + w - 1) / w)).map fun i => (xs.drop (i * w)).take w

section Rows

variable {w : Nat} {xs : List α}

theorem rows_nil (hw : 0 < w) : rows w ([] : List α) = [] := by
  have hnone : (0 + w - 1) / w = 0 := Nat.div_eq_of_lt (by omega)
  rw [rows, List.length_nil, hnone]
  rfl

/-- The first row and the rows of the rest. -/
theorem rows_eq_cons (hw : 0 < w) (hne : xs ≠ []) : rows w xs = xs.take w :: rows w (xs.drop w) := by
  have hpos := List.length_pos_of_ne_nil hne
  have hcount : (xs.length + w - 1) / w = ((xs.drop w).length + w - 1) / w + 1 := by
    rw [List.length_drop]
    by_cases hle : w ≤ xs.length
    · rw [← Nat.add_div_right _ hw]
      congr 1
      omega
    · have hnone : (xs.length - w + w - 1) / w = 0 := Nat.div_eq_of_lt (by omega)
      rw [hnone]
      exact Nat.div_eq_of_lt_le (by omega) (by omega)
  rw [rows, rows, hcount, List.range_succ_eq_map, List.map_cons, List.map_map, Nat.zero_mul, List.drop_zero]
  congr 1
  apply List.map_congr_left
  intro i _
  rw [Function.comp_apply, List.drop_drop, Nat.succ_mul, Nat.add_comm]

/-- The rows make up the text. -/
theorem flatten_rows (hw : 0 < w) (xs : List α) : (rows w xs).flatten = xs := by
  induction hn : xs.length using Nat.strongRecOn generalizing xs with
  | ind n ih =>
      by_cases hne : xs = []
      · rw [hne, rows_nil hw]
        rfl
      · have hpos := List.length_pos_of_ne_nil hne
        have hrest := ih (xs.drop w).length (by rw [List.length_drop]; omega) (xs.drop w) rfl
        rw [rows_eq_cons hw hne, List.flatten_cons, hrest, List.take_append_drop]

/-- A short text is one row. -/
theorem rows_of_le (hw : 0 < w) (hne : xs ≠ []) (hle : xs.length ≤ w) : rows w xs = [xs] := by
  rw [rows_eq_cons hw hne, List.drop_eq_nil_of_le hle, rows_nil hw, List.take_of_length_le hle]

/-- The symbol in front of a row other than the first one, seen from the second row on. -/
theorem getElem?_drop_row {i : Nat} (hw : 0 < w) (hi : 0 < i) :
    (xs.drop w)[i * w - 1]? = xs[(i + 1) * w - 1]? := by
  have hmul := Nat.le_mul_of_pos_left w hi
  have hindex : w + (i * w - 1) = (i + 1) * w - 1 := by
    rw [Nat.succ_mul]
    omega
  rw [List.getElem?_drop, hindex]

/-- The last symbol of the first of several rows is the one in front of the second row. -/
theorem getLast?_take_row (hw : 0 < w) (hlt : w < xs.length) : (xs.take w).getLast? = xs[w - 1]? := by
  rw [List.getLast?_take, if_neg (Nat.ne_of_gt hw), List.getElem?_eq_getElem (by omega)]
  rfl

/-- A symbol that ends no row: the symbols in front of a row and the last one of the text are others. -/
theorem forall_rows_last_iff (hw : 0 < w) (a : α) (xs : List α) :
    (∀ row ∈ rows w xs, row.getLast? ≠ some a) ↔
      (∀ i, 0 < i → i * w < xs.length → xs[i * w - 1]? ≠ some a) ∧ xs.getLast? ≠ some a := by
  induction hn : xs.length using Nat.strongRecOn generalizing xs with
  | ind n ih =>
      subst hn
      by_cases hne : xs = []
      · rw [hne, rows_nil hw]
        simp
      have hpos := List.length_pos_of_ne_nil hne
      by_cases hle : xs.length ≤ w
      · rw [rows_of_le hw hne hle, List.forall_mem_singleton]
        -- no other row begins
        refine (and_iff_right fun i hi hlt => ?_).symm
        have hmul := Nat.le_mul_of_pos_left w hi
        omega
      · have hlast : (xs.drop w).getLast? = xs.getLast? := by
          rw [List.getLast?_drop, if_neg hle]
        have hrest := ih (xs.drop w).length (by rw [List.length_drop]; omega) (xs.drop w) rfl
        rw [rows_eq_cons hw hne, List.forall_mem_cons, hrest, hlast, getLast?_take_row hw (by omega),
          ← and_assoc]
        apply and_congr_left
        intro _
        constructor
        · rintro ⟨hfirst, hnext⟩ i hi hlt
          by_cases hone : i = 1
          · rw [hone, Nat.one_mul]
            exact hfirst
          · -- a later row is one of the rest
            obtain ⟨j, rfl⟩ : ∃ j, i = j + 1 := ⟨i - 1, by omega⟩
            have hj : 0 < j := by omega
            rw [Nat.succ_mul] at hlt
            have hrow := hnext j hj (by rw [List.length_drop]; omega)
            rw [getElem?_drop_row hw hj] at hrow
            exact hrow
        · intro hall
          constructor
          · have hfirst := hall 1 Nat.one_pos (by omega)
            rw [Nat.one_mul] at hfirst
            exact hfirst
          · intro i hi hlt
            rw [List.length_drop] at hlt
            rw [getElem?_drop_row hw hi]
            exact hall (i + 1) (Nat.succ_pos i) (by rw [Nat.succ_mul]; omega)

end Rows

/-- Blocks that are cut make up the same text only if nothing was cut. -/
theorem flatten_map_eq_iff {f : List α → List α} (hf : ∀ r, f r <+: r) (rs : List (List α)) :
    (rs.map f).flatten = rs.flatten ↔ ∀ r ∈ rs, f r = r := by
  have hle : ∀ rs : List (List α), (rs.map f).flatten.length ≤ rs.flatten.length := by
    intro rs
    induction rs with
    | nil => exact Nat.le_refl _
    | cons r rs ih =>
        have hr := (hf r).length_le
        rw [List.map_cons, List.flatten_cons, List.flatten_cons, List.length_append, List.length_append]
        omega
  induction rs with
  | nil => exact iff_of_true rfl fun r hr => by cases hr
  | cons r rs ih =>
      have hrest : (rs.map f).flatten = rs.flatten ↔ ∀ r ∈ rs, f r = r := ih
      rw [List.map_cons, List.flatten_cons, List.flatten_cons, List.forall_mem_cons, ← hrest]
      constructor
      · intro heq
        have hlength := congrArg List.length heq
        have hr := (hf r).length_le
        have hshort := hle rs
        rw [List.length_append, List.length_append] at hlength
        exact List.append_inj heq (by omega)
      · rintro ⟨hr, htail⟩
        rw [hr, htail]

/-- Lists with equal images have equal images under functions that go with them. -/
theorem map_eq_map_of {γ : Type u} {δ : Type v} {f : α → γ} {g : β → γ} {f' : α → δ} {g' : β → δ}
    {xs : List α} {ys : List β} (h : xs.map f = ys.map g) (hfg : ∀ x ∈ xs, ∀ y ∈ ys, f x = g y → f' x = g' y) :
    xs.map f' = ys.map g' := by
  induction xs generalizing ys with
  | nil =>
      obtain rfl := List.map_eq_nil_iff.1 h.symm
      rfl
  | cons x xs ih =>
      cases ys with
      | nil => cases h
      | cons y ys =>
          rw [List.map_cons, List.map_cons, List.cons.injEq] at h
          rw [List.map_cons, List.map_cons, hfg x List.mem_cons_self y List.mem_cons_self h.1,
            ih h.2 fun x' hx' y' hy' => hfg x' (List.mem_cons_of_mem x hx') y' (List.mem_cons_of_mem y hy')]

/-! ## Joining -/

/-- The first line, and every other one behind a separator. -/
theorem intercalate_cons (sep : List α) (line : List α) (lines : List (List α)) :
    sep.intercalate (line :: lines) = line ++ lines.flatMap fun l => sep ++ l := by
  induction lines generalizing line with
  | nil => simp [List.intercalate]
  | cons l lines ih =>
      have hrest := ih l
      rw [List.flatMap_cons, List.append_assoc, ← hrest]
      simp [List.intercalate]

/-! ## Places -/

/-- The places in a range are those of a list without repetitions in it and the others. -/
theorem length_add_filter_notMem [DecidableEq α] {xs ys : List α} (hxs : xs.Nodup) (hys : ys.Nodup)
    (hsub : ∀ x ∈ xs, x ∈ ys) : xs.length + (ys.filter fun y => y ∉ xs).length = ys.length := by
  have hperm : (ys.filter fun y => y ∈ xs).Perm xs := by
    rw [List.perm_ext_iff_of_nodup (hys.filter _) hxs]
    intro a
    rw [List.mem_filter, decide_eq_true_eq]
    exact ⟨fun h => h.2, fun h => ⟨hsub a h, h⟩⟩
  have hsplit := List.length_eq_length_filter_add (l := ys) fun y => decide (y ∈ xs)
  rw [hperm.length_eq] at hsplit
  rw [hsplit]
  congr 2
  apply List.filter_congr
  intro y _
  exact decide_not

end Ktty.Lib.Lines
