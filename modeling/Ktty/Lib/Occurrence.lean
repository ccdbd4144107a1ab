import Mathlib.Data.List.Infix

/-!
# Words in a list

Replacing the occurrences of a word from left to right, and where a word can occur whose first symbol
does not come again in it: such a word does not overlap itself, so behind `x` it occurs in `x` or as it
stands (`occurrence_before_end`).
-/

set_option autoImplicit false

namespace Ktty.Lib.Occurrence

universe u

variable {α : Type u}

/-! ## Replacing -/

section Replace

variable [DecidableEq α]

/-- Leave out `k` symbols and replace the occurrences of `word` in the rest. -/
def replaceFrom (word new : List α) : Nat → List α → List α
  | _, [] => []
  | k + 1, _ :: s => replaceFrom word new k s
  | 0, c :: s =>
      if word.isPrefixOf (c :: s) then new ++ replaceFrom word new (word.length - 1) s
      else c :: replaceFrom word new 0 s

/-- Replace the occurrences of a word that is not empty, from left to right and without overlaps. -/
def replaceAll (word new s : List α) : List α := replaceFrom word new 0 s

variable {word new : List α}

@[simp] theorem replaceAll_nil (word new : List α) : replaceAll word new [] = [] := rfl

theorem replaceFrom_length (word new x s : List α) :
    replaceFrom word new x.length (x ++ s) = replaceAll word new s := by
  induction x with
  | nil => rfl
  | cons c x ih => exact ih

/-- The word at the beginning is replaced. -/
theorem replaceAll_append (c : α) (tail new s : List α) :
    replaceAll (c :: tail) new (c :: tail ++ s) = new ++ replaceAll (c :: tail) new s := by
  have hprefix : (c :: tail).isPrefixOf (c :: (tail ++ s)) = true :=
    List.isPrefixOf_iff_prefix.2 (List.prefix_append (c :: tail) s)
  have hrest := replaceFrom_length (c :: tail) new tail s
  rw [List.cons_append, replaceAll, replaceFrom, if_pos hprefix, List.length_cons,
    Nat.add_sub_cancel, hrest]

/-- A symbol at which the word does not begin stays. -/
theorem replaceAll_cons {c : α} {s : List α} (h : ¬ word <+: c :: s) :
    replaceAll word new (c :: s) = c :: replaceAll word new s := by
  have hprefix : ¬ word.isPrefixOf (c :: s) = true := fun hp => h (List.isPrefixOf_iff_prefix.1 hp)
  rw [replaceAll, replaceFrom, if_neg hprefix]
  rfl

/-- Replacing one symbol by another. -/
theorem replaceAll_singleton (a b : α) (s : List α) :
    replaceAll [a] [b] s = s.map fun c => if c = a then b else c := by
  induction s with
  | nil => rfl
  | cons c s ih =>
      by_cases hc : c = a
      · subst hc
        have hhead := replaceAll_append c [] [b] s
        rw [List.cons_append, List.nil_append] at hhead
        rw [hhead, ih, List.map_cons, if_pos rfl]
        rfl
      · have hprefix : ¬ [a] <+: c :: s := by
          rw [List.cons_prefix_cons]
          exact fun h => hc h.1.symm
        rw [replaceAll_cons hprefix, ih, List.map_cons, if_neg hc]

end Replace

/-! ## Occurrences -/

section Occurrences

variable {e : α} {m s x front back : List α}

/-- A word behind symbols other than its first one occurs behind them. -/
theorem infix_of_notMem (hs : e ∉ s) (h : e :: m <:+: s ++ x) : e :: m <:+: x := by
  induction s with
  | nil => exact h
  | cons c s ih =>
      rw [List.mem_cons, not_or] at hs
      rw [List.cons_append, List.infix_cons_iff] at h
      rcases h with h | h
      · rw [List.cons_prefix_cons] at h
        exact absurd h.1 hs.1
      · exact ih hs.2 h

/-- Where a word occurs that is put behind `x`, if its first symbol does not come again in it: in `x`, or
at the end. -/
theorem occurrence_before_end (he : e ∉ m) (h : x ++ e :: m = front ++ e :: m ++ back) :
    back = [] ∨ e :: m <:+: x := by
  rw [List.append_assoc] at h
  rcases List.append_eq_append_iff.1 h with ⟨c, rfl, hc⟩ | ⟨c, rfl, hc⟩
  · -- the occurrence begins behind `x`
    have hlen := congrArg List.length hc
    simp only [List.length_append, List.length_cons] at hlen
    have hback : back.length = 0 := by omega
    exact Or.inl (List.eq_nil_of_length_eq_zero hback)
  · cases c with
    | nil =>
        have hlen := congrArg List.length hc
        simp only [List.nil_append, List.length_append, List.length_cons] at hlen
        have hback : back.length = 0 := by omega
        exact Or.inl (List.eq_nil_of_length_eq_zero hback)
    | cons d c =>
        -- the occurrence begins in `x`, and it cannot reach the first symbol of the word behind `x`
        rw [List.cons_append, List.cons_append, List.cons.injEq] at hc
        obtain ⟨rfl, hc⟩ := hc
        rcases List.append_eq_append_iff.1 hc with ⟨a, rfl, -⟩ | ⟨a, ha, hab⟩
        · exact Or.inr ⟨front, a, by simp⟩
        · cases a with
          | nil =>
              rw [List.append_nil] at ha
              subst ha
              exact Or.inr ⟨front, [], by simp⟩
          | cons b a =>
              rw [List.cons_append, List.cons.injEq] at hab
              obtain ⟨rfl, -⟩ := hab
              exact absurd (ha ▸ List.mem_append_right c (List.mem_cons_self ..)) he

end Occurrences

/-! ## Quoted words -/

section Quoted

variable {q c : α} {word s rest : List α}

/-- Before the first quote there is one word only. -/
theorem quoted_prefix_eq (hword : q ∉ word) (hs : q ∉ s) (h : word ++ [q] <+: s ++ q :: rest) :
    word = s := by
  induction word generalizing s with
  | nil =>
      cases s with
      | nil => rfl
      | cons d s =>
          rw [List.nil_append, List.cons_append, List.cons_prefix_cons] at h
          exact absurd (h.1 ▸ List.mem_cons_self ..) hs
  | cons a word ih =>
      rw [List.mem_cons, not_or] at hword
      cases s with
      | nil =>
          rw [List.nil_append, List.cons_append, List.cons_prefix_cons] at h
          exact absurd h.1.symm hword.1
      | cons d s =>
          rw [List.mem_cons, not_or] at hs
          rw [List.cons_append, List.cons_append, List.cons_prefix_cons] at h
          rw [h.1, ih hword.2 hs.2 h.2]

/-- A quoted word of a text that begins with a quoted word is this one, or it comes behind it. -/
theorem quoted_infix (hword : q ∉ word) (hs : q ∉ s)
    (h : q :: (word ++ [q]) <:+: q :: (s ++ q :: rest)) :
    word = s ∨ q :: (word ++ [q]) <:+: q :: rest := by
  rw [List.infix_cons_iff, List.cons_prefix_cons] at h
  rcases h with ⟨-, h⟩ | h
  · exact Or.inl (quoted_prefix_eq hword hs h)
  · exact Or.inr (infix_of_notMem hs h)

/-- A separator that the word does not contain ends no quoted word. -/
theorem quoted_separator (hne : word ≠ []) (hc : c ∉ word) (hcq : c ≠ q)
    (h : q :: (word ++ [q]) <:+: q :: c :: rest) : q :: (word ++ [q]) <:+: rest := by
  rw [List.infix_cons_iff, List.cons_prefix_cons] at h
  rcases h with ⟨-, h⟩ | h
  · cases word with
    | nil => exact absurd rfl hne
    | cons a word =>
        rw [List.cons_append, List.cons_prefix_cons] at h
        exact absurd (h.1 ▸ List.mem_cons_self ..) hc
  · rw [List.infix_cons_iff, List.cons_prefix_cons] at h
    rcases h with ⟨heq, -⟩ | h
    · exact absurd heq.symm hcq
    · exact h

end Quoted

end Ktty.Lib.Occurrence
