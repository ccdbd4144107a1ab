import Ktty.Client.Clipboard

/-!
# Bracketed pastes

In bracketed paste mode `encodeForPaste` puts the text between the two markers and rewrites its line
endings. It does not look for the end marker in the text. The end marker begins with the only escape in
it, so the output has no end marker before the final one exactly when the text has none
(`bracketed_paste_iff`).
-/

set_option autoImplicit false

namespace Ktty.Client.Clipboard

open Ktty.Lib.Occurrence

/-- `ESC [ 200 ~`. -/
def pasteStart : CodeUnits := literal "\x1b[200~"

/-- `ESC [ 201 ~`. -/
def pasteEnd : CodeUnits := literal "\x1b[201~"

/-- The text with every CRLF and every lone CR replaced by one LF. -/
def lfEndings : CodeUnits → CodeUnits
  | [] => []
  | [c] => if c = CR then [LF] else [c]
  | c :: d :: s =>
      if c = CR then
        if d = LF then LF :: lfEndings s else LF :: lfEndings (d :: s)
      else c :: lfEndings (d :: s)

/-- The first end marker of a text is at its end. -/
def EndsAtMarker (text : CodeUnits) : Prop :=
  ∀ front back, text = front ++ pasteEnd ++ back → back = []

/-- What a paste should look like on the wire. -/
structure Bracketed (text output : CodeUnits) : Prop where
  markers : output = pasteStart ++ lfEndings text ++ pasteEnd
  noCarriageReturn : CR ∉ lfEndings text
  endsAtMarker : EndsAtMarker output

/-! ## Line endings -/

theorem lfEndings_notMem (text : CodeUnits) : CR ∉ lfEndings text := by
  fun_induction lfEndings text with
  | case1 => simp
  | case2 => decide
  | case3 c hc => simpa using Ne.symm hc
  | case4 s ih => simpa [show CR ≠ LF by decide] using ih
  | case5 d s hd ih => simpa [show CR ≠ LF by decide] using ih
  | case6 c d s hc ih => simpa [Ne.symm hc] using ih

/-- Without a CR nothing is rewritten. -/
theorem lfEndings_of_notMem {text : CodeUnits} (h : CR ∉ text) : lfEndings text = text := by
  fun_induction lfEndings text with
  | case1 => rfl
  | case2 => simp at h
  | case3 => rfl
  | case4 => simp at h
  | case5 => simp at h
  | case6 c d s hc ih =>
      rw [List.mem_cons, not_or] at h
      rw [ih h.2]

/-- The two passes of `_normalizeLineEndings`. -/
theorem replaceAll_endings (text : CodeUnits) :
    replaceAll [CR] [LF] (replaceAll [CR, LF] [LF] text) = lfEndings text := by
  rw [replaceAll_singleton]
  fun_induction lfEndings text with
  | case1 => rfl
  | case2 => decide
  | case3 c hc =>
      rw [replaceAll_cons (by simp [List.cons_prefix_cons]), replaceAll_nil, List.map_cons,
        List.map_nil, if_neg hc]
  | case4 s ih =>
      have hpair : replaceAll [CR, LF] [LF] (CR :: LF :: s) = LF :: replaceAll [CR, LF] [LF] s :=
        replaceAll_append CR [LF] [LF] s
      rw [hpair, List.map_cons, ih, if_neg (by decide)]
  | case5 d s hd ih =>
      -- a lone CR is left for the second pass
      rw [replaceAll_cons (by simp [List.cons_prefix_cons, Ne.symm hd]), List.map_cons, ih,
        if_pos rfl]
  | case6 c d s hc ih =>
      rw [replaceAll_cons (by simp [List.cons_prefix_cons, Ne.symm hc]), List.map_cons, ih,
        if_neg hc]

theorem normalizeLineEndings_eq (text : CodeUnits) : normalizeLineEndings text = lfEndings text := by
  rw [normalizeLineEndings]
  split
  · rename_i h
    exact (lfEndings_of_notMem h).symm
  · exact replaceAll_endings text

/-! ## Words without line endings -/

section Words

variable {word : CodeUnits}

theorem prefix_lfEndings_iff (text : CodeUnits) (hcr : CR ∉ word) (hlf : LF ∉ word) :
    word <+: lfEndings text ↔ word <+: text := by
  fun_induction lfEndings text generalizing word with
  | case1 => rfl
  | case2 =>
      cases word with
      | nil => simp
      | cons a word =>
          rw [List.mem_cons, not_or] at hcr hlf
          simp [List.cons_prefix_cons, Ne.symm hcr.1, Ne.symm hlf.1]
  | case3 => rfl
  | case4 s ih =>
      cases word with
      | nil => simp
      | cons a word =>
          rw [List.mem_cons, not_or] at hcr hlf
          simp [List.cons_prefix_cons, Ne.symm hcr.1, Ne.symm hlf.1]
  | case5 d s hd ih =>
      cases word with
      | nil => simp
      | cons a word =>
          rw [List.mem_cons, not_or] at hcr hlf
          simp [List.cons_prefix_cons, Ne.symm hcr.1, Ne.symm hlf.1]
  | case6 c d s hc ih =>
      cases word with
      | nil => simp
      | cons a word =>
          rw [List.mem_cons, not_or] at hcr hlf
          rw [List.cons_prefix_cons, List.cons_prefix_cons, ih hcr.2 hlf.2]

/-- Rewriting the line endings neither makes nor destroys a word without any. -/
theorem infix_lfEndings_iff (text : CodeUnits) (hne : word ≠ []) (hcr : CR ∉ word) (hlf : LF ∉ word) :
    word <:+: lfEndings text ↔ word <:+: text := by
  -- the word does not begin at a line ending
  have hbegin : ∀ c s, c = CR ∨ c = LF → ¬ word <+: c :: s := by
    intro c s hc hp
    cases word with
    | nil => exact hne rfl
    | cons a word =>
        rw [List.cons_prefix_cons] at hp
        rw [List.mem_cons, not_or] at hcr hlf
        rcases hc with rfl | rfl
        · exact hcr.1 hp.1.symm
        · exact hlf.1 hp.1.symm
  fun_induction lfEndings text with
  | case1 => rfl
  | case2 =>
      rw [List.infix_cons_iff, List.infix_cons_iff, or_iff_right (hbegin _ _ (Or.inr rfl)),
        or_iff_right (hbegin _ _ (Or.inl rfl))]
  | case3 => rfl
  | case4 s ih =>
      have hrest : word <:+: lfEndings s ↔ word <:+: s := ih
      rw [List.infix_cons_iff, List.infix_cons_iff, List.infix_cons_iff, hrest,
        or_iff_right (hbegin _ _ (Or.inr rfl)), or_iff_right (hbegin _ _ (Or.inl rfl)),
        or_iff_right (hbegin _ _ (Or.inr rfl))]
  | case5 d s hd ih =>
      have hrest : word <:+: lfEndings (d :: s) ↔ word <:+: d :: s := ih
      have htext : word <:+: CR :: d :: s ↔ word <:+: d :: s := by
        rw [List.infix_cons_iff, or_iff_right (hbegin _ _ (Or.inl rfl))]
      rw [htext, List.infix_cons_iff, or_iff_right (hbegin _ _ (Or.inr rfl)), hrest]
  | case6 c d s hc ih =>
      have hrest : word <:+: lfEndings (d :: s) ↔ word <:+: d :: s := ih
      have hprefix := prefix_lfEndings_iff (c :: d :: s) hcr hlf
      rw [lfEndings, if_neg hc] at hprefix
      rw [List.infix_cons_iff, hprefix, hrest]
      exact List.infix_cons_iff.symm

end Words

/-! ## Markers -/

theorem pasteEnd_eq : pasteEnd = ESC :: [0x5B, 0x32, 0x30, 0x31, 0x7E] := by decide

theorem pasteStart_eq : pasteStart = ESC :: [0x5B, 0x32, 0x30, 0x30, 0x7E] := by decide

/-- The start marker brings no end marker with it. -/
theorem infix_pasteStart_iff (body : CodeUnits) :
    pasteEnd <:+: pasteStart ++ body ↔ pasteEnd <:+: body := by
  constructor
  · intro h
    rw [pasteStart_eq, List.cons_append, List.infix_cons_iff] at h
    rcases h with h | h
    · -- the markers differ in their fifth unit
      simp [pasteEnd_eq, List.cons_prefix_cons] at h
    · rw [pasteEnd_eq] at h ⊢
      exact infix_of_notMem (by decide) h
  · exact fun h => h.trans (List.suffix_append _ _).isInfix

theorem endsAtMarker_iff (x : CodeUnits) : EndsAtMarker (x ++ pasteEnd) ↔ ¬ pasteEnd <:+: x := by
  constructor
  · rintro hends ⟨front, back, rfl⟩
    have hback := hends front (back ++ pasteEnd) (by simp)
    simp [pasteEnd_eq] at hback
  · intro hx front back heq
    rw [pasteEnd_eq] at heq hx
    exact (occurrence_before_end (by decide) heq).resolve_right hx

/-- In bracketed paste mode the output is the text with its line endings rewritten between the two
markers, and its first end marker is the final one exactly when there is none in the text. -/
theorem bracketed_paste_iff {Line : Type} (t : Terminal Line) (text : CodeUnits)
    (h : t.bracketedPasteMode = true) :
    Bracketed text (encodeForPaste t text) ↔ ¬ pasteEnd <:+: text := by
  have houtput : encodeForPaste t text = pasteStart ++ lfEndings text ++ pasteEnd := by
    rw [encodeForPaste, if_pos h, normalizeLineEndings_eq]
    rfl
  have hends : EndsAtMarker (encodeForPaste t text) ↔ ¬ pasteEnd <:+: text := by
    rw [houtput, endsAtMarker_iff, infix_pasteStart_iff,
      infix_lfEndings_iff text (by decide) (by decide) (by decide)]
  constructor
  · intro hpaste
    exact hends.1 hpaste.endsAtMarker
  · intro htext
    exact ⟨houtput, lfEndings_notMem text, hends.2 htext⟩

/-- A terminal in bracketed paste mode. -/
def bracketing : Terminal Unit := { lines := [], viewWidth := 80, bracketedPasteMode := true }

theorem bracketed_paste_of_two_lines :
    Bracketed (literal "a\r\nb\n") (encodeForPaste bracketing (literal "a\r\nb\n")) ↔
      ¬ pasteEnd <:+: literal "a\r\nb\n" :=
  bracketed_paste_iff bracketing (literal "a\r\nb\n") rfl

/-- Copied text can carry an end marker of its own; what follows it is typed input to the remote
application. -/
theorem end_marker_in_text :
    encodeForPaste bracketing (literal "x\x1b[201~rm -r .\n") =
        literal "\x1b[200~x\x1b[201~rm -r .\n\x1b[201~" ∧
      ¬ Bracketed (literal "x\x1b[201~rm -r .\n")
        (encodeForPaste bracketing (literal "x\x1b[201~rm -r .\n")) := by
  have houtput : encodeForPaste bracketing (literal "x\x1b[201~rm -r .\n") =
      literal "\x1b[200~x\x1b[201~rm -r .\n\x1b[201~" := by
    decide +kernel
  refine ⟨houtput, ?_⟩
  intro hpaste
  rw [houtput] at hpaste
  have hback := hpaste.endsAtMarker (literal "\x1b[200~x") (literal "rm -r .\n\x1b[201~")
    (by decide +kernel)
  revert hback
  decide +kernel

end Ktty.Client.Clipboard
