import Ktty.Client.Selection
import Mathlib.Data.List.Chain

/-!
# Copied text

The trimming at the end of `extractSelectionText` removes what the loop has written for the blank rows
behind the last row with content (`extractSelectionText_eq`). In front of a row the loop writes a newline
only if a row before it had content, so leading blank rows leave nothing (`blank_rows_iff`). Every row is
stripped, so text that the terminal has wrapped loses the spaces at the ends of its rows
(`wrapped_text_iff`).
-/

set_option autoImplicit false

namespace Ktty.Client.Clipboard

open Ktty.Lib.Lines

/-! ## The loop over the rows -/

/-- The row without its trailing spaces. -/
def Row.stripped (r : Row) : CodeUnits := rstripSpaces r.raw

/-- The rows up to the last one with content. -/
def contentRows (rows : List Row) : List Row := rows.rdropWhile fun r => r.stripped = []

section Loop

variable {viewWidth : Nat} {rows : List Row}

theorem mem_rstripSpaces {s : CodeUnits} {c : UInt16} (h : c ∈ rstripSpaces s) : c ∈ s :=
  (List.rdropWhile_prefix ..).subset h

/-- The loop writes the rows and newlines. -/
theorem mem_out {c : UInt16} (h : c ∈ (copyRows viewWidth rows).out) :
    c = LF ∨ ∃ r ∈ rows, c ∈ r.raw := by
  induction rows using List.reverseRecOn with
  | nil => cases h
  | append_singleton rows r ih =>
      rw [copyRows_concat, CopyState.copy, List.mem_append, List.mem_append] at h
      rcases h with (h | h) | h
      · rcases ih h with h | ⟨r', hr', h⟩
        · exact Or.inl h
        · exact Or.inr ⟨r', List.mem_append_left _ hr', h⟩
      · split_ifs at h
        · exact Or.inl (List.mem_singleton.1 h)
        · cases h
      · exact Or.inr ⟨r, List.mem_append_right _ List.mem_cons_self, mem_rstripSpaces h⟩

/-- For blank rows nothing but newlines are written. -/
theorem out_append_blank (viewWidth : Nat) (rows : List Row) {blank : List Row} (hblank : ∀ r ∈ blank, r.stripped = []) :
    ∃ newlines, (copyRows viewWidth (rows ++ blank)).out = (copyRows viewWidth rows).out ++ newlines ∧
      ∀ c ∈ newlines, c = LF := by
  induction blank using List.reverseRecOn with
  | nil => exact ⟨[], by simp, by simp⟩
  | append_singleton blank r ih =>
      obtain ⟨newlines, hout, hlf⟩ := ih fun r' hr' => hblank r' (List.mem_append_left _ hr')
      have hr : rstripSpaces r.raw = [] := hblank r (List.mem_append_right _ List.mem_cons_self)
      rw [← List.append_assoc, copyRows_concat, CopyState.copy, hout, hr]
      dsimp only
      rw [List.append_nil, List.append_assoc]
      refine ⟨_, rfl, fun c hc => ?_⟩
      rcases List.mem_append.1 hc with hc | hc
      · exact hlf c hc
      · split_ifs at hc
        · exact List.mem_singleton.1 hc
        · cases hc

/-- The trimming leaves the text of the rows up to the last one with content. -/
theorem trimNewlines_out (hlf : ∀ r ∈ rows, LF ∉ r.raw) :
    trimNewlines (copyRows viewWidth rows).out = (copyRows viewWidth (contentRows rows)).out := by
  obtain ⟨blank, hrows, hblank⟩ := exists_append_rdropWhile (fun r : Row => decide (r.stripped = [])) rows
  obtain ⟨newlines, hout, hnewlines⟩ := out_append_blank viewWidth (contentRows rows)
    fun r hr => of_decide_eq_true (hblank r hr)
  have hcopied : (copyRows viewWidth rows).out =
      (copyRows viewWidth (contentRows rows)).out ++ newlines := by
    rw [← hout]
    exact congrArg (fun rows => (copyRows viewWidth rows).out) hrows
  rw [hcopied, trimNewlines, rdropWhile_append_of_forall fun c hc => decide_eq_true (hnewlines c hc)]
  rcases rdropWhile_eq_append (fun r : Row => decide (r.stripped = [])) rows with
    hnil | ⟨init, last, hlast, hcontent⟩
  · rw [contentRows, hnil]
    rfl
  · -- the text ends in the last row, which has content
    have hmem : last ∈ rows := by
      apply (List.rdropWhile_prefix (fun r : Row => decide (r.stripped = [])) (l := rows)).subset
      rw [hlast]
      exact List.mem_append_right _ List.mem_cons_self
    rw [contentRows, hlast, copyRows_concat, CopyState.copy]
    rw [decide_eq_false_iff_not] at hcontent
    obtain ⟨text, c, htext⟩ : ∃ text c, rstripSpaces last.raw = text ++ [c] :=
      ⟨_, _, (List.dropLast_append_getLast hcontent).symm⟩
    have hc : c ≠ LF := by
      rintro rfl
      apply hlf last hmem
      apply mem_rstripSpaces
      rw [htext]
      exact List.mem_append_right _ List.mem_cons_self
    dsimp only
    rw [htext, ← List.append_assoc]
    exact rdropWhile_of_last (decide_eq_false hc)

end Loop

section Extract

variable {Line Selection : Type} {X : Xterm Line Selection} {t : Terminal Line} {selection : Selection}

/-- Rows without carriage returns are only trimmed. -/
theorem extractSelectionText_eq_trim (hcollapsed : X.isCollapsed selection = false)
    (hcr : ∀ r ∈ selectedRows X t selection, CR ∉ r.raw) :
    extractSelectionText X t (some selection) =
      trimNewlines (copyRows t.viewWidth (selectedRows X t selection)).out := by
  have hnone : CR ∉ (copyRows t.viewWidth (selectedRows X t selection)).out := by
    intro hmem
    rcases mem_out hmem with h | ⟨r, hr, h⟩
    · revert h
      decide
    · exact hcr r hr h
  rw [extractSelectionText, hcollapsed]
  dsimp only
  rw [if_neg Bool.false_ne_true, stripCarriageReturns, if_pos hnone]

/-- The text of rows without line breaks. -/
theorem extractSelectionText_eq (hcollapsed : X.isCollapsed selection = false)
    (hbreaks : ∀ r ∈ selectedRows X t selection, CR ∉ r.raw ∧ LF ∉ r.raw) :
    extractSelectionText X t (some selection) =
      (copyRows t.viewWidth (contentRows (selectedRows X t selection))).out := by
  rw [extractSelectionText_eq_trim hcollapsed fun r hr => (hbreaks r hr).1,
    trimNewlines_out fun r hr => (hbreaks r hr).2]

variable {cells : Line → List Cell}

/-- The text of the characters in the buffer has no line breaks. -/
theorem noBreaks (hX : ReadsCells X cells) (ht : Characters cells t) :
    ∀ r ∈ selectedRows X t selection, CR ∉ r.raw ∧ LF ∉ r.raw := by
  intro r hr
  rw [selectedRows_eq, List.mem_map] at hr
  obtain ⟨x, hx, rfl⟩ := hr
  have hline := mem_selectedLines hx
  have absent : ∀ c : UInt16, c.toNat < 0xD800 → (c.toNat = 0x0D ∨ c.toNat = 0x0A) →
      c ∉ (toRow X x).raw := by
    intro c hsmall hbreak hc
    rw [toRow, hX, textOf, List.mem_flatMap] at hc
    obtain ⟨y, hy, hc⟩ := hc
    have hcode := mem_writeCharCode y.1.valid hsmall hc
    rw [printed, List.mem_filter, decide_eq_true_eq] at hy
    obtain ⟨-, hcr, hlf⟩ := ht x.1 hline y.1 (List.fst_mem_of_mem_zipIdx hy.1) hy.2.2.2.1
    rcases hbreak with hbreak | hbreak
    · exact hcr (hcode.trans hbreak)
    · exact hlf (hcode.trans hbreak)
  exact ⟨absent CR (by decide) (Or.inl rfl), absent LF (by decide) (Or.inr rfl)⟩

end Extract

/-! ## Blank rows -/

/-- In front of every row a newline is written. -/
def Separated (viewWidth : Nat) : CopyState → List Row → Prop
  | _, [] => True
  | st, r :: rows => st.writesNewline viewWidth r = true ∧ Separated viewWidth (st.copy viewWidth r) rows

/-- The code does not take the second row for a continuation of the first one. -/
def Apart (viewWidth : Nat) (a b : Row) : Prop :=
  a.stripped.length < viewWidth ∨ b.startsAtZero = false

instance (viewWidth : Nat) : DecidableRel (Apart viewWidth) := fun _ _ =>
  inferInstanceAs (Decidable (_ ∨ _))

section Blank

variable {viewWidth : Nat} {st : CopyState} {rows : List Row} {a : Row}

theorem length_foldl_le (viewWidth : Nat) (st : CopyState) (rows : List Row) :
    (rows.foldl (CopyState.copy viewWidth) st).out.length ≤
      st.out.length + (rows.flatMap fun r => [LF] ++ r.stripped).length := by
  induction rows generalizing st with
  | nil => exact Nat.le_add_right ..
  | cons r rows ih =>
      have hrest := ih (st.copy viewWidth r)
      have hrow : (st.copy viewWidth r).out.length ≤ st.out.length + 1 + r.stripped.length := by
        rw [CopyState.copy]
        dsimp only
        rw [List.length_append, List.length_append, Row.stripped]
        split_ifs <;> simp
      rw [List.foldl_cons, List.flatMap_cons, List.length_append, List.length_append, List.length_singleton]
      omega

/-- The loop writes the rows with a newline in front of each exactly if it never leaves one out. -/
theorem foldl_out_iff (viewWidth : Nat) (st : CopyState) (rows : List Row) :
    (rows.foldl (CopyState.copy viewWidth) st).out =
      st.out ++ (rows.flatMap fun r => [LF] ++ r.stripped) ↔ Separated viewWidth st rows := by
  induction rows generalizing st with
  | nil => exact iff_of_true (List.append_nil _).symm trivial
  | cons r rows ih =>
      have hrest := ih (st.copy viewWidth r)
      rw [List.foldl_cons, List.flatMap_cons, Separated, ← hrest]
      cases hwrites : st.writesNewline viewWidth r with
      | true =>
          have hout : (st.copy viewWidth r).out = st.out ++ ([LF] ++ r.stripped) := by
            rw [CopyState.copy, hwrites, ← List.append_assoc]
            rfl
          rw [hout, List.append_assoc st.out]
          exact (and_iff_right rfl).symm
      | false =>
          -- without the newline the text is too short
          have hout : (st.copy viewWidth r).out = st.out ++ r.stripped := by
            rw [CopyState.copy, hwrites]
            simp [Row.stripped]
          have hle := length_foldl_le viewWidth (st.copy viewWidth r) rows
          rw [hout] at hle
          refine iff_of_false (fun heq => ?_) fun h => Bool.false_ne_true h.1
          rw [heq] at hle
          simp only [List.length_append, List.length_singleton] at hle
          omega

theorem separated_iff (hunflagged : ∀ r ∈ rows, r.isWrapped = false) (hany : st.anyContent = true)
    (hprev : st.prevRaw = some a.raw) :
    Separated viewWidth st rows ↔ (a :: rows).IsChain (Apart viewWidth) := by
  induction rows generalizing st a with
  | nil => exact iff_of_true trivial (List.IsChain.singleton a)
  | cons b rows ih =>
      have hany' : (st.copy viewWidth b).anyContent = true := by
        simp [CopyState.copy, hany]
      have hprev' : (st.copy viewWidth b).prevRaw = some b.raw := rfl
      have hrest := ih (fun r hr => hunflagged r (List.mem_cons_of_mem b hr)) hany' hprev'
      have hwrites : st.writesNewline viewWidth b = true ↔ Apart viewWidth a b := by
        rw [CopyState.writesNewline, CopyState.prevVisiblyFull, hany, hprev,
          hunflagged b List.mem_cons_self, Apart, Row.stripped]
        simp
      rw [Separated, List.isChain_cons_cons, hrest, hwrites]

/-- The rows are joined by newlines exactly if the first one has content and no newline is taken for a
wrap. -/
theorem copyRows_join_iff (hunflagged : ∀ r ∈ rows, r.isWrapped = false)
    (hlast : ∃ init last, rows = init ++ [last] ∧ last.stripped ≠ []) :
    (copyRows viewWidth rows).out = [LF].intercalate (rows.map Row.stripped) ↔
      (∀ r ∈ rows.head?, r.stripped ≠ []) ∧ rows.IsChain (Apart viewWidth) := by
  cases rows with
  | nil =>
      obtain ⟨init, last, hnil, -⟩ := hlast
      simp at hnil
  | cons a rows =>
      have hfirst : (CopyState.start.copy viewWidth a).out = a.stripped := rfl
      have hcopied : (copyRows viewWidth (a :: rows)).out = [LF].intercalate ((a :: rows).map Row.stripped) ↔
          Separated viewWidth (CopyState.start.copy viewWidth a) rows := by
        rw [← foldl_out_iff, hfirst, List.map_cons, intercalate_cons, List.flatMap_map]
        rfl
      rw [hcopied]
      by_cases hcontent : a.stripped = []
      · -- the first row is blank, so it is not the last one
        refine iff_of_false (fun hseparated => ?_) fun h => h.1 a rfl hcontent
        cases rows with
        | nil =>
            obtain ⟨init, last, heq, hne⟩ := hlast
            cases init with
            | nil =>
                obtain rfl := List.head_eq_of_cons_eq heq
                exact hne hcontent
            | cons r init => simp at heq
        | cons b rows =>
            have hblank : rstripSpaces a.raw = [] := hcontent
            have hwrites := hseparated.1
            simp [CopyState.writesNewline, CopyState.copy, CopyState.start, hblank] at hwrites
      · have hany : (CopyState.start.copy viewWidth a).anyContent = true := by
          rw [CopyState.copy]
          exact decide_eq_true hcontent
        rw [separated_iff (fun r hr => hunflagged r (List.mem_cons_of_mem a hr)) hany rfl]
        exact (and_iff_right fun r hr => by
          obtain rfl := Option.some.inj hr
          exact hcontent).symm

end Blank

section BlankRows

variable {Line Selection : Type} {X : Xterm Line Selection} {cells : Line → List Cell}
  {t : Terminal Line} {selection : Selection}

/-- A row whose visible content ends before the last column is not taken for a full one, if it has no
surrogate pairs. -/
theorem apart_of_short (hX : ReadsCells X cells) (ht : Characters cells t) {x : Line × BufferSegment}
    (hx : x.1 ∈ t.lines) (hshort : visibleEnd (shownIn cells x) < t.viewWidth)
    (hpairs : surrogatePairs (shownIn cells x) = 0) (b : Row) : Apart t.viewWidth (toRow X x) b := by
  have hlength := length_stripped hX ht hx
  refine Or.inl ?_
  rw [Row.stripped]
  omega

/-- The rows from the first selected one to the last one with content, stripped and joined by newlines,
are copied exactly if the first row has content and no row is taken for a continuation. -/
theorem blank_rows_iff (X : Xterm Line Selection) (t : Terminal Line) (selection : Selection)
    (hX : ReadsCells X cells) (ht : Characters cells t)
    (hcollapsed : X.isCollapsed selection = false)
    (hunflagged : ∀ r ∈ selectedRows X t selection, r.isWrapped = false)
    (hcontent : ∃ r ∈ selectedRows X t selection, r.stripped ≠ []) :
    extractSelectionText X t (some selection) =
        [LF].intercalate ((contentRows (selectedRows X t selection)).map Row.stripped) ↔
      (∀ r ∈ (selectedRows X t selection).head?, r.stripped ≠ []) ∧
        (contentRows (selectedRows X t selection)).IsChain (Apart t.viewWidth) := by
  rw [extractSelectionText_eq hcollapsed (noBreaks hX ht)]
  generalize selectedRows X t selection = rows at hunflagged hcontent
  have hlast : ∃ init last, contentRows rows = init ++ [last] ∧ last.stripped ≠ [] := by
    rcases rdropWhile_eq_append (fun r : Row => decide (r.stripped = [])) rows with
      hnil | ⟨init, last, hlast, hvisible⟩
    · obtain ⟨r, hr, hvisible⟩ := hcontent
      exact absurd (of_decide_eq_true (List.rdropWhile_eq_nil_iff.1 hnil r hr)) hvisible
    · exact ⟨init, last, hlast, of_decide_eq_false hvisible⟩
  -- the first row is among those that are copied
  have hhead : rows.head? = (contentRows rows).head? := by
    obtain ⟨blank, hrows, -⟩ := exists_append_rdropWhile (fun r : Row => decide (r.stripped = [])) rows
    obtain ⟨init, last, hcopied, -⟩ := hlast
    have hfront : (contentRows rows ++ blank).head? = (contentRows rows).head? := by
      rw [hcopied]
      cases init <;> simp
    rw [← hfront]
    exact congrArg List.head? hrows
  rw [hhead]
  apply copyRows_join_iff _ hlast
  intro r hr
  exact hunflagged r ((List.rdropWhile_prefix ..).subset hr)

end BlankRows

open Sample in
/-- A blank row between two others, and one behind them. -/
theorem blank_rows_kept :
    extractSelectionText xterm (terminal 3 [("a", false), ("", false), ("b", false), ("", false)])
      (some ⟨0, 0, 3, 3⟩) = literal "a\n\nb" := by
  apply ((blank_rows_iff xterm (terminal 3 [("a", false), ("", false), ("b", false), ("", false)])
    ⟨0, 0, 3, 3⟩ readsCells (by decide) rfl (by decide) (by decide)).2 ?_).trans
  · rfl
  · decide

open Sample in
/-- A blank row in front of another is lost. -/
theorem leading_blank_row_is_lost :
    extractSelectionText xterm (terminal 3 [("", false), ("a", false)]) (some ⟨0, 0, 3, 1⟩) = literal "a" ∧
      literal "a" ≠ [LF].intercalate ((contentRows (selectedRows xterm
        (terminal 3 [("", false), ("a", false)]) ⟨0, 0, 3, 1⟩)).map Row.stripped) := by
  decide +kernel

/-! ## Wrapped text -/

/-- The terminal has laid the text out on these lines: row `i` holds the characters `i * w` to
`(i + 1) * w - 1`, and every row after the first is flagged. -/
structure AutoWrapped {Line Selection : Type} (X : Xterm Line Selection) (cells : Line → List Cell)
    (w : Nat) (text : List Char) (lines : List Line) : Prop where
  layout : lines.map cells = (rows w text).map (rowCells w)
  flagged : ∀ line ∈ lines.tail, X.isWrapped line = true

/-- The whole row is selected. -/
def WholeRow (w : Nat) (seg : BufferSegment) : Prop :=
  seg.start.getD 0 = 0 ∧ (w : Int) ≤ seg.stop.getD w

instance (w : Nat) (seg : BufferSegment) : Decidable (WholeRow w seg) :=
  inferInstanceAs (Decidable (_ ∧ _))

/-- The code units of a text. -/
def codeUnits (text : List Char) : CodeUnits := text.flatMap fun c => writeCharCode c.toNat

section Wrapped

variable {Line Selection : Type} {X : Xterm Line Selection} {cells : Line → List Cell}
  {t : Terminal Line} {selection : Selection}

/-- A row whose cells are all selected has the text of its characters. -/
theorem textOf_rowCells {w : Nat} {chars : List Char} (hprintable : ∀ c ∈ chars, 0x20 ≤ c.toNat)
    (hlength : chars.length ≤ w) {seg : BufferSegment} (hwhole : WholeRow w seg) :
    textOf (printed (rowCells w chars) seg.start seg.stop) = codeUnits chars := by
  have hsize : (rowCells w chars).length = w := by
    rw [rowCells, List.length_append, List.length_map, List.length_replicate]
    omega
  have hfirst : firstColumn seg.start = 0 := by
    rw [firstColumn, hwhole.1]
    rfl
  have hend : endColumn w seg.stop = w := by
    have hstop := hwhole.2
    rw [endColumn]
    omega
  -- every cell is selected, and no character is cut off
  have hprinted : printed (rowCells w chars) seg.start seg.stop =
      (rowCells w chars).zipIdx.filter ((fun cell : Cell => decide (cell.codePoint ≠ 0)) ∘ Prod.fst) := by
    rw [printed, hsize, hfirst, hend]
    apply List.filter_congr
    intro x hx
    have hcolumn := List.snd_lt_of_mem_zipIdx hx
    rw [hsize, Nat.add_zero] at hcolumn
    have hwidth : x.1.width ≤ 1 := by
      have hcell := List.fst_mem_of_mem_zipIdx hx
      rw [rowCells, List.mem_append] at hcell
      rcases hcell with hcell | hcell
      · obtain ⟨c, -, hc⟩ := List.mem_map.1 hcell
        rw [← hc, Cell.narrow]
      · rw [List.eq_of_mem_replicate hcell]
        exact Nat.zero_le _
    rw [Function.comp_apply, decide_eq_decide]
    exact ⟨fun h => h.2.2.1, fun h => ⟨Nat.zero_le _, hcolumn, h, by omega⟩⟩
  have hchars : (chars.map Cell.narrow).filter (fun cell => decide (cell.codePoint ≠ 0)) =
      chars.map Cell.narrow := by
    rw [List.filter_eq_self]
    intro cell hcell
    obtain ⟨c, hc, rfl⟩ := List.mem_map.1 hcell
    have hcode := hprintable c hc
    rw [decide_eq_true_eq]
    show c.toNat ≠ 0
    omega
  have hblank : (List.replicate (w - chars.length) Cell.blank).filter
      (fun cell => decide (cell.codePoint ≠ 0)) = [] := by
    rw [List.filter_eq_nil_iff]
    intro cell hcell
    rw [List.eq_of_mem_replicate hcell]
    decide
  have htext : ∀ xs : List (Cell × Nat),
      textOf xs = (xs.map Prod.fst).flatMap fun cell => writeCharCode cell.codePoint := by
    intro xs
    rw [List.flatMap_map]
    rfl
  rw [htext, hprinted, ← List.filter_map, List.zipIdx_map_fst, rowCells, List.filter_append, hchars, hblank,
    List.append_nil, List.flatMap_map]
  rfl

/-- A row keeps its text exactly if it does not end in a space. -/
theorem stripped_codeUnits_iff (chars : List Char) :
    rstripSpaces (codeUnits chars) = codeUnits chars ↔ chars.getLast? ≠ some ' ' := by
  rcases List.eq_nil_or_concat chars with rfl | ⟨init, last, rfl⟩
  · simp [codeUnits, rstripSpaces]
  rw [List.concat_eq_append, codeUnits, List.flatMap_append, List.flatMap_singleton, List.getLast?_concat]
  by_cases hspace : last = ' '
  · subst hspace
    refine iff_of_false (fun heq => ?_) fun h => h rfl
    have hcut : rstripSpaces (codeUnits init ++ [SPACE]) = rstripSpaces (codeUnits init) :=
      rdropWhile_append_of_forall fun c hc => decide_eq_true (List.mem_singleton.1 hc)
    have hlength : (rstripSpaces (codeUnits init)).length = (codeUnits init ++ [SPACE]).length :=
      congrArg List.length (hcut.symm.trans heq)
    have hle : (rstripSpaces (codeUnits init)).length ≤ (codeUnits init).length :=
      (List.rdropWhile_prefix ..).length_le
    rw [List.length_append, List.length_singleton] at hlength
    omega
  · have hcode : last.toNat ≠ 0x20 := fun h => hspace (Char.toNat_inj.1 h)
    obtain ⟨text, c, htext, hc⟩ := writeCharCode_last (toNat_le last) hcode
    refine iff_of_true ?_ fun heq => hspace (Option.some.inj heq)
    rw [htext, ← List.append_assoc]
    exact rdropWhile_of_last (decide_eq_false hc)

/-- Flagged rows are written one after the other. -/
theorem foldl_out_of_flagged {viewWidth : Nat} {st : CopyState} {rows : List Row}
    (hflagged : ∀ r ∈ rows, r.isWrapped = true) :
    (rows.foldl (CopyState.copy viewWidth) st).out = st.out ++ rows.flatMap Row.stripped := by
  induction rows generalizing st with
  | nil => exact (List.append_nil _).symm
  | cons r rows ih =>
      have hwrites : st.writesNewline viewWidth r = false := by
        simp [CopyState.writesNewline, hflagged r List.mem_cons_self]
      have hout : (st.copy viewWidth r).out = st.out ++ r.stripped := by
        rw [CopyState.copy, hwrites]
        simp [Row.stripped]
      rw [List.foldl_cons, ih fun r' hr' => hflagged r' (List.mem_cons_of_mem r hr'), hout, List.flatMap_cons,
        List.append_assoc]

theorem copyRows_of_flagged {viewWidth : Nat} {rows : List Row}
    (hflagged : ∀ r ∈ rows.tail, r.isWrapped = true) :
    (copyRows viewWidth rows).out = rows.flatMap Row.stripped := by
  cases rows with
  | nil => rfl
  | cons r rows =>
      have hfirst : (CopyState.start.copy viewWidth r).out = r.stripped := rfl
      have hrest := @foldl_out_of_flagged viewWidth (CopyState.start.copy viewWidth r) rows hflagged
      rw [hfirst] at hrest
      rw [List.flatMap_cons, ← hrest]
      rfl

/-- The rows of a wrapped text. -/
theorem raw_rows {text : List Char} (hX : ReadsCells X cells) (hprintable : ∀ c ∈ text, 0x20 ≤ c.toNat)
    (hwrapped : AutoWrapped X cells t.viewWidth text ((selectedLines X t selection).map (·.1)))
    (hwhole : ∀ x ∈ selectedLines X t selection, WholeRow t.viewWidth x.2) :
    (selectedRows X t selection).map (·.raw) = (rows t.viewWidth text).map codeUnits := by
  rw [selectedRows_eq, List.map_map]
  have hlayout := hwrapped.layout
  rw [List.map_map] at hlayout
  apply map_eq_map_of hlayout
  intro x hx chars hchars hcells
  have hcells' : cells x.1 = rowCells t.viewWidth chars := hcells
  obtain ⟨i, -, rfl⟩ := List.mem_map.1 hchars
  show (toRow X x).raw = _
  rw [toRow, hX, hcells']
  apply textOf_rowCells _ (List.length_take_le ..) (hwhole x hx)
  intro c hc
  exact hprintable c (List.drop_subset _ _ (List.take_subset _ _ hc))

/-- The loop writes the stripped rows of a wrapped text one after the other. -/
theorem copyRows_wrapped {text : List Char} (hX : ReadsCells X cells)
    (hprintable : ∀ c ∈ text, 0x20 ≤ c.toNat)
    (hwrapped : AutoWrapped X cells t.viewWidth text ((selectedLines X t selection).map (·.1)))
    (hwhole : ∀ x ∈ selectedLines X t selection, WholeRow t.viewWidth x.2) :
    (copyRows t.viewWidth (selectedRows X t selection)).out =
      (((rows t.viewWidth text).map codeUnits).map rstripSpaces).flatten := by
  have hflagged : ∀ r ∈ (selectedRows X t selection).tail, r.isWrapped = true := by
    intro r hr
    rw [selectedRows_eq, ← List.map_tail] at hr
    obtain ⟨x, hx, rfl⟩ := List.mem_map.1 hr
    apply hwrapped.flagged
    rw [← List.map_tail]
    exact List.mem_map_of_mem hx
  rw [copyRows_of_flagged hflagged, ← raw_rows hX hprintable hwrapped hwhole, List.map_map, List.flatMap_def]
  rfl

/-- Printable text has no line breaks. -/
theorem notMem_codeUnits {text : List Char} (hprintable : ∀ c ∈ text, 0x20 ≤ c.toNat) {c : UInt16}
    (hsmall : c.toNat < 0x20) : c ∉ codeUnits text := by
  intro hc
  obtain ⟨d, hd, hc⟩ := List.mem_flatMap.1 hc
  have hcode := mem_writeCharCode (toNat_le d) (by omega) hc
  have hd' := hprintable d hd
  omega

/-- The rows make up the text. -/
theorem codeUnits_eq_flatten {w : Nat} (hw : 0 < w) (text : List Char) :
    codeUnits text = ((rows w text).map codeUnits).flatten := by
  conv_lhs => rw [← flatten_rows hw text]
  rw [codeUnits, List.flatten_eq_flatMap, List.flatMap_assoc, List.flatMap_def]
  rfl

/-- Text that the terminal has wrapped is copied as it is exactly if no row but the last one ends in a
space. -/
theorem wrapped_text_iff (X : Xterm Line Selection) (t : Terminal Line) (selection : Selection)
    (hX : ReadsCells X cells) {text : List Char} (hwidth : 0 < t.viewWidth)
    (hprintable : ∀ c ∈ text, 0x20 ≤ c.toNat) (hlast : text.getLast? ≠ some ' ')
    (hcollapsed : X.isCollapsed selection = false)
    (hwrapped : AutoWrapped X cells t.viewWidth text ((selectedLines X t selection).map (·.1)))
    (hwhole : ∀ x ∈ selectedLines X t selection, WholeRow t.viewWidth x.2) :
    extractSelectionText X t (some selection) = codeUnits text ↔
      ∀ i, 0 < i → i * t.viewWidth < text.length → text[i * t.viewWidth - 1]? ≠ some ' ' := by
  have hout := copyRows_wrapped hX hprintable hwrapped hwhole
  have hrow : ∀ chars ∈ rows t.viewWidth text, ∀ c ∈ chars, 0x20 ≤ c.toNat := by
    intro chars hchars c hc
    apply hprintable c
    rw [← flatten_rows hwidth text]
    exact List.mem_flatten_of_mem hchars hc
  have hcr : ∀ r ∈ selectedRows X t selection, CR ∉ r.raw := by
    intro r hr
    have hraw : r.raw ∈ (rows t.viewWidth text).map codeUnits := by
      rw [← raw_rows hX hprintable hwrapped hwhole]
      exact List.mem_map_of_mem hr
    obtain ⟨chars, hchars, heq⟩ := List.mem_map.1 hraw
    rw [← heq]
    exact notMem_codeUnits (hrow chars hchars) (by decide)
  -- no newline is written, so none is trimmed
  have htrim : trimNewlines (copyRows t.viewWidth (selectedRows X t selection)).out =
      (copyRows t.viewWidth (selectedRows X t selection)).out := by
    rw [trimNewlines, List.rdropWhile_eq_self_iff]
    intro hne hlf
    have hmem := List.getLast_mem hne
    rw [of_decide_eq_true hlf, hout] at hmem
    obtain ⟨line, hline, hmem⟩ := List.mem_flatten.1 hmem
    obtain ⟨raw, hraw, rfl⟩ := List.mem_map.1 hline
    obtain ⟨chars, hchars, rfl⟩ := List.mem_map.1 hraw
    exact notMem_codeUnits (hrow chars hchars) (by decide) (mem_rstripSpaces hmem)
  have hrows := forall_rows_last_iff hwidth ' ' text
  rw [and_iff_left hlast] at hrows
  rw [extractSelectionText_eq_trim hcollapsed hcr, htrim, hout, codeUnits_eq_flatten hwidth,
    flatten_map_eq_iff (f := rstripSpaces) fun _ => List.rdropWhile_prefix .., List.forall_mem_map, ← hrows]
  apply forall_congr'
  intro chars
  rw [stripped_codeUnits_iff]

end Wrapped

open Sample in
/-- A space within a row. -/
theorem wrapped_text_kept :
    extractSelectionText xterm (terminal 2 [("ab", false), (" c", true)]) (some ⟨0, 0, 2, 1⟩) =
      codeUnits "ab c".toList := by
  have hprintable : ("ab c".toList.all fun c => 0x20 ≤ c.toNat) = true := by decide
  apply (wrapped_text_iff xterm (terminal 2 [("ab", false), (" c", true)]) ⟨0, 0, 2, 1⟩ readsCells
    (by decide) (fun c hc => of_decide_eq_true (List.all_eq_true.1 hprintable c hc)) (by decide) rfl
    ⟨rfl, by decide⟩ (by decide)).2
  intro i hi hlt
  obtain rfl : i = 1 := by
    have hlt' : i * 2 < 4 := hlt
    omega
  decide

open Sample in
/-- A space at the end of a row is lost. -/
theorem space_at_wrap_is_lost :
    AutoWrapped xterm BufferLine.cells 2 "a b".toList (terminal 2 [("a ", false), ("b", true)]).lines ∧
      extractSelectionText xterm (terminal 2 [("a ", false), ("b", true)]) (some ⟨0, 0, 2, 1⟩) ≠
        codeUnits "a b".toList :=
  ⟨⟨rfl, by decide⟩, by decide +kernel⟩

end Ktty.Client.Clipboard
