import Ktty.Client.Clipboard
import Ktty.Lib.Lines
import Mathlib.Algebra.Order.Ring.Int
import Mathlib.Algebra.Order.Ring.Nat

/-!
# The rows of a selection

A buffer row of the xterm package is a list of cells, and `getText` writes the code points in the selected
ones (`ReadsCells`). What is left of a row without its trailing spaces are the characters up to its
visible end (`shown`). The loop of `extractSelectionText` takes the number of their code units for the
column in which they end. The two differ by the columns at which no character begins and by the surrogate
pairs (`length_stripped`), so the newlines are those of the documented rule only in selections in which
that makes no difference (`newline_rule_iff`).
-/

set_option autoImplicit false

namespace Ktty.Client.Clipboard

open Ktty.Lib.Lines

/-! ## Cells -/

/-- A cell: its code point, 0 where nothing is written or behind a wide character, and the number of
columns that the character takes. -/
structure Cell where
  codePoint : Nat
  width : Nat
  valid : codePoint ≤ 0x10FFFF
  deriving DecidableEq

theorem toNat_le (c : Char) : c.toNat ≤ 0x10FFFF := by
  rcases c.valid with h | ⟨-, h⟩
  · exact Nat.le_of_lt_succ (Nat.lt_trans h (by decide))
  · exact Nat.le_of_lt_succ h

/-- A printable character that is one column wide. -/
def Cell.narrow (c : Char) : Cell where
  codePoint := c.toNat
  width := 1
  valid := toNat_le c

/-- A cell that was never written. -/
def Cell.blank : Cell where
  codePoint := 0
  width := 0
  valid := Nat.zero_le _

/-- The cells of a row: its characters and the blank cells behind them. -/
def rowCells (w : Nat) (chars : List Char) : List Cell :=
  chars.map .narrow ++ List.replicate (w - chars.length) .blank

/-- The first selected column. -/
def firstColumn (start : Option Int) : Nat := (start.getD 0).toNat

/-- The end of the selected columns. -/
def endColumn (length : Nat) (stop : Option Int) : Nat := min (stop.getD length).toNat length

/-- The selected cells with a character, and their columns. A wide character that is cut off is left
out. -/
def printed (cells : List Cell) (start stop : Option Int) : List (Cell × Nat) :=
  let limit := endColumn cells.length stop
  cells.zipIdx.filter fun x =>
    decide (firstColumn start ≤ x.2 ∧ x.2 < limit ∧ x.1.codePoint ≠ 0 ∧ x.2 + x.1.width ≤ limit)

/-- The text of characters. -/
def textOf (xs : List (Cell × Nat)) : CodeUnits := xs.flatMap fun x => writeCharCode x.1.codePoint

/-- The selected characters without trailing spaces. -/
def shown (cells : List Cell) (start stop : Option Int) : List (Cell × Nat) :=
  (printed cells start stop).rdropWhile fun x => x.1.codePoint = 0x20

/-- The column in which characters end. -/
def visibleEnd (xs : List (Cell × Nat)) : Nat := xs.getLast?.elim 0 fun x => x.2 + x.1.width

/-- The columns before the end of characters at which none of them begins: columns outside the selection,
second halves of wide characters, and cells that were never written. -/
def silent (xs : List (Cell × Nat)) : Nat :=
  ((List.range (visibleEnd xs)).filter fun column => column ∉ xs.map (·.2)).length

/-- The characters that take two code units. -/
def surrogatePairs (xs : List (Cell × Nat)) : Nat := xs.countP fun x => 0x10000 ≤ x.1.codePoint

/-! ## The buffer -/

section Buffer

variable {Line Selection : Type} (X : Xterm Line Selection) (cells : Line → List Cell)

/-- `getText` of the xterm package: the code points of the selected cells, one after the other. -/
def ReadsCells : Prop :=
  ∀ line start stop, X.getText line start stop = textOf (printed (cells line) start stop)

/-- The characters in the buffer are one or two columns wide, and none of them is a line break. -/
def Characters (t : Terminal Line) : Prop :=
  ∀ line ∈ t.lines, ∀ cell ∈ cells line, cell.codePoint ≠ 0 →
    (cell.width = 1 ∨ cell.width = 2) ∧ cell.codePoint ≠ 0x0D ∧ cell.codePoint ≠ 0x0A

/-- The selected lines, with the selected part of each. -/
def selectedLines (t : Terminal Line) (selection : Selection) : List (Line × BufferSegment) :=
  (X.toSegments (X.normalized selection)).filterMap fun seg =>
    (t.line? seg.line).map fun line => (line, seg)

/-- The row of a selected line. -/
def toRow (x : Line × BufferSegment) : Row where
  raw := X.getText x.1 x.2.start x.2.stop
  isWrapped := X.isWrapped x.1
  startsAtZero := decide (x.2.start.getD 0 = 0)

/-- The visible characters of a selected line. -/
def shownIn (x : Line × BufferSegment) : List (Cell × Nat) := shown (cells x.1) x.2.start x.2.stop

end Buffer

instance {Line : Type} (cells : Line → List Cell) (t : Terminal Line) : Decidable (Characters cells t) :=
  inferInstanceAs (Decidable (∀ line ∈ t.lines, ∀ cell ∈ cells line, _ → _))

namespace Sample

structure BufferLine where
  cells : List Cell
  isWrapped : Bool

structure BufferRangeLine where
  beginX : Int
  beginY : Int
  endX : Int
  endY : Int

/-- The xterm package on line selections. -/
def xterm : Xterm BufferLine BufferRangeLine where
  getText line start stop := textOf (printed line.cells start stop)
  isWrapped := BufferLine.isWrapped
  isCollapsed s := decide (s.beginX = s.endX ∧ s.beginY = s.endY)
  normalized s :=
    if s.beginY < s.endY ∨ s.beginY = s.endY ∧ s.beginX ≤ s.endX then s
    else { beginX := s.endX, beginY := s.endY, endX := s.beginX, endY := s.beginY }
  toSegments s := (List.range (s.endY - s.beginY + 1).toNat).map fun k =>
    { line := s.beginY + k
      start := if k = 0 then some s.beginX else none
      stop := if s.beginY + k = s.endY then some s.endX else none }

theorem readsCells : ReadsCells xterm BufferLine.cells := fun _ _ _ => rfl

/-- A terminal with these rows, each with its flag. -/
def terminal (w : Nat) (rows : List (String × Bool)) : Terminal BufferLine where
  lines := rows.map fun row => { cells := rowCells w row.1.toList, isWrapped := row.2 }
  viewWidth := w
  bracketedPasteMode := false

end Sample

/-! ## Text of cells -/

theorem length_writeCharCode (codePoint : Nat) :
    (writeCharCode codePoint).length = if 0x10000 ≤ codePoint then 2 else 1 := by
  rw [writeCharCode]
  split_ifs <;> first | rfl | omega

theorem length_textOf (xs : List (Cell × Nat)) : (textOf xs).length = xs.length + surrogatePairs xs := by
  induction xs with
  | nil => rfl
  | cons x xs ih =>
      rw [textOf, List.flatMap_cons, List.length_append, length_writeCharCode, ← textOf, ih,
        surrogatePairs, surrogatePairs, List.countP_cons, List.length_cons]
      split_ifs <;> simp_all <;> omega

/-- A code unit that is no surrogate stands for itself. -/
theorem mem_writeCharCode {codePoint : Nat} (hvalid : codePoint ≤ 0x10FFFF) {c : UInt16}
    (hc : c.toNat < 0xD800) (h : c ∈ writeCharCode codePoint) : codePoint = c.toNat := by
  rw [writeCharCode] at h
  split_ifs at h with hbmp
  · rw [List.mem_singleton] at h
    rw [h, Nat.toUInt16_eq, UInt16.toNat_ofNat', Nat.mod_eq_of_lt hbmp]
  · -- both halves of a pair are surrogates
    rw [List.mem_cons, List.mem_singleton] at h
    rcases h with h | h
    · rw [h, Nat.toUInt16_eq, UInt16.toNat_ofNat'] at hc
      omega
    · rw [h, Nat.toUInt16_eq, UInt16.toNat_ofNat'] at hc
      omega

/-- The text of a character other than a space does not end in a space. -/
theorem writeCharCode_last {codePoint : Nat} (hvalid : codePoint ≤ 0x10FFFF) (hne : codePoint ≠ 0x20) :
    ∃ init c, writeCharCode codePoint = init ++ [c] ∧ c ≠ SPACE := by
  have hspace : ∀ c ∈ writeCharCode codePoint, c ≠ SPACE := by
    rintro c hc rfl
    exact hne (mem_writeCharCode hvalid (by decide) hc)
  have hnil : writeCharCode codePoint ≠ [] := by
    apply List.ne_nil_of_length_pos
    rw [length_writeCharCode]
    split_ifs <;> omega
  exact ⟨_, _, (List.dropLast_append_getLast hnil).symm, hspace _ (List.getLast_mem hnil)⟩

/-- Trimming the text of characters leaves the text of the characters up to the last visible one. -/
theorem rstripSpaces_textOf (xs : List (Cell × Nat)) :
    rstripSpaces (textOf xs) = textOf (xs.rdropWhile fun x => x.1.codePoint = 0x20) := by
  apply rdropWhile_flatMap
  · intro x hx c hc
    rw [decide_eq_true_eq] at hx ⊢
    rw [hx] at hc
    exact List.mem_singleton.1 hc
  · intro x hx
    rw [decide_eq_false_iff_not] at hx
    obtain ⟨init, c, hcode, hc⟩ := writeCharCode_last x.1.valid hx
    exact ⟨init, c, hcode, decide_eq_false hc⟩

/-! ## Columns -/

theorem printed_columns (cells : List Cell) (start stop : Option Int) :
    ((printed cells start stop).map (·.2)).Pairwise (· < ·) := by
  have hall : (cells.zipIdx.map (·.2)).Pairwise (· < ·) := by
    rw [List.zipIdx_map_snd]
    exact List.pairwise_lt_range'
  exact hall.sublist (List.filter_sublist.map _)

theorem shown_columns (cells : List Cell) (start stop : Option Int) :
    ((shown cells start stop).map (·.2)).Pairwise (· < ·) :=
  (printed_columns cells start stop).sublist ((List.rdropWhile_prefix ..).sublist.map _)

/-- Characters begin before the visible end, if they are at least one column wide. -/
theorem lt_visibleEnd {xs : List (Cell × Nat)} (hcolumns : (xs.map (·.2)).Pairwise (· < ·))
    (hwidth : ∀ x ∈ xs, 1 ≤ x.1.width) : ∀ column ∈ xs.map (·.2), column < visibleEnd xs := by
  intro column hcolumn
  rcases List.eq_nil_or_concat xs with rfl | ⟨init, last, rfl⟩
  · cases hcolumn
  · rw [List.concat_eq_append] at hcolumns hwidth hcolumn ⊢
    have hlast := hwidth last (List.mem_append_right _ List.mem_cons_self)
    rw [visibleEnd, List.getLast?_concat, Option.elim_some]
    rw [List.map_append, List.mem_append, List.map_singleton, List.mem_singleton] at hcolumn
    rw [List.map_append, List.pairwise_append] at hcolumns
    rcases hcolumn with hcolumn | rfl
    · have hlt := hcolumns.2.2 column hcolumn last.2 (List.mem_cons_self ..)
      omega
    · omega

/-- The code units of the visible text and the silent columns make up the columns before its end and the
second halves of the surrogate pairs. -/
theorem length_shown_add_silent {xs : List (Cell × Nat)} (hcolumns : (xs.map (·.2)).Pairwise (· < ·))
    (hwidth : ∀ x ∈ xs, 1 ≤ x.1.width) :
    (textOf xs).length + silent xs = visibleEnd xs + surrogatePairs xs := by
  have hnodup : (xs.map (·.2)).Nodup := hcolumns.imp Nat.ne_of_lt
  have hbefore : ∀ column ∈ xs.map (·.2), column ∈ List.range (visibleEnd xs) :=
    fun column hcolumn => List.mem_range.2 (lt_visibleEnd hcolumns hwidth column hcolumn)
  have hplaces := length_add_filter_notMem hnodup List.nodup_range hbefore
  rw [List.length_map, List.length_range] at hplaces
  rw [length_textOf, silent]
  omega

section Rows

variable {Line Selection : Type} {X : Xterm Line Selection} {cells : Line → List Cell}
  {t : Terminal Line} {selection : Selection}

theorem selectedRows_eq (X : Xterm Line Selection) (t : Terminal Line) (selection : Selection) :
    selectedRows X t selection = (selectedLines X t selection).map (toRow X) := by
  rw [selectedRows, selectedLines, List.map_filterMap]
  apply List.filterMap_congr
  intro seg _
  rw [rowOf, Option.map_map]
  rfl

theorem mem_selectedLines {x : Line × BufferSegment} (hx : x ∈ selectedLines X t selection) :
    x.1 ∈ t.lines := by
  rw [selectedLines, List.mem_filterMap] at hx
  obtain ⟨seg, -, hseg⟩ := hx
  obtain ⟨line, hline, rfl⟩ := Option.map_eq_some_iff.1 hseg
  rw [Terminal.line?] at hline
  split at hline
  · cases hline
  · exact List.mem_of_getElem? hline

theorem stripped_toRow (hX : ReadsCells X cells) (x : Line × BufferSegment) :
    rstripSpaces (toRow X x).raw = textOf (shownIn cells x) := by
  rw [toRow, hX, rstripSpaces_textOf]
  rfl

/-- The number of code units of a stripped row. -/
theorem length_stripped (hX : ReadsCells X cells) (ht : Characters cells t)
    {x : Line × BufferSegment} (hx : x.1 ∈ t.lines) :
    (rstripSpaces (toRow X x).raw).length + silent (shownIn cells x) =
      visibleEnd (shownIn cells x) + surrogatePairs (shownIn cells x) := by
  rw [stripped_toRow hX]
  apply length_shown_add_silent (shown_columns ..)
  intro y hy
  have hprinted := (List.rdropWhile_prefix ..).subset hy
  rw [printed, List.mem_filter, decide_eq_true_eq] at hprinted
  obtain ⟨hcell, -, -, hcode, -⟩ := hprinted
  rcases (ht x.1 hx y.1 (List.fst_mem_of_mem_zipIdx hcell) hcode).1 with hwidth | hwidth
  · omega
  · omega

end Rows

/-! ## The loop -/

section Loop

variable {viewWidth : Nat} {front back rows : List Row} {a b : Row}

theorem copyRows_concat (viewWidth : Nat) (front : List Row) (a : Row) :
    copyRows viewWidth (front ++ [a]) = (copyRows viewWidth front).copy viewWidth a := by
  rw [copyRows, List.foldl_append]
  rfl

theorem copyRows_anyContent (viewWidth : Nat) (rows : List Row) :
    (copyRows viewWidth rows).anyContent = true ↔ ∃ r ∈ rows, rstripSpaces r.raw ≠ [] := by
  induction rows using List.reverseRecOn with
  | nil => simp [copyRows, CopyState.start]
  | append_singleton rows r ih => simp [copyRows_concat, CopyState.copy, ih, or_and_right, exists_or]

/-- Between `a` and `b` nothing is written. -/
def OmitsNewline (viewWidth : Nat) (front : List Row) (a b : Row) : Prop :=
  (copyRows viewWidth (front ++ [a, b])).out =
    (copyRows viewWidth (front ++ [a])).out ++ rstripSpaces b.raw

/-- What the code decides after the first row with content. -/
theorem omitsNewline_iff (hcontent : ∃ r ∈ front ++ [a], rstripSpaces r.raw ≠ []) :
    OmitsNewline viewWidth front a b ↔ b.isWrapped = true ∨
      viewWidth ≤ (rstripSpaces a.raw).length ∧ b.startsAtZero = true := by
  have hany := (copyRows_anyContent viewWidth _).2 hcontent
  have hprev : (copyRows viewWidth (front ++ [a])).prevRaw = some a.raw := by
    rw [copyRows_concat]
    rfl
  have hsplit : front ++ [a, b] = front ++ [a] ++ [b] := by simp
  rw [OmitsNewline, hsplit, copyRows_concat _ (front ++ [a])]
  generalize copyRows viewWidth (front ++ [a]) = st at hany hprev
  have hwrites : st.writesNewline viewWidth b =
      !(b.isWrapped || (decide (viewWidth ≤ (rstripSpaces a.raw).length) && b.startsAtZero)) := by
    rw [CopyState.writesNewline, CopyState.prevVisiblyFull, hany, hprev]
    rfl
  rw [CopyState.copy, hwrites]
  cases b.isWrapped <;> cases b.startsAtZero <;>
    by_cases hfull : viewWidth ≤ (rstripSpaces a.raw).length <;> simp [hfull]

end Loop

/-! ## The newline rule -/

section Rule

variable {Line Selection : Type} (X : Xterm Line Selection) (cells : Line → List Cell)
  (t : Terminal Line) (selection : Selection)

/-- `a` and `b` are adjacent rows of the selection, and `a` or a row before it has visible content. -/
structure Adjacent (front : List (Line × BufferSegment)) (a b : Line × BufferSegment) : Prop where
  rows : ∃ back, selectedLines X t selection = front ++ a :: b :: back
  content : ∃ x ∈ front ++ [a], shownIn cells x ≠ []

/-- The documented rule: the newline between two rows is left out exactly if the second one is flagged,
or the visible content of the first one reaches the last column and the second one starts at column 0. -/
def NewlineRule : Prop :=
  ∀ front a b, Adjacent X cells t selection front a b →
    (OmitsNewline t.viewWidth (front.map (toRow X)) (toRow X a) (toRow X b) ↔
      X.isWrapped b.1 = true ∨ t.viewWidth ≤ visibleEnd (shownIn cells a) ∧ b.2.start.getD 0 = 0)

/-- As many code units as it takes: in a row that reaches the last column, the silent columns are made up
for by surrogate pairs, and in a row that ends before it, there are too few of these to make it look
full. -/
structure Regular (viewWidth : Nat) (xs : List (Cell × Nat)) : Prop where
  full : viewWidth ≤ visibleEnd xs → silent xs ≤ surrogatePairs xs + (visibleEnd xs - viewWidth)
  short : visibleEnd xs < viewWidth → surrogatePairs xs < silent xs + (viewWidth - visibleEnd xs)

variable {X cells t selection}

theorem regular_iff {viewWidth length : Nat} {xs : List (Cell × Nat)}
    (h : length + silent xs = visibleEnd xs + surrogatePairs xs) :
    Regular viewWidth xs ↔ (viewWidth ≤ length ↔ viewWidth ≤ visibleEnd xs) := by
  constructor
  · rintro ⟨hfull, hshort⟩
    by_cases hend : viewWidth ≤ visibleEnd xs
    · have hsilent := hfull hend
      exact iff_of_true (by omega) hend
    · have hpairs := hshort (by omega)
      exact iff_of_false (by omega) hend
  · intro hiff
    constructor
    · intro hend
      have hlength := hiff.2 hend
      omega
    · intro hend
      have hlength : ¬ viewWidth ≤ length := fun hle => by
        have := hiff.1 hle
        omega
      omega

/-- The newlines are those of the rule exactly if the rows before a row that is not flagged and starts at
column 0 are regular. -/
theorem newline_rule_iff (hX : ReadsCells X cells) (ht : Characters cells t) :
    NewlineRule X cells t selection ↔
      ∀ front a b, Adjacent X cells t selection front a b →
        X.isWrapped b.1 = false → b.2.start.getD 0 = 0 → Regular t.viewWidth (shownIn cells a) := by
  apply forall_congr'
  intro front
  apply forall_congr'
  intro a
  apply forall_congr'
  intro b
  apply imp_congr_right
  rintro ⟨⟨back, hrows⟩, x, hx, hvisible⟩
  have hselected : a ∈ selectedLines X t selection := by
    rw [hrows]
    simp
  have ha := mem_selectedLines hselected
  have hcontent : ∃ r ∈ front.map (toRow X) ++ [toRow X a], rstripSpaces r.raw ≠ [] := by
    refine ⟨toRow X x, ?_, ?_⟩
    · rw [← List.map_singleton, ← List.map_append]
      exact List.mem_map_of_mem hx
    · rw [stripped_toRow hX]
      intro hnil
      apply hvisible
      apply List.eq_nil_of_length_eq_zero
      have hlength := congrArg List.length hnil
      rw [length_textOf, List.length_nil] at hlength
      omega
  rw [omitsNewline_iff hcontent, regular_iff (length_stripped hX ht ha)]
  have hwrapped : (toRow X b).isWrapped = X.isWrapped b.1 := rfl
  have hstarts : (toRow X b).startsAtZero = decide (b.2.start.getD 0 = 0) := rfl
  rw [hwrapped, hstarts, decide_eq_true_eq]
  cases X.isWrapped b.1 with
  | true => simp
  | false =>
      by_cases hzero : b.2.start.getD 0 = 0
      · simp [hzero]
      · simp [hzero]

end Rule

open Sample in
/-- Two rows that an application has drawn as one. -/
theorem drawn_wrap_follows_rule :
    NewlineRule xterm BufferLine.cells (terminal 2 [("ab", false), ("cd", false)]) ⟨0, 0, 2, 1⟩ := by
  apply (newline_rule_iff readsCells (by decide)).2
  rintro front a b ⟨⟨back, hrows⟩, -⟩ - -
  cases front with
  | nil =>
      obtain ⟨rfl, -⟩ := List.cons.inj hrows
      exact ⟨by decide, by decide⟩
  | cons x front =>
      have hlength : 2 = (x :: front ++ a :: b :: back).length := congrArg List.length hrows
      simp only [List.length_append, List.length_cons] at hlength
      omega

open Sample in
/-- The same rows, selected from the second column on. -/
theorem partial_row_breaks_rule :
    ¬ NewlineRule xterm BufferLine.cells (terminal 2 [("ab", false), ("cd", false)]) ⟨1, 0, 2, 1⟩ ∧
      extractSelectionText xterm (terminal 2 [("ab", false), ("cd", false)]) (some ⟨1, 0, 2, 1⟩) =
        literal "b\ncd" := by
  refine ⟨fun hrule => ?_, by decide +kernel⟩
  have hrows : selectedLines xterm (terminal 2 [("ab", false), ("cd", false)]) ⟨1, 0, 2, 1⟩ =
      [] ++ (_, _) :: (_, _) :: [] := rfl
  have homits := (hrule [] _ _ ⟨⟨[], hrows⟩, _, List.mem_cons_self, by decide⟩).2
    (Or.inr (by decide))
  revert homits
  rw [OmitsNewline]
  decide +kernel

end Ktty.Client.Clipboard
