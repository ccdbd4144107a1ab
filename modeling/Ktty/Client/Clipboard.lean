import Ktty.Lib.Occurrence
import Mathlib.Data.List.DropRight

/-!
# Clipboard text

The helpers of `clipboard_text.dart`. A Dart string is the list of its UTF-16 code units, which is what
`length`, `codeUnitAt` and `replaceAll` go by. The buffer of the terminal and the ranges of a selection
belong to the xterm package and are parameters (`Xterm`).
-/

set_option autoImplicit false

namespace Ktty.Client.Clipboard

open Ktty.Lib.Occurrence

/-- A Dart string. -/
abbrev CodeUnits := List UInt16

def SPACE : UInt16 := 0x20

def CR : UInt16 := 0x0D

def LF : UInt16 := 0x0A

def ESC : UInt16 := 0x1B

/-- `StringBuffer.writeCharCode`. -/
def writeCharCode (codePoint : Nat) : CodeUnits :=
  if codePoint < 0x10000 then [codePoint.toUInt16]
  else
    [(0xD800 + (codePoint - 0x10000) / 0x400).toUInt16,
      (0xDC00 + (codePoint - 0x10000) % 0x400).toUInt16]

/-- A string literal. -/
def literal (s : String) : CodeUnits := s.toList.flatMap fun c => writeCharCode c.toNat

/-! ## The terminal -/

/-- `BufferSegment`: a stretch of one buffer row, to the end of the row where a bound is null. -/
structure BufferSegment where
  line : Int
  start : Option Int
  stop : Option Int

/-- What the helpers read of a `Terminal`. -/
structure Terminal (Line : Type) where
  lines : List Line
  viewWidth : Nat
  bracketedPasteMode : Bool

/-- The functions of the xterm package on buffer rows and selections. -/
structure Xterm (Line Selection : Type) where
  getText : Line → Option Int → Option Int → CodeUnits
  isWrapped : Line → Bool
  isCollapsed : Selection → Bool
  normalized : Selection → Selection
  toSegments : Selection → List BufferSegment

/-- `terminal.buffer.lines[i]`, for the rows of the buffer. -/
def Terminal.line? {Line : Type} (t : Terminal Line) (i : Int) : Option Line :=
  if i < 0 ∨ (t.lines.length : Int) ≤ i then none else t.lines[i.toNat]?

/-! ## Strings -/

/-- `_rstripSpaces`. -/
def rstripSpaces (s : CodeUnits) : CodeUnits := s.rdropWhile fun c => c = SPACE

/-- `_stripCarriageReturns`. -/
def stripCarriageReturns (s : CodeUnits) : CodeUnits :=
  if CR ∉ s then s else replaceAll [CR] [] s

/-- `_normalizeLineEndings`. -/
def normalizeLineEndings (s : CodeUnits) : CodeUnits :=
  if CR ∉ s then s else replaceAll [CR] [LF] (replaceAll [CR, LF] [LF] s)

/-- The trimming of trailing newlines. -/
def trimNewlines (s : CodeUnits) : CodeUnits := s.rdropWhile fun c => c = LF

/-! ## Copying -/

section Copy

variable {Line Selection : Type} (X : Xterm Line Selection)

/-- A row of the selection: `raw`, the flag of the row, and `thisStartsAtZero`. -/
structure Row where
  raw : CodeUnits
  isWrapped : Bool
  startsAtZero : Bool

/-- The row of a segment; segments outside the buffer are passed over. -/
def rowOf (t : Terminal Line) (seg : BufferSegment) : Option Row :=
  (t.line? seg.line).map fun line =>
    { raw := X.getText line seg.start seg.stop
      isWrapped := X.isWrapped line
      startsAtZero := decide (seg.start.getD 0 = 0) }

/-- The rows of a selection, in order. -/
def selectedRows (t : Terminal Line) (selection : Selection) : List Row :=
  (X.toSegments (X.normalized selection)).filterMap (rowOf X t)

end Copy

/-- What the loop of `extractSelectionText` carries from row to row. -/
structure CopyState where
  out : CodeUnits
  prevRaw : Option CodeUnits
  anyContent : Bool

namespace CopyState

variable (viewWidth : Nat) (st : CopyState) (row : Row)

def start : CopyState := { out := [], prevRaw := none, anyContent := false }

/-- `prevVisiblyFull`. -/
def prevVisiblyFull : Bool :=
  match st.prevRaw with
  | none => false
  | some raw => decide (viewWidth ≤ (rstripSpaces raw).length)

/-- A newline is written in front of the row. -/
def writesNewline : Bool :=
  st.anyContent && !(row.isWrapped || (st.prevVisiblyFull viewWidth && row.startsAtZero))

/-- One row. -/
def copy : CopyState :=
  let stripped := rstripSpaces row.raw
  { out := st.out ++ (if st.writesNewline viewWidth row then [LF] else []) ++ stripped
    prevRaw := some row.raw
    anyContent := st.anyContent || decide (stripped ≠ []) }

end CopyState

/-- The loop over the rows. -/
def copyRows (viewWidth : Nat) (rows : List Row) : CopyState :=
  rows.foldl (CopyState.copy viewWidth) .start

def extractSelectionText {Line Selection : Type} (X : Xterm Line Selection) (t : Terminal Line)
    (selection : Option Selection) : CodeUnits :=
  match selection with
  | none => []
  | some selection =>
      if X.isCollapsed selection then []
      else
        let st := copyRows t.viewWidth (selectedRows X t selection)
        -- leading newlines would stay
        trimNewlines (stripCarriageReturns st.out)

/-! ## Pasting -/

def encodeForPaste {Line : Type} (t : Terminal Line) (text : CodeUnits) : CodeUnits :=
  let normalized := normalizeLineEndings text
  if t.bracketedPasteMode then literal "\x1b[200~" ++ normalized ++ literal "\x1b[201~"
  else normalized

end Ktty.Client.Clipboard
