import LintMend.Hint.Basic
import LintMend.Word

/-!
# Overlay of an editor

Where an editor shows hints beside and below a text: the marker of a hint on a strip along the
view, the messages under the pointer, and the range that is underlined.
-/

namespace LintMend.Overlay

/-- A rectangle on the strip, in pixels from the top of the view. -/
structure Marker where
  top : Nat
  height : Nat
  width : Nat
deriving DecidableEq, Repr

def markerWidth : Nat := 3

/-- A marker is never lower than this, so that a hint on one line stays visible. -/
def minMarkerHeight : Nat := 10

/-- Distance of a line from the top of a view that shows all lines, rounded down. -/
def pixelOf (line : UInt64) (lineCount : Nat) (viewHeight : UInt32) : Nat :=
  let height : Float := viewHeight.toNat.toUInt64.toFloat
  (line.toFloat * height / (max lineCount 1).toUInt64.toFloat).toUInt32.toNat

/-- The marker spans the lines of its hint, scaled to the height of the view. A last line that is
the last word of 64 bits has no end. -/
def marker? (hint : Hint) (lineCount : Nat) (viewHeight : UInt32) : Option Marker := do
  let behind ← next64? hint.lineEnd
  let top := pixelOf hint.lineBegin.toUInt64 lineCount viewHeight
  let bottom := pixelOf behind.toUInt64 lineCount viewHeight
  return ⟨top, max (bottom - top) minMarkerHeight, markerWidth⟩

/-- Messages of the hints that cover a position, in the order of the hints. -/
def messagesAt (hints : List Hint) (line column : Nat) : List String :=
  (hints.filter (·.covers line column)).map (·.message)

def tooltipAt (hints : List Hint) (line column : Nat) : Option String :=
  match messagesAt hints line column with
  | [] => none
  | messages => some ("\n".intercalate messages)

structure TagRange where
  start : Position
  stop : Position
deriving DecidableEq, Repr

/-- Moves a position onto the text: a line behind the last one to the last line, a column that its
line does not have to the end of the line. -/
def clamp (lineLengths : List Nat) (line column : Nat) : Position :=
  let line := min line (lineLengths.length - 1)
  let length := (lineLengths[line]?).getD 0
  ⟨line, min column length⟩

def tagRange (lineLengths : List Nat) (hint : Hint) : TagRange :=
  ⟨clamp lineLengths hint.lineBegin hint.columnBegin,
    clamp lineLengths hint.lineEnd hint.columnEnd⟩

end LintMend.Overlay
