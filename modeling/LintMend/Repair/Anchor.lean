import LintMend.Hint.Basic

/-!
# Anchors

The place of a hint in a text that may have changed since the hint was reported: its range moved
onto the lines and columns the text has.
-/

namespace LintMend

structure Anchor where
  lineBegin : Nat
  lineEnd : Nat
  columnBegin : Nat
  columnEnd : Nat
  /-- Offset of the first position. -/
  start : Nat
  /-- Offset of the second position. -/
  stop : Nat
  /-- The indentation of the first line, as spaces. -/
  indent : Text
deriving DecidableEq, Repr

namespace Anchor

/-- A column behind the end of its line moves to the last character of the line. -/
def clampColumn (s : Text) (line column : Nat) : Nat :=
  if column > s.lineLength line then s.lineLength line - 1 else column

def clamp (s : Text) (hint : Hint) : Anchor :=
  let last := s.lineCount - 1
  let lineBegin := min hint.lineBegin last
  let lineEnd := min hint.lineEnd last
  let columnBegin := clampColumn s lineBegin hint.columnBegin
  let columnEnd := clampColumn s lineEnd hint.columnEnd
  { lineBegin, lineEnd, columnBegin, columnEnd
    start := s.offsetOf lineBegin columnBegin
    stop := s.offsetOf lineEnd columnEnd
    indent := List.replicate (s.indentation lineBegin) ' ' }

end Anchor

end LintMend
