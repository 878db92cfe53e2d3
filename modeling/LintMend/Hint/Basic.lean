import LintMend.Color
import LintMend.Text.Position

/-!
# Hints

A hint is one finding of a linter: a range of lines and columns counted from zero, a message, the
color of its mark and a priority. Hints with a lower priority come first.
-/

namespace LintMend

structure Hint where
  lineBegin : Nat
  lineEnd : Nat
  columnBegin : Nat
  columnEnd : Nat
  message : String
  color : Color
  priority : Int
  /-- Name of the adapter that reported the hint. -/
  source : String
deriving DecidableEq, Repr

namespace Hint

/-- Whether a position lies in the rectangle of lines and columns of a hint. -/
def covers (hint : Hint) (line column : Nat) : Bool :=
  hint.lineBegin ≤ line && line ≤ hint.lineEnd
    && hint.columnBegin ≤ column && column ≤ hint.columnEnd

/-- Orders hints by priority; hints of one priority keep their order. -/
def sortByPriority (hints : List Hint) : List Hint :=
  hints.mergeSort fun a b ↦ a.priority ≤ b.priority

end Hint

end LintMend
