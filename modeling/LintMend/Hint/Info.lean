import LintMend.Hint.Basic
import LintMend.Json.Basic

/-!
# Hints for readers

A hint with its places counted from one, as it appears in reports.
-/

namespace LintMend

structure HintInfo where
  source : String
  line : Nat
  column : Nat
  endLine : Nat
  endColumn : Nat
  message : String
  priority : Int
  color : Color
deriving DecidableEq, Repr

namespace HintInfo

/-- A hint for a reader. There is none where a place is the last word of 64 bits, which has no word
behind it. -/
def ofHint? (hint : Hint) : Option HintInfo := do
  let line ← next64? hint.lineBegin
  let column ← next64? hint.columnBegin
  let endLine ← next64? hint.lineEnd
  let endColumn ← next64? hint.columnEnd
  return { line, column, endLine, endColumn
           source := hint.source
           message := hint.message
           priority := hint.priority
           color := hint.color }

def toJson (info : HintInfo) : Json :=
  .obj [("source", .str info.source), ("line", .nat info.line), ("column", .nat info.column),
    ("end_line", .nat info.endLine), ("end_column", .nat info.endColumn),
    ("message", .str info.message), ("priority", .int info.priority),
    ("color", .str info.color.toHex)]

end HintInfo

end LintMend
