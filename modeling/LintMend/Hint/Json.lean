import LintMend.Hint.Basic
import LintMend.Json.Basic

/-!
# Hints in JSON

A hint is written as an object of eight members, its color in hexadecimal digits. Reading also takes
an array of the values in the order of the members. The source may be missing and is empty then;
members of other names are ignored.
-/

namespace LintMend.Hint

def toJson (hint : Hint) : Json :=
  .obj [("line_begin", .nat hint.lineBegin), ("line_end", .nat hint.lineEnd),
    ("column_begin", .nat hint.columnBegin), ("column_end", .nat hint.columnEnd),
    ("message", .str hint.message), ("color", .str hint.color.toHex),
    ("priority", .int hint.priority), ("source", .str hint.source)]

/-- A signed integer of 32 bits. -/
def priority? (json : Json) : Option Int :=
  json.int?.filter isSigned32

def color? (json : Json) : Option Color := json.str?.bind fun s ↦ (Color.ofHex s).toOption

def ofValues? : List Json → Option Hint
  | [lineBegin, lineEnd, columnBegin, columnEnd, message, color, priority, source] => do
    let lineBegin ← lineBegin.word?
    let lineEnd ← lineEnd.word?
    let columnBegin ← columnBegin.word?
    let columnEnd ← columnEnd.word?
    let message ← message.str?
    let color ← color? color
    let priority ← priority? priority
    let source ← source.str?
    return { lineBegin, lineEnd, columnBegin, columnEnd, message, color, priority, source }
  | _ => none

def ofJson? : Json → Option Hint
  | .arr values => ofValues? (if values.length = 7 then values ++ [.str ""] else values)
  | .obj members => do
    let json := Json.obj members
    let values ← ["line_begin", "line_end", "column_begin", "column_end", "message", "color",
      "priority"].mapM json.get?
    ofValues? (values ++ [(json.get? "source").getD (.str "")])
  | _ => none

end LintMend.Hint
