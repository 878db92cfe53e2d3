import LintMend.Json.Basic
import LintMend.Lint.Adapter
import LintMend.Overlay
import LintMend.Release
import LintMend.Word

/-!
# Diagnostics

Hints as an editor shows them. Editors count the columns of a line in units of UTF-16, of which a
character takes one or two.
-/

namespace LintMend

/-- Number of units of UTF-16 that a character takes. -/
def units16 (c : Char) : Nat := if c.toNat < 0x10000 then 1 else 2

namespace Text

def size16 (s : Text) : Nat := (s.map units16).foldr (· + ·) 0

/-- The lengths of the lines in units of UTF-16, without carriage returns at their ends. -/
def lineLengths16 (s : Text) : List Nat :=
  s.lines.map fun line ↦ size16 (line.dropEndWhile (· = '\r'))

/-- The position behind the last line. -/
def endPosition16 (s : Text) : Position :=
  let lengths := s.lineLengths16
  ⟨lengths.length - 1, lengths.getLast?.getD 0⟩

end Text

/-- A position as an editor is sent it, in words of 32 bits. -/
def Position.sent (p : Position) : Position := ⟨wrap32 p.line, wrap32 p.column⟩

/-- How bad an editor is to take a hint to be. -/
inductive Severity where
  | error
  | warning
  | information
deriving DecidableEq, Repr

namespace Severity

def number : Severity → Nat
  | error => 1
  | warning => 2
  | information => 3

/-- The severity of the hints of a source. -/
def ofSource (source : String) : Severity :=
  if source = Adapter.phplint.name then error
  else if source = Adapter.phpmd.name then warning
  else information

end Severity

structure Diagnostic where
  range : Overlay.TagRange
  severity : Severity
  source : String
  message : String
deriving DecidableEq, Repr

namespace Diagnostic

/-- The diagnostic of a hint on a text, clamped to that text. -/
def ofHint (lineLengths : List Nat) (hint : Hint) : Diagnostic where
  range := Overlay.tagRange lineLengths hint
  severity := Severity.ofSource hint.source
  source := programName ++ "/" ++ hint.source
  message := hint.message

def ofHints (text : Text) (hints : List Hint) : List Diagnostic :=
  hints.map (ofHint text.lineLengths16)

def positionJson (p : Position) : Json :=
  .obj [("character", .nat p.sent.column), ("line", .nat p.sent.line)]

def rangeJson (start stop : Position) : Json :=
  .obj [("end", positionJson stop), ("start", positionJson start)]

def toJson (d : Diagnostic) : Json :=
  .obj [("message", .str d.message), ("range", rangeJson d.range.start d.range.stop),
    ("severity", .nat d.severity.number), ("source", .str d.source)]

end Diagnostic

end LintMend
