import LintMend.Lint.Adapter
import LintMend.Text.Number

/-!
# Output of the syntax check

One error a line: an arrow that may be missing, a message, and where the error begins and ends, as
in `==> Syntax error, unexpected T_STRING from 3:7 to 3:9`. All other lines are skipped. Where a
message looks like a position itself, the last position of the line counts.
-/

namespace LintMend.Report.Phplint

/-- The two positions of an error line, as they are written. -/
structure Range where
  beginLine : Text
  beginColumn : Text
  endLine : Text
  endColumn : Text
deriving DecidableEq, Repr

/-- A run of decimal digits of any script. -/
def digits? (s : Text) : Option (Text × Text) :=
  let digits := s.takeWhile Text.isDecimal
  if digits.isEmpty then none else some (digits, s.dropWhile Text.isDecimal)

def range? (s : Text) : Option Range := do
  let s ← Text.stripStart? " from ".toList s
  let (beginLine, s) ← digits? s
  let s ← Text.stripStart? [':'] s
  let (beginColumn, s) ← digits? s
  let s ← Text.stripStart? " to ".toList s
  let (endLine, s) ← digits? s
  let s ← Text.stripStart? [':'] s
  let (endColumn, _) ← digits? s
  return ⟨beginLine, beginColumn, endLine, endColumn⟩

/-- The last range of a line and the message before it. -/
def lastRange? : Text → Option (Text × Range)
  | [] => none
  | c :: s =>
    match lastRange? s with
    | some (message, range) => some (c :: message, range)
    | none => (range? (c :: s)).map fun range ↦ ([], range)

/-- What follows an arrow of equals signs. -/
def afterArrow? (s : Text) : Option Text :=
  if s.head? = some '=' then Text.stripStart? "> ".toList (s.dropWhile (· = '=')) else none

/-- The message and the range of an error line. -/
def errorLine? (line : Text) : Option (Text × Range) :=
  ((afterArrow? line).bind lastRange?).or (lastRange? line)

/-- The hint of a line; none where a number does not fit 64 bits. -/
def hint? (line : Text) : Option Hint := do
  let (message, range) ← errorLine? line
  let beginLine ← Text.readDigits? range.beginLine
  let beginColumn ← Text.readDigits? range.beginColumn
  let endLine ← Text.readDigits? range.endLine
  let endColumn ← Text.readDigits? range.endColumn
  return Adapter.phplint.hint (beginLine - 1) (endLine - 1) (beginColumn - 1) endColumn message

def hints (output : Text) : List Hint := output.outputLines.filterMap hint?

end LintMend.Report.Phplint
