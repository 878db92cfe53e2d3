import LintMend.Lint.Adapter
import LintMend.Text.Number
import LintMend.Xml.Node

/-!
# Reports of the mess detector

An XML document whose root holds `file` elements, each with `violation` elements. A violation has
the attribute `beginline` and holds its message. Its hint covers that one line.
-/

namespace LintMend.Report.Phpmd

open Xml

structure Violation where
  line : Nat
  text : Text
deriving DecidableEq, Repr

/-- The violations of each file. -/
abbrev Files := List (List Violation)

def violation? (tag : Text) (children : List Node) : Option Violation := do
  let attributes ← attributes? tag
  match valuesOf "beginline".toList attributes with
  | [value] => do
    let line ← Text.readWord? value
    let text ← Node.ownText? children
    return ⟨line, text.getD []⟩
  | _ => none

def file? (tag : Text) (children : List Node) : Option (List Violation) := do
  let _ ← attributes? tag
  Node.group? "violation".toList violation? children

def ofNode? : Node → Option Files
  | .element tag children => do
    let _ ← attributes? tag
    Node.group? "file".toList file? children
  | .text _ => none

/-- Columns of a whole line. -/
def lastColumn : Nat := 999

def Violation.hint (violation : Violation) : Hint :=
  Adapter.phpmd.hint (violation.line - 1) (violation.line - 1) 0 lastColumn violation.text.trim

def hints (report : Files) : List Hint := report.flatten.map Violation.hint

/-- The hints of an output; an output of blanks only is a report of nothing. -/
def hints? (output : Text) : Option (List Hint) :=
  if output.isAllBlank then some [] else ((parse? output).bind ofNode?).map hints

end LintMend.Report.Phpmd
