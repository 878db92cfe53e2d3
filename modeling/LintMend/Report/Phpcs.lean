import LintMend.Lint.Adapter
import LintMend.Text.Number
import LintMend.Xml.Node

/-!
# Reports of the code sniffer

An XML document whose root holds `file` elements, each with `error` and `warning` elements among
other content. An entry has the attributes `line` and `column` and holds its message. The hints of a
file come in the order of their positions, which the repair of a text relies on.
-/

namespace LintMend.Report.Phpcs

open Xml

structure Message where
  line : Nat
  column : Nat
  text : Text
deriving DecidableEq, Repr

inductive Entry where
  | error (message : Message)
  | warning (message : Message)
  /-- Text, and elements of any other name. -/
  | other
deriving DecidableEq, Repr

def Entry.message? : Entry → Option Message
  | error message => some message
  | warning message => some message
  | other => none

/-- The entries of each file, in the order of the document. -/
abbrev Files := List (List Entry)

def message? (tag : Text) (children : List Node) : Option Message := do
  let attributes ← attributes? tag
  match valuesOf "line".toList attributes, valuesOf "column".toList attributes with
  | [line], [column] => do
    let line ← Text.readWord? line
    let column ← Text.readWord? column
    let text ← Node.ownText? children
    return ⟨line, column, text.getD []⟩
  | _, _ => none

def entry? : Node → Option Entry
  | .text run => (runValue? run).map fun _ ↦ .other
  | .element tag children =>
    if localName (tagName tag) = "error".toList then (message? tag children).map .error
    else if localName (tagName tag) = "warning".toList then (message? tag children).map .warning
    else if Node.canSkip children then some .other
    else none

def file? (tag : Text) (children : List Node) : Option (List Entry) := do
  let _ ← attributes? tag
  children.mapM entry?

def ofNode? : Node → Option Files
  | .element tag children => do
    let _ ← attributes? tag
    Node.group? "file".toList file? children
  | .text _ => none

/-- The order of positions: by line, then by column. -/
def Message.le (a b : Message) : Bool :=
  a.line < b.line || (a.line == b.line && a.column ≤ b.column)

/-- The errors and warnings of a file by position; those at one position keep their order. -/
def messages (entries : List Entry) : List Message :=
  (entries.filterMap Entry.message?).mergeSort Message.le

def Message.hint (message : Message) : Hint :=
  Adapter.phpcs.hint (message.line - 1) (message.line - 1) (max (message.column - 1) 1)
    message.column message.text.trim

def hints (report : Files) : List Hint :=
  report.flatMap fun entries ↦ (messages entries).map Message.hint

/-- The hints of an output; an output of blanks only is a report of nothing. -/
def hints? (output : Text) : Option (List Hint) :=
  if output.isAllBlank then some [] else ((parse? output).bind ofNode?).map hints

end LintMend.Report.Phpcs
