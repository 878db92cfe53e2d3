import LintMend.Diff.Common
import LintMend.Diff.Unified
import LintMend.Output.Entry
import LintMend.Output.Style

/-!
# Printed results

What a run prints about its entries, in one of three formats: a text for people, one value for
other programs, or a diff that a patch tool takes.
-/

namespace LintMend

open Repair

inductive OutputFormat where
  | text
  | json
  | diff
deriving DecidableEq, Repr

namespace OutputFormat

def name : OutputFormat → String
  | text => "text"
  | json => "json"
  | diff => "diff"

/-- The format with a name, in upper or lower case. -/
def named? (name : String) : Option OutputFormat :=
  let lower := String.ofList (Text.asciiLower name.toList)
  [text, json, diff].find? (·.name == lower)

end OutputFormat

/-- What a program wrote to its output and to its error output. -/
structure Printed where
  out : String
  err : String
deriving DecidableEq, Repr

namespace Printed

def none : Printed := ⟨"", ""⟩

def append (a b : Printed) : Printed := ⟨a.out ++ b.out, a.err ++ b.err⟩

def all (parts : List Printed) : Printed := parts.foldl append none

def outLines (lines : List String) : Printed :=
  ⟨String.join (lines.map (· ++ "\n")), ""⟩

def errLines (lines : List String) : Printed :=
  ⟨"", String.join (lines.map (· ++ "\n"))⟩

end Printed

/-- How results are shown. -/
structure Display where
  format : OutputFormat
  verbose : Bool
  colors : Bool
deriving DecidableEq, Repr

namespace Display

def bold (d : Display) (text : String) : String := Style.strong.apply d.colors text

def paint (d : Display) (paint : Paint) (text : String) : String :=
  (Style.of paint).apply d.colors text

def warning (d : Display) (text : String) : String := d.paint .yellow "Warning" ++ ": " ++ text

/-! ## Hints -/

/-- A number with blanks before it up to a width. -/
def alignRight (width n : Nat) : String :=
  let digits := toString n
  "".pushn ' ' (width - digits.length) ++ digits

/-- A number with blanks behind it up to a width. -/
def alignLeft (width n : Nat) : String :=
  let digits := toString n
  digits ++ "".pushn ' ' (width - digits.length)

/-- The line of a hint: the place where it begins, as readers count, who found it and what it
says. -/
def hintLine (d : Display) (line column : Nat) (color : Color) (source message : String) : String :=
  "  " ++ alignRight 4 line ++ ":" ++ alignLeft 3 column ++ " "
    ++ d.paint (.mixed color) ("[" ++ source ++ "]") ++ " " ++ message

def hints (d : Display) (path : String) (hints : List HintInfo) : Printed :=
  if d.format = .json then .none
  else if hints.isEmpty then
    if d.verbose then .outLines [path ++ ": No hints"] else .none
  else
    let lines := hints.map fun h ↦ d.hintLine h.line h.column h.color h.source h.message
    .outLines (d.bold path :: lines ++ [""])

/-- The lines of hints that need not all be ones for a reader, up to the first whose line cannot be
written. Where a hint ends is not in its line. -/
def begunLines (d : Display) : List Hint → List String
  | [] => [""]
  | h :: rest =>
    match next64? h.lineBegin, next64? h.columnBegin with
    | some line, some column =>
      d.hintLine line column h.color h.source h.message :: begunLines d rest
    | _, _ => []

/-! ## Repairs -/

/-- The lines that only one of two texts has. The empty line that follows an ended last line is
compared apart from all others. -/
def changedLines (d : Display) (old new : Text) : List String :=
  let shown (paint : Paint) (sign : String) (line : Text) : String :=
    "  " ++ d.paint paint (sign ++ " " ++ String.ofList line)
  let removed := shown .red "-"
  let added := shown .green "+"
  let lines := (Diff.commonScript old.outputLines new.outputLines).filterMap fun step ↦
    match step with
    | .keep _ => Option.none
    | .remove line => some (removed line)
    | .add line => some (added line)
  let ended (s : Text) : Bool := s.getLast? == some '\n'
  lines ++ (if ended old ∧ ¬ ended new then [removed []] else [])
    ++ (if ended new ∧ ¬ ended old then [added []] else [])

def skipReason : Outcome → String
  | .noRule => "no repair rule"
  | .notApplied rule => rule.name ++ " found nothing to change"
  | .invalidEdit _ fault => "invalid edit: " ++ fault.message
  | .applied .. => ""

-- the line of a step is one of a text, so it has a number behind it
def skippedLine (d : Display) (s : Step) : String :=
  "  " ++ d.paint .yellow "!" ++ s!" line {s.line + 1}: {s.message} ("
    ++ skipReason s.outcome ++ ")"

def appliedLine (d : Display) (s : Step) : String :=
  "  " ++ d.paint .green "->" ++ s!" line {s.line + 1}: {s.message}"

def unchanged (d : Display) (path : String) (skipped : List Step) : Printed :=
  if d.format ≠ .text then .none
  else if skipped.isEmpty then
    if d.verbose then .outLines [path ++ ": No repairs"] else .none
  else .outLines (d.bold path :: skipped.map d.skippedLine ++ [""])

def check (d : Display) (path : String) (r : Repaired) : Printed :=
  match d.format with
  | .text => .outLines (d.bold path :: d.changedLines r.source r.result ++ [""]
      ++ r.applied.map d.appliedLine ++ r.skipped.map d.skippedLine ++ [""])
  | .diff => ⟨String.ofList (Diff.unified path r.source r.result), ""⟩
  | .json => .none

def fix (d : Display) (path : String) (r : Repaired) : Printed :=
  if d.format = .text then
    .outLines (d.bold path
      :: ("  " ++ d.paint .green "OK" ++ s!" Applied {r.applied.length} repair(s)")
      :: r.skipped.map d.skippedLine ++ [""])
  else .none

/-! ## Entries -/

def failureLine (d : Display) (path : String) (f : Failure AdapterError) : String :=
  d.warning (path ++ " - " ++ f.adapter ++ " produced no hints: " ++ f.error.message)

def failures (d : Display) (path : String) (failures : List (Failure AdapterError)) : Printed :=
  if d.format = .json then .none else .errLines (failures.map (d.failureLine path))

def entry (d : Display) (mode : RunMode) : Entry → Printed
  | .linted path hints failures => (d.failures path failures).append (d.hints path hints)
  | .repaired path r =>
    let body :=
      if r.isChanged then if mode = .fix then d.fix path r else d.check path r
      else d.unchanged path r.skipped
    (d.failures path r.failures).append body
  | .failed path error =>
    if d.format = .text then .errLines [d.warning (path ++ " - " ++ error)] else .none

/-- What is printed of a linted file that has no entry, before the run ends there. -/
def cutOff (d : Display) (path : String) (report : LintReport AdapterError) : Printed :=
  (d.failures path report.failures).append <|
    if d.format = .json then .none else .outLines (d.bold path :: d.begunLines report.hints)

/-! ## The end of a run -/

def summaryLines (d : Display) (mode : RunMode) (s : Summary) : List String :=
  let counts :=
    if mode = .lint then
      [s!"  Files with hints: {s.filesWithHints}", s!"  Total hints: {s.totalHints}"]
    else
      [s!"  Files with changes: {s.filesWithChanges}", s!"  Total repairs: {s.totalRepairs}"]
  ["", Style.title.apply d.colors "Summary", s!"  Files processed: {s.filesProcessed}"]
    ++ counts
    ++ (if s.adapterFailures > 0 then [s!"  Adapter failures: {s.adapterFailures}"] else [])
    ++ (if s.errors > 0 then [s!"  Errors: {s.errors}"] else [])
    ++ (if mode = .check ∧ s.totalRepairs > 0 then
        ["", d.paint .yellow "Run with --fix to apply repairs"] else [])

def finish (d : Display) (mode : RunMode) (entries : List Entry) : Printed :=
  match d.format with
  | .text => .outLines (d.summaryLines mode (Summary.ofEntries entries))
  | .json => .outLines [(resultsJson entries).pretty]
  | .diff => .none

/-- All that is printed about a run. -/
def results (d : Display) (mode : RunMode) (entries : List Entry) : Printed :=
  (Printed.all (entries.map (d.entry mode))).append (d.finish mode entries)

end Display

end LintMend
