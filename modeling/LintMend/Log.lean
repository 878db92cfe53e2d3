import LintMend.Text.Basic
import LintMend.Word

/-!
# Debug log

A log is a list of entries, each written behind a time stamp. What a linter or a repair did is kept
as a value of its own; the entries are read off such values.
-/

namespace LintMend

abbrev Log := List String

namespace Log

/-- An entry of a part of the program. -/
def entry (scope message : String) : String := s!"[{scope}] {message}"

/-- A title between two rules. -/
def heading (title : String) (rule : Char) (width : Nat) : Log :=
  let line := "".pushn rule width
  [line, title, line]

/-- The title of what is done with one file. -/
def sectionOf (title : String) : Log := heading title '=' 60

def adapterHeading (adapter : String) : Log := heading ("Adapter " ++ adapter) '-' 40

def command (adapter program : String) (args : List String) : String :=
  entry adapter ("running: " ++ program ++ " " ++ " ".intercalate args)

/-- The status of a finished tool, and what it wrote to its error output, if anything. -/
def toolExit (adapter status : String) (stderr : Text) : Log :=
  entry adapter ("exited with " ++ status) ::
    if stderr.isEmpty then []
    else [entry adapter ("stderr: " ++ String.ofList stderr.trim)]

def hintCount (adapter : String) (count : Nat) : String := entry adapter s!"{count} hint(s)"

def failed (adapter error : String) : String := entry adapter ("FAILED: " ++ error)

/-- The entry of one hint; its line, which is one of a text, is given counted from zero and written
counted from one. -/
def repair (line : Nat) (message outcome : String) : String :=
  entry "repair" s!"line {line + 1}: {message} -> {outcome}"

/-- The file of a log whose entries all have one time stamp. -/
def render (stamp : String) (log : Log) : String :=
  log.foldl (fun out line ↦ out ++ "[" ++ stamp ++ "] " ++ line ++ "\n") ""

end Log

end LintMend
