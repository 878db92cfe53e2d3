import LintMend.Csv
import LintMend.Files.Tree

/-!
# Registries of rulesets

A tool has a list of registrations, each of which says that the files whose paths begin with a
directory are checked against a ruleset. The list is kept in a file of rows of two fields, which
others may write too. The operations are functions on the content of that file, which may be
missing; at the end they are lifted to the file of a path in a tree.
-/

namespace LintMend

structure Ruleset where
  directory : String
  ruleset : String
deriving DecidableEq, Repr

namespace Ruleset

/-- Whether a registration covers a file. -/
def appliesTo (entry : Ruleset) (path : String) : Bool :=
  entry.directory.toList.isPrefixOf path.toList

def row (entry : Ruleset) : Text :=
  Csv.writeRecord [entry.directory.toList, entry.ruleset.toList]

end Ruleset

namespace Registry

inductive Fault where
  | file (fault : FileError)
  /-- A row of other than two fields. -/
  | malformedRow (line found : Nat)
  | unterminatedQuote (line : Nat)
  | emptyField
deriving DecidableEq, Repr

/-- A fault and the path of the registry that has it. -/
structure Error where
  path : String
  fault : Fault
deriving DecidableEq, Repr

def Error.message (e : Error) : String :=
  match e.fault with
  | .file fault => s!"Failed to access ruleset registry {e.path}: {fault.message}"
  | .malformedRow line found =>
    s!"Malformed row on line {line} of {e.path}: expected 2 fields, found {found}"
  | .unterminatedQuote line =>
    s!"Unterminated quoted field starting on line {line} of {e.path}"
  | .emptyField => "Directory and ruleset must both be non-empty"

/-- What is wrong, followed by its causes. -/
def Error.chain (e : Error) : List String :=
  match e.fault with
  | .file fault => [e.message, fault.message]
  | _ => [e.message]

/-! ## On the content of the file -/

def rulesetOf (record : Csv.Record) : Except Fault Ruleset :=
  match record.fields with
  | [directory, ruleset] => .ok ⟨String.ofList directory, String.ofList ruleset⟩
  | fields => .error (.malformedRow record.line fields.length)

def rulesetsOfText (text : Text) : Except Fault (List Ruleset) :=
  match Csv.parse text with
  | .error e => .error (.unterminatedQuote e.line)
  | .ok records => records.mapM rulesetOf

/-- All registrations in the order of the file; a missing file has none. -/
def all (content : Option Content) : Except Fault (List Ruleset) :=
  match content with
  | none => .ok []
  | some (.text text) => rulesetsOfText text
  | some (.binary _) => .error (.file .notText)

/-- The registrations that cover a file. -/
def matching (content : Option Content) (path : String) : Except Fault (List Ruleset) :=
  (all content).map fun entries ↦ entries.filter (·.appliesTo path)

def render (entries : List Ruleset) : Text := entries.flatMap Ruleset.row

def check (entry : Ruleset) : Except Fault Unit :=
  if entry.directory.isEmpty ∨ entry.ruleset.isEmpty then .error .emptyField else .ok ()

/-- How many registrations equal a given one, and the file without them; the file stays as it is
where there are none. -/
def remove (content : Option Content) (entry : Ruleset) :
    Except Fault (Nat × Option Content) :=
  (all content).map fun entries ↦
    let kept := entries.filter (· ≠ entry)
    let removed := entries.length - kept.length
    (removed, if removed = 0 then content else some (.text (render kept)))

/-- The file without registrations. -/
def reset : Content := .text []

/-! ## In a file tree -/

/-- The file of the registry of a tool. -/
def pathFor (dataDir tool : String) : String :=
  Path.join (Path.join dataDir tool) "rulesets.csv"

def fault {α : Type} (path : String) : Except Fault α → Except Error α
  | .ok a => .ok a
  | .error fault => .error ⟨path, fault⟩

def fileFault {α : Type} (path : String) : Except FileError α → Except Error α
  | .ok a => .ok a
  | .error e => .error ⟨path, .file e⟩

/-- Makes an empty file, and the directories above it, where they are missing. -/
def openAt (tree : FileTree) (path : String) : Except Error FileTree := fileFault path <| do
  let tree ← tree.makeDirectoriesAbove path
  if tree.has path then return tree else tree.write path (.text [])

def load (tree : FileTree) (path : String) : Except Error (Option Content) :=
  match tree.read path with
  | .ok content => .ok (some content)
  | .error .notFound => .ok none
  | .error e => .error ⟨path, .file e⟩

def allAt (tree : FileTree) (path : String) : Except Error (List Ruleset) := do
  fault path (all (← load tree path))

def matchingAt (tree : FileTree) (path file : String) : Except Error (List Ruleset) := do
  fault path (matching (← load tree path) file)

/-- Adds a registration behind whatever the file holds. -/
def addAt (tree : FileTree) (path : String) (entry : Ruleset) : Except Error FileTree :=
  (fault path (check entry)).bind fun _ ↦ fileFault path (tree.append path entry.row)

def removeAt (tree : FileTree) (path : String) (entry : Ruleset) :
    Except Error (Nat × FileTree) := do
  let (removed, content) ← fault path (remove (← load tree path) entry)
  match content with
  | some content =>
    if removed = 0 then return (0, tree)
    else return (removed, ← fileFault path (tree.write path content))
  | none => return (removed, tree)

def resetAt (tree : FileTree) (path : String) : Except Error FileTree :=
  fileFault path (tree.write path reset)

end Registry

end LintMend
