import LintMend.Lint.Run

/-!
# Linting a file

A roster knows some adapters by name and which of them are active. Linting runs the active ones in
the order of the roster, puts their hints into one list in the order of their priorities, and keeps
the failures beside it; an adapter that fails takes nothing away from the others.
-/

namespace LintMend

/-! ## Rosters -/

structure Roster where
  names : List String
  active : List String
deriving DecidableEq, Repr

namespace Roster

/-- All adapters active. -/
def ofNames (names : List String) : Roster := ⟨names, names⟩

def isActive (roster : Roster) (name : String) : Bool := roster.active.contains name

/-- Switches an adapter on or off; fails for a name the roster does not have. -/
def set? (roster : Roster) (name : String) (state : Bool) : Option Roster :=
  if ¬ roster.names.contains name then none
  else if state ∧ ¬ roster.isActive name then
    some { roster with active := roster.active ++ [name] }
  else if ¬ state ∧ roster.isActive name then
    some { roster with active := roster.active.filter (· ≠ name) }
  else some roster

/-- The active adapters, in the order in which they run. -/
def running (roster : Roster) : List String := roster.names.filter roster.isActive

end Roster

/-! ## Reports -/

/-- An adapter that gave no hints because it failed. -/
structure Failure (ε : Type) where
  adapter : String
  error : ε
deriving DecidableEq, Repr

structure LintReport (ε : Type) where
  hints : List Hint
  failures : List (Failure ε)
deriving DecidableEq, Repr

namespace LintReport

/-- The report of some adapters, by their names in the order in which they ran. -/
def ofResults {ε : Type} (results : List (String × Except ε (List Hint))) : LintReport ε where
  hints := Hint.sortByPriority (results.flatMap fun (_, r) ↦ r.toOption.getD [])
  failures := results.filterMap fun (adapter, r) ↦
    match r with
    | .ok _ => none
    | .error error => some ⟨adapter, error⟩

/-- Lints with the active adapters of a roster, given what each of them does. -/
def ofRoster {ε : Type} (roster : Roster) (run : String → Except ε (List Hint)) : LintReport ε :=
  ofResults (roster.running.map fun name ↦ (name, run name))

end LintReport

/-! ## The manager -/

structure Manager where
  roster : Roster
  tools : ToolPaths
  dataDir : String

inductive LintError where
  | unknownAdapter (name : String)
  /-- The file to lint cannot be read, or the copy of it that is to be scanned cannot be made. -/
  | prepare (path : String) (fault : FileError)
  | registry (error : Registry.Error)
deriving DecidableEq, Repr

def LintError.message : LintError → String
  | unknownAdapter name => s!"Unknown adapter '{name}' (known: phplint, phpmd, phpcs)"
  | prepare path fault => s!"Failed to prepare {path} for linting: {fault.message}"
  | registry error => error.message

/-- What is wrong, followed by its causes. -/
def LintError.chain : LintError → List String
  | prepare path fault => [(prepare path fault).message, fault.message]
  | registry error => error.chain
  | e => [e.message]

/-- What was done to lint one file. -/
structure LintRun where
  path : String
  runs : List AdapterRun

namespace LintRun

def report (run : LintRun) : LintReport AdapterError :=
  .ofResults (run.runs.map fun r ↦ (r.adapter.name, r.hints))

def log (run : LintRun) : Log :=
  Log.sectionOf ("Linting " ++ run.path) ++ run.runs.flatMap AdapterRun.log

end LintRun

namespace Manager

/-- Opens the registries of the standard adapters, all of which are active. -/
def openIn (files : FileTree) (tools : ToolPaths) (dataDir : String) :
    Except Registry.Error (FileTree × Manager) := do
  let files ← Registry.openAt files (Registry.pathFor dataDir Adapter.phpmd.name)
  let files ← Registry.openAt files (Registry.pathFor dataDir Adapter.phpcs.name)
  return (files, ⟨Roster.ofNames (Adapter.all.map (·.name)), tools, dataDir⟩)

def setActive (manager : Manager) (name : String) (state : Bool) : Except LintError Manager :=
  match manager.roster.set? name state with
  | some roster => .ok { manager with roster }
  | none => .error (.unknownAdapter name)

/-- Lints a content, of which there is a copy, as that of the file at a path. -/
def lintContent (manager : Manager) (world : World) (path : String) (content : Content) : LintRun :=
  ⟨path, (manager.roster.running.filterMap Adapter.named?).map
    (AdapterRun.of world manager.tools manager.dataDir path content)⟩

/-- Copies a content and lints it as that of the file at a path. -/
def lintCopy (manager : Manager) (world : World) (path : String) (content : Content) :
    Except LintError LintRun :=
  match world.copyFault (scanPath world path) content with
  | none => .ok (manager.lintContent world path content)
  | some fault => .error (.prepare path fault)

def lintText (manager : Manager) (world : World) (path : String) (text : Text) :
    Except LintError LintRun :=
  manager.lintCopy world path (.text text)

/-- Lints a file as it is in the tree. -/
def lintFile (manager : Manager) (world : World) (path : String) : Except LintError LintRun :=
  match world.files.read path with
  | .ok content => manager.lintCopy world path content
  | .error fault => .error (.prepare path fault)

end Manager

end LintMend
