import LintMend.Repair.Cycles

/-!
# Repairing a file

Reading, linting, repairing and writing one file of a tree.
-/

namespace LintMend

inductive RepairError where
  | read (path : String) (fault : FileError)
  | lint (path : String) (error : LintError)
  | write (path : String) (fault : FileError)
deriving DecidableEq, Repr

def RepairError.message : RepairError → String
  | read path _ => s!"Failed to read file: {path}"
  | lint path _ => s!"Failed to lint {path}"
  | write path _ => s!"Failed to write file: {path}"

/-- What is wrong, followed by its causes. -/
def RepairError.chain : RepairError → List String
  | read path fault => [(read path fault).message, fault.message]
  | lint path error => (lint path error).message :: error.chain
  | write path fault => [(write path fault).message, fault.message]

open Repair

namespace Manager

def lintFor (manager : Manager) (world : World) (path : String) : Except RepairError LintRun :=
  (manager.lintFile world path).mapError (.lint path)

def lintTextFor (manager : Manager) (world : World) (path : String) (text : Text) :
    Except RepairError LintRun :=
  (manager.lintText world path text).mapError (.lint path)

/-- Repairs a text as that of the file at a path, starting from a report on it, as far as the
repaired texts can be linted. -/
def attemptText (manager : Manager) (world : World) (rules : List Rule) (path : String)
    (limit : Nat) (source : Text) (report : LintReport AdapterError) : Attempt RepairError :=
  attempt rules (manager.lintTextFor world path) limit source report

def repairText (manager : Manager) (world : World) (rules : List Rule) (path : String)
    (limit : Nat) (source : Text) (report : LintReport AdapterError) :
    Except RepairError Repaired :=
  (manager.attemptText world rules path limit source report).result

end Manager

/-- The repair of a file as far as it has come, with the lint that gave its first hints. -/
structure FileRepair where
  lint : LintRun
  attempt : Attempt RepairError

namespace Manager

/-- Lints a file and repairs its text, as far as that goes. -/
def attemptFile (manager : Manager) (world : World) (rules : List Rule) (path : String)
    (limit : Nat) : Except RepairError FileRepair :=
  match world.files.readText path with
  | .error fault => .error (.read path fault)
  | .ok source => (manager.lintFor world path).map fun run ↦
      ⟨run, manager.attemptText world rules path limit source run.report⟩

def repairFile (manager : Manager) (world : World) (rules : List Rule) (path : String)
    (limit : Nat) : Except RepairError Repaired :=
  (manager.attemptFile world rules path limit).bind (·.attempt.result)

end Manager

def writeResult (files : FileTree) (path : String) (text : Text) :
    Except RepairError FileTree :=
  match files.write path (.text text) with
  | .ok files => .ok files
  | .error fault => .error (.write path fault)

end LintMend
