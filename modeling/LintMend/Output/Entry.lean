import LintMend.Hint.Info
import LintMend.Json.Writer
import LintMend.Release
import LintMend.Repair.File

/-!
# Results of a run

A run has an entry for each file it worked on. What a run prints, its summary included, is read off
its entries; here are the summary and the form for other programs.
-/

namespace LintMend

open Repair

/-- What a run did with one file. -/
inductive Entry where
  | linted (path : String) (hints : List HintInfo) (failures : List (Failure AdapterError))
  | repaired (path : String) (result : Repaired)
  | failed (path : String) (error : String)

/-- What a run is about. -/
inductive RunMode where
  | lint
  /-- Shows what a repair would change. -/
  | check
  /-- Repairs. -/
  | fix
deriving DecidableEq, Repr

namespace Entry

/-- The entry of a linted file; there is none if one of the hints is none for a reader. -/
def linted? (path : String) (report : LintReport AdapterError) : Option Entry :=
  (report.hints.mapM HintInfo.ofHint?).map fun hints ↦ linted path hints report.failures

def path : Entry → String
  | linted path _ _ => path
  | repaired path _ => path
  | failed path _ => path

def hints : Entry → List HintInfo
  | linted _ hints _ => hints
  | _ => []

def failures : Entry → List (Failure AdapterError)
  | linted _ _ failures => failures
  | repaired _ result => result.failures
  | failed .. => []

/-- Repairs of the file, even if they leave it as it was in the end. -/
def applied : Entry → List Step
  | repaired _ result => result.applied
  | _ => []

def skipped : Entry → List Step
  | repaired _ result => result.skipped
  | _ => []

def error? : Entry → Option String
  | failed _ error => some error
  | _ => none

def isChanged : Entry → Bool
  | repaired _ result => result.isChanged
  | _ => false

end Entry

/-! ## Summary -/

structure Summary where
  filesProcessed : Nat
  filesWithHints : Nat
  totalHints : Nat
  filesWithChanges : Nat
  totalRepairs : Nat
  adapterFailures : Nat
  errors : Nat
deriving DecidableEq, Repr

namespace Summary

def empty : Summary := ⟨0, 0, 0, 0, 0, 0, 0⟩

/-- Counts one more entry. Repairs count where they change the file. -/
def add (s : Summary) (entry : Entry) : Summary where
  filesProcessed := s.filesProcessed + 1
  filesWithHints := s.filesWithHints + if entry.hints.isEmpty then 0 else 1
  totalHints := s.totalHints + entry.hints.length
  filesWithChanges := s.filesWithChanges + if entry.isChanged then 1 else 0
  totalRepairs := s.totalRepairs + if entry.isChanged then entry.applied.length else 0
  adapterFailures := s.adapterFailures + entry.failures.length
  errors := s.errors + if entry.error?.isSome then 1 else 0

def ofEntries (entries : List Entry) : Summary := entries.foldl add empty

def toJson (s : Summary) : Json :=
  .obj [("files_processed", .nat s.filesProcessed), ("files_with_hints", .nat s.filesWithHints),
    ("total_hints", .nat s.totalHints), ("files_with_changes", .nat s.filesWithChanges),
    ("total_repairs", .nat s.totalRepairs), ("adapter_failures", .nat s.adapterFailures),
    ("errors", .nat s.errors)]

end Summary

/-! ## For other programs -/

namespace Entry

def failureJson (f : Failure AdapterError) : Json :=
  .obj [("adapter", .str f.adapter), ("error", .str f.error.message)]

def appliedJson (s : Step) : Json :=
  let rule := match s.outcome with
    | .applied rule _ => rule.name
    | _ => ""
  .obj [("rule", .str rule), ("line", .nat s.line), ("message", .str s.message)]

def reasonJson : Outcome → Json
  | .notApplied rule => .obj [("kind", .str "not_applied"), ("detail", .str rule.name)]
  | .invalidEdit _ fault => .obj [("kind", .str "invalid_edit"), ("detail", .str fault.message)]
  | _ => .obj [("kind", .str "no_rule")]

def skippedJson (s : Step) : Json :=
  .obj [("line", .nat s.line), ("message", .str s.message), ("reason", reasonJson s.outcome)]

/-- A member for a list; an empty list has none. -/
def listMember {α : Type} (name : String) (write : α → Json) (items : List α) :
    List (String × Json) :=
  if items.isEmpty then [] else [(name, .arr (items.map write))]

def toJson (e : Entry) : Json :=
  .obj (("path", .str e.path)
    :: listMember "hints" HintInfo.toJson e.hints
    ++ listMember "applied" appliedJson e.applied
    ++ listMember "skipped" skippedJson e.skipped
    ++ listMember "failures" failureJson e.failures
    ++ (e.error?.map fun error ↦ ("error", Json.str error)).toList)

end Entry

/-- All results of a run as one value. -/
def resultsJson (entries : List Entry) : Json :=
  .obj [("version", .str programVersion), ("summary", (Summary.ofEntries entries).toJson),
    ("files", .arr (entries.map Entry.toJson))]

end LintMend
