import LintMend.Lint.World
import LintMend.Toml.Reader

/-!
# Settings

What settings files have in common: which adapters are switched on or off, and how a file that
holds settings is read.
-/

namespace LintMend

inductive SettingsError where
  | read (path : String) (fault : FileError)
  | parse (path : String)
  /-- The directory of a file cannot be made. -/
  | create (path : String) (fault : FileError)
  | write (path : String) (fault : FileError)
deriving DecidableEq, Repr

namespace SettingsError

def message : SettingsError → String
  | read path _ => s!"Failed to read {path}"
  | parse path => s!"Failed to parse {path}"
  | create path _ => s!"Failed to create {path}"
  | write path _ => s!"Failed to write {path}"

def cause : SettingsError → String
  | read _ fault => fault.message
  | parse _ => "TOML parse error"
  | create _ fault => fault.message
  | write _ fault => fault.message

/-- What is wrong, followed by its cause. -/
def chain (e : SettingsError) : List String := [e.message, e.cause]

end SettingsError

/-- Reads a file of settings. -/
def loadSettings {α : Type} (read : Toml → Option α) (files : FileTree) (path : String) :
    Except SettingsError α :=
  match files.readText path with
  | .error fault => .error (.read path fault)
  | .ok text =>
    match (Toml.parse? text).bind read with
    | some settings => .ok settings
    | none => .error (.parse path)

/-- Whether an adapter is on or off, for those adapters where that is set. -/
structure AdapterStates where
  phplint : Option Bool
  phpmd : Option Bool
  phpcs : Option Bool
deriving DecidableEq, Repr

namespace AdapterStates

def unset : AdapterStates := ⟨none, none, none⟩

/-- The states by the names of the adapters. -/
def toList (states : AdapterStates) : List (String × Option Bool) :=
  [("phplint", states.phplint), ("phpmd", states.phpmd), ("phpcs", states.phpcs)]

def get? (states : AdapterStates) (name : String) : Option Bool :=
  ((states.toList.find? (·.1 == name)).map (·.2)).join

/-- Sets the state of an adapter; fails for a name that is none of an adapter. -/
def set? (states : AdapterStates) (name : String) (state : Bool) : Option AdapterStates :=
  match name with
  | "phplint" => some { states with phplint := some state }
  | "phpmd" => some { states with phpmd := some state }
  | "phpcs" => some { states with phpcs := some state }
  | _ => none

def ofToml? (t : Toml) : Option AdapterStates :=
  if t.isRecord then do
    return ⟨← t.optional? Toml.bool? 0 "phplint", ← t.optional? Toml.bool? 1 "phpmd",
      ← t.optional? Toml.bool? 2 "phpcs"⟩
  else none

end AdapterStates

end LintMend
