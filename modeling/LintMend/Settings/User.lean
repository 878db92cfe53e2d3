import LintMend.Settings.Basic

/-!
# Settings of a user

The adapter states that hold for a user wherever no project says otherwise, and the file in which
they are kept.
-/

namespace LintMend

structure UserSettings where
  adapters : AdapterStates
deriving DecidableEq, Repr

namespace UserSettings

def unset : UserSettings := ⟨AdapterStates.unset⟩

/-- The file of a user with a given home directory. -/
def pathIn (home : String) : String :=
  Path.join (Path.join (Path.join home ".config") "phphints") "settings.toml"

def ofToml? (t : Toml) : Option UserSettings :=
  if t.isRecord then do
    return ⟨← t.fieldOr? AdapterStates.unset AdapterStates.ofToml? 0 "adapters"⟩
  else none

/-- Reads the settings; a missing file sets nothing. -/
def load (files : FileTree) (path : String) : Except SettingsError UserSettings :=
  if files.has path then loadSettings ofToml? files path else .ok unset

def stateLine (name : String) (state : Bool) : String :=
  name ++ " = " ++ (if state then "true" else "false") ++ "\n"

/-- The content of the file, with a line for each state that is set. -/
def render (settings : UserSettings) : String :=
  "[adapters]\n" ++ String.join (settings.adapters.toList.filterMap fun (name, state) ↦
    state.map (stateLine name))

/-- Writes the settings, and makes the directories above the file. -/
def save (settings : UserSettings) (files : FileTree) (path : String) :
    Except SettingsError FileTree := do
  let files ← match Path.parent? path with
    | none => pure files
    | some up =>
      match files.makeDirectories up with
      | .ok files => pure files
      | .error fault => .error (.create up fault)
  match files.write path (.text settings.render.toList) with
  | .ok files => return files
  | .error fault => .error (.write path fault)

end UserSettings

end LintMend
