import LintMend.Files.Glob
import LintMend.Settings.User

/-!
# Settings of a project

A project sets which adapters run, where the linters and their registries are found, which paths
are left out, and how results are shown. Its file is looked for in a directory and in those above.
-/

namespace LintMend

structure ProjectSettings where
  adapters : AdapterStates
  tools : ToolPaths
  /-- Patterns of the paths that are left out. -/
  exclude : List String
  /-- Where the registries are. -/
  dataDir : Option String
  /-- How often a file is repaired at most. -/
  cycles : Nat
  format : Option String
  logFile : Option String
deriving DecidableEq, Repr

namespace ProjectSettings

def standard : ProjectSettings where
  adapters := AdapterStates.unset
  tools := ToolPaths.standard
  exclude := []
  dataDir := none
  cycles := 1
  format := none
  logFile := none

/-! ## Reading -/

def tools? (t : Toml) : Option ToolPaths :=
  if t.isRecord then do
    let d := ToolPaths.standard
    return ⟨← t.fieldOr? d.php Toml.str? 0 "php", ← t.optional? Toml.str? 1 "php_parser",
      ← t.fieldOr? d.phpmd Toml.str? 2 "phpmd", ← t.fieldOr? d.phpcs Toml.str? 3 "phpcs"⟩
  else none

/-- The patterns and the directory of the registries. -/
def paths? (t : Toml) : Option (List String × Option String) :=
  if t.isRecord then do
    return (← t.fieldOr? [] Toml.strs? 0 "exclude", ← t.optional? Toml.str? 1 "data_dir")
  else none

def cycles? (t : Toml) : Option Nat :=
  if t.isRecord then t.fieldOr? standard.cycles Toml.nat? 0 "cycles" else none

/-- A record whose one field is a string that may be missing. -/
def single? (name : String) (t : Toml) : Option (Option String) :=
  if t.isRecord then t.optional? Toml.str? 0 name else none

def ofToml? (t : Toml) : Option ProjectSettings := do
  let adapters ← t.fieldOr? standard.adapters AdapterStates.ofToml? 0 "adapters"
  let tools ← t.fieldOr? standard.tools tools? 1 "tools"
  let (exclude, dataDir) ← t.fieldOr? (standard.exclude, standard.dataDir) paths? 2 "paths"
  let cycles ← t.fieldOr? standard.cycles cycles? 3 "repair"
  let format ← t.fieldOr? standard.format (single? "format") 4 "output"
  let logFile ← t.fieldOr? standard.logFile (single? "file") 5 "log"
  return { adapters, tools, exclude, dataDir, cycles, format, logFile }

def load (files : FileTree) (path : String) : Except SettingsError ProjectSettings :=
  loadSettings ofToml? files path

def fileName : String := ".phphints.toml"

/-- The file of the project that a directory belongs to: that of the directory itself or of the
nearest directory above that has one. Each step up shortens the path. -/
def findFrom : Nat → FileTree → String → Option String
  | 0, _, _ => none
  | fuel + 1, files, directory =>
    let path := Path.join directory fileName
    if files.has path then some path
    else (Path.parent? directory).bind (findFrom fuel files)

def find? (files : FileTree) (directory : String) : Option String :=
  findFrom (directory.length + 1) files directory

/-! ## What the settings say -/

/-- A path whose first component is a tilde leads below the home directory. -/
def expandHome (home path : String) : String :=
  match Path.below? "~" path with
  | some rest => Path.join home rest
  | none => path

/-- The directory of the registries. -/
def dataDirIn (settings : ProjectSettings) (home : String) : String :=
  match settings.dataDir with
  | some directory => expandHome home directory
  | none => Path.join (Path.join (Path.join home ".local") "share") "phphints"

/-- Whether an adapter runs. Adapters named for one run are all that run; else the project goes
before the user, and what neither of them sets is on. -/
def isActive (settings : ProjectSettings) (user : UserSettings) (named : List String)
    (name : String) : Bool :=
  if named.isEmpty then
    ((settings.adapters.get? name).or (user.adapters.get? name)).getD true
  else named.contains name

/-- Whether a pattern that ends in a slash names a directory on the way to a file. -/
def namesDirectoryOf (path : Text) (pattern : Text) : Bool :=
  let name := pattern.dropEndWhile (· = '/') ++ ['/']
  pattern.getLast? = some '/' && (path.contains ('/' :: name) || name.isPrefixOf path)

/-- Whether a pattern excludes a path: by the whole path, by its file name, or by a directory. -/
def excludes (pattern path : String) : Bool :=
  let byName := (Glob.parse? pattern.toList).any fun glob ↦
    glob.isMatch path.toList || (Path.fileName? path).any fun name ↦ glob.isMatch name.toList
  byName || namesDirectoryOf path.toList pattern.toList

def isExcluded (settings : ProjectSettings) (path : String) : Bool :=
  settings.exclude.any fun pattern ↦ excludes pattern path

end ProjectSettings

end LintMend
