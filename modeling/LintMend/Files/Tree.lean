import LintMend.Files.Content
import LintMend.Files.Path

/-!
# File trees

The directory a program works in, as a value: the files and directories below it, each under the
names that lead to it. Relative paths start at that directory; of the absolute ones only those below
it lead anywhere. Reading and writing fail as they do on disk.
-/

namespace LintMend

inductive FileError where
  | notFound
  | notADirectory
  | isADirectory
  | alreadyExists
  | denied
  | notText
  /-- Any other fault, in the words of the system. -/
  | system (message : String)
deriving DecidableEq, Repr

def FileError.message : FileError → String
  | notFound => "No such file or directory (os error 2)"
  | notADirectory => "Not a directory (os error 20)"
  | isADirectory => "Is a directory (os error 21)"
  | alreadyExists => "File exists (os error 17)"
  | denied => "Permission denied (os error 13)"
  | notText => "stream did not contain valid UTF-8"
  | system message => message

/-- An error and its causes, one behind the other. -/
def joinChain (chain : List String) : String := ": ".intercalate chain

/-- The names that lead from the top of a tree to a place in it. -/
abbrev Place := List String

inductive FileTree.Entry where
  | file (content : Content)
  | directory
deriving DecidableEq, Repr

structure FileTree where
  /-- The absolute path of the top. -/
  base : String
  entries : List (Place × FileTree.Entry)
deriving DecidableEq, Repr

namespace FileTree

def entry? (tree : FileTree) (place : Place) : Option Entry :=
  if place.isEmpty then some .directory else (tree.entries.find? (·.1 = place)).map (·.2)

def put (tree : FileTree) (place : Place) (entry : Entry) : FileTree :=
  if tree.entries.any (·.1 = place) then
    { tree with entries := tree.entries.map fun e ↦ if e.1 = place then (place, entry) else e }
  else { tree with entries := tree.entries ++ [(place, entry)] }

def erase (tree : FileTree) (place : Place) : FileTree :=
  { tree with entries := tree.entries.filter (·.1 ≠ place) }

/-! ## From paths to places -/

/-- The components that lead from the top to a path. -/
def steps? (tree : FileTree) (path : String) : Except FileError (List Path.Component) :=
  let base := tree.base.toList
  match Text.stripStart? base path.toList with
  | some [] => .ok []
  | some ('/' :: rest) => .ok (Path.components (String.ofList rest))
  | _ =>
    if path.isEmpty ∨ Path.isAbsolute path then .error .notFound else .ok (Path.components path)

/-- Walks from a place; all but the last name must lead to directories. -/
def walkTo (tree : FileTree) : Place → List Path.Component → Except FileError Place
  | here, [] => .ok here
  | here, step :: steps =>
    match tree.entry? here with
    | none => .error .notFound
    | some (.file _) => .error .notADirectory
    | some .directory =>
      match step with
      | .normal name => walkTo tree (here ++ [name]) steps
      | .parent => if here.isEmpty then .error .notFound else walkTo tree here.dropLast steps
      | .current => walkTo tree here steps
      | .root => walkTo tree here steps

/-- Whether the end of a path says that it names a directory. -/
def namesDirectory (path : String) : Bool :=
  match path.toList.reverse with
  | '/' :: _ => true
  | '.' :: '/' :: _ => true
  | _ => false

/-- The place of a path and what is there. -/
def look (tree : FileTree) (path : String) : Except FileError (Place × Option Entry) := do
  let steps ← tree.steps? path
  let place ← tree.walkTo [] steps
  match tree.entry? place with
  | some (.file content) =>
    if namesDirectory path then .error .notADirectory
    else return (place, some (.file content))
  | entry => return (place, entry)

def has (tree : FileTree) (path : String) : Bool :=
  match tree.look path with
  | .ok (_, entry) => entry.isSome
  | .error _ => false

def isFile (tree : FileTree) (path : String) : Bool :=
  match tree.look path with
  | .ok (_, some (.file _)) => true
  | _ => false

def isDirectory (tree : FileTree) (path : String) : Bool :=
  match tree.look path with
  | .ok (_, some .directory) => true
  | _ => false

/-! ## Reading -/

def read (tree : FileTree) (path : String) : Except FileError Content := do
  match (← tree.look path).2 with
  | some (.file content) => return content
  | some .directory => .error .isADirectory
  | none => .error .notFound

def readText (tree : FileTree) (path : String) : Except FileError Text := do
  match (← tree.read path).text? with
  | some text => return text
  | none => .error .notText

/-! ## Writing -/

/-- The place of a file that is there or can be made there. -/
def filePlace (tree : FileTree) (path : String) : Except FileError Place := do
  let (place, entry) ← tree.look path
  match entry with
  | some .directory => .error .isADirectory
  | some (.file _) => return place
  | none =>
    match tree.entry? place.dropLast with
    | some .directory => if namesDirectory path then .error .isADirectory else return place
    | _ => .error .notFound

def write (tree : FileTree) (path : String) (content : Content) : Except FileError FileTree := do
  let place ← tree.filePlace path
  return tree.put place (.file content)

/-- Adds a text at the end of a file, which is made where it is missing. -/
def append (tree : FileTree) (path : String) (text : Text) : Except FileError FileTree := do
  let place ← tree.filePlace path
  match tree.entry? place with
  | some (.file content) => return tree.put place (.file (content.append text))
  | _ => return tree.put place (.file (.text text))

def remove (tree : FileTree) (path : String) : Except FileError FileTree := do
  let (place, entry) ← tree.look path
  match entry with
  | some (.file _) => return tree.erase place
  | some .directory => .error .isADirectory
  | none => .error .notFound

def makeDirectory (tree : FileTree) (path : String) : Except FileError FileTree :=
  match tree.look path with
  | .ok (_, some _) => .error .alreadyExists
  | .ok (place, none) =>
    match tree.entry? place.dropLast with
    | some .directory => .ok (tree.put place .directory)
    | _ => .error .notFound
  | .error fault => .error fault

/-- Makes a directory; one that is there stays. -/
def ensureDirectory (tree : FileTree) (path : String) : Except FileError FileTree :=
  match tree.makeDirectory path with
  | .ok tree => .ok tree
  | .error fault => if tree.isDirectory path then .ok tree else .error fault

/-- Makes a directory, after those above it where they are missing too. Every directory above has a
shorter path, so the length of the path bounds the number of steps. -/
def makeDirectoriesFrom : Nat → FileTree → String → Except FileError FileTree
  | 0, _, _ => .error .notFound
  | fuel + 1, tree, path =>
    if path.isEmpty then .ok tree
    else
      match tree.ensureDirectory path with
      | .ok tree => .ok tree
      | .error fault =>
        if fault = .notFound then
          match Path.parent? path with
          | none => .error .notFound
          | some up => (makeDirectoriesFrom fuel tree up).bind (·.ensureDirectory path)
        else .error fault

def makeDirectories (tree : FileTree) (path : String) : Except FileError FileTree :=
  makeDirectoriesFrom (path.length + 1) tree path

/-- Makes the directories above a path. -/
def makeDirectoriesAbove (tree : FileTree) (path : String) : Except FileError FileTree :=
  match Path.parent? path with
  | some up => tree.makeDirectories up
  | none => .ok tree

/-! ## Walking -/

/-- The files below a directory, under the path by which the directory was named. -/
def filesBelow (tree : FileTree) (path : String) : List String :=
  match tree.look path with
  | .ok (place, some .directory) =>
    tree.entries.filterMap fun (p, entry) ↦
      match entry with
      | .file _ =>
        if place.isPrefixOf p ∧ p ≠ place then
          some ((p.drop place.length).foldl Path.join path)
        else none
      | .directory => none
  | _ => []

end FileTree

end LintMend
