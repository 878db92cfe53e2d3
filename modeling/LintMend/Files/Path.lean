import LintMend.Text.Basic

/-!
# Paths

A path is a string; its meaning is a list of components. Repeated slashes, slashes at the end and
dots after the first component mean nothing, so different strings can be equal as paths.
-/

namespace LintMend.Path

inductive Component where
  | root
  | current
  | parent
  | normal (name : String)
deriving DecidableEq, Repr

def isAbsolute (path : String) : Bool := path.toList.head? = some '/'

/-- What stands between the slashes, empty parts included. -/
def parts (path : String) : List Text := Text.splitOnChar '/' path.toList

def component? (part : Text) : Option Component :=
  if part = [] ∨ part = ['.'] then none
  else if part = ['.', '.'] then some .parent
  else some (.normal (String.ofList part))

def components (path : String) : List Component :=
  let rest := (parts path).filterMap component?
  if isAbsolute path then .root :: rest
  else if (parts path).head? = some ['.'] then .current :: rest
  else rest

/-- Order of the kinds of components. -/
def Component.rank : Component → Nat
  | root => 0
  | current => 1
  | parent => 2
  | normal _ => 3

def Component.le : Component → Component → Bool
  | normal a, normal b => a ≤ b
  | a, b => a.rank ≤ b.rank

/-- Lexicographic order. -/
def lexLe : List Component → List Component → Bool
  | [], _ => true
  | _ :: _, [] => false
  | a :: as, b :: bs => if a = b then lexLe as bs else a.le b

/-- Paths are ordered component by component. -/
def le (a b : String) : Bool := lexLe (components a) (components b)

/-- A path below a directory; an absolute one stays as it is. -/
def join (directory path : String) : String :=
  if isAbsolute path then path
  else if directory.isEmpty ∨ directory.toList.getLast? = some '/' then directory ++ path
  else directory ++ "/" ++ path

/-- Drops slashes, and dots between slashes, from the end of a path that is held last character
first; a slash or dot that is the whole path stays. -/
def dropTrailing : Text → Text
  | ['/'] => ['/']
  | '/' :: rest => dropTrailing rest
  | '.' :: '/' :: rest => dropTrailing ('/' :: rest)
  | rest => rest

/-- The directory a path is in; the current directory is the empty path. -/
def parent? (path : String) : Option String :=
  let reversed := dropTrailing path.toList.reverse
  if reversed = [] ∨ reversed = ['/'] then none
  else
    match reversed.dropWhile (· ≠ '/') with
    | [] => some ""
    | rest => some (String.ofList (dropTrailing rest).reverse)

/-- The text of a path without the empty parts and dots at both of its ends. -/
def trimParts (parts : List Text) : List Text :=
  let isNothing (part : Text) : Bool := (component? part).isNone
  ((parts.dropWhile isNothing).reverse.dropWhile isNothing).reverse

/-- What follows a first component, relative to it. -/
def below? (first path : String) : Option String :=
  match parts path with
  | part :: rest =>
    if part = first.toList then some (String.ofList (List.intercalate ['/'] (trimParts rest)))
    else none
  | [] => none

def fileName? (path : String) : Option String :=
  match (components path).getLast? with
  | some (.normal name) => some name
  | _ => none

/-- What follows the last dot of the file name; a dot at its start begins no extension. -/
def extension? (path : String) : Option String :=
  (fileName? path).bind fun name ↦
    let reversed := name.toList.reverse
    match reversed.dropWhile (· ≠ '.') with
    | _ :: _ :: _ => some (String.ofList (reversed.takeWhile (· ≠ '.')).reverse)
    | _ => none

end LintMend.Path
