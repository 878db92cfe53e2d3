import LintMend.Toml.Scalar
import LintMend.Toml.Section

/-!
# Reading TOML

`Toml.parse?` reads a document: lines that open tables by their headers, or give values to keys.
Values may nest in one another up to a limit.
-/

namespace LintMend.Toml

/-- Keys have fewer parts than this, and values nest in fewer others. -/
def nestingLimit : Nat := 80

/-- The rest behind a comment, if there is one. -/
def skipComment (s : Text) : Text :=
  match s with
  | '#' :: s => s.dropWhile fun c ↦ isPlain c
  | s => s

/-- The rest behind blanks, comments and line breaks; a comment must end with its line. The length
of the text bounds the number of steps. -/
def skipLines : Nat → Text → Text
  | 0, s => s
  | fuel + 1, s =>
    match lineBreak? (skipComment (skipGap s)) with
    | some s => skipLines fuel s
    | none => skipGap s

/-- The rest behind the end of a line, or of the text, with blanks and a comment before it. -/
def lineEnd? (s : Text) : Option Text :=
  match skipComment (skipGap s) with
  | [] => some []
  | s => lineBreak? s

/-! ## Keys -/

def isBareKey (c : Char) : Bool := c.isAlphanum || c == '_' || c == '-'

def keyPart? (s : Text) : Option (String × Text) :=
  (lineString? s).or <|
    let bare := s.takeWhile isBareKey
    if bare.isEmpty then none else some (String.ofList bare, s.drop bare.length)

/-- The parts of a key, with blanks around each; a point stands between two of them. -/
def keyParts? : Nat → Text → Option (List String × Text)
  | 0, _ => none
  | limit + 1, s => do
    let (part, s) ← keyPart? (skipGap s)
    match skipGap s with
    | '.' :: s => do
      let (parts, s) ← keyParts? limit s
      return (part :: parts, s)
    | s => return ([part], s)

def key? (s : Text) : Option (List String × Text) := keyParts? (nestingLimit - 1) s

/-! ## Values -/

/-- The items of an array behind its bracket, given the reader of one; the length of the text
bounds their number. -/
def items? (value : Text → Option (Toml × Text)) : Nat → Text → Option (List Toml × Text)
  | 0, _ => none
  | fuel + 1, s =>
    match skipLines s.length s with
    | ']' :: s => some ([], s)
    | s => do
      let (item, s) ← value s
      match skipLines s.length s with
      | ',' :: s => do
        let (items, s) ← items? value fuel s
        return (item :: items, s)
      | ']' :: s => return ([item], s)
      | _ => none

/-- A key and its value. -/
def pair (value : Text → Option (Toml × Text)) (s : Text) :
    Option ((List String × Toml) × Text) := do
  let (key, s) ← key? s
  let (v, s) ← value (skipGap (← skipChar? '=' s))
  return ((key, v), s)

/-- The pairs of a table on one line behind its brace; there is at least one. -/
def pairs? (value : Text → Option (Toml × Text)) : Nat → Text →
    Option (List (List String × Toml) × Text)
  | 0, _ => none
  | fuel + 1, s => do
    let (first, s) ← pair value s
    match skipGap s with
    | ',' :: s => do
      let (rest, s) ← pairs? value fuel s
      return (first :: rest, s)
    | '\x7d' :: s => return ([first], s)
    | _ => none

/-- The table of some pairs. -/
def tableOf? (pairs : List (List String × Toml)) : Option Toml :=
  (pairs.foldlM (fun entries (key, v) ↦ Section.assign v true key entries) []).map fun entries ↦
    .table (Section.entriesToToml entries)

/-- A value with others nested in it to some depth. -/
def value? : Nat → Text → Option (Toml × Text)
  | 0, s => scalar? s
  | depth + 1, s =>
    match s with
    | '[' :: s => (items? (value? depth) (s.length + 1) s).map fun (items, s) ↦ (.arr items, s)
    | '\x7b' :: s =>
      match skipGap s with
      | '\x7d' :: s => some (.table [], s)
      | s => do
        let (pairs, s) ← pairs? (value? depth) (s.length + 1) s
        return (← tableOf? pairs, s)
    | s => scalar? s

/-! ## Documents -/

/-- What one line of a document, or several, says. -/
inductive Statement where
  | assign (key : List String) (value : Toml)
  | table (name : List String)
  | item (name : List String)

def statement? (s : Text) : Option (Statement × Text) :=
  match s with
  | '[' :: '[' :: s => do
    let (name, s) ← key? s
    return (.item name, ← skipChar? ']' (← skipChar? ']' s))
  | '[' :: s => do
    let (name, s) ← key? s
    return (.table name, ← skipChar? ']' s)
  | s => (pair (value? (nestingLimit - 1)) s).map fun ((key, v), s) ↦ (.assign key v, s)

/-- The statements of a document, each of which takes a character at least. -/
def statements? : Nat → Text → Option (List Statement)
  | 0, _ => none
  | fuel + 1, s =>
    match skipLines s.length s with
    | [] => some []
    | s =>
      if (skipComment s).isEmpty then some []
      else do
        let (first, s) ← statement? s
        let rest ← statements? fuel (← lineEnd? s)
        return first :: rest

/-- Adds what the statements say, below the last header. -/
def build? : List String → Section.Entries → List Statement → Option Section.Entries
  | _, entries, [] => some entries
  | header, entries, .assign key v :: rest => do
    build? header (← Section.within (Section.assign v true key) header entries) rest
  | _, entries, .table name :: rest => do build? name (← Section.openTable name entries) rest
  | _, entries, .item name :: rest => do build? name (← Section.openItem name entries) rest

/-- A byte order mark may stand before the document. -/
def dropMark : Text → Text
  | c :: s => if c.toNat = 0xFEFF then s else c :: s
  | [] => []

def parse? (s : Text) : Option Toml := do
  let s := dropMark s
  let statements ← statements? (s.length + 1) s
  return .table (Section.entriesToToml (← build? [] [] statements))

end LintMend.Toml
