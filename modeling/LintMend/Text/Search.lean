import LintMend.Text.Position

/-!
# Searching from an offset

Searches that start or end at an offset of a text, and their results as spans of offsets. Every
search fails at a number that is no offset of the text.
-/

namespace LintMend

/-- A range of offsets. -/
structure Span where
  start : Nat
  stop : Nat
deriving DecidableEq, Repr

namespace Text

/-- Offset of the character `count` places behind an offset, or of the end of the text. -/
def advance? (s : Text) (offset count : Nat) : Option Nat :=
  (s.after? offset).map fun rest ↦ offset + size (rest.take count)

/-- Start of the identifier with a character at an offset, or the offset itself where no
identifier is. -/
def wordStart? (s : Text) (offset : Nat) : Option Nat := do
  let (before, after) ← s.splitAt? offset
  if after.head?.any isWord then
    return offset - size (before.takeEndWhile isWord)
  else return offset

def searchFrom? (s : Text) (offset : Nat) (needle : Text) : Option Span := do
  let rest ← s.after? offset
  let found ← find? needle rest
  return ⟨offset + found, offset + found + size needle⟩

/-- Like `searchFrom?`, with the letters of ASCII equal in both cases. -/
def searchFromIgnoringCase? (s : Text) (offset : Nat) (needle : Text) : Option Span := do
  let rest ← s.after? offset
  let found ← find? needle.asciiLower rest.asciiLower
  return ⟨offset + found, offset + found + size needle⟩

/-- The last occurrence that ends at or before an offset. -/
def searchBefore? (s : Text) (offset : Nat) (needle : Text) : Option Span := do
  let before ← s.before? offset
  let found ← findLast? needle before
  return ⟨found, found + size needle⟩

/-! ## Spaces and tabs -/

def isSpaceOrTab (c : Char) : Bool := c == ' ' || c == '\t'

/-- Size of the run of spaces and tabs that starts at an offset. -/
def gapAfter? (s : Text) (offset : Nat) : Option Nat :=
  (s.after? offset).map fun rest ↦ size (rest.takeWhile isSpaceOrTab)

/-- Size of the run of spaces and tabs that ends at an offset. -/
def gapBefore? (s : Text) (offset : Nat) : Option Nat :=
  (s.before? offset).map fun rest ↦ size (rest.takeEndWhile isSpaceOrTab)

/-! ## Variables -/

/-- Offset of the first occurrence of a name that no further identifier character follows. -/
def findWhole? (name : Text) : Text → Option Nat
  | [] => none
  | c :: s =>
    if name.isPrefixOf (c :: s) ∧ ¬ ((c :: s).drop name.length).head?.any isWord then some 0
    else (findWhole? name s).map (c.utf8Size + ·)

/-- The first occurrence of a variable on a line; a longer name that begins with it is another
variable. -/
def variableOnLine? (s : Text) (line : Nat) (name : Text) : Option Span :=
  (findWhole? name (s.lineText line)).map fun found ↦
    ⟨s.lineStart line + found, s.lineStart line + found + size name⟩

end Text

end LintMend
