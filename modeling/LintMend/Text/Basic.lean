import LintMend.Text.Classes

/-!
# Texts

A text is a list of characters. Offsets into a text count the bytes of its UTF-8 encoding, so an
offset is a measure of what stands before it and only some numbers are offsets of a position:
`splitAt?` cuts a text at an offset and fails behind the end and inside a character.
-/

namespace LintMend

abbrev Text := List Char

namespace Text

/-- Number of bytes of the UTF-8 encoding. -/
def size : Text → Nat
  | [] => 0
  | c :: s => c.utf8Size + size s

def splitAt? : Text → Nat → Option (Text × Text)
  | s, 0 => some ([], s)
  | [], _ + 1 => none
  | c :: s, n + 1 =>
    if c.utf8Size ≤ n + 1 then
      (splitAt? s (n + 1 - c.utf8Size)).map fun (before, after) ↦ (c :: before, after)
    else none

def before? (s : Text) (offset : Nat) : Option Text := (splitAt? s offset).map (·.1)

def after? (s : Text) (offset : Nat) : Option Text := (splitAt? s offset).map (·.2)

/-- Whether an offset stands at a character, or at the end. -/
def isBoundary (s : Text) (offset : Nat) : Bool := (splitAt? s offset).isSome

/-! ## Searching -/

/-- Offset of the first occurrence of a needle. -/
def find? (needle : Text) : Text → Option Nat
  | [] => if needle.isEmpty then some 0 else none
  | c :: s =>
    if needle.isPrefixOf (c :: s) then some 0 else (find? needle s).map (c.utf8Size + ·)

/-- Offset of the last occurrence of a needle. -/
def findLast? (needle : Text) : Text → Option Nat
  | [] => if needle.isEmpty then some 0 else none
  | c :: s =>
    match findLast? needle s with
    | some offset => some (c.utf8Size + offset)
    | none => if needle.isPrefixOf (c :: s) then some 0 else none

def contains (s needle : Text) : Bool := (find? needle s).isSome

/-- Lower case for the letters of ASCII, every other character as it is. -/
def asciiLower (s : Text) : Text := s.map Char.toLower

/-! ## Trimming -/

def dropEndWhile (p : Char → Bool) (s : Text) : Text := (s.reverse.dropWhile p).reverse

def takeEndWhile (p : Char → Bool) (s : Text) : Text := (s.reverse.takeWhile p).reverse

def trimStart (s : Text) : Text := s.dropWhile isBlank

def trimEnd (s : Text) : Text := s.dropEndWhile isBlank

def trim (s : Text) : Text := s.trimStart.trimEnd

def isAllBlank (s : Text) : Bool := s.all isBlank

/-- What follows a given beginning, if the text has it. -/
def stripStart? (start s : Text) : Option Text :=
  if start.isPrefixOf s then some (s.drop start.length) else none

def stripEnd? (ending s : Text) : Option Text :=
  if ending.isSuffixOf s then some (s.take (s.length - ending.length)) else none

/-! ## Cutting at a character -/

/-- The pieces between the occurrences of a separator; there is always at least one. -/
def splitOnChar (separator : Char) : Text → List Text
  | [] => [[]]
  | c :: s =>
    if c = separator then [] :: splitOnChar separator s
    else
      match splitOnChar separator s with
      | [] => [[c]]
      | piece :: pieces => (c :: piece) :: pieces

/-- The lines of a text, without their line feeds. A final line feed begins an empty last line. -/
def lines (s : Text) : List Text := splitOnChar '\n' s

def lineCount (s : Text) : Nat := s.lines.length

/-- A line without the carriage return that belongs to its line break. -/
def dropCarriageReturn (line : Text) : Text :=
  if line.getLast? = some '\r' then line.dropLast else line

/-- The lines of an output, each ended by a line feed, perhaps with a carriage return before it; the
last one need not be ended. -/
def outputLines : Text → List Text
  | [] => []
  | c :: s =>
    if c = '\n' then [] :: outputLines s
    else if c = '\r' ∧ s.head? = some '\n' then outputLines s
    else
      match outputLines s with
      | [] => [[c]]
      | line :: rest => (c :: line) :: rest

end Text

end LintMend
