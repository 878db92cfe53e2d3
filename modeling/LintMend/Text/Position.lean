import LintMend.Text.Basic

/-!
# Lines and columns

A position is a line and a column, both counted from zero; columns count characters. `offsetOf`
turns a position into an offset and clamps it to its line and to the text, `positionOf` goes back.
-/

namespace LintMend

structure Position where
  line : Nat
  column : Nat
deriving DecidableEq, Repr, Inhabited

namespace Text

/-- Offset of a position among lines that a line feed joins. A column behind the end of its line
stands for the end of the line, before a carriage return, and a line behind the last one for the
end of the text. -/
def offsetInLines : List Text → Nat → Nat → Nat
  | [], _, _ => 0
  | line :: _, 0, column => size (line.dropCarriageReturn.take column)
  | [last], _ + 1, _ => size last
  | line :: rest, n + 1, column => size line + 1 + offsetInLines rest n column

def offsetOf (s : Text) (line column : Nat) : Nat := offsetInLines s.lines line column

/-- Position of an offset, counted from a given position. -/
def positionFrom : Position → Text → Nat → Position
  | here, [], _ => here
  | here, _, 0 => here
  | here, c :: s, offset + 1 =>
    let next := if c = '\n' then ⟨here.line + 1, 0⟩ else ⟨here.line, here.column + 1⟩
    positionFrom next s (offset + 1 - c.utf8Size)

/-- Position of an offset; an offset inside a character stands for the next one, and an offset
behind the end for the end. -/
def positionOf (s : Text) (offset : Nat) : Position := positionFrom ⟨0, 0⟩ s offset

/-! ## Lines by number -/

def lineStart (s : Text) (line : Nat) : Nat := s.offsetOf line 0

/-- Content of a line without its line break; empty behind the last line. -/
def lineText (s : Text) (line : Nat) : Text := ((s.lines[line]?).getD []).dropCarriageReturn

/-- Offset of the line break that ends a line. -/
def lineEnd (s : Text) (line : Nat) : Nat := s.offsetOf line (s.lineText line).length

/-- Length of a line in characters. -/
def lineLength (s : Text) (line : Nat) : Nat := (s.lineText line).length

def isBlankLine (s : Text) (line : Nat) : Bool := (s.lineText line).isAllBlank

/-- Number of blank characters a line begins with. -/
def indentation (s : Text) (line : Nat) : Nat := ((s.lineText line).takeWhile isBlank).length

end Text

end LintMend
