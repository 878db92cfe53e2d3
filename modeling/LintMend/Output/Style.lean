import LintMend.Color

/-!
# Styled text

How a terminal is told to show a text: by a sequence of codes before it and a reset behind it. Where
colors are off a styled text is the text itself.
-/

namespace LintMend

inductive Paint where
  | red
  | green
  | yellow
  | mixed (color : Color)
deriving DecidableEq, Repr

structure Style where
  bold : Bool
  dimmed : Bool
  underlined : Bool
  paint : Option Paint
deriving DecidableEq, Repr

namespace Style

def plain : Style := ⟨false, false, false, none⟩

def strong : Style := { plain with bold := true }

def faint : Style := { plain with dimmed := true }

/-- For the title of a summary. -/
def title : Style := { plain with bold := true, underlined := true }

def of (paint : Paint) : Style := { plain with paint := some paint }

def paintCode : Paint → String
  | .red => "31"
  | .green => "32"
  | .yellow => "33"
  | .mixed c => s!"38;2;{c.red.toNat};{c.green.toNat};{c.blue.toNat}"

def codes (style : Style) : List String :=
  (if style.bold then ["1"] else []) ++ (if style.dimmed then ["2"] else [])
    ++ (if style.underlined then ["4"] else []) ++ (style.paint.map paintCode).toList

def reset : String := "\x1b[0m"

def sequence (style : Style) : String := "\x1b[" ++ ";".intercalate style.codes ++ "m"

/-- Puts the sequence of a style behind each reset in a text, so that the style goes on there. -/
def resume (sequence : List Char) : List Char → List Char
  | '\x1b' :: '[' :: '0' :: 'm' :: s => '\x1b' :: '[' :: '0' :: 'm' :: sequence ++ resume sequence s
  | c :: s => c :: resume sequence s
  | [] => []

/-- A text in a style, with blanks behind it up to a width. -/
def applyWide (style : Style) (colors : Bool) (width : Nat) (text : String) : String :=
  let padded (text : String) : String := text ++ "".pushn ' ' (width - text.length)
  if colors ∧ style ≠ plain then
    let inner := String.ofList (resume style.sequence.toList text.toList)
    style.sequence ++ padded inner ++ reset
  else padded text

def apply (style : Style) (colors : Bool) (text : String) : String := style.applyWide colors 0 text

end Style

end LintMend
