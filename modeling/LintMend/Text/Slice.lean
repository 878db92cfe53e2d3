import LintMend.Text.Basic

/-!
# Slices

The piece of a text between two offsets. Slicing fails where the two are not the ends of a piece:
behind the end of the text, inside a character, or in the wrong order.
-/

namespace LintMend

/-- A range that a text cannot be sliced at. -/
structure BadRange where
  start : Nat
  stop : Nat
deriving DecidableEq, Repr

abbrev Slicing := Except BadRange

namespace Sliced

open Text

/-- The piece of a text between two offsets. -/
def slice (s : Text) (start stop : Nat) : Slicing Text :=
  match (s.before? stop).bind fun upTo ↦ after? upTo start with
  | some held => .ok held
  | none => .error ⟨start, stop⟩

end Sliced

end LintMend
