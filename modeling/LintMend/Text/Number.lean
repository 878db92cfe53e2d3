import LintMend.Text.Basic
import LintMend.Word

/-!
# Numbers in texts

Reading and writing numbers of 64 bits in the decimal digits of ASCII.
-/

namespace LintMend.Text

def digitsValue (digits : Text) : Nat :=
  digits.foldl (fun n c ↦ 10 * n + (c.toNat - '0'.toNat)) 0

/-- A number of 64 bits, written in digits of ASCII and nothing else. -/
def readDigits? (s : Text) : Option Nat :=
  if s.isEmpty ∨ ¬ s.all Char.isDigit then none
  else if digitsValue s < words64 then some (digitsValue s)
  else none

/-- A number of 64 bits; a plus sign may stand before its digits. -/
def readWord? : Text → Option Nat
  | '+' :: s => readDigits? s
  | s => readDigits? s

end LintMend.Text
