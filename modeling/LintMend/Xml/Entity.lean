import LintMend.Text.Basic

/-!
# Character references

In the text of a document an ampersand begins a reference: one of five names, or the number of a
character in decimal or hexadecimal digits.
-/

namespace LintMend.Xml

def digitValue? (radix : Nat) (c : Char) : Option Nat :=
  let value :=
    if c.isDigit then c.toNat - '0'.toNat
    else if c.isLower then c.toNat - 'a'.toNat + 10
    else if c.isUpper then c.toNat - 'A'.toNat + 10
    else radix
  if value < radix then some value else none

def readRadix? (radix : Nat) (digits : Text) : Option Nat :=
  if digits.isEmpty then none
  else digits.foldlM (fun n c ↦ (digitValue? radix c).map (radix * n + ·)) 0

/-- The character with a number; there is none for zero, for a surrogate and above the last one. -/
def charOfNumber? (n : Nat) : Option Char :=
  if (0 < n ∧ n < 0xD800) ∨ (0xE000 ≤ n ∧ n < 0x110000) then some (Char.ofNat n) else none

/-- The character a reference stands for, given what is between the ampersand and the semicolon. -/
def reference? : Text → Option Char
  | '#' :: 'x' :: digits => (readRadix? 16 digits).bind charOfNumber?
  | '#' :: digits => (readRadix? 10 digits).bind charOfNumber?
  | ['l', 't'] => some '<'
  | ['g', 't'] => some '>'
  | ['a', 'm', 'p'] => some '&'
  | ['a', 'p', 'o', 's'] => some '\''
  | ['q', 'u', 'o', 't'] => some '"'
  | _ => none

/-- Resolves references; `opened` holds what was read of a reference, last first. -/
def resolve? : Option Text → Text → Option Text
  | none, [] => some []
  | none, c :: s =>
    if c = '&' then resolve? (some []) s else (resolve? none s).map (c :: ·)
  | some _, [] => none
  | some opened, c :: s =>
    if c = ';' then
      (reference? opened.reverse).bind fun r ↦ (resolve? none s).map (r :: ·)
    else if c = '&' then none
    else resolve? (some (c :: opened)) s

/-- The text that is meant by a written one. -/
def unescape? (s : Text) : Option Text := resolve? none s

end LintMend.Xml
