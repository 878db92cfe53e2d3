import LintMend.Text.Slice

/-!
# Colors

Opaque colors of three channels, written as a number sign and six hexadecimal digits. The digits are
counted in bytes, and each channel is sliced out of them at bytes.
-/

namespace LintMend

structure Color where
  red : UInt8
  green : UInt8
  blue : UInt8
deriving DecidableEq, Repr, Inhabited

namespace Color

/-- The error for a text that names no color. -/
structure Invalid where
  text : String
deriving DecidableEq, Repr

def Invalid.message (e : Invalid) : String := s!"Invalid color '{e.text}', expected #RRGGBB"

def isHexDigit (c : Char) : Bool :=
  ('0' ≤ c && c ≤ '9') || ('a' ≤ c && c ≤ 'f') || ('A' ≤ c && c ≤ 'F')

/-- The value of a hexadecimal digit. -/
def digit? (c : Char) : Option Nat :=
  if '0' ≤ c ∧ c ≤ '9' then some (c.toNat - '0'.toNat)
  else if 'a' ≤ c ∧ c ≤ 'f' then some (c.toNat - 'a'.toNat + 10)
  else if 'A' ≤ c ∧ c ≤ 'F' then some (c.toNat - 'A'.toNat + 10)
  else none

/-- The number that hexadecimal digits make, if it is one of eight bits. -/
def digitsValue? (digits : Text) : Option Nat :=
  digits.foldlM (fun n c ↦ ((digit? c).map (16 * n + ·)).filter (· < 256)) 0

/-- A number of eight bits in hexadecimal digits; a plus sign may stand before them. -/
def readByte? (s : Text) : Option UInt8 :=
  let digits := (Text.stripStart? ['+'] s).getD s
  if digits.isEmpty then none else (digitsValue? digits).map Nat.toUInt8

/-- Reads a color, if the text is one. -/
def read (text : Text) : Slicing (Option Color) := do
  let some digits := Text.stripStart? ['#'] text | return none
  if digits.size ≠ 6 ∨ ¬ digits.all isHexDigit then return none
  let some red := readByte? (← Sliced.slice digits 0 2) | return none
  let some green := readByte? (← Sliced.slice digits 2 4) | return none
  let some blue := readByte? (← Sliced.slice digits 4 6) | return none
  return some ⟨red, green, blue⟩

/-- The color of a text. The slices of `read` never fail, so a text names no color only where that
says so. -/
def ofHex (text : String) : Except Invalid Color :=
  match read text.toList with
  | .ok (some color) => .ok color
  | _ => .error ⟨text⟩

def hexDigit (n : Nat) : Char :=
  if n < 10 then Char.ofNat ('0'.toNat + n) else Char.ofNat ('A'.toNat + (n - 10))

def channelChars (channel : UInt8) : List Char :=
  [hexDigit (channel.toNat / 16), hexDigit (channel.toNat % 16)]

def toChars (color : Color) : List Char :=
  '#' :: channelChars color.red ++ channelChars color.green ++ channelChars color.blue

def toHex (color : Color) : String := String.ofList color.toChars

/-- A channel as a share of its greatest value. -/
def share (channel : UInt8) : Float := channel.toNat.toFloat / 255.0

end Color

end LintMend
