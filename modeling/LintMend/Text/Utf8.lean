import LintMend.Text.Basic

/-!
# UTF-8

Encoding of a text in bytes, and its two readings back: `decode?` takes only what is the encoding of
a text, `decodeLossy` puts a replacement character for each longest piece that begins like the
encoding of a character and breaks off.
-/

namespace LintMend.Text

def encodeChar (c : Char) : List UInt8 :=
  let n := c.toNat
  if n < 0x80 then [n.toUInt8]
  else if n < 0x800 then [(0xC0 + n / 0x40).toUInt8, (0x80 + n % 0x40).toUInt8]
  else if n < 0x10000 then
    [(0xE0 + n / 0x1000).toUInt8, (0x80 + n / 0x40 % 0x40).toUInt8, (0x80 + n % 0x40).toUInt8]
  else
    [(0xF0 + n / 0x40000).toUInt8, (0x80 + n / 0x1000 % 0x40).toUInt8,
     (0x80 + n / 0x40 % 0x40).toUInt8, (0x80 + n % 0x40).toUInt8]

def encode (s : Text) : List UInt8 := s.flatMap encodeChar

/-- For the first byte of a character of several bytes: how many follow, the bounds of the next
one, and the bits that the first byte gives. -/
def lead? (b : UInt8) : Option (Nat × UInt8 × UInt8 × Nat) :=
  if 0xC2 ≤ b ∧ b ≤ 0xDF then some (1, 0x80, 0xBF, b.toNat - 0xC0)
  else if b = 0xE0 then some (2, 0xA0, 0xBF, 0)
  else if b = 0xED then some (2, 0x80, 0x9F, 0xD)
  else if 0xE1 ≤ b ∧ b ≤ 0xEF then some (2, 0x80, 0xBF, b.toNat - 0xE0)
  else if b = 0xF0 then some (3, 0x90, 0xBF, 0)
  else if 0xF1 ≤ b ∧ b ≤ 0xF3 then some (3, 0x80, 0xBF, b.toNat - 0xF0)
  else if b = 0xF4 then some (3, 0x80, 0x8F, 4)
  else none

/-- Where the reading of bytes stands: between characters, or inside one of which `missing` bytes
are to come, the next of them between two bounds. -/
inductive Utf8State where
  | between
  | inside (missing : Nat) (low high : UInt8) (bits : Nat)

/-- The characters of some bytes, with nothing for each piece that is no character. -/
def decodeFrom : Utf8State → List UInt8 → List (Option Char)
  | .between, [] => []
  | .inside .., [] => [none]
  | state, b :: bytes =>
    let begin (before : List (Option Char)) : List (Option Char) :=
      if b < 0x80 then before ++ some (Char.ofNat b.toNat) :: decodeFrom .between bytes
      else
        match lead? b with
        | some (missing, low, high, bits) =>
          before ++ decodeFrom (.inside missing low high bits) bytes
        | none => before ++ none :: decodeFrom .between bytes
    match state with
    | .between => begin []
    | .inside missing low high bits =>
      if low ≤ b ∧ b ≤ high then
        let bits := bits * 0x40 + (b.toNat - 0x80)
        if missing ≤ 1 then some (Char.ofNat bits) :: decodeFrom .between bytes
        else decodeFrom (.inside (missing - 1) 0x80 0xBF bits) bytes
      else begin [none]

def decode? (bytes : List UInt8) : Option Text := (decodeFrom .between bytes).mapM id

def decodeLossy (bytes : List UInt8) : Text :=
  (decodeFrom .between bytes).map (·.getD '\ufffd')

end LintMend.Text
