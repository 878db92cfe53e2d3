import LintMend.Text.Number

/-!
# Patterns of messages

A pattern describes how a message begins, piece by piece. `Pattern.match?` compares it with a
message; where a piece can take more or less of the message it takes as much as leaves a match for
the pieces behind it, and what the marked pieces took is captured.
-/

namespace LintMend.Repair

inductive CharClass where
  /-- A decimal digit of any script. -/
  | decimal
  /-- An upper-case letter of ASCII or an underscore. -/
  | keyword
  /-- A letter of ASCII or a space. -/
  | phrase
deriving DecidableEq, Repr

namespace CharClass

def mem : CharClass → Char → Bool
  | decimal, c => Text.isDecimal c
  | keyword, c => c.isUpper || c == '_'
  | phrase, c => c.isAlpha || c == ' '

end CharClass

inductive Piece where
  | literal (text : String)
  /-- A text that may be absent. -/
  | optional (text : String)
  /-- A text that may be absent and is captured where it is present. -/
  | capturedOptional (text : String)
  /-- One or more characters of a class. -/
  | run (cls : CharClass)
  /-- One or more characters of a class, captured. -/
  | capturedRun (cls : CharClass)
  /-- One of two texts, captured. -/
  | either (first second : String)
  /-- A dollar sign and the longest identifier of ASCII behind it, captured. -/
  | varName
  /-- The end of the message. -/
  | stop
deriving DecidableEq, Repr

abbrev Pattern := List Piece

/-- What the marked pieces of a pattern took, in order; nothing for an optional piece that was
absent. -/
abbrev Captures := List (Option Text)

namespace Pattern

def isNameStart (c : Char) : Bool := c.isAlpha || c == '_'

def isNamePart (c : Char) : Bool := c.isAlphanum || c == '_'

/-- Splits a variable from the start of a text. -/
def readName? : Text → Option (Text × Text)
  | '$' :: c :: s =>
    if isNameStart c then
      some ('$' :: c :: s.takeWhile isNamePart, s.dropWhile isNamePart)
    else none
  | _ => none

/-- Tries to cut a text behind its first `n` characters, then behind fewer, down to one. -/
def longestCut? {α : Type} (next : Text → Option α) (s : Text) : Nat → Option (Text × α)
  | 0 => none
  | n + 1 =>
    match next (s.drop (n + 1)) with
    | some a => some (s.take (n + 1), a)
    | none => longestCut? next s n

/-- The captures of a match at the start of a text and what is left behind the match. -/
def matchStart? : Pattern → Text → Option (Captures × Text)
  | [], s => some ([], s)
  | .literal text :: rest, s => (Text.stripStart? text.toList s).bind fun t ↦ matchStart? rest t
  | .optional text :: rest, s =>
    ((Text.stripStart? text.toList s).bind fun t ↦ matchStart? rest t).or (matchStart? rest s)
  | .capturedOptional text :: rest, s =>
    let taken := (Text.stripStart? text.toList s).bind fun t ↦
      (matchStart? rest t).map fun (groups, left) ↦ (some text.toList :: groups, left)
    taken.or ((matchStart? rest s).map fun (groups, left) ↦ (none :: groups, left))
  | .run cls :: rest, s =>
    (longestCut? (fun t ↦ matchStart? rest t) s (s.takeWhile cls.mem).length).map (·.2)
  | .capturedRun cls :: rest, s =>
    (longestCut? (fun t ↦ matchStart? rest t) s (s.takeWhile cls.mem).length).map
      fun (taken, groups, left) ↦ (some taken :: groups, left)
  | .either first second :: rest, s =>
    let one (text : String) := (Text.stripStart? text.toList s).bind fun t ↦
      (matchStart? rest t).map fun (groups, left) ↦ (some text.toList :: groups, left)
    (one first).or (one second)
  | .varName :: rest, s =>
    (readName? s).bind fun (name, t) ↦
      (matchStart? rest t).map fun (groups, left) ↦ (some name :: groups, left)
  | .stop :: rest, s => if s.isEmpty then matchStart? rest s else none

/-- A match of a message: what the pattern took of it, and the captures. -/
structure Match where
  whole : Text
  groups : Captures
deriving DecidableEq, Repr

def match? (pattern : Pattern) (message : Text) : Option Match :=
  (matchStart? pattern message).map fun (groups, left) ↦
    ⟨message.take (message.length - left.length), groups⟩

end Pattern

namespace Captures

/-- A captured text, counted from zero. -/
def text? (groups : Captures) (i : Nat) : Option Text := (groups[i]?).bind id

def number? (groups : Captures) (i : Nat) : Option Nat := (groups.text? i).bind Text.readDigits?

end Captures

end LintMend.Repair
