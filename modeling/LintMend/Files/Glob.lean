import LintMend.Text.Basic

/-!
# Glob patterns

Patterns on the text of a path. A question mark stands for any one character, a star for any number
of them, slashes included, and brackets for one character of a class. Two stars must be all that
stands between two slashes, or between a slash and an end of the pattern; with the slash behind them
they stand for any number of directories.
-/

namespace LintMend

/-- A character or a range of them, in brackets. -/
inductive Glob.Member where
  | one (c : Char)
  | range (first last : Char)
deriving DecidableEq, Repr

inductive Glob.Piece where
  | char (c : Char)
  | anyChar
  | anyText
  /-- Nothing, a text that ends in a slash, or all that is left. -/
  | anyDirectories
  | oneOf (members : List Glob.Member)
  | noneOf (members : List Glob.Member)
deriving DecidableEq, Repr

abbrev Glob := List Glob.Piece

namespace Glob

def Member.admits (c : Char) : Member → Bool
  | one d => c == d
  | range first last => first ≤ c && c ≤ last

def members : Text → List Member
  | a :: '-' :: b :: s => .range a b :: members s
  | a :: s => .one a :: members s
  | [] => []

/-- The class behind an opening bracket, and the rest behind the closing one; the class has a first
character, which may be a closing bracket itself. -/
def bracket? : Text → Option (Piece × Text)
  | '!' :: c :: s => close? .noneOf c s
  | '!' :: [] => none
  | c :: s => close? .oneOf c s
  | [] => none
where
  close? (make : List Member → Piece) (first : Char) (s : Text) : Option (Piece × Text) :=
    let inner := s.takeWhile (· ≠ ']')
    match s.drop inner.length with
    | _ :: rest => some (make (members (first :: inner)), rest)
    | [] => none

/-- The pieces of a pattern, of which each takes a character at least; the flag says whether the
pattern begins here or a slash stands before. -/
def parseFrom : Nat → Bool → Text → Option Glob
  | 0, _, _ => none
  | _, _, [] => some []
  | fuel + 1, atSlash, c :: s =>
    let next (piece : Piece) (atSlash : Bool) (s : Text) : Option Glob :=
      (parseFrom fuel atSlash s).map (piece :: ·)
    match c with
    | '?' => next .anyChar false s
    | '*' =>
      match s with
      | '*' :: s =>
        if atSlash then
          match s with
          | '/' :: s => next .anyDirectories true s
          | [] => some [.anyDirectories]
          | _ => none
        else none
      | s => next .anyText false s
    | '[' => (bracket? s).bind fun (piece, s) ↦ next piece false s
    | c => next (.char c) (c == '/') s

/-- Reads a pattern; fails for one that is not well formed. -/
def parse? (pattern : Text) : Option Glob := parseFrom (pattern.length + 1) true pattern

def Piece.admits (c : Char) : Piece → Bool
  | char d => c == d
  | anyChar => true
  | oneOf members => members.any (·.admits c)
  | noneOf members => !members.any (·.admits c)
  | _ => false

/-- Whether something holds of a rest of a text. -/
def someRest (holds : Text → Bool) : Text → Bool
  | [] => holds []
  | c :: s => holds (c :: s) || someRest holds s

/-- Whether something holds of a rest of a text that stands behind a slash, or of its end. -/
def someRestOfPath (holds : Text → Bool) : Text → Bool
  | [] => holds []
  | c :: s => if c = '/' then holds s || someRestOfPath holds s else someRestOfPath holds s

def isMatch : Glob → Text → Bool
  | [], s => s.isEmpty
  | .anyText :: pieces, s => someRest (isMatch pieces) s
  | .anyDirectories :: pieces, s => isMatch pieces s || someRestOfPath (isMatch pieces) s
  | piece :: pieces, c :: s => piece.admits c && isMatch pieces s
  | _ :: _, [] => false

end Glob

end LintMend
