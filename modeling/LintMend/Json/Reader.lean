import LintMend.Json.Basic

/-!
# Reading JSON

`Json.parse?` reads one value with blanks around it. A step of the reader takes a character, so the
length of the text bounds the number of nested steps.
-/

namespace LintMend.Json

def isSpace (c : Char) : Bool := c == ' ' || c == '\n' || c == '\r' || c == '\t'

def skipSpace (s : List Char) : List Char := s.dropWhile isSpace

def hexValue? (c : Char) : Option Nat :=
  if c.isDigit then some (c.toNat - '0'.toNat)
  else if 'a' ≤ c ∧ c ≤ 'f' then some (c.toNat - 'a'.toNat + 10)
  else if 'A' ≤ c ∧ c ≤ 'F' then some (c.toNat - 'A'.toNat + 10)
  else none

/-- Four hexadecimal digits. -/
def unit? : List Char → Option (Nat × List Char)
  | a :: b :: c :: d :: s => do
    let a ← hexValue? a
    let b ← hexValue? b
    let c ← hexValue? c
    let d ← hexValue? d
    return (((a * 16 + b) * 16 + c) * 16 + d, s)
  | _ => none

/-- A character written as one unit, or as a pair of surrogate units. -/
def escapedUnit? (s : List Char) : Option (Char × List Char) := do
  let (first, rest) ← unit? s
  if 0xD800 ≤ first ∧ first < 0xDC00 then
    match rest with
    | '\\' :: 'u' :: rest =>
      let (second, rest) ← unit? rest
      if 0xDC00 ≤ second ∧ second < 0xE000 then
        return (Char.ofNat (0x10000 + (first - 0xD800) * 0x400 + (second - 0xDC00)), rest)
      else none
    | _ => none
  else if 0xDC00 ≤ first ∧ first < 0xE000 then none
  else return (Char.ofNat first, rest)

def escape? : List Char → Option (Char × List Char)
  | '"' :: s => some ('"', s)
  | '\\' :: s => some ('\\', s)
  | '/' :: s => some ('/', s)
  | 'n' :: s => some ('\n', s)
  | 'r' :: s => some ('\r', s)
  | 't' :: s => some ('\t', s)
  | 'b' :: s => some (Char.ofNat 8, s)
  | 'f' :: s => some (Char.ofNat 12, s)
  | 'u' :: s => escapedUnit? s
  | _ => none

/-- The rest of a string behind its opening quote; `out` holds what was read, last first. -/
def stringBody? : Nat → List Char → List Char → Option (String × List Char)
  | 0, _, _ => none
  | _, [], _ => none
  | _ + 1, '"' :: s, out => some (String.ofList out.reverse, s)
  | fuel + 1, '\\' :: s, out => (escape? s).bind fun (c, s) ↦ stringBody? fuel s (c :: out)
  | fuel + 1, c :: s, out => if c.toNat < 32 then none else stringBody? fuel s (c :: out)

def readNat (digits : List Char) : Nat :=
  digits.foldl (fun n c ↦ 10 * n + (c.toNat - '0'.toNat)) 0

def digits (s : List Char) : List Char × List Char := s.span Char.isDigit

/-- The fraction of a number, with its point. -/
def fraction? : List Char → Option (List Char × List Char)
  | '.' :: s => let (ds, s) := digits s; if ds.isEmpty then none else some ('.' :: ds, s)
  | s => some ([], s)

/-- The exponent of a number, with its letter. -/
def exponent? (s : List Char) : Option (List Char × List Char) :=
  match s with
  | c :: s' =>
    if c = 'e' ∨ c = 'E' then
      let (sign, t) := match s' with
        | '+' :: t => (['+'], t)
        | '-' :: t => (['-'], t)
        | t => ([], t)
      let (ds, t) := digits t
      if ds.isEmpty then none else some (c :: sign ++ ds, t)
    else some ([], s)
  | [] => some ([], s)

def readNumber? (s : List Char) : Option (Json × List Char) := do
  let (negative, body) := match s with
    | '-' :: t => (true, t)
    | t => (false, t)
  let (whole, s) := digits body
  if whole.isEmpty ∨ (whole.length > 1 ∧ whole.head? = some '0') then none
  else
    let (frac, s) ← fraction? s
    let (exp, s) ← exponent? s
    if frac.isEmpty ∧ exp.isEmpty ∧ ¬ (negative ∧ readNat whole = 0) then
      let n : Int := readNat whole
      return (.int (if negative then -n else n), s)
    else
      return (.real (String.ofList ((if negative then ['-'] else []) ++ whole ++ frac ++ exp)), s)

def keyword? (word : String) (value : Json) (s : List Char) : Option (Json × List Char) :=
  if word.toList.isPrefixOf s then some (value, s.drop word.length) else none

mutual

def readValue? : Nat → List Char → Option (Json × List Char)
  | 0, _ => none
  | fuel + 1, s =>
    match skipSpace s with
    | '"' :: s => (stringBody? fuel s []).map fun (text, s) ↦ (.str text, s)
    | '[' :: s =>
      match skipSpace s with
      | ']' :: s => some (.arr [], s)
      | s => readItems? fuel s []
    | '\x7b' :: s =>
      match skipSpace s with
      | '\x7d' :: s => some (.obj [], s)
      | s => readMembers? fuel s []
    | 't' :: s => keyword? "rue" (.bool true) s
    | 'f' :: s => keyword? "alse" (.bool false) s
    | 'n' :: s => keyword? "ull" .null s
    | s => readNumber? s

/-- The items of an array up to its end; `out` holds what was read, last first. -/
def readItems? : Nat → List Char → List Json → Option (Json × List Char)
  | 0, _, _ => none
  | fuel + 1, s, out =>
    match readValue? fuel s with
    | none => none
    | some (item, s) =>
      match skipSpace s with
      | ',' :: s => readItems? fuel s (item :: out)
      | ']' :: s => some (.arr (item :: out).reverse, s)
      | _ => none

/-- The members of an object up to its end; `out` holds what was read, last first. -/
def readMembers? : Nat → List Char → List (String × Json) → Option (Json × List Char)
  | 0, _, _ => none
  | fuel + 1, s, out =>
    match skipSpace s with
    | '"' :: s =>
      match stringBody? fuel s [] with
      | none => none
      | some (name, s) =>
        match skipSpace s with
        | ':' :: s =>
          match readValue? fuel s with
          | none => none
          | some (value, s) =>
            match skipSpace s with
            | ',' :: s => readMembers? fuel s ((name, value) :: out)
            | '\x7d' :: s => some (.obj ((name, value) :: out).reverse, s)
            | _ => none
        | _ => none
    | _ => none

end

def parse? (s : List Char) : Option Json :=
  match readValue? (s.length + 1) s with
  | some (json, rest) => if (skipSpace rest).isEmpty then some json else none
  | none => none

end LintMend.Json
