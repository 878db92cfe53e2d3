import LintMend.Json.Reader
import LintMend.Text.Basic
import LintMend.Toml.Basic
import LintMend.Word

/-!
# Scalars of TOML

Readers of strings, numbers, dates and truth values. A reader takes its value from the beginning of
a text and gives the rest; what may follow the value is no matter of the reader.
-/

namespace LintMend.Toml

def isGap (c : Char) : Bool := c == ' ' || c == '\t'

def skipGap (s : Text) : Text := s.dropWhile isGap

/-- What follows the line break at the beginning of a text. -/
def lineBreak? : Text → Option Text
  | '\n' :: s => some s
  | '\r' :: '\n' :: s => some s
  | _ => none

/-- The rest of a text, without the line break it may begin with. -/
def dropLineBreak (s : Text) : Text := (lineBreak? s).getD s

/-- Characters other than control characters; the tab is none of these. -/
def isPlain (c : Char) : Bool := c == '\t' || (32 ≤ c.toNat && c.toNat ≠ 127)

/-! ## Strings -/

def escape? : Char → Option Char
  | 'b' => some (Char.ofNat 8)
  | 't' => some '\t'
  | 'n' => some '\n'
  | 'f' => some (Char.ofNat 12)
  | 'r' => some '\r'
  | '"' => some '"'
  | '\\' => some '\\'
  | _ => none

/-- The character with a code point in hexadecimal digits. -/
def codePoint? (digits : Text) : Option Char := do
  let n ← digits.foldlM (fun n c ↦ (Json.hexValue? c).map (16 * n + ·)) 0
  if n.isValidChar then return Char.ofNat n else none

def prepend (c : Option Char) (rest : Option (Text × Text)) : Option (Text × Text) := do
  let c ← c
  let (s, rest) ← rest
  return (c :: s, rest)

/-- The rest of a string in quotes, with escapes, on one line. -/
def basicBody : Text → Option (Text × Text)
  | '"' :: s => some ([], s)
  | '\\' :: 'u' :: a :: b :: c :: d :: s => prepend (codePoint? [a, b, c, d]) (basicBody s)
  | '\\' :: 'U' :: a :: b :: c :: d :: e :: f :: g :: h :: s =>
    prepend (codePoint? [a, b, c, d, e, f, g, h]) (basicBody s)
  | '\\' :: c :: s => prepend (escape? c) (basicBody s)
  | c :: s => if isPlain c then prepend (some c) (basicBody s) else none
  | [] => none

/-- The rest of a string in apostrophes, without escapes, on one line. -/
def literalBody : Text → Option (Text × Text)
  | '\'' :: s => some ([], s)
  | c :: s => if isPlain c then prepend (some c) (literalBody s) else none
  | [] => none

/-- What a run of five quotes, four or three leaves in the string that it ends, and the rest. -/
def closing? (quote : Char) : Text → Option (Text × Text)
  | a :: b :: c :: s =>
    if a = quote ∧ b = quote ∧ c = quote then
      match s with
      | d :: e :: s' =>
        if d = quote ∧ e = quote then some ([quote, quote], s')
        else if d = quote then some ([quote], e :: s')
        else some ([], s)
      | [d] => if d = quote then some ([quote], []) else some ([], s)
      | [] => some ([], [])
    else none
  | _ => none

/-- Whether a line ends here, after blanks at most. -/
def isLineEnd (s : Text) : Bool := (lineBreak? (skipGap s)).isSome

/-- The rest of a string in three quotes. A backslash at the end of a line drops all blanks and line
breaks up to the next other character; while they are dropped, the flag is set. -/
def multiBasicBody : Bool → Text → Option (Text × Text)
  | _, [] => none
  | skipping, '\r' :: '\n' :: s =>
    if skipping then multiBasicBody true s else prepend (some '\n') (multiBasicBody false s)
  | skipping, c :: s =>
    if skipping ∧ (isGap c ∨ c = '\n') then multiBasicBody true s
    else if c = '\n' then prepend (some c) (multiBasicBody false s)
    else if c = '"' then
      match closing? '"' (c :: s) with
      | some last => some last
      | none => prepend (some c) (multiBasicBody false s)
    else if c = '\\' then
      if isLineEnd s then multiBasicBody true s
      else
        match s with
        | 'u' :: a :: b :: c :: d :: s =>
          prepend (codePoint? [a, b, c, d]) (multiBasicBody false s)
        | 'U' :: a :: b :: c :: d :: e :: f :: g :: h :: s =>
          prepend (codePoint? [a, b, c, d, e, f, g, h]) (multiBasicBody false s)
        | c :: s => prepend (escape? c) (multiBasicBody false s)
        | [] => none
    else if isPlain c then prepend (some c) (multiBasicBody false s)
    else none

/-- The rest of a string in three apostrophes. -/
def multiLiteralBody : Text → Option (Text × Text)
  | [] => none
  | '\r' :: '\n' :: s => prepend (some '\n') (multiLiteralBody s)
  | c :: s =>
    if c = '\n' then prepend (some c) (multiLiteralBody s)
    else if c = '\'' then
      match closing? '\'' (c :: s) with
      | some last => some last
      | none => prepend (some c) (multiLiteralBody s)
    else if isPlain c then prepend (some c) (multiLiteralBody s)
    else none

/-- A string on one line, which may also be a key. -/
def lineString? : Text → Option (String × Text)
  | '"' :: s => (basicBody s).map fun (t, s) ↦ (String.ofList t, s)
  | '\'' :: s => (literalBody s).map fun (t, s) ↦ (String.ofList t, s)
  | _ => none

def string? (s : Text) : Option (String × Text) :=
  match s with
  | '"' :: '"' :: '"' :: s =>
    (multiBasicBody false (dropLineBreak s)).map fun (t, s) ↦ (String.ofList t, s)
  | '\'' :: '\'' :: '\'' :: s =>
    (multiLiteralBody (dropLineBreak s)).map fun (t, s) ↦ (String.ofList t, s)
  | s => lineString? s

/-! ## Numbers -/

/-- A run of digits, in which single underscores may stand between digits; without them. -/
def digits? (isDigit : Char → Bool) (s : Text) : Option (Text × Text) :=
  let run := s.takeWhile fun c ↦ isDigit c || c == '_'
  let groups := Text.splitOnChar '_' run
  if groups.any (·.isEmpty) then none else some (groups.flatten, s.drop run.length)

/-- Whether a sign is a minus, and the rest behind it. -/
def sign : Text → Bool × Text
  | '+' :: s => (false, s)
  | '-' :: s => (true, s)
  | s => (false, s)

/-- Decimal digits without a zero before them. -/
def decimal? (s : Text) : Option (Text × Text) := do
  let (ds, rest) ← digits? Char.isDigit s
  if ds.length > 1 ∧ ds.head? = some '0' then none else return (ds, rest)

def valueIn (base : Nat) (digits : Text) : Nat :=
  digits.foldl (fun n c ↦ base * n + (Json.hexValue? c).getD 0) 0

/-- The base of a number by the letter behind its first zero. -/
def base? : Char → Option Nat
  | 'x' => some 16
  | 'o' => some 8
  | 'b' => some 2
  | _ => none

def isDigitIn (base : Nat) (c : Char) : Bool := (Json.hexValue? c).any (· < base)

/-- An integer that has 64 bits with its sign. -/
def signed? (n : Int) (rest : Text) : Option (Int × Text) :=
  if isSigned64 n then some (n, rest) else none

def integer? (s : Text) : Option (Int × Text) :=
  let based := match s with
    | '0' :: letter :: s => (base? letter).map fun base ↦ (base, s)
    | _ => none
  match based with
  | some (base, s) => do
    let (ds, rest) ← digits? (isDigitIn base) s
    signed? (valueIn base ds) rest
  | none => do
    let (negative, s) := sign s
    let (ds, rest) ← decimal? s
    let n : Int := valueIn 10 ds
    signed? (if negative then -n else n) rest

/-- Whether digits times a power of ten are too large for a float of 64 bits. Where the number of
digits settles it no power is computed. -/
def overflows (digits : Text) (exponent : Int) : Bool :=
  let n := valueIn 10 digits
  let size := (Nat.toDigits 10 n).length + exponent
  if n = 0 ∨ size < 300 then false
  else if size > 400 then true
  else
    let bound := Nat.pow 2 1024 - Nat.pow 2 970
    if 0 ≤ exponent then bound ≤ n * Nat.pow 10 exponent.toNat
    else bound * Nat.pow 10 (-exponent).toNat ≤ n

def exponent? : Text → Option (Int × Text)
  | c :: s =>
    if c = 'e' ∨ c = 'E' then do
      let (negative, s) := sign s
      let (ds, rest) ← digits? Char.isDigit s
      let n : Int := valueIn 10 ds
      return (if negative then -n else n, rest)
    else none
  | [] => none

/-- What stands before the rest of a text. -/
def taken (s rest : Text) : String := String.ofList (s.take (s.length - rest.length))

/-- A number with a fraction, an exponent or both; one that is too large must be negative. -/
def decimalFloat? (s : Text) : Option (String × Text) := do
  let (negative, body) := sign s
  let (whole, rest) ← decimal? body
  let (fraction, rest) ← match rest with
    | '.' :: rest => digits? Char.isDigit rest
    | rest => some ([], rest)
  let (exponent, rest) ← match rest, fraction with
    | 'e' :: _, _ => exponent? rest
    | 'E' :: _, _ => exponent? rest
    | _, [] => none
    | _, _ => some (0, rest)
  if ¬ negative ∧ overflows (whole ++ fraction) (exponent - fraction.length) then none
  else return (taken s rest, rest)

def specialFloat? (s : Text) : Option (String × Text) :=
  match (sign s).2 with
  | 'i' :: 'n' :: 'f' :: rest => some (taken s rest, rest)
  | 'n' :: 'a' :: 'n' :: rest => some (taken s rest, rest)
  | _ => none

/-! ## Dates -/

/-- Two digits whose number lies between two others. -/
def pair? (low high : Nat) : Text → Option (Nat × Text)
  | a :: b :: s =>
    let n := valueIn 10 [a, b]
    if a.isDigit ∧ b.isDigit ∧ low ≤ n ∧ n ≤ high then some (n, s) else none
  | _ => none

def daysIn (year month : Nat) : Nat :=
  if month = 2 then
    if year % 4 = 0 ∧ (year % 100 ≠ 0 ∨ year % 400 = 0) then 29 else 28
  else if month = 4 ∨ month = 6 ∨ month = 9 ∨ month = 11 then 30
  else 31

def skipChar? (c : Char) : Text → Option Text
  | d :: s => if d = c then some s else none
  | [] => none

/-- The rest behind a day of the calendar. -/
def skipDay? : Text → Option Text
  | a :: b :: c :: d :: s => do
    if [a, b, c, d].all Char.isDigit then
      let (month, s) ← pair? 1 12 (← skipChar? '-' s)
      let (_, s) ← pair? 1 (daysIn (valueIn 10 [a, b, c, d]) month) (← skipChar? '-' s)
      return s
    else none
  | _ => none

/-- The rest behind a time of the day; seconds may have a fraction. -/
def skipTime? (s : Text) : Option Text := do
  let (_, s) ← pair? 0 23 s
  let (_, s) ← pair? 0 59 (← skipChar? ':' s)
  let (_, s) ← pair? 0 60 (← skipChar? ':' s)
  match s with
  | '.' :: d :: s => return if d.isDigit then s.dropWhile Char.isDigit else '.' :: d :: s
  | s => return s

/-- The rest behind the distance of a time from universal time. -/
def skipZone? (s : Text) : Option Text :=
  match s with
  | 'Z' :: s => some s
  | 'z' :: s => some s
  | c :: s =>
    if c = '+' ∨ c = '-' then do
      let (_, s) ← pair? 0 23 s
      let (_, s) ← pair? 0 59 (← skipChar? ':' s)
      return s
    else none
  | [] => none

/-- The rest behind a time that stands behind its day. -/
def skipDayTime? : Text → Option Text
  | c :: s =>
    if c = 'T' ∨ c = 't' ∨ c = ' ' then (skipTime? s).map fun s ↦ (skipZone? s).getD s else none
  | [] => none

/-- A day, a day with its time, or a time. -/
def date? (s : Text) : Option (String × Text) :=
  match skipDay? s with
  | some rest =>
    let rest := (skipDayTime? rest).getD rest
    some (taken s rest, rest)
  | none => (skipTime? s).map fun rest ↦ (taken s rest, rest)

/-! ## Any scalar -/

def keyword? (word : String) (value : Toml) (s : Text) : Option (Toml × Text) :=
  (Text.stripStart? word.toList s).map fun rest ↦ (value, rest)

def scalar? (s : Text) : Option (Toml × Text) :=
  let read {α : Type} (make : α → Toml) (r : Option (α × Text)) : Option (Toml × Text) :=
    r.map fun (value, rest) ↦ (make value, rest)
  (read .str (string? s)).or <| (keyword? "true" (.bool true) s).or <|
    (keyword? "false" (.bool false) s).or <| (read .date (date? s)).or <|
    (read .float (decimalFloat? s)).or <| (read .float (specialFloat? s)).or <|
    read .int (integer? s)

end LintMend.Toml
