import LintMend.Json.Basic

/-!
# Writing JSON

Two layouts: `compress` writes a value on one line without blanks, `pretty` one member or item per
line, indented by two spaces a level. A character is escaped only where JSON demands it, or, in
`ascii`, wherever it is not a character of ASCII.
-/

namespace LintMend.Json

def hexDigits (width n : Nat) : String :=
  let digits := (Nat.toDigits 16 n)
  String.ofList (List.replicate (width - digits.length) '0' ++ digits)

def unitEscape (n : Nat) : String := "\\u" ++ hexDigits 4 n

def escapeChar (ascii : Bool) (c : Char) : String :=
  if c = '"' then "\\\""
  else if c = '\\' then "\\\\"
  else if c = '\n' then "\\n"
  else if c = '\r' then "\\r"
  else if c = '\t' then "\\t"
  else if c.toNat = 8 then "\\b"
  else if c.toNat = 12 then "\\f"
  else if c.toNat < 32 then unitEscape c.toNat
  else if ascii ∧ c.toNat ≥ 127 then
    if c.toNat < 0x10000 then unitEscape c.toNat
    else
      let n := c.toNat - 0x10000
      unitEscape (0xD800 + n / 0x400) ++ unitEscape (0xDC00 + n % 0x400)
  else c.toString

def quote (ascii : Bool) (s : String) : String :=
  s.foldl (fun out c ↦ out ++ escapeChar ascii c) "\"" ++ "\""

mutual

def compressWith (ascii : Bool) : Json → String
  | null => "null"
  | bool b => if b then "true" else "false"
  | int n => toString n
  | real text => text
  | str s => quote ascii s
  | arr items => "[" ++ compressItems ascii items ++ "]"
  | obj members => "\x7b" ++ compressMembers ascii members ++ "\x7d"

def compressItems (ascii : Bool) : List Json → String
  | [] => ""
  | [item] => compressWith ascii item
  | item :: items => compressWith ascii item ++ "," ++ compressItems ascii items

def compressMembers (ascii : Bool) : List (String × Json) → String
  | [] => ""
  | [(name, value)] => quote ascii name ++ ":" ++ compressWith ascii value
  | (name, value) :: members =>
    quote ascii name ++ ":" ++ compressWith ascii value ++ "," ++ compressMembers ascii members

end

def compress (json : Json) : String := compressWith false json

def ascii (json : Json) : String := compressWith true json

def margin (depth : Nat) : String := "".pushn ' ' (2 * depth)

mutual

def prettyAt (depth : Nat) : Json → String
  | arr [] => "[]"
  | obj [] => "\x7b\x7d"
  | arr (item :: items) => "[\n" ++ prettyItems (depth + 1) (item :: items) ++ margin depth ++ "]"
  | obj (member :: members) =>
    "\x7b\n" ++ prettyMembers (depth + 1) (member :: members) ++ margin depth ++ "\x7d"
  | json => compress json

def prettyItems (depth : Nat) : List Json → String
  | [] => ""
  | item :: items =>
    margin depth ++ prettyAt depth item ++ (if items.isEmpty then "\n" else ",\n")
      ++ prettyItems depth items

def prettyMembers (depth : Nat) : List (String × Json) → String
  | [] => ""
  | (name, value) :: members =>
    margin depth ++ quote false name ++ ": " ++ prettyAt depth value
      ++ (if members.isEmpty then "\n" else ",\n") ++ prettyMembers depth members

end

def pretty (json : Json) : String := prettyAt 0 json

end LintMend.Json
