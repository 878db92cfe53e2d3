import LintMend.Json.Reader
import LintMend.Text.Utf8

/-!
# Addresses of documents

An address has a scheme, an authority with a host, a path, a query and a fragment. Reading one
brings it into normal form: upper case in the scheme and the host becomes lower case, dots in the
path are resolved, and characters that may not stand in an address are written by their bytes.
-/

namespace LintMend

structure Uri where
  scheme : Text
  /-- What stands behind two slashes, if they are there. -/
  authority : Option Text
  host : Option Text
  path : Text
  query : Option Text
  fragment : Option Text
deriving DecidableEq, Repr

namespace Uri

def toText (uri : Uri) : Text :=
  uri.scheme ++ [':'] ++ (uri.authority.map ("//".toList ++ ·)).getD [] ++ uri.path
    ++ (uri.query.map ('?' :: ·)).getD [] ++ (uri.fragment.map ('#' :: ·)).getD []

def render (uri : Uri) : String := String.ofList uri.toText

/-! ## Bytes of characters -/

def hexDigit (n : Nat) : Char := if n < 10 then Char.ofNat (48 + n) else Char.ofNat (55 + n)

def escapeByte (b : UInt8) : Text := ['%', hexDigit (b.toNat / 16), hexDigit (b.toNat % 16)]

/-- Writes the characters by their bytes that are no characters of ASCII, or are among some. -/
def escape (reserved : Text) (s : Text) : Text :=
  s.flatMap fun c ↦
    if c.toNat < 32 ∨ 127 ≤ c.toNat ∨ c ∈ reserved then (Text.encode [c]).flatMap escapeByte
    else [c]

def inFragment : Text := " \"<>`".toList

def inPath : Text := inFragment ++ "#?\x7b\x7d".toList

def inQuery : Text := " \"#<>".toList

/-- The bytes of an address, of which some are written in digits. -/
def bytes : Text → List UInt8
  | '%' :: a :: b :: s =>
    match Json.hexValue? a, Json.hexValue? b with
    | some x, some y => (16 * x + y).toUInt8 :: bytes s
    | _, _ => 37 :: bytes (a :: b :: s)
  | c :: s => Text.encode [c] ++ bytes s
  | [] => []

/-! ## Parts -/

/-- Schemes whose addresses have a host, with the ports that need not be said. -/
def hostSchemes : List (String × String) :=
  [("http", "80"), ("https", "443"), ("ws", "80"), ("wss", "443"), ("ftp", "21")]

def isFile (scheme : Text) : Bool := scheme = "file".toList

def defaultPort? (scheme : Text) : Option Text :=
  (hostSchemes.find? (·.1.toList == scheme)).map (·.2.toList)

def isSpecial (scheme : Text) : Bool := isFile scheme || (defaultPort? scheme).isSome

def isSchemeChar (c : Char) : Bool := c.isAlphanum || c == '+' || c == '-' || c == '.'

/-- The scheme of an address and the rest behind its colon. -/
def scheme? (s : Text) : Option (Text × Text) :=
  let scheme := s.takeWhile isSchemeChar
  match scheme, s.drop scheme.length with
  | c :: _, ':' :: rest => if c.isAlpha then some (Text.asciiLower scheme, rest) else none
  | _, _ => none

/-- Whether a character ends a segment of a path; in addresses with a host a backslash does. -/
def isSlash (special : Bool) (c : Char) : Bool := c == '/' || (special && c == '\\')

/-- The segments of a path without its first slash. -/
def segments (special : Bool) : Text → List Text
  | [] => [[]]
  | c :: s =>
    if isSlash special c then [] :: segments special s
    else
      match segments special s with
      | [] => [[c]]
      | segment :: rest => (c :: segment) :: rest

/-- The dots that a segment consists of, which may be written by their bytes. -/
def dots? (segment : Text) : Option Nat :=
  let rec count : Text → Option Nat
    | [] => some 0
    | '.' :: s => (count s).map (· + 1)
    | '%' :: '2' :: 'e' :: s => (count s).map (· + 1)
    | '%' :: '2' :: 'E' :: s => (count s).map (· + 1)
    | _ => none
  (count segment).filter fun n ↦ n = 1 || n = 2

/-- Resolves dots in segments; `done` holds those before, the last one first. A path that ends in
dots ends in a slash. -/
def resolve (done : List Text) : List Text → List Text
  | [] => done.reverse
  | segment :: rest =>
    let done := match dots? segment with
      | some 1 => done
      | some _ => done.drop 1
      | none => segment :: done
    match dots? segment, rest with
    | some _, [] => ([] :: done).reverse
    | _, rest => resolve done rest

/-- The normal form of a path that begins with a slash, given what follows that slash. -/
def pathOf (special : Bool) (s : Text) : Text :=
  '/' :: List.intercalate ['/'] (resolve [] ((segments special s).map (escape inPath)))

/-- Characters that no host has. -/
def notInHost : Text := " #%/:<>?@[\\]^|".toList

def isHost (host : Text) : Bool :=
  host.all fun c ↦ 32 ≤ c.toNat && c.toNat < 127 && c ∉ notInHost

/-- The authority of an address in normal form, and its host. -/
def authority? (scheme : Text) (s : Text) : Option (Text × Option Text) :=
  let user := match Text.findLast? ['@'] s with
    | some offset => (Text.before? s offset).map fun t ↦ escape inPath t ++ ['@']
    | none => none
  let place := match Text.findLast? ['@'] s with
    | some offset => (Text.after? s (offset + 1)).getD []
    | none => s
  let host := Text.asciiLower (place.takeWhile (· ≠ ':'))
  let port := place.drop (host.length + 1)
  if ¬ isHost host ∨ ¬ port.all Char.isDigit then none
  else if host.isEmpty then
    if (defaultPort? scheme).isSome ∨ user.isSome ∨ ¬ port.isEmpty then none else some ([], none)
  else if isFile scheme then
    if user.isSome ∨ ¬ port.isEmpty then none
    else if host = "localhost".toList then some ([], none)
    else some (host, some host)
  else
    let port := if port.isEmpty ∨ some port = defaultPort? scheme then [] else ':' :: port
    some (user.getD [] ++ host ++ port, some host)

/-- Splits a text before the first character with a property. -/
def cutAt (p : Char → Bool) (s : Text) : Text × Text := s.span fun c ↦ !p c

/-- Authority, host and path from what follows the colon of a scheme. -/
def hierarchy? (scheme : Text) (s : Text) : Option (Option Text × Option Text × Text) :=
  let special := isSpecial scheme
  match s with
  | a :: b :: rest =>
    if isSlash special a ∧ isSlash special b then do
      let (place, path) := cutAt (isSlash special) rest
      let (authority, host) ← authority? scheme place
      let path := match path with
        | [] => if special then ['/'] else []
        | _ :: path => pathOf special path
      return (some authority, host, path)
    else single a (b :: rest)
  | a :: rest => single a rest
  | [] => if isFile scheme then some (some [], none, ['/']) else
      if special then none else some (none, none, [])
where
  /-- An address without two slashes. -/
  single (a : Char) (rest : Text) : Option (Option Text × Option Text × Text) :=
    let special := isSpecial scheme
    if isFile scheme then
      some (some [], none, pathOf special (if isSlash special a then rest else a :: rest))
    else if special then
      hierarchyOfHost (a :: rest)
    else if a = '/' then some (none, none, pathOf false rest)
    else some (none, none, escape [] (a :: rest))
  /-- Addresses with a host have one even where slashes are missing. -/
  hierarchyOfHost (s : Text) : Option (Option Text × Option Text × Text) := do
    let (place, path) := cutAt (isSlash true) (s.dropWhile (isSlash true))
    let (authority, host) ← authority? scheme place
    return (some authority, host, pathOf true (path.drop 1))

/-- Reads an address; blanks around it and line breaks and tabs in it do not count. -/
def parse? (s : Text) : Option Uri := do
  let isOuter (c : Char) : Bool := c.toNat ≤ 32
  let s := (Text.dropEndWhile isOuter (s.dropWhile isOuter)).filter fun c ↦
    c ≠ '\t' && c ≠ '\n' && c ≠ '\r'
  let (scheme, s) ← scheme? s
  let (s, fragment) := cutAt (· == '#') s
  let (s, query) := cutAt (· == '?') s
  let (authority, host, path) ← hierarchy? scheme s
  let fragment := match fragment with
    | [] => none
    | _ :: t => some (escape inFragment t)
  let query := match query with
    | [] => none
    | _ :: t => some (escape (if isSpecial scheme then '\'' :: inQuery else inQuery) t)
  return { scheme, authority, host, path, query, fragment }

/-! ## Files -/

/-- The path of the local file that an address names. -/
def filePath? (uri : Uri) : Option String :=
  let isLocal := uri.host.all fun host ↦ host = "localhost".toList
  if isLocal ∧ uri.path.head? = some '/' then
    some (String.ofList (Text.decodeLossy (bytes uri.path)))
  else none

/-- The path of the file, if it is one of those that are linted. -/
def lintPath? (uri : Uri) : Option String :=
  if ".php".toList.isSuffixOf uri.path then uri.filePath? else none

end Uri

end LintMend
