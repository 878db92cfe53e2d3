import LintMend.Text.Basic

/-!
# Markup

Cuts a document into tags and the text between them. Comments and processing instructions are left
out. What cannot be read, and an end tag that does not close the innermost open element, is a fault,
and nothing is read behind it.
-/

namespace LintMend.Xml

inductive Token where
  /-- A start tag, as it is written between the angle brackets. -/
  | start (tag : Text)
  /-- The end of the innermost open element. -/
  | finish
  /-- Text with its references unresolved. -/
  | text (raw : Text)
  /-- Text that is taken as it stands. -/
  | verbatim (content : Text)
  | docType
  | fault
deriving DecidableEq, Repr

def isSpace (c : Char) : Bool := c == ' ' || c == '\t' || c == '\r' || c == '\n'

/-- The name in a tag is what stands before the first space. -/
def tagName (tag : Text) : Text := tag.takeWhile (¬ isSpace ·)

/-- The first occurrence of a mark: what stands before it and behind it. -/
def cutAt? (mark : Text) : Text → Option (Text × Text)
  | [] => if mark.isEmpty then some ([], []) else none
  | c :: s =>
    if mark.isPrefixOf (c :: s) then some ([], (c :: s).drop mark.length)
    else (cutAt? mark s).map fun (before, rest) ↦ (c :: before, rest)

/-- The end of a tag is the first closing bracket outside of quotes. -/
def cutTag? : Option Char → Text → Option (Text × Text)
  | _, [] => none
  | none, c :: s =>
    if c = '>' then some ([], s)
    else
      let quote := if c = '"' ∨ c = '\'' then some c else none
      (cutTag? quote s).map fun (tag, rest) ↦ (c :: tag, rest)
  | some q, c :: s =>
    (cutTag? (if c = q then none else some q) s).map fun (tag, rest) ↦ (c :: tag, rest)

/-- The end of a declaration is the closing bracket that balances its opening one. -/
def cutDeclaration? : Nat → Text → Option (Text × Text)
  | _, [] => none
  | depth, c :: s =>
    if c = '>' then
      match depth with
      | 0 => some ([], s)
      | depth + 1 => (cutDeclaration? depth s).map fun (content, rest) ↦ (c :: content, rest)
    else
      let depth := if c = '<' then depth + 1 else depth
      (cutDeclaration? depth s).map fun (content, rest) ↦ (c :: content, rest)

/-- What is read behind an opening bracket and an exclamation mark; a comment gives no token. -/
def readBang? (s : Text) : Option (Option Token × Text) :=
  match s with
  | '[' :: _ => do
    let s ← Text.stripStart? "[CDATA[".toList s
    let (content, rest) ← cutAt? "]]>".toList s
    return (some (.verbatim content), rest)
  | '-' :: _ => do
    let s ← Text.stripStart? "--".toList s
    let (_, rest) ← cutAt? "-->".toList s
    return (none, rest)
  | c :: _ =>
    if c = 'D' ∨ c = 'd' then do
      let (content, rest) ← cutDeclaration? 0 s
      let name ← Text.stripStart? "doctype".toList (Text.asciiLower content)
      if name.all isSpace then none else return (some .docType, rest)
    else none
  | [] => none

/-- The name in an end tag, which may have spaces behind it. -/
def endName (content : Text) : Text :=
  if content.all isSpace then content else content.dropEndWhile isSpace

/-- Tokens of a document with the names of the open elements, the innermost first. Every step reads
a character, so the length of the text bounds the number of steps. -/
def tokensFrom : Nat → List Text → Text → List Token
  | 0, _, _ => [.fault]
  | _, _, [] => []
  | fuel + 1, opened, '<' :: s =>
    match s with
    | '!' :: s =>
      match readBang? s with
      | some (token, rest) => token.toList ++ tokensFrom fuel opened rest
      | none => [.fault]
    | '/' :: s =>
      match cutTag? none s, opened with
      | some (content, rest), name :: opened =>
        if endName content = name then .finish :: tokensFrom fuel opened rest else [.fault]
      | _, _ => [.fault]
    | '?' :: s =>
      match cutAt? "?>".toList s with
      | some (_, rest) => tokensFrom fuel opened rest
      | none => [.fault]
    | s =>
      match cutTag? none s with
      | some (tag, rest) =>
        match Text.stripEnd? ['/'] tag with
        | some tag => .start tag :: .finish :: tokensFrom fuel opened rest
        | none => .start tag :: tokensFrom fuel (tagName tag :: opened) rest
      | none => [.fault]
  | fuel + 1, opened, s =>
    .text (s.takeWhile (· ≠ '<')) :: tokensFrom fuel opened (s.dropWhile (· ≠ '<'))

/-- Tokens of a document, whose first character may be a byte order mark. -/
def tokens (s : Text) : List Token :=
  let s := if s.head? = some '\ufeff' then s.tail else s
  tokensFrom (s.length + 1) [] s

end LintMend.Xml
