import LintMend.Xml.Entity
import LintMend.Xml.Token

/-!
# Elements

The root element of a document as a tree. Attributes and references stay as they are written until
they are asked for, since only those that are asked for can be at fault. What follows the root
element is not looked at.
-/

namespace LintMend.Xml

inductive Piece where
  | escaped (raw : Text)
  | verbatim (content : Text)
deriving DecidableEq, Repr

inductive Node where
  | element (tag : Text) (children : List Node)
  /-- A run of text; comments do not interrupt it. -/
  | text (run : List Piece)
deriving Repr

/-! ## Runs of text -/

/-- Adds a piece to a run that is held last piece first. Spaces at the start of a run are dropped,
and with them a piece that holds nothing else. -/
def pushPiece (run : List Piece) : Piece → List Piece
  | .verbatim content => .verbatim content :: run
  | .escaped raw =>
    if run.isEmpty then
      let kept := raw.dropWhile isSpace
      if kept.isEmpty then [] else [.escaped kept]
    else .escaped raw :: run

/-- The run that was collected, without the spaces at its end. -/
def closeRun : List Piece → List Node
  | [] => []
  | .escaped raw :: run => [.text (.escaped (raw.dropEndWhile isSpace) :: run).reverse]
  | run => [.text run.reverse]

def pieceValue? : Piece → Option Text
  | .escaped raw => unescape? raw
  | .verbatim content => some content

def runValue? (run : List Piece) : Option Text := (run.mapM pieceValue?).map List.flatten

/-! ## The tree -/

/-- An open element: its tag, the nodes read so far and the pieces of the current run, both last
first. -/
structure Frame where
  tag : Text
  nodes : List Node
  run : List Piece

def Frame.flush (frame : Frame) : Frame :=
  { frame with nodes := closeRun frame.run ++ frame.nodes, run := [] }

def Frame.close (frame : Frame) : Node := .element frame.tag frame.flush.nodes.reverse

/-- Reads up to the end of the outermost of some open elements, the innermost of which comes
first. -/
def build? : Frame → List Frame → List Token → Option Node
  | _, _, [] => none
  | frame, outer, token :: tokens =>
    match token with
    | .start tag => build? ⟨tag, [], []⟩ (frame.flush :: outer) tokens
    | .finish =>
      match outer with
      | [] => some frame.close
      | parent :: outer => build? { parent with nodes := frame.close :: parent.nodes } outer tokens
    | .text raw => build? { frame with run := pushPiece frame.run (.escaped raw) } outer tokens
    | .verbatim content =>
      build? { frame with run := pushPiece frame.run (.verbatim content) } outer tokens
    | .docType => build? frame.flush outer tokens
    | .fault => none

/-- The root element. Only blank text may stand before it. -/
def root? : List Token → Option Node
  | .start tag :: tokens => build? ⟨tag, [], []⟩ [] tokens
  | .text raw :: tokens => if (unescape? raw).any (·.all isSpace) then root? tokens else none
  | .verbatim content :: tokens => if content.all isSpace then root? tokens else none
  | .docType :: tokens => root? tokens
  | _ => none

def parse? (s : Text) : Option Node := root? (tokens s)

/-! ## Attributes and names -/

/-- The name without its namespace. -/
def localName (name : Text) : Text :=
  match name.dropWhile (· ≠ ':') with
  | [] => name
  | _ :: rest => rest

/-- Attributes in the order in which they are written, each with a value in quotes and none of them
twice. A step reads a character, so the length of the text bounds the number of steps. -/
def attributesFrom? : Nat → List Text → Text → Option (List (Text × Text))
  | 0, _, _ => none
  | fuel + 1, seen, s =>
    match s.dropWhile isSpace with
    | [] => some []
    | c :: s =>
      let name := c :: s.takeWhile fun c ↦ c ≠ '=' ∧ ¬ isSpace c
      match (s.dropWhile fun c ↦ c ≠ '=' ∧ ¬ isSpace c).dropWhile isSpace with
      | '=' :: s =>
        match s.dropWhile isSpace with
        | q :: s =>
          if (q = '"' ∨ q = '\'') ∧ ¬ seen.contains name then
            match s.dropWhile (· ≠ q) with
            | [] => none
            | _ :: rest =>
              (attributesFrom? fuel (name :: seen) rest).map
                ((name, s.takeWhile (· ≠ q)) :: ·)
          else none
        | [] => none
      | _ => none

def attributes? (tag : Text) : Option (List (Text × Text)) :=
  attributesFrom? (tag.length + 1) [] (tag.dropWhile (¬ isSpace ·))

/-- Attributes by local name; the declaration of a namespace is none of them. -/
def localAttributes (attributes : List (Text × Text)) : List (Text × Text) :=
  (attributes.filter fun (name, _) ↦
    name ≠ "xmlns".toList ∧ ¬ "xmlns:".toList.isPrefixOf name).map
    fun (name, value) ↦ (localName name, value)

/-- The values of the attributes with a local name. -/
def valuesOf (name : Text) (attributes : List (Text × Text)) : List Text :=
  ((localAttributes attributes).filter (·.1 = name)).map (·.2)

/-! ## Reading content -/

namespace Node

/-- Whether an element can be passed over: text at its very start must have a value. -/
def canSkip : List Node → Bool
  | .text run :: _ => (runValue? run).isSome
  | _ => true

/-- The text of an element that holds one run of text and perhaps elements, which are passed over;
blank runs do not count. -/
def ownText? : List Node → Option (Option Text)
  | [] => some none
  | .text run :: rest => do
    let value ← runValue? run
    let later ← ownText? rest
    if value.all isSpace then return later
    else if later.isSome then none
    else return some value
  | .element _ children :: rest => if canSkip children then ownText? rest else none

/-- The elements with the full name of the first of them, up to the next element with another name;
fails at text between them. Also what is left behind them. -/
def runOf? {α : Type} (name : Text) (read : Text → List Node → Option α) :
    List Node → Option (List α × List Node)
  | [] => some ([], [])
  | .text run :: rest => do
    let value ← runValue? run
    if value.all isSpace then runOf? name read rest else none
  | .element tag children :: rest =>
    if tagName tag = name then do
      let item ← read tag children
      let (items, left) ← runOf? name read rest
      return (item :: items, left)
    else some ([], .element tag children :: rest)

/-- Passes over content that must hold no element with a given local name. -/
def skipWithout? (name : Text) : List Node → Option Unit
  | [] => some ()
  | .text run :: rest => (runValue? run).bind fun _ ↦ skipWithout? name rest
  | .element tag children :: rest =>
    if localName (tagName tag) = name ∨ ¬ canSkip children then none else skipWithout? name rest

/-- The elements with a local name. They must stand together; other content may stand before and
behind them. -/
def group? {α : Type} (name : Text) (read : Text → List Node → Option α) :
    List Node → Option (List α)
  | [] => some []
  | .text run :: rest => (runValue? run).bind fun _ ↦ group? name read rest
  | .element tag children :: rest =>
    if localName (tagName tag) = name then do
      let (items, left) ← runOf? (tagName tag) read (.element tag children :: rest)
      skipWithout? name left
      return items
    else if canSkip children then group? name read rest
    else none

end Node

end LintMend.Xml
