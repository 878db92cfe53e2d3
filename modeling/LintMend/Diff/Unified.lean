import LintMend.Diff.Script
import LintMend.Text.Number

/-!
# Unified diffs

The changes between two texts, line by line, in hunks: changes that are near each other with some
unchanged lines around them, under a header that says which lines of both texts they are.
-/

namespace LintMend.Diff

/-! ## Lines -/

/-- The lines of a text with their line breaks: line feeds, carriage returns, or both. -/
def splitLines : Text → List Text
  | [] => []
  | c :: s =>
    if c = '\n' ∨ (c = '\r' ∧ s.head? ≠ some '\n') then [c] :: splitLines s
    else
      match splitLines s with
      | [] => [[c]]
      | line :: rest => (c :: line) :: rest

/-! ## Blocks -/

/-- Either items that both lists have, or what stands in one place of each of them. -/
inductive Block (α : Type) where
  | keep (oldAt newAt : Nat) (items : List α)
  | change (oldAt newAt : Nat) (removed added : List α)
deriving DecidableEq, Repr

namespace Block

variable {α : Type}

def isKeep : Block α → Bool
  | keep .. => true
  | change .. => false

def oldAt : Block α → Nat
  | keep i _ _ => i
  | change i _ _ _ => i

def newAt : Block α → Nat
  | keep _ j _ => j
  | change _ j _ _ => j

def oldEnd : Block α → Nat
  | keep i _ items => i + items.length
  | change i _ removed _ => i + removed.length

def newEnd : Block α → Nat
  | keep _ j items => j + items.length
  | change _ j _ added => j + added.length

def keptLength : Block α → Nat
  | keep _ _ items => items.length
  | change .. => 0

/-- Puts a run before some blocks. -/
def cons (run : Run α) (blocks : List (Block α)) : List (Block α) :=
  match run.kind, blocks with
  | .keep, keep _ _ items :: rest => keep run.oldAt run.newAt (run.items ++ items) :: rest
  | .keep, rest => keep run.oldAt run.newAt run.items :: rest
  | .remove, change _ j removed added :: rest =>
    change run.oldAt (if added.isEmpty then run.newAt else j) (run.items ++ removed) added :: rest
  | .remove, rest => change run.oldAt run.newAt run.items [] :: rest
  | .add, change i _ removed added :: rest =>
    change (if removed.isEmpty then run.oldAt else i) run.newAt removed (run.items ++ added) :: rest
  | .add, rest => change run.oldAt run.newAt [] run.items :: rest

def ofRuns (runs : List (Run α)) : List (Block α) := runs.foldr cons []

/-- The first lines of kept ones, or the whole of a change. -/
def takeKept (n : Nat) : Block α → Block α
  | keep i j items => keep i j (items.take n)
  | block => block

/-- The last lines of kept ones, or the whole of a change. -/
def takeKeptEnd (n : Nat) : Block α → Block α
  | keep i j items =>
    let skipped := items.length - n
    keep (i + skipped) (j + skipped) (items.drop skipped)
  | block => block

end Block

/-! ## Hunks -/

abbrev Hunk (α : Type) := List (Block α)

namespace Hunk

variable {α : Type}

/-- The first of the hunks that some blocks divide into, and the others. Blocks are divided where
more lines are kept than two hunks show around their changes. -/
def split (context : Nat) : List (Block α) → Hunk α × List (Hunk α)
  | [] => ([], [])
  | block :: rest =>
    let (hunk, hunks) := split context rest
    if block.keptLength > 2 * context then
      ([block.takeKept context], (block.takeKeptEnd context :: hunk) :: hunks)
    else (block :: hunk, hunks)

/-- The hunks of a script, with at most `context` unchanged lines on each side. -/
def ofBlocks (context : Nat) (blocks : List (Block α)) : List (Hunk α) :=
  let blocks := match blocks with
    | first :: rest => first.takeKeptEnd context :: rest
    | [] => []
  let blocks := match blocks.getLast? with
    | some last => blocks.dropLast ++ [last.takeKept context]
    | none => []
  let (hunk, hunks) := split context blocks
  (hunk :: hunks).filter fun hunk ↦ hunk.any (!·.isKeep)

/-- A range of lines counted from one; an empty one stands behind the line that it names. -/
def range (start stop : Nat) : String :=
  let count := stop - start
  if count = 1 then toString (start + 1)
  else if count = 0 then s!"{start},0"
  else s!"{start + 1},{count}"

def header (hunk : Hunk α) : String :=
  match hunk.head?, hunk.getLast? with
  | some first, some last =>
    "@@ -" ++ range first.oldAt last.oldEnd ++ " +" ++ range first.newAt last.newEnd ++ " @@\n"
  | _, _ => ""

/-- A line behind its sign; a line without a line break says so. -/
def line (sign : Char) (text : Text) : Text :=
  let ended := text.getLast?.any fun c ↦ c == '\n' || c == '\r'
  sign :: text ++ (if ended then [] else "\n\\ No newline at end of file\n".toList)

def blockText : Block Text → Text
  | .keep _ _ items => items.flatMap (line ' ')
  | .change _ _ removed added => removed.flatMap (line '-') ++ added.flatMap (line '+')

def render (hunk : Hunk Text) : Text := hunk.header.toList ++ hunk.flatMap blockText

end Hunk

/-- Lines shown around changes. -/
def unifiedContext : Nat := 3

/-- The unified diff of two contents of the file at a path; empty where they are equal. -/
def unified (path : String) (old new : Text) : Text :=
  match Hunk.ofBlocks unifiedContext (Block.ofRuns (script (splitLines old) (splitLines new))) with
  | [] => []
  | hunks => (s!"--- a/{path}\n+++ b/{path}\n").toList ++ hunks.flatMap Hunk.render

end LintMend.Diff
