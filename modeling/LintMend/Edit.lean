import LintMend.Text.Position

/-!
# Edits

An edit replaces a range of a text, given by two offsets. A batch of edits is one change: all its
ranges refer to the text before the change, they must lie in the text and must not overlap, and
insertions at one offset appear in the order in which they are listed.
-/

namespace LintMend

structure Edit where
  start : Nat
  stop : Nat
  replacement : Text
deriving DecidableEq, Repr

namespace Edit

def insert (offset : Nat) (text : Text) : Edit := ⟨offset, offset, text⟩

def delete (start stop : Nat) : Edit := ⟨start, stop, []⟩

end Edit

inductive EditError where
  | overlapping (offset : Nat)
  | outOfBounds (start stop size : Nat)
  | notCharBoundary (start stop : Nat)
deriving DecidableEq, Repr

namespace EditError

def message : EditError → String
  | overlapping offset => s!"Overlapping edits detected at offset {offset}"
  | outOfBounds start stop size =>
    s!"Edit range {start}..{stop} out of bounds for source length {size}"
  | notCharBoundary start stop =>
    s!"Edit range {start}..{stop} does not fall on character boundaries"

end EditError

namespace Text

/-- Replaces one range; the text itself when the range is none of its ranges. -/
def splice (s : Text) (edit : Edit) : Text :=
  match s.before? edit.start, s.after? edit.stop with
  | some before, some after => before ++ edit.replacement ++ after
  | _, _ => s

/-- What is wrong with one edit, when every edit checked before it starts no earlier than
`limit`. -/
def editFault? (s : Text) (limit : Option Nat) (edit : Edit) : Option EditError :=
  if edit.stop > s.size ∨ edit.start > edit.stop then
    some (.outOfBounds edit.start edit.stop s.size)
  else if ¬ (s.isBoundary edit.start ∧ s.isBoundary edit.stop) then
    some (.notCharBoundary edit.start edit.stop)
  else if limit.any (edit.stop > ·) then some (.overlapping edit.start)
  else none

/-- The first fault of a batch that is listed from the end of the text to its start. -/
def editsFault? (s : Text) : Option Nat → List Edit → Option EditError
  | _, [] => none
  | limit, edit :: rest =>
    match s.editFault? limit edit with
    | some fault => some fault
    | none => editsFault? s (some edit.start) rest

/-- A batch from the end of the text to its start; of edits with one start the last listed comes
first. In this order each edit leaves the ranges of those after it where they were. -/
def fromTheEnd (edits : List Edit) : List Edit :=
  edits.reverse.mergeSort fun a b ↦ b.start ≤ a.start

def applyEdits (s : Text) (edits : List Edit) : Except EditError Text :=
  match s.editsFault? none (fromTheEnd edits) with
  | some fault => .error fault
  | none => .ok ((fromTheEnd edits).foldl splice s)

end Text

end LintMend
