import LintMend.Diff.Run

/-!
# Scripts by the longest common subsequence

What two lists begin and end with in common is kept; between, a longest common subsequence is kept.
Removed items stand before added ones wherever both are possible.
-/

namespace LintMend.Diff

variable {α : Type} [DecidableEq α]

inductive Step (α : Type) where
  | keep (item : α)
  | remove (item : α)
  | add (item : α)
deriving DecidableEq, Repr

/-- Lengths of longest common subsequences of a list with one more item and the beginnings of `new`,
from those without it. -/
def nextRow (item : α) (row : Array Nat) (new : List α) : Array Nat :=
  (new.zipIdx).foldl (fun out (other, j) ↦
    out.push (if item = other then row.getD j 0 + 1 else max (row.getD (j + 1) 0) (out.getD j 0)))
    #[0]

/-- Lengths of longest common subsequences of the beginnings of two lists. -/
def commonLengths (old new : List α) : Array (Array Nat) :=
  old.foldl (fun rows item ↦ rows.push (nextRow item (rows.back?.getD #[]) new))
    #[Array.replicate (new.length + 1) 0]

/-- The steps that lead to a pair of beginnings, before those in `steps`. -/
def stepsTo (lengths : Array (Array Nat)) (old new : Array α) : Nat → Nat → List (Step α) →
    List (Step α)
  | 0, 0, steps => steps
  | 0, j + 1, steps => stepsTo lengths old new 0 j ((new[j]?.map Step.add).toList ++ steps)
  | i + 1, 0, steps => stepsTo lengths old new i 0 ((old[i]?.map Step.remove).toList ++ steps)
  | i + 1, j + 1, steps =>
    let length (i j : Nat) : Nat := (lengths.getD i #[]).getD j 0
    if length (i + 1) (j + 1) = length (i + 1) j then
      stepsTo lengths old new (i + 1) j ((new[j]?.map Step.add).toList ++ steps)
    else if length (i + 1) (j + 1) = length i (j + 1) then
      stepsTo lengths old new i (j + 1) ((old[i]?.map Step.remove).toList ++ steps)
    else stepsTo lengths old new i j ((old[i]?.map Step.keep).toList ++ steps)
termination_by i j => i + j

def commonScript (old new : List α) : List (Step α) :=
  let start := Run.sharedStart old new
  let ending := Run.sharedEnd (old.drop start.length) (new.drop start.length)
  let inner (items : List α) : List α :=
    (items.drop start.length).take (items.length - start.length - ending.length)
  let (old', new') := (inner old, inner new)
  start.map .keep
    ++ stepsTo (commonLengths old' new') old'.toArray new'.toArray old'.length new'.length []
    ++ ending.map .keep

end LintMend.Diff
