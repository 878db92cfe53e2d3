import LintMend.Diff.Snake

/-!
# Shortest edit scripts

What two lists begin and end with in common is kept; what lies between is divided at the middle of
a shortest path and each half is treated alike.
-/

namespace LintMend.Diff

variable {α : Type} [DecidableEq α]

/-- A run without items is none. -/
def runOf (kind : Kind) (oldAt newAt : Nat) (items : List α) : List (Run α) :=
  if items.isEmpty then [] else [⟨kind, oldAt, newAt, items⟩]

/-- A script for two lists that begin at given places. Each half is smaller than the whole, so the
number of items bounds the depth. -/
def scriptFrom : Nat → Nat → Nat → List α → List α → List (Run α)
  | 0, i, j, old, new => runOf .remove i j old ++ runOf .add (i + old.length) j new
  | fuel + 1, i, j, old, new =>
    let start := Run.sharedStart old new
    let p := start.length
    let ending := Run.sharedEnd (old.drop p) (new.drop p)
    let old' := (old.drop p).take (old.length - p - ending.length)
    let new' := (new.drop p).take (new.length - p - ending.length)
    let (i', j') := (i + p, j + p)
    let inner :=
      if old'.isEmpty ∨ new'.isEmpty then runOf .remove i' j' old' ++ runOf .add i' j' new'
      else
        match middle? old' new' with
        | none => runOf .remove i' j' old' ++ runOf .add i' j' new'
        | some (x, y) =>
          scriptFrom fuel i' j' (old'.take x) (new'.take y)
            ++ scriptFrom fuel (i' + x) (j' + y) (old'.drop x) (new'.drop y)
    runOf .keep i j start ++ inner
      ++ runOf .keep (i' + old'.length) (j' + new'.length) ending

/-- A shortest script, with its runs settled. -/
def script (old new : List α) : List (Run α) :=
  Run.settle (scriptFrom (old.length + new.length + 1) 0 0 old new)

end LintMend.Diff
