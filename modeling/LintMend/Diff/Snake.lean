import LintMend.Diff.Run

/-!
# The middle of a shortest edit script

A script is a path through a grid from the corner where both lists begin to the corner where both
end; a kept item is a step along a diagonal. Paths are followed from both corners at once, by the
number of items that they remove or add. On every diagonal only the farthest point counts. Where the
two searches meet lies the middle of a shortest path.
-/

namespace LintMend.Diff

/-- The farthest points of one search, by diagonal: how many items of the first list a path to it
has passed. Diagonals run from minus to plus `bound`. -/
structure Frontier where
  bound : Nat
  reached : Array Nat

namespace Frontier

def start (bound : Nat) : Frontier := ⟨bound, Array.replicate (2 * bound + 1) 0⟩

def get (f : Frontier) (diagonal : Int) : Nat := f.reached.getD (diagonal + f.bound).toNat 0

def set (f : Frontier) (diagonal : Int) (n : Nat) : Frontier :=
  { f with reached := f.reached.setIfInBounds (diagonal + f.bound).toNat n }

/-- Where the paths with `d` changes enter a diagonal, from one of its neighbours. -/
def entry (f : Frontier) (d : Nat) (diagonal : Int) : Nat :=
  if diagonal = -d ∨ (diagonal ≠ d ∧ f.get (diagonal - 1) < f.get (diagonal + 1)) then
    f.get (diagonal + 1)
  else f.get (diagonal - 1) + 1

end Frontier

variable {α : Type} [DecidableEq α]

/-- Number of equal items behind a point of the grid. -/
def equalRun (a b : Array α) : Nat → Nat → Nat → Nat
  | 0, _, _ => 0
  | fuel + 1, x, y =>
    match a[x]?, b[y]? with
    | some u, some v => if u = v then equalRun a b fuel (x + 1) (y + 1) + 1 else 0
    | _, _ => 0

/-- A diagonal on which the searches meet: where the last step of one of them entered it, and how
far it went from there. -/
structure Meeting where
  diagonal : Int
  first : Nat
  last : Nat

/-- The diagonals that `d` changes lead to. -/
def diagonals (d : Nat) : List Int := (List.range (d + 1)).map fun (i : Nat) ↦ (d : Int) - 2 * i

/-- Takes a search one change further. If `window` is given, a meeting with the other search is
looked for on the diagonals that are no farther than that from the end of the grid. -/
def advance (a b : Array α) (other : Frontier) (window : Option Int) (d : Nat) :
    List Int → Frontier → Frontier × Option Meeting
  | [], f => (f, none)
  | k :: ks, f =>
    let delta : Int := (a.size : Int) - b.size
    let x := f.entry d k
    let y := ((x : Int) - k).toNat
    let x' := x + equalRun a b (a.size - x) x y
    let f := f.set k x'
    let met := window.any fun w ↦
      ((k - delta).natAbs : Int) ≤ w && a.size ≤ x' + other.get (delta - k)
    if met then (f, some ⟨k, x, x'⟩) else advance a b other window d ks f

/-- Both searches by turns, with `d` changes and more. -/
def search (a b a' b' : Array α) : Nat → Nat → Frontier → Frontier → Option (Nat × Nat)
  | 0, _, _, _ => none
  | fuel + 1, d, forward, backward =>
    let odd := (a.size + b.size) % 2 = 1
    match advance a b backward (if odd then some ((d : Int) - 1) else none) d (diagonals d)
        forward with
    | (_, some m) => some (m.first, (m.first - m.diagonal).toNat)
    | (forward, none) =>
      match advance a' b' forward (if odd then none else some (d : Int)) d (diagonals d)
          backward with
      | (_, some m) => some (a.size - m.last, b.size - (m.last - m.diagonal).toNat)
      | (backward, none) => search a b a' b' fuel (d + 1) forward backward

/-- A point in the middle of a shortest path: how many items of each list lie before it. -/
def middle? (old new : List α) : Option (Nat × Nat) :=
  let bound := (old.length + new.length + 1) / 2 + 1
  search old.toArray new.toArray old.reverse.toArray new.reverse.toArray bound 0
    (Frontier.start bound) (Frontier.start bound)

end LintMend.Diff
