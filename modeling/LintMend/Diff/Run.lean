/-!
# Edit scripts

An edit script turns an old list into a new one. It is a list of runs: items that are kept, items
that are removed and items that are added, each with the places in both lists at which it was found.

A run of added items next to a kept one may slide past items that it repeats, which changes the
script and not what it does. `settle` slides runs as far as they go, up and then down, so that runs
that can meet become one.
-/

namespace LintMend.Diff

inductive Kind where
  | keep
  | remove
  | add
deriving DecidableEq, Repr

structure Run (α : Type) where
  kind : Kind
  oldAt : Nat
  newAt : Nat
  items : List α
deriving DecidableEq, Repr

namespace Run

variable {α : Type} [DecidableEq α]

/-- The longest common beginning of two lists. -/
def sharedStart : List α → List α → List α
  | a :: as, b :: bs => if a = b then a :: sharedStart as bs else []
  | _, _ => []

/-- The longest common ending. -/
def sharedEnd (as bs : List α) : List α := (sharedStart as.reverse bs.reverse).reverse

/-- A run in its script; the run nearest to it comes first on both sides. -/
structure Cursor (α : Type) where
  before : List (Run α)
  here : Run α
  after : List (Run α)

namespace Cursor

/-- Puts kept items before all other runs behind the cursor. -/
def keepAfter (items : List α) (oldAt newAt : Nat) : List (Run α) → List (Run α)
  | next :: rest =>
    if next.kind = .keep then
      ⟨.keep, next.oldAt - items.length, next.newAt - items.length, items ++ next.items⟩ :: rest
    else ⟨.keep, oldAt, newAt, items⟩ :: next :: rest
  | [] => [⟨.keep, oldAt, newAt, items⟩]

/-- Puts kept items behind all other runs before the cursor. -/
def keepBefore (items : List α) (oldAt newAt : Nat) : List (Run α) → List (Run α)
  | prev :: rest =>
    if prev.kind = .keep then { prev with items := prev.items ++ items } :: rest
    else ⟨.keep, oldAt, newAt, items⟩ :: prev :: rest
  | [] => [⟨.keep, oldAt, newAt, items⟩]

/-- One step up: added items slide past kept ones that they end with, added and removed items
change places, and two runs of one kind become one. -/
def up? (c : Cursor α) : Option (Cursor α) :=
  match c.before with
  | [] => none
  | prev :: before =>
    match c.here.kind, prev.kind with
    | .add, .keep =>
      let shared := sharedEnd prev.items c.here.items
      let n := shared.length
      if n = 0 then none
      else
        let rest := prev.items.take (prev.items.length - n)
        let slid := shared ++ c.here.items.take (c.here.items.length - n)
        some {
          before := if rest.isEmpty then before else { prev with items := rest } :: before
          here := ⟨.add, c.here.oldAt - n, c.here.newAt - n, slid⟩
          after := keepAfter shared (prev.oldAt + prev.items.length - n)
            (c.here.newAt + c.here.items.length - n) c.after }
    | .add, .remove => some ⟨before, c.here, prev :: c.after⟩
    | .remove, .add => some ⟨before, c.here, prev :: c.after⟩
    | .add, .add => some ⟨before, { prev with items := prev.items ++ c.here.items }, c.after⟩
    | .remove, .remove => some ⟨before, { prev with items := prev.items ++ c.here.items }, c.after⟩
    | _, _ => none

/-- One step down, in the same ways. -/
def down? (c : Cursor α) : Option (Cursor α) :=
  match c.after with
  | [] => none
  | next :: after =>
    match c.here.kind, next.kind with
    | .add, .keep =>
      let shared := sharedStart next.items c.here.items
      let n := shared.length
      if n = 0 then none
      else
        let rest := next.items.drop n
        some {
          before := keepBefore shared next.oldAt c.here.newAt c.before
          here := ⟨.add, c.here.oldAt + n, c.here.newAt + n, c.here.items.drop n ++ shared⟩
          after :=
            if rest.isEmpty then after
            else ⟨.keep, next.oldAt + n, next.newAt + n, rest⟩ :: after }
    | .add, .remove => some ⟨next :: c.before, c.here, after⟩
    | .remove, .add => some ⟨next :: c.before, c.here, after⟩
    | .add, .add => some ⟨c.before, { c.here with items := c.here.items ++ next.items }, after⟩
    | .remove, .remove =>
      some ⟨c.before, { c.here with items := c.here.items ++ next.items }, after⟩
    | _, _ => none

/-- Repeats a step as long as there is one. -/
def repeatStep (step : Cursor α → Option (Cursor α)) : Nat → Cursor α → Cursor α
  | 0, c => c
  | fuel + 1, c =>
    match step c with
    | some c => repeatStep step fuel c
    | none => c

/-- Bounds the steps in one direction: each of them passes a run, or an item of one. -/
def weight (runs : List (Run α)) : Nat := (runs.map fun r ↦ r.items.length + 1).foldr (· + ·) 0

def slideUp (c : Cursor α) : Cursor α := repeatStep up? (weight c.before) c

def slideDown (c : Cursor α) : Cursor α := repeatStep down? (weight c.after) c

end Cursor

/-- Slides the runs of one kind, from the first to the last. -/
def settleKind (kind : Kind) : Nat → List (Run α) → List (Run α) → List (Run α)
  | _, before, [] => before.reverse
  | 0, before, after => before.reverse ++ after
  | fuel + 1, before, here :: after =>
    if here.kind = kind then
      let c := (Cursor.mk before here after).slideUp.slideDown
      settleKind kind fuel (c.here :: c.before) c.after
    else settleKind kind fuel (here :: before) after

/-- Slides the removed runs and then the added ones. -/
def settle (runs : List (Run α)) : List (Run α) :=
  let removed := settleKind .remove (Cursor.weight runs) [] runs
  settleKind .add (Cursor.weight removed) [] removed

end Run

end LintMend.Diff
