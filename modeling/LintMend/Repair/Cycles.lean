import LintMend.Lint.Manager
import LintMend.Repair.Engine

/-!
# Repairing in cycles

A cycle repairs a text for some hints; if that changed anything, and another cycle may follow, the
repaired text is linted again for the hints of the next one. At least one cycle runs, and the last
one is not followed by a lint. If a lint fails then so does the repair, but the cycles before it were
made, and are in the log.
-/

namespace LintMend.Repair

variable {ε : Type}

structure Cycle where
  pass : Pass
  /-- The lint of the repaired text, if another cycle follows. -/
  lint : Option LintRun

/-- The first cycle of a text and up to `more` further ones, and the error of the lint that has
ended them, if one did. -/
def cyclesFrom (rules : List Rule) (lint : Text → Except ε LintRun) :
    Nat → Text → List Hint → Cycle × List Cycle × Option ε
  | 0, s, hints => (⟨repair rules s hints, none⟩, [], none)
  | more + 1, s, hints =>
    let pass := repair rules s hints
    if pass.isChanged then
      match lint pass.text with
      | .ok run =>
        let (next, rest, error) := cyclesFrom rules lint more pass.text run.report.hints
        (⟨pass, some run⟩, next :: rest, error)
      | .error e => (⟨pass, none⟩, [], some e)
    else (⟨pass, none⟩, [], none)

/-- The repair of one text, and how it came about. -/
structure Repaired where
  source : Text
  /-- The failures of the adapters in the lint that gave the first hints. -/
  failuresBefore : List (Failure AdapterError)
  first : Cycle
  further : List Cycle

namespace Repaired

def cycles (r : Repaired) : List Cycle := r.first :: r.further

def lastPass (r : Repaired) : Pass := (r.further.getLast?.getD r.first).pass

def result (r : Repaired) : Text := r.lastPass.text

def isChanged (r : Repaired) : Bool := r.source ≠ r.result

/-- The repairs of every cycle, in the order in which they were made. -/
def applied (r : Repaired) : List Step := r.cycles.flatMap (·.pass.applied)

/-- The hints left over by the last cycle. -/
def skipped (r : Repaired) : List Step := r.lastPass.skipped

def lints (r : Repaired) : List LintRun := r.cycles.filterMap (·.lint)

def failures (r : Repaired) : List (Failure AdapterError) :=
  r.failuresBefore ++ r.lints.flatMap (·.report.failures)

end Repaired

/-- A repair as far as it has come. -/
structure Attempt (ε : Type) where
  made : Repaired
  /-- The error of the lint that has ended it. -/
  error : Option ε

namespace Attempt

def result (attempt : Attempt ε) : Except ε Repaired :=
  match attempt.error with
  | none => .ok attempt.made
  | some e => .error e

end Attempt

/-- Repairs a text with a report on it, in at most `limit` cycles, as far as that goes. -/
def attempt (rules : List Rule) (lint : Text → Except ε LintRun) (limit : Nat) (source : Text)
    (report : LintReport AdapterError) : Attempt ε :=
  let (first, further, error) := cyclesFrom rules lint (limit - 1) source report.hints
  ⟨⟨source, report.failures, first, further⟩, error⟩

/-- Repairs a text with a report on it, in at most `limit` cycles. -/
def repairWithCycles (rules : List Rule) (lint : Text → Except ε LintRun) (limit : Nat)
    (source : Text) (report : LintReport AdapterError) : Except ε Repaired :=
  (attempt rules lint limit source report).result

/-! ## In the log -/

def Pass.log (pass : Pass) : Log :=
  pass.steps.map fun step ↦ Log.repair step.line step.message step.summary

/-- The entries of some cycles, the first of which has a given number. -/
def cyclesLog (path : String) : Nat → List Cycle → Log
  | _, [] => []
  | n, cycle :: rest =>
    Log.sectionOf s!"Repair cycle {n} for {path}" ++ cycle.pass.log
      ++ (cycle.lint.map LintRun.log).getD [] ++ cyclesLog path (n + 1) rest

def Repaired.log (path : String) (r : Repaired) : Log := cyclesLog path 1 r.cycles

end LintMend.Repair
