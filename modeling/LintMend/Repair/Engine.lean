import LintMend.Repair.Change

/-!
# Repair of a text

One pass over a list of hints, from the last to the first, so that the positions of the hints still
to come are mostly in text that has not changed. Each hint is one step: it is anchored in the text
as it is then, answered by the first rule that knows its message, and reported.
-/

namespace LintMend.Repair

inductive Outcome where
  /-- No rule answers the message. -/
  | noRule
  /-- The rule found nothing to change. -/
  | notApplied (rule : Rule)
  /-- The edits of the rule do not fit the text. -/
  | invalidEdit (rule : Rule) (fault : EditError)
  | applied (rule : Rule) (edits : Nat)
deriving DecidableEq, Repr

/-- What was done about one hint; the line is that of its anchor. -/
structure Step where
  line : Nat
  message : String
  outcome : Outcome
deriving DecidableEq, Repr

namespace Step

def rule? (step : Step) : Option Rule :=
  match step.outcome with
  | .applied rule _ => some rule
  | _ => none

def isApplied (step : Step) : Bool := step.rule?.isSome

/-- The outcome in words, for the log. -/
def summary (step : Step) : String :=
  match step.outcome with
  | .noRule => "no repair rule"
  | .notApplied rule => s!"{rule.name} not applied"
  | .invalidEdit rule fault => s!"{rule.name} failed: {fault.message}"
  | .applied rule edits => s!"{rule.name} applied ({edits} edit(s))"

end Step

/-- Repairs a text for one hint. -/
def step (rules : List Rule) (s : Text) (hint : Hint) : Text × Step :=
  let anchor := Anchor.clamp s hint
  let report (outcome : Outcome) : Step := ⟨anchor.lineBegin, hint.message, outcome⟩
  match Rule.find? rules hint.message.toList with
  | none => (s, report .noRule)
  | some (rule, found) =>
    match rule.edits s anchor found.groups with
    | [] => (s, report (.notApplied rule))
    | edits =>
      match s.applyEdits edits with
      | .ok t => (t, report (.applied rule edits.length))
      | .error fault => (s, report (.invalidEdit rule fault))

/-- A pass: the text it ends with, and its steps in the order in which they were made. -/
structure Pass where
  text : Text
  steps : List Step
deriving DecidableEq, Repr

namespace Pass

def applied (pass : Pass) : List Step := pass.steps.filter (·.isApplied)

def skipped (pass : Pass) : List Step := pass.steps.filter (¬ ·.isApplied)

def isChanged (pass : Pass) : Bool := ¬ pass.applied.isEmpty

end Pass

/-- Takes the steps for some hints in the order in which they are given. -/
def run (rules : List Rule) : Text → List Hint → Pass
  | s, [] => ⟨s, []⟩
  | s, hint :: rest =>
    let (t, first) := step rules s hint
    let pass := run rules t rest
    ⟨pass.text, first :: pass.steps⟩

def repair (rules : List Rule) (s : Text) (hints : List Hint) : Pass :=
  run rules s hints.reverse

end LintMend.Repair
