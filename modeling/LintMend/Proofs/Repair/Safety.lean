import LintMend.Proofs.Repair.Engine
import LintMend.Proofs.Repair.Slice

/-!
# Every repair fits its text

A pass once more, with every slice checked: those of the anchors, of the rules, and of the edits
while they are made. It never fails, and what it gives is the pass without checks. In this pass no
hint is skipped because its edits do not fit.
-/

namespace LintMend

open Text

namespace Sliced

variable {s before after : Text} {batch : List Edit} {limit : Option Nat}

/-! ## Batches -/

def splice (s : Text) (edit : Edit) : Slicing Text := do
  let _ ← slice s edit.start edit.stop
  let before ← head s edit.start
  let after ← tail s edit.stop
  return before ++ edit.replacement ++ after

theorem splice_of_cuts {held : Text} {edit : Edit} (h : edit.span.Cuts s before held after) :
    splice s edit = .ok (before ++ edit.replacement ++ after) := by
  have hslice : slice s edit.start edit.stop = .ok held := slice_of_cuts h
  have hhead : head s edit.start = .ok before := by
    have hstart : edit.start = size before := h.start
    rw [h.text, hstart, List.append_assoc, head_size_append]
  have htail : tail s edit.stop = .ok after := tail_of_after? h.after?_stop
  rw [splice, hslice, ok_bind, hhead, ok_bind, htail, ok_bind, pure_eq_ok]

def applyEdits (s : Text) (batch : List Edit) : Slicing (Except EditError Text) :=
  match s.editsFault? none (fromTheEnd batch) with
  | some fault => return .error fault
  | none => return .ok (← (fromTheEnd batch).foldlM splice s)

/-- A batch that has passed its checks is made from the end: what stands before the last change is
still as it was checked, whatever stands behind it by now. -/
theorem foldlM_splice_eq (tail : Text)
    (hlimit : ∀ edit, s.editFault? limit edit = none → edit.stop ≤ size before)
    (hs : s = before ++ after) (h : s.editsFault? limit batch = none) :
    batch.foldlM splice (before ++ tail) = .ok (batch.foldl Text.splice (before ++ tail)) := by
  induction batch generalizing limit before after tail with
  | nil => rfl
  | cons edit batch ih =>
    obtain ⟨hfault, hfaults⟩ := editsFault?_cons_eq_none_iff.mp h
    obtain ⟨ahead, held, behind, hcuts⟩ := exists_cuts_of_editFault? hfault
    rw [hs] at hcuts
    obtain ⟨rest, rfl, hcuts'⟩ := cuts_append_of_le tail hcuts (hlimit edit hfault)
    rw [List.foldlM_cons, List.foldl_cons, splice_of_cuts hcuts', Text.splice_of_cuts hcuts',
      ok_bind, List.append_assoc ahead]
    have hstart : edit.start = size ahead := hcuts.start
    have hnext (next : Edit) (hnext : s.editFault? (some edit.start) next = none) :
        next.stop ≤ size ahead := by
      rw [← hstart]
      exact (editFault?_eq_none_iff.mp hnext).2.2.2 _ rfl
    have hs' : s = ahead ++ (held ++ rest ++ after) := by
      rw [hs]
      simp only [List.append_assoc]
    exact ih _ hnext hs' hfaults

theorem applyEdits_eq (s : Text) (batch : List Edit) :
    applyEdits s batch = .ok (s.applyEdits batch) := by
  rw [applyEdits, Text.applyEdits]
  cases h : s.editsFault? none (fromTheEnd batch) with
  | some fault => rfl
  | none =>
    have hall (edit : Edit) (hfault : s.editFault? none edit = none) : edit.stop ≤ size s :=
      le_size_of_isBoundary (editFault?_eq_none_iff.mp hfault).2.2.1
    have hfold := foldlM_splice_eq [] hall (List.append_nil s).symm h
    rw [List.append_nil] at hfold
    rw [hfold]
    rfl

/-! ## Passes -/

def step (rules : List Repair.Rule) (s : Text) (hint : Hint) : Slicing (Text × Repair.Step) := do
  let anchor ← clamp s hint
  let report (outcome : Repair.Outcome) : Repair.Step := ⟨anchor.lineBegin, hint.message, outcome⟩
  match Repair.Rule.find? rules hint.message.toList with
  | none => return (s, report .noRule)
  | some (rule, found) =>
    match ← edits s anchor found.groups rule with
    | [] => return (s, report (.notApplied rule))
    | batch =>
      match ← applyEdits s batch with
      | .ok t => return (t, report (.applied rule batch.length))
      | .error fault => return (s, report (.invalidEdit rule fault))

theorem step_eq (rules : List Repair.Rule) (s : Text) (hint : Hint) :
    step rules s hint = .ok (Repair.step rules s hint) := by
  rw [step, Repair.step, clamp_eq, ok_bind]
  cases hfind : Repair.Rule.find? rules hint.message.toList with
  | none => rfl
  | some answer =>
    obtain ⟨rule, found⟩ := answer
    obtain ⟨-, hmatch⟩ := Repair.mem_of_find? hfind
    simp only [edits_eq (Anchor.within_clamp s hint) hmatch, ok_bind]
    cases rule.edits s (Anchor.clamp s hint) found.groups with
    | nil => rfl
    | cons first rest =>
      simp only [applyEdits_eq, ok_bind]
      cases s.applyEdits (first :: rest) <;> rfl

def run (rules : List Repair.Rule) : Text → List Hint → Slicing Repair.Pass
  | s, [] => return ⟨s, []⟩
  | s, hint :: rest => do
    let first ← step rules s hint
    let pass ← run rules first.1 rest
    return ⟨pass.text, first.2 :: pass.steps⟩

theorem run_eq (rules : List Repair.Rule) (s : Text) (hints : List Hint) :
    run rules s hints = .ok (Repair.run rules s hints) := by
  induction hints generalizing s with
  | nil => rfl
  | cons hint hints ih =>
    rw [run, step_eq, ok_bind, ih]
    rfl

def repair (rules : List Repair.Rule) (s : Text) (hints : List Hint) : Slicing Repair.Pass :=
  run rules s hints.reverse

end Sliced

namespace Repair

/-- No slice of a pass fails, no hint is skipped for edits that do not fit, and a text accepts what
any rule answers at any hint of it. -/
theorem repair_fits (rules : List Rule) (s : Text) (hints : List Hint) :
    Sliced.repair rules s hints = .ok (repair rules s hints) ∧
    (∀ made ∈ (repair rules s hints).steps, ∀ rule fault,
      made.outcome ≠ .invalidEdit rule fault) ∧
    ∀ (t : Text) (hint : Hint) (rule : Rule) (groups : Captures),
      ∃ u, t.applyEdits (rule.edits t (Anchor.clamp t hint) groups) = .ok u := by
  refine ⟨Sliced.run_eq rules s hints.reverse, ?_, ?_⟩
  · intro made hmade rule fault
    obtain ⟨t, hint, -, rfl⟩ := exists_of_mem_run_steps hmade
    exact outcome_step_ne_invalidEdit rules t hint rule fault
  · intro t hint rule groups
    exact exists_applyEdits_edits (Anchor.within_clamp t hint) rule groups

end Repair

end LintMend
