import LintMend.Proofs.Repair.Engine

/-!
# The account of a pass

A pass tells of each of its hints once, among those it has applied or among those it has skipped, in
the order in which it came to them. A skipped hint leaves the text as it was found. A pass over two
lists is a pass over the second and one over the first in the text that is left.
-/

namespace LintMend.Repair

variable {rules : List Rule} {s : Text} {hint : Hint}

/-! ## One hint -/

/-- Whatever comes of it, a step tells of its hint at the line where that is anchored. -/
theorem exists_outcome_step (rules : List Rule) (s : Text) (hint : Hint) :
    ∃ outcome, (step rules s hint).2 = ⟨(Anchor.clamp s hint).lineBegin, hint.message, outcome⟩ := by
  cases h : Rule.find? rules hint.message.toList with
  | none => exact ⟨_, by rw [step_of_find?_eq_none h]⟩
  | some answer =>
    obtain ⟨t, -, hstep⟩ := step_of_find?_eq_some (s := s) h
    exact ⟨_, by rw [hstep]⟩

theorem message_step (rules : List Rule) (s : Text) (hint : Hint) :
    (step rules s hint).2.message = hint.message := by
  obtain ⟨outcome, hentry⟩ := exists_outcome_step rules s hint
  rw [hentry]

theorem line_step (rules : List Rule) (s : Text) (hint : Hint) :
    (step rules s hint).2.line = (Anchor.clamp s hint).lineBegin := by
  obtain ⟨outcome, hentry⟩ := exists_outcome_step rules s hint
  rw [hentry]

/-- A step that is not applied leaves the text. -/
theorem text_step_of_not_isApplied (h : ¬ (step rules s hint).2.isApplied = true) :
    (step rules s hint).1 = s := by
  cases hfind : Rule.find? rules hint.message.toList with
  | none => rw [step_of_find?_eq_none hfind]
  | some answer =>
    obtain ⟨rule, found⟩ := answer
    obtain ⟨t, ht, hstep⟩ := step_of_find?_eq_some (s := s) hfind
    rw [hstep] at h ⊢
    cases hedits : rule.edits s (Anchor.clamp s hint) found.groups with
    | nil =>
      rw [hedits, Text.applyEdits_nil] at ht
      exact (Except.ok.inj ht).symm
    | cons edit edits =>
      rw [hedits] at h
      exact absurd rfl h

/-! ## Passes in turn -/

theorem steps_run_append (rules : List Rule) (s : Text) (a b : List Hint) :
    (run rules s (a ++ b)).steps =
      (run rules s a).steps ++ (run rules (run rules s a).text b).steps := by
  induction a generalizing s with
  | nil => rfl
  | cons hint a ih => exact congrArg ((step rules s hint).2 :: ·) (ih (step rules s hint).1)

theorem steps_repair_append (rules : List Rule) (s : Text) (a b : List Hint) :
    (repair rules s (a ++ b)).steps =
      (repair rules s b).steps ++ (repair rules (repair rules s b).text a).steps := by
  rw [repair, List.reverse_append, steps_run_append]
  rfl

theorem steps_repair_cons (rules : List Rule) (s : Text) (hint : Hint) (hints : List Hint) :
    (repair rules s (hint :: hints)).steps =
      (repair rules s hints).steps ++ [(step rules (repair rules s hints).text hint).2] := by
  rw [← List.singleton_append, steps_repair_append]
  rfl

/-! ## The account -/

/-- What one more hint at the head of the list adds to a pass: one entry, with its message and the
line of its anchor in the text it was come to in. -/
inductive Adds (hint : Hint) (before after : Pass) : Prop where
  | applied (entry : Step) (message : entry.message = hint.message)
      (line : entry.line = (Anchor.clamp before.text hint).lineBegin)
      (applied : after.applied = before.applied ++ [entry])
      (skipped : after.skipped = before.skipped)
  | skipped (entry : Step) (message : entry.message = hint.message)
      (line : entry.line = (Anchor.clamp before.text hint).lineBegin)
      (applied : after.applied = before.applied)
      (skipped : after.skipped = before.skipped ++ [entry])
      (text : after.text = before.text)

/-- Each of some hints has one entry in a pass, applied or skipped, and both are in their order. -/
def Covers (hints : List Hint) (pass : Pass) : Prop :=
  ∃ applied skipped : List Hint, (applied ++ skipped).Perm hints ∧
    applied.Sublist hints ∧ pass.applied.map (·.message) = applied.map (·.message) ∧
    skipped.Sublist hints ∧ pass.skipped.map (·.message) = skipped.map (·.message)

theorem adds_repair_cons (rules : List Rule) (s : Text) (hint : Hint) (hints : List Hint) :
    Adds hint (repair rules s hints) (repair rules s (hint :: hints)) := by
  have hsteps := steps_repair_cons rules s hint hints
  have hmessage := message_step rules (repair rules s hints).text hint
  have hline := line_step rules (repair rules s hints).text hint
  by_cases happlied : (step rules (repair rules s hints).text hint).2.isApplied = true
  · refine .applied _ hmessage hline ?_ ?_
    · simp [Pass.applied, hsteps, happlied]
    · simp [Pass.skipped, hsteps, happlied]
  · refine .skipped _ hmessage hline ?_ ?_ ?_
    · simp [Pass.applied, hsteps, happlied]
    · simp [Pass.skipped, hsteps, happlied]
    · rw [text_repair_cons, text_step_of_not_isApplied happlied]

theorem covers_run (rules : List Rule) (s : Text) (hints : List Hint) :
    Covers hints (run rules s hints) := by
  induction hints generalizing s with
  | nil => exact ⟨[], [], .refl _, .refl _, rfl, .refl _, rfl⟩
  | cons hint hints ih =>
    obtain ⟨applied, skipped, hperm, happlied, happlieds, hskipped, hskippeds⟩ :=
      ih (step rules s hint).1
    have hmessage := message_step rules s hint
    by_cases hfirst : (step rules s hint).2.isApplied = true
    · refine ⟨hint :: applied, skipped, hperm.cons hint, happlied.cons_cons hint, ?_,
        hskipped.cons hint, ?_⟩
      · simpa [run, Pass.applied, hfirst, hmessage] using happlieds
      · simpa [run, Pass.skipped, hfirst] using hskippeds
    · refine ⟨applied, hint :: skipped, List.perm_middle.trans (hperm.cons hint),
        happlied.cons hint, ?_, hskipped.cons_cons hint, ?_⟩
      · simpa [run, Pass.applied, hfirst] using happlieds
      · simpa [run, Pass.skipped, hfirst, hmessage] using hskippeds

/-- The account of a pass over two lists is that of the second and then that of the first, each hint
has one entry in it, and each hint adds its entry to those behind it in the list. -/
theorem account_repair (rules : List Rule) (s : Text) (a b : List Hint) :
    (repair rules s (a ++ b)).text = (repair rules (repair rules s b).text a).text ∧
    (repair rules s (a ++ b)).applied =
      (repair rules s b).applied ++ (repair rules (repair rules s b).text a).applied ∧
    (repair rules s (a ++ b)).skipped =
      (repair rules s b).skipped ++ (repair rules (repair rules s b).text a).skipped ∧
    Covers (a ++ b).reverse (repair rules s (a ++ b)) ∧
    ∀ hint, Adds hint (repair rules s b) (repair rules s (hint :: b)) := by
  have hsteps := steps_repair_append rules s a b
  refine ⟨text_repair_append rules s a b, ?_, ?_, covers_run rules s (a ++ b).reverse,
    fun hint ↦ adds_repair_cons rules s hint b⟩
  · rw [Pass.applied, hsteps, List.filter_append]
    rfl
  · rw [Pass.skipped, hsteps, List.filter_append]
    rfl

end LintMend.Repair
