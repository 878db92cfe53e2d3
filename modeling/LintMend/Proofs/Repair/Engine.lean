import LintMend.Proofs.Repair.Rule
import LintMend.Repair.Engine

/-!
# Steps and passes

What one step of a pass can do, said once: nothing, because no rule answers the message or because
the rule that does has nothing to change, or else the edits of that rule, which the text always
accepts. A pass is the fold of its steps, so what every step keeps, a pass keeps.
-/

namespace LintMend.Repair

variable {s t : Text} {rules : List Rule} {rule : Rule} {hint : Hint} {found : Pattern.Match}

theorem mem_of_find? {message : Text} (h : Rule.find? rules message = some (rule, found)) :
    rule ∈ rules ∧ Pattern.match? rule.pattern message = some found := by
  obtain ⟨rule', hmem, hmatch⟩ := List.exists_of_findSome?_eq_some h
  obtain ⟨found', hfound, heq⟩ := Option.map_eq_some_iff.mp hmatch
  obtain ⟨rfl, rfl⟩ : rule' = rule ∧ found' = found := by simpa using heq
  exact ⟨hmem, hfound⟩

/-! ## Steps -/

theorem step_of_find?_eq_none (h : Rule.find? rules hint.message.toList = none) :
    step rules s hint = (s, ⟨(Anchor.clamp s hint).lineBegin, hint.message, .noRule⟩) := by
  simp only [step, h]

/-- All that a step does when a rule answers: its edits, which the text accepts. -/
theorem step_of_find?_eq_some (h : Rule.find? rules hint.message.toList = some (rule, found)) :
    ∃ t, s.applyEdits (rule.edits s (Anchor.clamp s hint) found.groups) = .ok t ∧
      step rules s hint = (t, ⟨(Anchor.clamp s hint).lineBegin, hint.message,
        match (rule.edits s (Anchor.clamp s hint) found.groups).length with
        | 0 => .notApplied rule
        | n + 1 => .applied rule (n + 1)⟩) := by
  obtain ⟨t, ht⟩ := exists_applyEdits_edits (Anchor.within_clamp s hint) rule found.groups
  refine ⟨t, ht, ?_⟩
  simp only [step, h]
  cases hedits : rule.edits s (Anchor.clamp s hint) found.groups with
  | nil =>
    rw [hedits, Text.applyEdits_nil] at ht
    obtain rfl : s = t := by simpa using ht
    rfl
  | cons edit edits =>
    rw [hedits] at ht
    simp only [ht, List.length_cons]

theorem step_of_edits_eq_nil (hfind : Rule.find? rules hint.message.toList = some (rule, found))
    (h : rule.edits s (Anchor.clamp s hint) found.groups = []) :
    step rules s hint =
      (s, ⟨(Anchor.clamp s hint).lineBegin, hint.message, .notApplied rule⟩) := by
  rw [step, hfind]
  simp only [h]

theorem step_of_edits_eq_singleton {edit : Edit} {before held after : Text}
    (hfind : Rule.find? rules hint.message.toList = some (rule, found))
    (hedits : rule.edits s (Anchor.clamp s hint) found.groups = [edit])
    (hcuts : edit.span.Cuts s before held after) :
    step rules s hint = (before ++ edit.replacement ++ after,
      ⟨(Anchor.clamp s hint).lineBegin, hint.message, .applied rule 1⟩) := by
  obtain ⟨t, ht, hstep⟩ := step_of_find?_eq_some (s := s) hfind
  rw [hedits, Text.applyEdits_single hcuts, Except.ok.injEq] at ht
  rw [hstep, ht, hedits]
  rfl

/-- The edits of a step never fail. -/
theorem outcome_step_ne_invalidEdit (rules : List Rule) (s : Text) (hint : Hint) (rule : Rule)
    (fault : EditError) : (step rules s hint).2.outcome ≠ .invalidEdit rule fault := by
  cases h : Rule.find? rules hint.message.toList with
  | none => simp [step_of_find?_eq_none h]
  | some answer =>
    obtain ⟨rule', found⟩ := answer
    obtain ⟨t, -, hstep⟩ := step_of_find?_eq_some (s := s) h
    rw [hstep]
    cases (rule'.edits s (Anchor.clamp s hint) found.groups).length <;> simp

/-! ## Passes -/

/-- The hints of a pass, each with the text in which it is anchored. -/
def reached (rules : List Rule) : Text → List Hint → List (Hint × Text)
  | _, [] => []
  | s, hint :: rest => (hint, s) :: reached rules (step rules s hint).1 rest

/-- Each step of a pass is made in the text in which its hint is anchored. -/
theorem steps_run (rules : List Rule) (s : Text) (hints : List Hint) :
    (run rules s hints).steps = (reached rules s hints).map fun (hint, t) ↦ (step rules t hint).2 := by
  induction hints generalizing s with
  | nil => rfl
  | cons hint hints ih =>
    rw [reached, List.map_cons, ← ih]
    rfl

theorem map_fst_reached (rules : List Rule) (s : Text) (hints : List Hint) :
    (reached rules s hints).map (·.1) = hints := by
  induction hints generalizing s with
  | nil => rfl
  | cons hint hints ih => rw [reached, List.map_cons, ih]

theorem text_run_append (rules : List Rule) (s : Text) (a b : List Hint) :
    (run rules s (a ++ b)).text = (run rules (run rules s a).text b).text := by
  induction a generalizing s with
  | nil => rfl
  | cons hint a ih => exact ih (step rules s hint).1

/-- A pass over two lists repairs for the second one first. -/
theorem text_repair_append (rules : List Rule) (s : Text) (a b : List Hint) :
    (repair rules s (a ++ b)).text = (repair rules (repair rules s b).text a).text := by
  rw [repair, List.reverse_append, text_run_append]
  rfl

theorem text_repair_cons (rules : List Rule) (s : Text) (hint : Hint) (hints : List Hint) :
    (repair rules s (hint :: hints)).text = (step rules (repair rules s hints).text hint).1 := by
  rw [← List.singleton_append, text_repair_append]
  rfl

theorem repair_singleton (rules : List Rule) (s : Text) (hint : Hint) :
    repair rules s [hint] = ⟨(step rules s hint).1, [(step rules s hint).2]⟩ := rfl

theorem exists_of_mem_run_steps {made : Step} {hints : List Hint}
    (h : made ∈ (run rules s hints).steps) :
    ∃ t, ∃ hint ∈ hints, made = (step rules t hint).2 := by
  induction hints generalizing s with
  | nil => simp [run] at h
  | cons hint hints ih =>
    rcases List.mem_cons.mp h with rfl | h
    · exact ⟨s, hint, List.mem_cons_self, rfl⟩
    · obtain ⟨t, hint', hmem, heq⟩ := ih h
      exact ⟨t, hint', List.mem_cons_of_mem _ hmem, heq⟩

/-- What every step keeps, a pass keeps. -/
theorem run_invariant {P : Text → Prop} {hints : List Hint}
    (hstep : ∀ t, ∀ hint ∈ hints, P t → P (step rules t hint).1) (hs : P s) :
    P (run rules s hints).text := by
  induction hints generalizing s with
  | nil => exact hs
  | cons hint hints ih =>
    exact ih (fun t h hmem ↦ hstep t h (List.mem_cons_of_mem _ hmem))
      (hstep s hint List.mem_cons_self hs)

end LintMend.Repair
