import LintMend.Proofs.Repair.Engine
import Mathlib.Algebra.GroupWithZero.Nat

/-!
# What repairs leave of the code

The code of a text are its characters that are not blank. The rules that move blanks leave it as it
is, whatever the hints say. The rules that count spaces take a message at its word: they delete as
many characters behind their spot as the message counts beyond those it expects, and leave the code
as it is only where these are blank.
-/

namespace LintMend.Repair

open Text

variable {s t : Text} {rules : List Rule} {rule : Rule} {anchor : Anchor} {groups : Captures}

/-! ## Blanks that are moved -/

theorem code_applyEdits {edits : List Edit} (hlength : edits.length ≤ 1)
    (hblank : ∀ edit ∈ edits, IsBlankEdit s edit) (ht : s.applyEdits edits = .ok t) :
    code t = code s := by
  match edits, hlength with
  | [], _ =>
    rw [applyEdits_nil] at ht
    obtain rfl : s = t := by simpa using ht
    rfl
  | [edit], _ =>
    obtain ⟨before, held, after, hcuts, hheld, hreplacement⟩ := hblank edit List.mem_cons_self
    rw [applyEdits_single hcuts] at ht
    obtain rfl : before ++ edit.replacement ++ after = t := by simpa using ht
    rw [hcuts.text]
    simp only [code_append, code_eq_nil_iff.mpr hheld, code_eq_nil_iff.mpr hreplacement]

theorem code_step_of_movesBlanks (h : ∀ rule ∈ rules, rule.movesBlanks) (s : Text) (hint : Hint) :
    code (step rules s hint).1 = code s := by
  cases hfind : Rule.find? rules hint.message.toList with
  | none => rw [step_of_find?_eq_none hfind]
  | some answer =>
    obtain ⟨rule, found⟩ := answer
    obtain ⟨t, ht, hstep⟩ := step_of_find?_eq_some (s := s) hfind
    have hrule : rule.movesBlanks := h rule (mem_of_find? hfind).1
    have hlength : (rule.edits s (Anchor.clamp s hint) found.groups).length ≤ 1 := by
      apply length_edits_le
      rintro rfl
      exact absurd hrule (by decide)
    rw [hstep]
    exact code_applyEdits hlength
      (fun edit he ↦ isBlankEdit_of_movesBlanks (Anchor.within_clamp s hint) hrule he) ht

/-- However stale the hints, rules that move blanks neither delete nor duplicate code, nor do they
put it in another order. -/
theorem code_repair_of_movesBlanks (h : ∀ rule ∈ rules, rule.movesBlanks) (s : Text)
    (hints : List Hint) : code (repair rules s hints).text = code s :=
  run_invariant (P := fun t ↦ code t = code s)
    (fun t hint _ ht ↦ (code_step_of_movesBlanks h t hint).trans ht) rfl

/-- One hint is behind the end of its line, one behind the end of the text. -/
theorem code_repair_of_stale_hints :
    let rules : List Rule :=
      [.classBraceOnNewLine, .trailingWhitespace, .blankLinesBeforeClassClose]
    let s := "<?php\nclass Ä \x7b  \r\n\n\x7d\n".toList
    let hints : List Hint :=
      [⟨1, 1, 0, 0, "Opening brace of a class must be on the line after the definition",
        default, 100, "phpcs"⟩,
       ⟨1, 1, 99, 99, "Whitespace found at end of line", default, 100, "phpcs"⟩,
       ⟨9, 9, 0, 0, "Whitespace found at end of line", default, 100, "phpcs"⟩,
       ⟨3, 3, 0, 0, "The closing brace for the class must go on the next line after the body",
        default, 100, "phpcs"⟩]
    (∀ rule ∈ rules, rule.movesBlanks) ∧
    (repair rules s hints).text = "<?php\nclass Ä \n\x7b\r\n\x7d\n".toList ∧
    code (repair rules s hints).text = code s :=
  ⟨by decide, by decide +kernel, code_repair_of_movesBlanks (by decide) _ _⟩

/-! ## Spaces that are counted -/

/-- The characters behind the spot of a rule that a message counts beyond those it expects. -/
def Rule.surplus? (s : Text) (anchor : Anchor) (groups : Captures) (rule : Rule) : Option Text := do
  let (expected, counted) ← rule.counts? groups
  let rest ← s.after? (← rule.spot? s anchor groups)
  return rest.take (counted - expected)

theorem Rule.surplus?_eq {counts : Nat × Nat} {before after : Text}
    (hcounts : rule.counts? groups = some counts)
    (hspot : rule.spot? s anchor groups = some (size before)) (hs : s = before ++ after) :
    rule.surplus? s anchor groups = some (after.take (counts.2 - counts.1)) := by
  subst hs
  simp [surplus?, hcounts, hspot]

/-- A rule that counts spaces and finds nothing to do has no surplus. -/
theorem Rule.surplus?_of_edits_eq_nil (h : anchor.Within s) (hrule : rule.countsSpaces)
    (hedits : rule.edits s anchor groups = []) :
    (rule.surplus? s anchor groups).getD [] = [] := by
  rw [Rule.edits_of_countsSpaces hrule, Option.toList_eq_nil_iff] at hedits
  cases hcounts : rule.counts? groups with
  | none => simp [Rule.surplus?, hcounts]
  | some counts =>
    cases hspot : rule.spot? s anchor groups with
    | none => simp [Rule.surplus?, hspot]
    | some offset =>
      obtain ⟨before, after, hs, rfl⟩ := isBoundary_iff.mp (Rule.isBoundary_of_spot? h hspot)
      have hnone : adjustSpaces? s (size before) counts.1 counts.2 = none := by
        simpa [hcounts, hspot] using hedits
      rw [adjustSpaces?_eq hs rfl] at hnone
      rw [Rule.surplus?_eq hcounts hspot hs, Option.getD_some]
      split at hnone
      · simp at hnone
      · split at hnone
        · next hempty => exact hempty
        · simp at hnone

/-- Spaces stand where the surplus characters stood, and all else is as it was. -/
theorem exists_of_countsSpaces (h : anchor.Within s) (hrule : rule.countsSpaces)
    (ht : s.applyEdits (rule.edits s anchor groups) = .ok t) :
    ∃ before after spaces, s = before ++ (rule.surplus? s anchor groups).getD [] ++ after ∧
      t = before ++ List.replicate spaces ' ' ++ after := by
  cases hedits : rule.edits s anchor groups with
  | nil =>
    rw [hedits, applyEdits_nil] at ht
    obtain rfl : s = t := by simpa using ht
    exact ⟨s, [], 0, by simp [Rule.surplus?_of_edits_eq_nil h hrule hedits], by simp⟩
  | cons edit rest =>
    have hlength : (rule.edits s anchor groups).length ≤ 1 := by
      apply length_edits_le
      rintro rfl
      exact absurd hrule (by decide)
    obtain rfl : rest = [] := by simpa [hedits] using hlength
    have he : edit ∈ rule.edits s anchor groups := by simp [hedits]
    obtain ⟨counts, before, after, hcounts, hspot, hs, hcuts, hreplacement⟩ :=
      Rule.cuts_of_countsSpaces h hrule he
    rw [hedits, applyEdits_single hcuts, Except.ok.injEq] at ht
    refine ⟨before, after.drop (counts.2 - counts.1), counts.1 - counts.2, ?_, ?_⟩
    · rw [Rule.surplus?_eq hcounts hspot hs]
      exact hcuts.text
    · rw [← hreplacement, ht]

/-- What a step of a pass takes for surplus. -/
def surplus (rules : List Rule) (s : Text) (hint : Hint) : Text :=
  ((Rule.find? rules hint.message.toList).bind fun (rule, found) ↦
    rule.surplus? s (Anchor.clamp s hint) found.groups).getD []

/-- What the steps of a pass take for surplus, each in the text as it is then. -/
def surpluses (rules : List Rule) : Text → List Hint → List Text
  | _, [] => []
  | s, hint :: rest => surplus rules s hint :: surpluses rules (step rules s hint).1 rest

theorem exists_code_step (h : ∀ rule ∈ rules, rule.countsSpaces) (s : Text) (hint : Hint) :
    ∃ before after, code s = before ++ code (surplus rules s hint) ++ after ∧
      code (step rules s hint).1 = before ++ after := by
  cases hfind : Rule.find? rules hint.message.toList with
  | none =>
    rw [step_of_find?_eq_none hfind]
    exact ⟨code s, [], by simp [surplus, hfind], by simp⟩
  | some answer =>
    obtain ⟨rule, found⟩ := answer
    obtain ⟨t, ht, hstep⟩ := step_of_find?_eq_some (s := s) hfind
    obtain ⟨before, after, spaces, hs, rfl⟩ :=
      exists_of_countsSpaces (Anchor.within_clamp s hint) (h rule (mem_of_find? hfind).1) ht
    have hspaces : code (List.replicate spaces ' ') = [] :=
      code_eq_nil_iff.mpr (isAllBlank_replicate isBlank_space spaces)
    have hsurplus : surplus rules s hint =
        (rule.surplus? s (Anchor.clamp s hint) found.groups).getD [] := by
      simp [surplus, hfind]
    refine ⟨code before, code after, ?_, ?_⟩
    · rw [hsurplus, ← code_append, ← code_append, ← hs]
    · rw [hstep]
      simp only [code_append, hspaces, List.append_nil]

theorem code_run_sublist (h : ∀ rule ∈ rules, rule.countsSpaces) (s : Text) (hints : List Hint) :
    (code (run rules s hints).text).Sublist (code s) := by
  refine run_invariant (P := fun t ↦ (code t).Sublist (code s)) ?_ (List.Sublist.refl _)
  intro t hint _ ht
  obtain ⟨before, after, hcode, hstep⟩ := exists_code_step h t hint
  refine List.Sublist.trans ?_ ht
  rw [hstep, hcode, List.append_assoc]
  exact (List.Sublist.refl before).append (List.sublist_append_right _ after)

/-- Every character of code that a pass takes away was surplus at one of its steps. -/
theorem length_code_run (h : ∀ rule ∈ rules, rule.countsSpaces) (s : Text) (hints : List Hint) :
    (code (run rules s hints).text).length +
      ((surpluses rules s hints).map fun held ↦ (code held).length).sum = (code s).length := by
  induction hints generalizing s with
  | nil => rfl
  | cons hint hints ih =>
    obtain ⟨before, after, hcode, hstep⟩ := exists_code_step h s hint
    have hrest := ih (step rules s hint).1
    rw [hstep, List.length_append] at hrest
    rw [hcode, surpluses, List.map_cons, List.sum_cons, List.length_append, List.length_append]
    change (code (run rules (step rules s hint).1 hints).text).length + _ = _
    omega

/-- Rules that count spaces add no code and keep what they leave of it in its order. They leave all
of it exactly when the surplus characters of every step are blank. -/
theorem code_repair_of_countsSpaces (h : ∀ rule ∈ rules, rule.countsSpaces) (s : Text)
    (hints : List Hint) :
    (code (repair rules s hints).text).Sublist (code s) ∧
    (code (repair rules s hints).text = code s ↔
      ∀ held ∈ surpluses rules s hints.reverse, held.isAllBlank) := by
  have hsub := code_run_sublist h s hints.reverse
  have hlength := length_code_run h s hints.reverse
  refine ⟨hsub, ?_⟩
  calc code (repair rules s hints).text = code s
      ↔ (code s).length ≤ (code (run rules s hints.reverse).text).length :=
        ⟨fun heq ↦ Nat.le_of_eq (congrArg List.length heq.symm), hsub.eq_of_length_le⟩
    _ ↔ ((surpluses rules s hints.reverse).map fun held ↦ (code held).length).sum = 0 := by omega
    _ ↔ ∀ held ∈ surpluses rules s hints.reverse, held.isAllBlank := by
      rw [List.sum_eq_zero_iff_forall_eq_nat]
      simp [code_eq_nil_iff]

/-- Spaces that are there as they were counted. -/
theorem code_repair_of_counted_spaces :
    let rules : List Rule := [.keywordSpacing, .indentation]
    let s := "<?php\n  if   ($a) \x7b\n".toList
    let hints : List Hint :=
      [⟨1, 1, 0, 0, "Line indented incorrectly; expected 4 spaces, found 2", default, 100, "phpcs"⟩,
       ⟨1, 1, 2, 3, "Expected 1 space after IF keyword; 3 found", default, 100, "phpcs"⟩]
    (∀ rule ∈ rules, rule.countsSpaces) ∧
    surpluses rules s hints.reverse = ["  ".toList, []] ∧
    (repair rules s hints).text = "<?php\n    if ($a) \x7b\n".toList ∧
    (code (repair rules s hints).text).Sublist (code s) ∧
    (code (repair rules s hints).text = code s ↔
      ∀ held ∈ surpluses rules s hints.reverse, held.isAllBlank) :=
  ⟨by decide, by decide +kernel, by decide +kernel, code_repair_of_countsSpaces (by decide) _ _⟩

/-- A message that counts three spaces where there are none costs two characters of code. -/
theorem code_repair_of_miscounted_spaces :
    let rules : List Rule := [.keywordSpacing]
    let s := "<?php\nif($a) \x7b\n".toList
    let hints : List Hint :=
      [⟨1, 1, 0, 1, "Expected 1 space after IF keyword; 3 found", default, 100, "phpcs"⟩]
    (∀ rule ∈ rules, rule.countsSpaces) ∧
    (repair rules s hints).text = "<?php\nifa) \x7b\n".toList ∧
    code (repair rules s hints).text ≠ code s := by
  decide +kernel

end LintMend.Repair
