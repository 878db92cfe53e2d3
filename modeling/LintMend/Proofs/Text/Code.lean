import LintMend.Proofs.Text.Search

/-!
# Code and blank characters

The code of a text is the sequence of its characters that are not blank. Blank pieces have no code,
so they can be put in, taken out and replaced without changing the code of the text around them.
-/

namespace LintMend.Text

variable {s : Text}

/-! ## Blank characters -/

theorem isBlank_space : isBlank ' ' := by decide

theorem isBlank_tab : isBlank '\t' := by decide

theorem isBlank_lineFeed : isBlank '\n' := by decide

theorem isBlank_carriageReturn : isBlank '\r' := by decide

theorem isAllBlank_of_spaceOrTab (h : s.all isSpaceOrTab) : s.isAllBlank := by
  refine List.all_eq_true.mpr fun c hc ↦ ?_
  have hcase : c = ' ' ∨ c = '\t' := by
    simpa [isSpaceOrTab] using List.all_eq_true.mp h c hc
  rcases hcase with rfl | rfl
  · exact isBlank_space
  · exact isBlank_tab

theorem isAllBlank_of_lineBreak (h : s.all fun c ↦ c == '\n' || c == '\r') : s.isAllBlank := by
  refine List.all_eq_true.mpr fun c hc ↦ ?_
  have hcase : c = '\n' ∨ c = '\r' := by simpa using List.all_eq_true.mp h c hc
  rcases hcase with rfl | rfl
  · exact isBlank_lineFeed
  · exact isBlank_carriageReturn

theorem isAllBlank_replicate {c : Char} (hc : isBlank c) (count : Nat) :
    isAllBlank (List.replicate count c) := by
  rw [isAllBlank, List.all_replicate, hc]
  simp

/-! ## Code -/

/-- The characters of a text that are not blank, in their order. -/
def code (s : Text) : Text := s.filter fun c ↦ !isBlank c

@[simp] theorem code_nil : code [] = [] := rfl

@[simp] theorem code_append (a b : Text) : code (a ++ b) = code a ++ code b :=
  List.filter_append ..

theorem code_eq_nil_iff : code s = [] ↔ s.isAllBlank := by
  simp [code, isAllBlank]

end LintMend.Text
