import LintMend.Output.Entry

/-!
# What a summary counts

A summary is made entry by entry. Each of its numbers is a count over all entries, so the order in
which they were reported does not show in it.
-/

namespace LintMend.Summary

variable {entries : List Entry}

theorem foldl_add (s : Summary) (entries : List Entry) : entries.foldl add s =
    { filesProcessed := s.filesProcessed + entries.length
      filesWithHints := s.filesWithHints + entries.countP fun entry ↦ !entry.hints.isEmpty
      totalHints := s.totalHints + (entries.flatMap (·.hints)).length
      filesWithChanges := s.filesWithChanges + entries.countP (·.isChanged)
      totalRepairs :=
        s.totalRepairs + ((entries.filter (·.isChanged)).flatMap (·.applied)).length
      adapterFailures := s.adapterFailures + (entries.flatMap (·.failures)).length
      errors := s.errors + entries.countP (·.error?.isSome) } := by
  induction entries generalizing s with
  | nil => rfl
  | cons entry entries ih =>
    have hrepairs : (((entry :: entries).filter (·.isChanged)).flatMap (·.applied)).length =
        (if entry.isChanged then entry.applied.length else 0) +
          ((entries.filter (·.isChanged)).flatMap (·.applied)).length := by
      rw [List.filter_cons]
      split <;> simp
    have hhints : (if entry.hints.isEmpty then 0 else 1) =
        if (!entry.hints.isEmpty) = true then 1 else 0 := by
      cases entry.hints.isEmpty <;> rfl
    rw [List.foldl_cons, ih, add, hrepairs, hhints]
    simp only [List.length_cons, List.countP_cons, List.flatMap_cons, List.length_append,
      Summary.mk.injEq]
    refine ⟨?_, ?_, ?_, ?_, ?_, ?_, ?_⟩ <;> omega

theorem ofEntries_eq (entries : List Entry) : ofEntries entries =
    { filesProcessed := entries.length
      filesWithHints := entries.countP fun entry ↦ !entry.hints.isEmpty
      totalHints := (entries.flatMap (·.hints)).length
      filesWithChanges := entries.countP (·.isChanged)
      totalRepairs := ((entries.filter (·.isChanged)).flatMap (·.applied)).length
      adapterFailures := (entries.flatMap (·.failures)).length
      errors := entries.countP (·.error?.isSome) } := by
  rw [ofEntries, foldl_add]
  simp [empty]

/-- Whether there was an error, whether a file changes and whether there are hints shows in the
summary. -/
theorem errors_pos_iff :
    0 < (ofEntries entries).errors ↔ ∃ entry ∈ entries, entry.error?.isSome := by
  rw [ofEntries_eq, List.countP_pos_iff]

theorem filesWithChanges_pos_iff :
    0 < (ofEntries entries).filesWithChanges ↔ ∃ entry ∈ entries, entry.isChanged := by
  rw [ofEntries_eq, List.countP_pos_iff]

theorem totalHints_pos_iff :
    0 < (ofEntries entries).totalHints ↔ ∃ entry ∈ entries, entry.hints ≠ [] := by
  rw [ofEntries_eq, List.length_pos_iff]
  simp

end LintMend.Summary
