import LintMend.Proofs.Csv.Behind
import LintMend.Registry
import Mathlib.Data.List.Induction

/-!
# Registrations in the text of a registry

The file of a registry that holds the rows of some registrations is read as these. A registration
added behind any text that can be read is read back behind the others where every row has its line
break; where the last row has none, it becomes a row of three fields with the new one.
-/

namespace LintMend.Registry

variable {text : Text} {entry : Ruleset} {entries : List Ruleset} {records before : List Csv.Record}
  {last : Csv.Record} {fault : Fault}

theorem isRow_row (entry : Ruleset) :
    Csv.IsRow [entry.directory.toList, entry.ruleset.toList] := .inl (Nat.le_refl 2)

/-! ## Records -/

theorem rulesetOf_row (line : Nat) (entry : Ruleset) :
    rulesetOf ⟨line, [entry.directory.toList, entry.ruleset.toList]⟩ = .ok entry := by
  simp [rulesetOf]

theorem length_fields_of_rulesetOf {record : Csv.Record} (h : rulesetOf record = .ok entry) :
    record.fields.length = 2 := by
  rw [rulesetOf] at h
  split at h
  · next hfields => rw [hfields]; rfl
  · simp at h

theorem rulesetOf_of_length {record : Csv.Record} (h : record.fields.length ≠ 2) :
    rulesetOf record = .error (.malformedRow record.line record.fields.length) := by
  rw [rulesetOf]
  split
  · next hfields => simp [hfields] at h
  · rfl

theorem mapM_concat (before : List Csv.Record) (last : Csv.Record) :
    (before ++ [last]).mapM rulesetOf =
      (before.mapM rulesetOf).bind fun entries ↦
        (rulesetOf last).map fun entry ↦ entries ++ [entry] := by
  rw [List.mapM_append, List.mapM_cons, List.mapM_nil]
  cases before.mapM rulesetOf with
  | error fault => rfl
  | ok entries => cases rulesetOf last <;> rfl

theorem mapM_concat_eq_ok_iff : (before ++ [last]).mapM rulesetOf = .ok entries ↔
    ∃ entries' entry, before.mapM rulesetOf = .ok entries' ∧ rulesetOf last = .ok entry ∧
      entries' ++ [entry] = entries := by
  rw [mapM_concat]
  cases before.mapM rulesetOf with
  | error fault => simp [Except.bind]
  | ok entries' => cases rulesetOf last <;> simp [Except.bind, Except.map]

theorem rulesetsOfText_eq_ok_iff : rulesetsOfText text = .ok entries ↔
    ∃ records, Csv.parse text = .ok records ∧ records.mapM rulesetOf = .ok entries := by
  rw [rulesetsOfText]
  cases Csv.parse text <;> simp

/-! ## A row behind the others -/

theorem rulesetsOfText_append_row (h : rulesetsOfText text = .ok entries)
    (htext : Csv.EndsRow text) (entry : Ruleset) :
    rulesetsOfText (text ++ entry.row) = .ok (entries ++ [entry]) := by
  obtain ⟨records, hparse, hrecords⟩ := rulesetsOfText_eq_ok_iff.mp h
  obtain ⟨line, hparse'⟩ := Csv.Reader.parse_append_of_endsRow hparse htext (isRow_row entry)
  exact rulesetsOfText_eq_ok_iff.mpr ⟨_, hparse',
    mapM_concat_eq_ok_iff.mpr ⟨entries, entry, hrecords, rulesetOf_row line entry, rfl⟩⟩

theorem rulesetsOfText_append_row_of_not_endsRow (h : rulesetsOfText text = .ok entries)
    (htext : ¬ Csv.EndsRow text) (hentry : entry.directory ≠ "") :
    ∃ line, rulesetsOfText (text ++ entry.row) = .error (.malformedRow line 3) := by
  obtain ⟨records, hparse, hrecords⟩ := rulesetsOfText_eq_ok_iff.mp h
  have hdirectory : entry.directory.toList ≠ [] := by simpa using hentry
  obtain ⟨before, last, row, rfl, hparse', hlength⟩ := Csv.Reader.parse_append_of_not_endsRow hparse
    htext hdirectory entry.ruleset.toList []
  obtain ⟨entries', entry', hbefore, hlast, -⟩ := mapM_concat_eq_ok_iff.mp hrecords
  rw [length_fields_of_rulesetOf hlast] at hlength
  have hrow : rulesetOf ⟨last.line, row⟩ = .error (.malformedRow last.line 3) := by
    rw [rulesetOf_of_length (by simp [hlength]), hlength]
    rfl
  refine ⟨last.line, ?_⟩
  simp only [rulesetsOfText, Ruleset.row, hparse', mapM_concat, hbefore, hrow]
  rfl

/-! ## The rows of a list -/

theorem render_concat (entries : List Ruleset) (entry : Ruleset) :
    render (entries ++ [entry]) = render entries ++ entry.row := by
  simp [render]

theorem endsRow_render (entries : List Ruleset) : Csv.EndsRow (render entries) := by
  rcases List.eq_nil_or_concat entries with rfl | ⟨before, entry, rfl⟩
  · exact .inl rfl
  · refine .inr ?_
    rw [List.concat_eq_append, render_concat, Ruleset.row, Csv.writeRecord, ← List.append_assoc,
      List.getLast?_concat]

theorem rulesetsOfText_render (entries : List Ruleset) :
    rulesetsOfText (render entries) = .ok entries := by
  induction entries using List.reverseRecOn with
  | nil => rfl
  | append_singleton before entry ih =>
    rw [render_concat]
    exact rulesetsOfText_append_row ih (endsRow_render before) entry

end LintMend.Registry
