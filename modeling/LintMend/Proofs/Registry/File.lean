import LintMend.Proofs.Files.Tree
import LintMend.Proofs.Registry.Content

/-!
# The file of a registry

Where the path of a registry leads to a file, or to where one can be, the operations read and write
that file and nothing else. An added registration is read back behind the others exactly where every
row of the file had its line break.
-/

namespace LintMend.Registry

open FileTree

variable {tree tree' : FileTree} {path : String} {place : Place} {content : Content}
  {entry : Ruleset} {entries : List Ruleset}

/-! ## Reading -/

theorem load_of_leads (h : tree.Leads path place) :
    load tree path = .ok (tree.content? place) := by
  rw [load, h.read]
  cases tree.content? place <;> rfl

theorem load_put (h : tree.Leads path place) (content : Content) :
    load (tree.put place (.file content)) path = .ok (some content) := by
  rw [load_of_leads (h.put content), content?_put_self h.ne_nil]

theorem allAt_of_load {found : Option Content} (h : load tree path = .ok found) :
    allAt tree path = fault path (all found) := by
  rw [allAt, h]
  rfl

/-- Rows that cover a file are chosen from all, so there is no other way to fail. -/
theorem matchingAt_eq (tree : FileTree) (path file : String) : matchingAt tree path file =
    (allAt tree path).map fun entries ↦ entries.filter (·.appliesTo file) := by
  rw [matchingAt, allAt]
  cases load tree path with
  | error e => rfl
  | ok found =>
    simp only [bind, Except.bind, matching]
    cases all found <;> rfl

theorem fileFault_eq_ok_iff {α : Type} {result : Except FileError α} {a : α} :
    fileFault path result = .ok a ↔ result = .ok a := by
  cases result <;> simp [fileFault]

theorem fault_eq_ok_iff {α : Type} {result : Except Fault α} {a : α} :
    fault path result = .ok a ↔ result = .ok a := by
  cases result <;> simp [fault]

/-! ## Removing -/

theorem length_sub_length_filter (entries : List Ruleset) (entry : Ruleset) :
    entries.length - (entries.filter (· ≠ entry)).length = entries.count entry := by
  have hsplit := List.length_eq_length_filter_add (l := entries) (· == entry)
  have hne : (fun e : Ruleset ↦ !(e == entry)) = fun e ↦ decide (e ≠ entry) := by
    funext e
    rw [Bool.eq_iff_iff]
    simp
  rw [hne, ← List.count_eq_length_filter] at hsplit
  omega

theorem filter_ne_of_count_eq_zero (h : entries.count entry = 0) :
    entries.filter (· ≠ entry) = entries := by
  rw [List.filter_eq_self]
  intro e he
  simpa using ne_of_mem_of_not_mem he (List.count_eq_zero.mp h)

/-- The file is written anew only where a registration goes. -/
theorem removeAt_of_load {found : Option Content} (hload : load tree path = .ok found)
    (hall : all found = .ok entries) (entry : Ruleset) : removeAt tree path entry =
      if entries.count entry = 0 then .ok (0, tree)
      else (fileFault path (tree.write path (.text (render (entries.filter (· ≠ entry)))))).map
        fun left ↦ (entries.count entry, left) := by
  have hremove : remove found entry =
      .ok (entries.count entry, if entries.count entry = 0 then found
        else some (.text (render (entries.filter (· ≠ entry))))) := by
    simp only [remove, hall, Except.map, length_sub_length_filter]
  simp only [removeAt, hload, hremove, fault, bind, Except.bind]
  by_cases hcount : entries.count entry = 0
  · simp only [hcount]
    cases found <;> rfl
  · simp only [if_neg hcount]
    rfl

/-! ## Adding -/

theorem check_eq_ok_iff : check entry = .ok () ↔ entry.directory ≠ "" ∧ entry.ruleset ≠ "" := by
  simp only [check, String.isEmpty_iff]
  split
  · next h => simpa [imp_iff_not_or] using h
  · next h => simpa [not_or] using h

theorem exists_of_addAt (h : addAt tree path entry = .ok tree') :
    (entry.directory ≠ "" ∧ entry.ruleset ≠ "") ∧ ∃ place, tree.filePlace path = .ok place ∧
      tree' =
        tree.put place (.file (((tree.content? place).getD (.text [])).append entry.row)) := by
  obtain ⟨_, hcheck, happend⟩ := exists_of_bind_eq_ok h
  exact ⟨check_eq_ok_iff.mp (fault_eq_ok_iff.mp hcheck),
    exists_of_append (fileFault_eq_ok_iff.mp happend)⟩

/-- The file is missing, or every row of it has its line break. -/
def RowsEnd (tree : FileTree) (path : String) : Prop :=
  ∀ text, load tree path = .ok (some (.text text)) → Csv.EndsRow text

/-- A file that can be read holds a text; a missing one is read as an empty one. -/
theorem exists_text_of_all {found : Option Content} (h : all found = .ok entries) :
    ∃ text, found.getD (.text []) = .text text ∧ rulesetsOfText text = .ok entries := by
  rcases found with _ | text | bytes
  · exact ⟨[], rfl, h⟩
  · exact ⟨text, rfl, h⟩
  · simp [all] at h

theorem rowsEnd_iff_of_load {found : Option Content} {text : Text}
    (hload : load tree path = .ok found) (htext : found.getD (.text []) = .text text) :
    RowsEnd tree path ↔ Csv.EndsRow text := by
  rw [RowsEnd, hload]
  cases found with
  | none =>
    obtain rfl : [] = text := Content.text.inj htext
    simp [Csv.EndsRow]
  | some content =>
    obtain rfl : content = .text text := htext
    simp

/-- An added registration comes behind the others where every row of the file has its line break.
Otherwise the file can no longer be read, for the last row and the new one have become one. -/
theorem allAt_of_addAt_iff_rowsEnd (hall : allAt tree path = .ok entries)
    (hadd : addAt tree path entry = .ok tree') :
    (allAt tree' path = .ok (entries ++ [entry]) ↔ RowsEnd tree path) ∧
      (RowsEnd tree path ∨ ∃ line, allAt tree' path = .error ⟨path, .malformedRow line 3⟩) := by
  obtain ⟨⟨hdirectory, -⟩, place, hplace, rfl⟩ := exists_of_addAt hadd
  have hleads := leads_of_filePlace hplace
  have hload := load_of_leads hleads
  rw [allAt_of_load hload, fault_eq_ok_iff] at hall
  obtain ⟨text, htext, hrulesets⟩ := exists_text_of_all hall
  rw [allAt_of_load (load_put hleads _), htext, Content.append, all,
    rowsEnd_iff_of_load hload htext]
  by_cases hrows : Csv.EndsRow text
  · rw [rulesetsOfText_append_row hrulesets hrows]
    exact ⟨iff_of_true rfl hrows, .inl hrows⟩
  · obtain ⟨line, hline⟩ := rulesetsOfText_append_row_of_not_endsRow hrulesets hrows hdirectory
    rw [hline]
    exact ⟨iff_of_false (by simp [fault]) hrows, .inr ⟨line, rfl⟩⟩

theorem allAt_of_addAt_of_unended_row : ∃ tree tree' : FileTree,
    load tree "rulesets.csv" = .ok (some (.text "/srv/app,PSR2".toList)) ∧
    allAt tree "rulesets.csv" = .ok [⟨"/srv/app", "PSR2"⟩] ∧
    addAt tree "rulesets.csv" ⟨"/srv/lib", "PSR12"⟩ = .ok tree' ∧
    ∃ line, allAt tree' "rulesets.csv" = .error ⟨"rulesets.csv", .malformedRow line 3⟩ := by
  let tree : FileTree := ⟨"/w", [(["rulesets.csv"], .file (.text "/srv/app,PSR2".toList))]⟩
  let tree' : FileTree :=
    ⟨"/w", [(["rulesets.csv"], .file (.text "/srv/app,PSR2/srv/lib,PSR12\n".toList))]⟩
  have hload : load tree "rulesets.csv" = .ok (some (.text "/srv/app,PSR2".toList)) := by
    decide +kernel
  have hall : allAt tree "rulesets.csv" = .ok [⟨"/srv/app", "PSR2"⟩] := by decide +kernel
  have hadd : addAt tree "rulesets.csv" ⟨"/srv/lib", "PSR12"⟩ = .ok tree' := by decide +kernel
  have hrows : ¬ RowsEnd tree "rulesets.csv" := fun h ↦ absurd (h _ hload) (by decide)
  have hfault := (allAt_of_addAt_iff_rowsEnd hall hadd).2.resolve_left hrows
  exact ⟨tree, tree', hload, hall, hadd, hfault⟩

end LintMend.Registry
