import LintMend.Proofs.Registry.Run

/-!
# Registrations that are removed

A registry may have been written by anyone: rows may lack their line break, have fields that are
empty or quotes they do not need. Whatever can be read is read again, without the registrations that
were removed, from the rows that are written in its place. Where none is removed, or the file cannot
be read, nothing is written.
-/

namespace LintMend.Registry

open FileTree

variable {tree : FileTree} {path : String} {entry : Ruleset} {entries : List Ruleset}

/-- A file that holds a registration is there, so it can be written. -/
theorem exists_write_of_mem {found : Option Content} (hload : load tree path = .ok found)
    (hall : all found = .ok entries) (hmem : entry ∈ entries) (content : Content) :
    ∃ left, tree.write path content = .ok left ∧ load left path = .ok (some content) := by
  cases found with
  | none =>
    obtain rfl : [] = entries := Except.ok.inj hall
    simp at hmem
  | some held =>
    have hread : tree.read path = .ok held := by
      rw [load] at hload
      split at hload <;> simp_all
    obtain ⟨place, hleads, hheld⟩ := read_eq_ok_iff.mp hread
    exact ⟨_, write_of_leads hleads (by simp [hheld]) content, load_put hleads content⟩

theorem exists_load_of_allAt (h : allAt tree path = .ok entries) :
    ∃ found, load tree path = .ok found ∧ all found = .ok entries := by
  cases hload : load tree path with
  | error e => simp [allAt, hload, bind, Except.bind] at h
  | ok found =>
    rw [allAt_of_load hload, fault_eq_ok_iff] at h
    exact ⟨found, rfl, h⟩

/-- What cannot be read cannot be changed either. -/
theorem removeAt_of_allAt_eq_error {e : Error} (h : allAt tree path = .error e) (entry : Ruleset) :
    removeAt tree path entry = .error e := by
  rw [allAt] at h
  rw [removeAt]
  cases hload : load tree path with
  | error e' =>
    rw [hload] at h
    obtain rfl : e' = e := Except.error.inj h
    rfl
  | ok found =>
    rw [hload] at h
    simp only [bind, Except.bind, remove] at h ⊢
    cases hall : all found with
    | error problem =>
      rw [hall] at h
      obtain rfl : _ = e := Except.error.inj h
      rfl
    | ok entries => simp [hall, fault] at h

/-- From a file that can be read, whoever wrote it, a registration is removed as often as it is
there: the others are read as before and in their order, from a file that holds their rows, or from
the tree as it was where there was none to remove. Where the file cannot be read, neither a removal
nor a search for the registrations that cover a file says anything else, and the tree stays. -/
theorem remove_leaves_the_others (tree : FileTree) (path : String) (entry : Ruleset)
    (file : String) :
    (∀ entries, allAt tree path = .ok entries →
      ∃ left, (Request.remove entry).onFile path tree =
          (left, .ok (.removed (entries.count entry))) ∧
        allAt left path = .ok (entries.filter (· ≠ entry)) ∧
        (entries.count entry = 0 ∧ left = tree ∨
          entries.count entry ≠ 0 ∧
            load left path = .ok (some (.text (render (entries.filter (· ≠ entry))))))) ∧
    ∀ e, allAt tree path = .error e →
      (Request.remove entry).onFile path tree = (tree, .error e) ∧
        (Request.matching file).onFile path tree = (tree, .error e) := by
  constructor
  · intro entries hall
    obtain ⟨found, hload, hfound⟩ := exists_load_of_allAt hall
    have hremove := removeAt_of_load hload hfound entry
    by_cases hcount : entries.count entry = 0
    · rw [if_pos hcount] at hremove
      refine ⟨tree, ?_, ?_, .inl ⟨hcount, rfl⟩⟩
      · rw [Request.onFile, hremove, hcount]
        rfl
      · rw [hall, filter_ne_of_count_eq_zero hcount]
    · have hmem : entry ∈ entries := List.count_pos_iff.mp (Nat.pos_of_ne_zero hcount)
      obtain ⟨left, hwrite, hleft⟩ := exists_write_of_mem hload hfound hmem
        (.text (render (entries.filter (· ≠ entry))))
      rw [if_neg hcount, hwrite] at hremove
      refine ⟨left, ?_, ?_, .inr ⟨hcount, hleft⟩⟩
      · rw [Request.onFile, hremove]
        rfl
      · rw [allAt_of_load hleft, all, rulesetsOfText_render]
        rfl
  · intro e hall
    constructor
    · rw [Request.onFile, removeAt_of_allAt_eq_error hall]
      rfl
    · rw [Request.onFile, matchingAt_eq, hall]
      rfl

/-- A registration that stands there twice, once in quotes and once without a line break, goes from
between a blank line and a row with an empty field; a row of three fields is left alone. -/
theorem remove_leaves_the_others_of_foreign_rows :
    let tree : FileTree := ⟨"/w", [(["rulesets.csv"],
      .file (.text "\"/srv\",PSR2\r\n\n,\"a\"\"b\"\n/srv,PSR2".toList)),
      (["broken.csv"], .file (.text "/srv,PSR2,PSR12\n".toList))]⟩
    let entry : Ruleset := ⟨"/srv", "PSR2"⟩
    let e : Error := ⟨"broken.csv", .malformedRow 1 3⟩
    allAt tree "rulesets.csv" = .ok [entry, ⟨"", "a\"b"⟩, entry] ∧
    (∃ left, (Request.remove entry).onFile "rulesets.csv" tree = (left, .ok (.removed 2)) ∧
      allAt left "rulesets.csv" = .ok [⟨"", "a\"b"⟩]) ∧
    allAt tree "broken.csv" = .error e ∧
    (Request.remove entry).onFile "broken.csv" tree = (tree, .error e) ∧
    (Request.matching "/srv/A.php").onFile "broken.csv" tree = (tree, .error e) := by
  intro tree entry e
  have hall : allAt tree "rulesets.csv" = .ok [entry, ⟨"", "a\"b"⟩, entry] := by decide +kernel
  have herror : allAt tree "broken.csv" = .error e := by decide +kernel
  obtain ⟨left, hanswer, hleft, -⟩ :=
    (remove_leaves_the_others tree "rulesets.csv" entry "/srv/A.php").1 _ hall
  exact ⟨hall, ⟨left, hanswer, hleft⟩, herror,
    (remove_leaves_the_others tree "broken.csv" entry "/srv/A.php").2 e herror⟩

end LintMend.Registry
