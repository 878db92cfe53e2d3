import LintMend.Files.Collect
import LintMend.Proofs.Files.Below
import LintMend.Proofs.Files.Order

/-!
# The files to work on

A file can be found several times: by name, below two directories one of which is in the other, or
under paths that differ in what means nothing. Whether a path is excluded depends on how it is
written. So the paths are excluded one at a time, and of those that remain and are equal as paths
one is kept. Sorting puts equal paths next to each other, so it is enough to drop every path that is
equal to the one before it.
-/

namespace LintMend.Collected

variable {files : FileTree} {settings : ProjectSettings} {paths other l : List String}
  {path : String} {k : List Path.Component}

/-! ## Equal neighbours -/

theorem dedup_cons_cons (a b : String) (rest : List String) : dedup (a :: b :: rest) =
    if Path.components a = Path.components b then a :: (dedup (b :: rest)).drop 1
    else a :: dedup (b :: rest) := by
  rw [dedup]

/-- The first path is kept. -/
theorem exists_dedup_cons (a : String) (rest : List String) :
    ∃ kept, dedup (a :: rest) = a :: kept := by
  cases rest with
  | nil => exact ⟨[], rfl⟩
  | cons b rest =>
    rw [dedup_cons_cons]
    split
    · exact ⟨_, rfl⟩
    · exact ⟨_, rfl⟩

theorem dedup_sublist (l : List String) : (dedup l).Sublist l := by
  induction l with
  | nil => exact List.Sublist.refl []
  | cons a l ih =>
    cases l with
    | nil => exact List.Sublist.refl [a]
    | cons b rest =>
      rw [dedup_cons_cons]
      split
      · exact ((List.drop_sublist 1 _).trans ih).cons_cons a
      · exact ih.cons_cons a

/-- Of equal paths one remains. -/
theorem mem_map_dedup_iff :
    k ∈ (dedup l).map Path.components ↔ k ∈ l.map Path.components := by
  induction l with
  | nil => exact Iff.rfl
  | cons a l ih =>
    cases l with
    | nil => exact Iff.rfl
    | cons b rest =>
      obtain ⟨kept, hkept⟩ := exists_dedup_cons b rest
      rw [dedup_cons_cons]
      rw [hkept, List.map_cons, List.mem_cons] at ih
      split
      · next heq =>
        rw [hkept, List.drop_one, List.tail_cons, List.map_cons, List.map_cons, List.mem_cons,
          List.mem_cons, heq, ← ih, or_self_left]
      · rw [hkept, List.map_cons, List.map_cons, List.map_cons, List.mem_cons, List.mem_cons,
          List.mem_cons (l := (b :: rest).map Path.components), ih]

/-- Equal paths of a sorted list are neighbours, so that none are left. -/
theorem pairwise_dedup (h : l.Pairwise fun a b ↦ Path.key a ≤ Path.key b) :
    (dedup l).Pairwise Path.Lt := by
  induction l with
  | nil => exact List.Pairwise.nil
  | cons a l ih =>
    cases l with
    | nil => exact List.pairwise_singleton Path.Lt a
    | cons b rest =>
      obtain ⟨hfirst, hsorted⟩ := List.pairwise_cons.mp h
      obtain ⟨kept, hkept⟩ := exists_dedup_cons b rest
      have hpairs := ih hsorted
      rw [hkept] at hpairs
      obtain ⟨hbelow, hlater⟩ := List.pairwise_cons.mp hpairs
      rw [dedup_cons_cons, hkept]
      split
      · next heq =>
        refine List.pairwise_cons.mpr ⟨fun c hc ↦ ?_, hlater⟩
        rw [Path.lt_iff, Path.key_eq_iff.mpr heq, ← Path.lt_iff]
        exact hbelow c hc
      · next hne =>
        have hab : Path.Lt a b :=
          Path.lt_iff.mpr ((hfirst b List.mem_cons_self).lt_of_ne (mt Path.key_eq_iff.mp hne))
        refine List.pairwise_cons.mpr ⟨fun c hc ↦ ?_, hpairs⟩
        rcases List.mem_cons.mp hc with rfl | hc
        · exact hab
        · exact Path.lt_iff.mpr ((Path.lt_iff.mp hab).trans (Path.lt_iff.mp (hbelow c hc)))

/-! ## What is found -/

/-- A path that is not excluded as it is written, and is that of a file which was named, or which
was found below a directory that was named and whose name has the extension of the language. -/
structure Wanted (files : FileTree) (settings : ProjectSettings) (paths : List String)
    (path : String) : Prop where
  included : settings.isExcluded path = false
  found : (path ∈ paths ∧ files.isFile path = true) ∨
    (Path.extension? path = some "php" ∧ ∃ directory ∈ paths, path ∈ files.filesBelow directory)

theorem Wanted.mono (h : Wanted files settings paths path) (hsub : paths ⊆ other) :
    Wanted files settings other path where
  included := h.included
  found := h.found.imp (fun hfile ↦ ⟨hsub hfile.1, hfile.2⟩) fun ⟨hphp, directory, hmem, hbelow⟩ ↦
    ⟨hphp, directory, hsub hmem, hbelow⟩

/-- Below a file there is nothing. -/
theorem filesBelow_of_isFile (h : files.isFile path = true) : files.filesBelow path = [] := by
  obtain ⟨place, content, hlook⟩ := FileTree.isFile_iff.mp h
  unfold FileTree.filesBelow
  rw [hlook]

theorem mem_candidates_iff {named : String} : path ∈ candidates files named ↔
    (path = named ∧ files.isFile path = true) ∨
      (Path.extension? path = some "php" ∧ path ∈ files.filesBelow named) := by
  unfold candidates
  split
  · next hfile =>
    rw [List.mem_singleton, filesBelow_of_isFile hfile]
    constructor
    · rintro rfl
      exact .inl ⟨rfl, hfile⟩
    · rintro (⟨rfl, -⟩ | ⟨-, hmem⟩)
      · rfl
      · exact absurd hmem List.not_mem_nil
  · next hfile =>
    rw [List.mem_filter, beq_iff_eq, and_comm (a := path ∈ _)]
    constructor
    · exact .inr
    · rintro (⟨rfl, hisFile⟩ | hbelow)
      · exact absurd hisFile hfile
      · exact hbelow

/-- All paths that are found and not excluded, as often as they are found. -/
def included (files : FileTree) (settings : ProjectSettings) (paths : List String) : List String :=
  (paths.flatMap (candidates files)).filter fun file ↦ !settings.isExcluded file

theorem mem_included_iff :
    path ∈ included files settings paths ↔ Wanted files settings paths path := by
  unfold included
  rw [List.mem_filter, List.mem_flatMap, Bool.not_eq_true']
  simp only [mem_candidates_iff]
  constructor
  · rintro ⟨⟨named, hmem, ⟨rfl, hfile⟩ | ⟨hphp, hbelow⟩⟩, hincluded⟩
    · exact ⟨hincluded, .inl ⟨hmem, hfile⟩⟩
    · exact ⟨hincluded, .inr ⟨hphp, named, hmem, hbelow⟩⟩
  · rintro ⟨hincluded, ⟨hmem, hfile⟩ | ⟨hphp, named, hmem, hbelow⟩⟩
    · exact ⟨⟨path, hmem, .inl ⟨rfl, hfile⟩⟩, hincluded⟩
    · exact ⟨⟨named, hmem, .inr ⟨hphp, hbelow⟩⟩, hincluded⟩

theorem files_ofPaths : (ofPaths files settings paths).files =
    dedup ((included files settings paths).mergeSort Path.le) := rfl

theorem pairwise_files : (ofPaths files settings paths).files.Pairwise Path.Lt := by
  rw [files_ofPaths]
  exact pairwise_dedup (Path.pairwise_mergeSort _)

theorem wanted_of_mem (h : path ∈ (ofPaths files settings paths).files) :
    Wanted files settings paths path := by
  rw [files_ofPaths] at h
  exact mem_included_iff.mp (List.mem_mergeSort.mp ((dedup_sublist _).mem h))

theorem mem_map_files_iff : k ∈ (ofPaths files settings paths).files.map Path.components ↔
    ∃ path, Wanted files settings paths path ∧ Path.components path = k := by
  rw [files_ofPaths, mem_map_dedup_iff, List.mem_map]
  simp only [List.mem_mergeSort, mem_included_iff]

/-- The files depend on which paths are named only, not on their order and how often they are. -/
theorem map_files_congr (h : ∀ path, path ∈ other ↔ path ∈ paths) :
    (ofPaths files settings other).files.map Path.components =
      (ofPaths files settings paths).files.map Path.components := by
  apply Path.map_components_eq pairwise_files pairwise_files
  intro k
  rw [mem_map_files_iff, mem_map_files_iff]
  apply exists_congr
  intro path
  apply and_congr_left'
  exact ⟨fun hwanted ↦ hwanted.mono fun _ ↦ (h _).mp, fun hwanted ↦ hwanted.mono fun _ ↦ (h _).mpr⟩

theorem isMissing_iff (named : String) : isMissing files named = true ↔
    ¬ files.isFile named = true ∧ ¬ files.isDirectory named = true := by
  simp [isMissing]

/-- The files to work on are in ascending order, no two of them equal as paths. Each is wanted, and
each path that is wanted is equal to one of them. Which paths are found depends on the set of named
paths only, and the missing ones are those named that lead to no file and no directory. In a tree,
the files found below a directory are those whose paths go on from it by names. -/
theorem ofPaths_collects (files : FileTree) (settings : ProjectSettings) (paths : List String) :
    let found := ofPaths files settings paths
    found.files.Pairwise Path.Lt ∧
    (∀ path ∈ found.files, Wanted files settings paths path) ∧
    (∀ path, Wanted files settings paths path →
      ∃ same ∈ found.files, Path.components same = Path.components path) ∧
    (∀ other, (∀ path, path ∈ other ↔ path ∈ paths) →
      (ofPaths files settings other).files.map Path.components =
        found.files.map Path.components) ∧
    found.missing = paths.filter (fun path ↦ ¬ files.isFile path ∧ ¬ files.isDirectory path) ∧
    (files.IsTree → ∀ directory path, path ∈ files.filesBelow directory ↔
      files.isDirectory directory = true ∧ FileTree.Below directory path ∧
        files.isFile path = true) := by
  intro found
  refine ⟨pairwise_files, fun _ ↦ wanted_of_mem, fun path hwanted ↦ ?_,
    fun _ ↦ map_files_congr, ?_, fun h _ _ ↦ FileTree.mem_filesBelow_iff h⟩
  · exact List.mem_map.mp (mem_map_files_iff.mpr ⟨path, hwanted, rfl⟩)
  · change paths.filter (isMissing files) = _
    apply List.filter_congr
    intro path _
    rw [Bool.eq_iff_iff, isMissing_iff, decide_eq_true_eq]

/-- A file is found below a directory under a path that is excluded, and named under another one that
is equal to it but not excluded. Another file is found below two directories, a third one is in a
directory that is excluded, and one of the named paths leads nowhere. -/
theorem ofPaths_collects_of_overlaps :
    let files : FileTree := ⟨"/w", [(["src"], .directory), (["src", "a.php"], .file (.text [])),
      (["src", "b.txt"], .file (.text [])), (["src", "lib"], .directory),
      (["src", "lib", "c.php"], .file (.text [])), (["vendor"], .directory),
      (["vendor", "d.php"], .file (.text [])), (["notes"], .file (.text []))]⟩
    let settings := { ProjectSettings.standard with exclude := ["vendor/", "src/a.php"] }
    let paths := ["src/lib/", "vendor", "notes", "gone", "src", "src//a.php"]
    let found := ofPaths files settings paths
    files.IsTree ∧ found.files.Pairwise Path.Lt ∧
    ¬ Wanted files settings paths "src/a.php" ∧
    (∃ same ∈ found.files, Path.components same = Path.components "src/a.php" ∧
      Wanted files settings paths same) ∧
    (ofPaths files settings (paths.reverse ++ paths)).files.map Path.components =
      found.files.map Path.components ∧
    found.missing = ["gone"] ∧
    FileTree.Below "src" "src/lib/c.php" := by
  intro files settings paths found
  have htree : files.IsTree := ⟨by decide, by decide, by decide, by decide, by decide⟩
  have hwanted : Wanted files settings paths "src//a.php" :=
    mem_included_iff.mp (by decide +kernel)
  have hnot : ¬ Wanted files settings paths "src/a.php" :=
    fun h ↦ absurd (mem_included_iff.mpr h) (by decide +kernel)
  have hbelow : "src/lib/c.php" ∈ files.filesBelow "src" := by decide +kernel
  obtain ⟨hsorted, hkept, hall, hsame, hmissing, htrees⟩ := ofPaths_collects files settings paths
  obtain ⟨same, hmem, hcomponents⟩ := hall _ hwanted
  refine ⟨htree, hsorted, hnot, ⟨same, hmem, hcomponents, hkept same hmem⟩,
    hsame _ (by simp), ?_, ((htrees htree _ _).mp hbelow).2.1⟩
  rw [hmissing]
  decide +kernel

end LintMend.Collected
