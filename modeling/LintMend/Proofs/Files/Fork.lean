import LintMend.Proofs.Files.Path
import LintMend.Proofs.Files.Tree

/-!
# Files of one name in two folders

The paths of one file in two folders of a directory lead to different places, or one of them leads
nowhere. So what is made of the file in one folder leaves the file in the other as it was, however
the paths go up and down on their way.
-/

namespace LintMend.FileTree

open LintMend.Path

variable {tree tree' : FileTree} {place : Place} {path folder folder' file : String}
  {up rest inner : Text} {steps way : List Path.Component}

/-! ## The steps of a path -/

theorem steps?_of_append (h : path.toList = tree.base.toList ++ '/' :: rest) :
    tree.steps? path = .ok (components (String.ofList rest)) := by
  simp only [steps?, Text.stripStart?_eq_some_iff.mpr h]

theorem steps?_of_eq (h : path.toList = tree.base.toList) : tree.steps? path = .ok [] := by
  rw [← List.append_nil tree.base.toList] at h
  simp only [steps?, Text.stripStart?_eq_some_iff.mpr h]

theorem steps?_of_outside (hne : path.toList ≠ tree.base.toList)
    (h : ∀ rest, path.toList ≠ tree.base.toList ++ '/' :: rest) :
    tree.steps? path =
      if path.isEmpty ∨ isAbsolute path then .error .notFound else .ok (components path) := by
  rw [steps?]
  split
  · next hstrip => exact absurd (Text.stripStart?_eq_some_iff.mp hstrip) (by simpa using hne)
  · next rest hstrip => exact absurd (Text.stripStart?_eq_some_iff.mp hstrip) (h rest)
  · rfl

/-- A path out of which the top of the tree cannot be cut leads there by its own components. -/
theorem steps?_of_relative (hbase : isAbsolute tree.base = true) (hpath : ¬ isAbsolute path = true)
    (hne : path.toList ≠ []) : tree.steps? path = .ok (components path) := by
  have habsolute : tree.base.toList.head? = some '/' := by simpa [isAbsolute] using hbase
  have hbelow (rest : Text) : path.toList ≠ tree.base.toList ++ rest := by
    intro heq
    rw [isAbsolute, heq, List.head?_append, habsolute] at hpath
    exact hpath rfl
  rw [steps?_of_outside (by simpa using hbelow []) fun rest ↦ hbelow _, if_neg]
  rw [not_or, String.isEmpty_iff, ← String.toList_eq_nil_iff]
  exact ⟨hne, hpath⟩

/-- A path names the top, goes on from it, or is relative to it. -/
theorem exists_of_steps? (h : tree.steps? path = .ok steps) :
    (path.toList = tree.base.toList ∧ steps = []) ∨
    (∃ rest, path.toList = tree.base.toList ++ '/' :: rest ∧
      steps = components (String.ofList rest)) ∨
    (path.toList ≠ [] ∧ ¬ isAbsolute path = true ∧ steps = components path) := by
  by_cases htop : path.toList = tree.base.toList
  · rw [steps?_of_eq htop] at h
    exact .inl ⟨htop, (Except.ok.inj h).symm⟩
  · by_cases hbelow : ∃ rest, path.toList = tree.base.toList ++ '/' :: rest
    · obtain ⟨rest, hrest⟩ := hbelow
      rw [steps?_of_append hrest] at h
      exact .inr (.inl ⟨rest, hrest, (Except.ok.inj h).symm⟩)
    · rw [steps?_of_outside htop (not_exists.mp hbelow)] at h
      split at h
      · cases h
      · next hpath =>
        rw [not_or, String.isEmpty_iff, ← String.toList_eq_nil_iff] at hpath
        exact .inr (.inr ⟨hpath.1, hpath.2, (Except.ok.inj h).symm⟩)

theorem steps?_of_below (hup : IsLead (tree.base.toList ++ '/' :: inner)) (hfolder : IsName folder)
    (hfile : IsName file) :
    tree.steps? (inFolder (tree.base.toList ++ '/' :: inner) folder file) =
      .ok (components (String.ofList inner) ++ [.normal folder, .normal file]) := by
  have hcut : (inFolder (tree.base.toList ++ '/' :: inner) folder file).toList =
      tree.base.toList ++ '/' :: (inner ++ (folder.toList ++ '/' :: file.toList)) := by
    simp
  rw [steps?_of_append hcut, ← components_inFolder hup.of_append hfolder hfile, inFolder]

/-- A folder beside the top of the tree is outside of it. -/
theorem steps?_of_beside (hbase : isAbsolute tree.base = true)
    (htop : tree.base.toList = up ++ folder.toList) (hfolder : IsName folder)
    (hfolder' : IsName folder') (hfile : IsName file) (hne : folder' ≠ folder) :
    tree.steps? (inFolder up folder' file) = .error .notFound := by
  have habsolute : isAbsolute (inFolder up folder' file) = true := by
    rw [isAbsolute_inFolder hfolder']
    cases up with
    | nil =>
      have hroot : isAbsolute folder = true := by
        rwa [isAbsolute, ← List.nil_append folder.toList, ← htop]
      exact absurd hroot hfolder.not_isAbsolute
    | cons c up => simpa [isAbsolute, htop] using hbase
  rw [steps?_of_outside, if_pos (.inr habsolute)]
  · rw [toList_inFolder, htop]
    intro heq
    have hslash : '/' ∈ folder.toList := by simp [← List.append_cancel_left heq]
    exact hfolder.slash hslash
  · intro rest hrest
    rcases cut_inFolder hfolder' hfile hrest with ⟨inner, hup, -⟩ | hbefore
    · have hlength := congrArg List.length hup
      rw [htop] at hlength
      simp at hlength
    · rw [htop] at hbefore
      exact hne (String.toList_injective (List.append_cancel_left hbefore)).symm

/-- With another folder the steps are as they were, but for the folder, or the path leads out of
the tree. -/
theorem steps?_fork (hbase : isAbsolute tree.base = true) (hup : IsLead up)
    (hfolder : IsName folder) (hfolder' : IsName folder') (hfile : IsName file)
    (hne : folder' ≠ folder) (hsteps : steps ≠ [])
    (h : tree.steps? (inFolder up folder file) = .ok steps) :
    (∃ way, steps = way ++ [.normal folder, .normal file] ∧
      tree.steps? (inFolder up folder' file) = .ok (way ++ [.normal folder', .normal file])) ∨
    tree.steps? (inFolder up folder' file) = .error .notFound := by
  by_cases hbelow : ∃ inner, up = tree.base.toList ++ '/' :: inner
  · obtain ⟨inner, rfl⟩ := hbelow
    rw [steps?_of_below hup hfolder hfile] at h
    exact .inl ⟨_, (Except.ok.inj h).symm, steps?_of_below hup hfolder' hfile⟩
  · by_cases htop : tree.base.toList = up ++ folder.toList
    · exact .inr (steps?_of_beside hbase htop hfolder hfolder' hfile hne)
    · -- the top is no part of the path, which has steps, so these are its own
      have hrelative : ¬ isAbsolute (inFolder up folder file) = true := by
        intro habsolute
        have hself : (inFolder up folder file).toList ≠ tree.base.toList := by
          intro heq
          rw [steps?_of_eq heq] at h
          exact hsteps (Except.ok.inj h).symm
        rw [steps?_of_outside hself, if_pos (.inr habsolute)] at h
        · cases h
        · intro rest hrest
          rcases cut_inFolder hfolder hfile hrest with ⟨inner, hinner, -⟩ | hbefore
          · exact hbelow ⟨inner, hinner⟩
          · exact htop hbefore
      have hrelative' : ¬ isAbsolute (inFolder up folder' file) = true := by
        rwa [isAbsolute_inFolder hfolder', ← isAbsolute_inFolder hfolder]
      rw [steps?_of_relative hbase hrelative (by simp), components_inFolder hup hfolder hfile] at h
      rw [steps?_of_relative hbase hrelative' (by simp), components_inFolder hup hfolder' hfile]
      exact .inl ⟨_, (Except.ok.inj h).symm, rfl⟩

/-! ## Files beside the one that changes -/

theorem look_congr (hbase : tree'.base = tree.base) (hsteps : tree.steps? path = .ok steps)
    (hwalk : tree'.walkTo [] steps = tree.walkTo [] steps)
    (hentry : ∀ there, tree.walkTo [] steps = .ok there → tree'.entry? there = tree.entry? there) :
    tree'.look path = tree.look path := by
  simp only [look, steps?_congr hbase, hsteps, hwalk, bind, Except.bind]
  cases hthere : tree.walkTo [] steps with
  | error fault => rfl
  | ok there => simp only [hentry there hthere]

theorem look_of_steps?_eq_error {fault : FileError} (h : tree.steps? path = .error fault) :
    tree.look path = .error fault := by
  simp only [look, h, bind, Except.bind]

/-- The file of one name in two folders of one directory: what is made of it in one folder leaves
the walk to the other as it was. -/
theorem walkTo_fork
    (hwalk : tree.walkTo [] (way ++ [.normal folder, .normal file]) = .ok place)
    (hplace : tree.entry? place ≠ some .directory) (hsame : SameBut place tree tree')
    (hne : folder' ≠ folder) :
    tree'.walkTo [] (way ++ [.normal folder', .normal file]) =
        tree.walkTo [] (way ++ [.normal folder', .normal file]) ∧
      ∀ there, tree.walkTo [] (way ++ [.normal folder', .normal file]) = .ok there →
        there ≠ place := by
  obtain ⟨top, hway, hwalk⟩ := walkTo_append_eq_ok_iff.mp hwalk
  have hway' : tree'.walkTo [] way = .ok top := walkTo_of_sameBut hsame hplace hway
  obtain ⟨htop, inner, hinner, hwalk⟩ := walkTo_cons_eq_ok_iff.mp hwalk
  obtain ⟨-, there, hthere, hwalk⟩ := walkTo_cons_eq_ok_iff.mp hwalk
  obtain rfl : there = place := by simpa [walkTo] using hwalk
  obtain rfl : top ++ [folder] = inner := by simpa [next?] using hinner
  obtain rfl : top ++ [folder] ++ [file] = there := by simpa [next?] using hthere
  have hfolder' : top ++ [folder'] ≠ top ++ [folder] ++ [file] := by
    intro heq
    simpa using congrArg List.length heq
  have hentry : tree'.entry? (top ++ [folder']) = tree.entry? (top ++ [folder']) :=
    hsame.entries _ hfolder'
  have htop' : tree'.entry? top = some .directory := by
    rw [hsame.entries top (by simp), htop]
  rw [walkTo_append, walkTo_append, hway, hway']
  simp only [Except.bind, walkTo, htop, htop', hentry]
  refine ⟨trivial, ?_⟩
  intro there hthere
  split at hthere
  · simp at hthere
  · simp at hthere
  · obtain rfl := Except.ok.inj hthere
    simpa using hne

theorem look_fork (hbase : isAbsolute tree.base = true) (hup : IsLead up)
    (hfolder : IsName folder) (hfolder' : IsName folder') (hfile : IsName file)
    (hne : folder' ≠ folder) (h : tree.Leads (inFolder up folder file) place)
    (hsame : SameBut place tree tree') :
    tree'.look (inFolder up folder' file) = tree.look (inFolder up folder' file) := by
  obtain ⟨steps, hsteps, hwalk⟩ := h.walk
  have hmoves : steps ≠ [] := by
    rintro rfl
    exact h.ne_nil (Except.ok.inj hwalk).symm
  rcases steps?_fork hbase hup hfolder hfolder' hfile hne hmoves hsteps with
    ⟨way, rfl, hsteps'⟩ | hnowhere
  · obtain ⟨hwalk', hthere⟩ := walkTo_fork hwalk h.entry hsame hne
    exact look_congr hsame.base hsteps' hwalk' fun there h ↦ hsame.entries there (hthere there h)
  · have hnowhere' := (steps?_congr hsame.base _).trans hnowhere
    rw [look_of_steps?_eq_error hnowhere, look_of_steps?_eq_error hnowhere']

end LintMend.FileTree
