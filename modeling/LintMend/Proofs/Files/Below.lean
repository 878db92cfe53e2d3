import LintMend.Proofs.Files.Shape

/-!
# What is below a directory

A walk that starts at a directory comes to a file below it by the names on the way, whatever path
the directory was named by. So the files that are found below a directory are the paths of files
that begin with the path of the directory and go on by names only.
-/

namespace LintMend.FileTree

open LintMend.Path

variable {tree : FileTree} {place here : Place} {content : Content} {directory path name : String}
  {names : List String} {steps : List Path.Component}

/-! ## Paths of names -/

/-- A path that goes on from a directory by one name or more. -/
def Below (directory path : String) : Prop :=
  ∃ names : List String, names ≠ [] ∧ (∀ name ∈ names, IsName name) ∧
    path = names.foldl join directory

theorem steps?_join (h : tree.IsTree) (hname : IsName name) (hsteps : tree.steps? path = .ok steps) :
    tree.steps? (join path name) = .ok (steps ++ [.normal name]) := by
  have hjoin := toList_join hname path
  rcases exists_of_steps? hsteps with ⟨htop, rfl⟩ | ⟨rest, hrest, rfl⟩ | ⟨hne, hrelative, rfl⟩
  · have hfolder : folderText path = tree.base.toList ++ ['/'] := by
      have hne : ¬ path.isEmpty = true := by
        intro hempty
        have habsolute := h.base
        rw [isAbsolute, ← htop, String.isEmpty_iff.mp hempty] at habsolute
        cases habsolute
      unfold folderText
      rw [htop, if_neg (not_or.mpr ⟨hne, h.baseEnd⟩)]
    rw [hfolder, List.append_assoc, List.singleton_append] at hjoin
    rw [steps?_of_append hjoin, String.ofList_toList, hname.components]
    rfl
  · rw [folderText_of_append hrest, List.append_assoc, List.cons_append, ← toList_join hname]
      at hjoin
    rw [steps?_of_append hjoin, String.ofList_toList, components_join hname]
  · rw [steps?_of_relative h.base, components_join hname]
    · rwa [isAbsolute_join hname hne]
    · simp [hjoin, hname.ne_nil]

theorem steps?_foldl_join (h : tree.IsTree) (hnames : ∀ name ∈ names, IsName name)
    (hsteps : tree.steps? path = .ok steps) :
    tree.steps? (names.foldl join path) = .ok (steps ++ names.map .normal) := by
  induction names generalizing path steps with
  | nil => rw [List.foldl_nil, hsteps, List.map_nil, List.append_nil]
  | cons name names ih =>
    obtain ⟨hname, hnames⟩ := List.forall_mem_cons.mp hnames
    rw [List.foldl_cons, ih hnames (steps?_join h hname hsteps), List.append_assoc]
    rfl

/-- A path that ends with a name does not say that it names a directory. -/
theorem namesDirectory_join (hname : IsName name) : namesDirectory (join path name) = false := by
  obtain ⟨before, last, hlast⟩ := (List.eq_nil_or_concat name.toList).resolve_left hname.ne_nil
  rw [List.concat_eq_append] at hlast
  have hslash (c : Char) (hc : c ∈ before ++ [last]) : c ≠ '/' := by
    rintro rfl
    exact hname.slash (hlast ▸ hc)
  have htext : (join path name).toList.reverse =
      last :: (before.reverse ++ (folderText path).reverse) := by
    rw [toList_join hname, hlast]
    simp
  unfold namesDirectory
  rw [htext]
  split
  · next h => exact absurd (List.cons.inj h).1 (hslash last (by simp))
  · next h =>
    obtain ⟨rfl, hrest⟩ := List.cons.inj h
    rcases List.eq_nil_or_concat before with rfl | ⟨earlier, c, rfl⟩
    · exact absurd hlast hname.ne_dot
    · have hc : c = '/' := by simpa using congrArg List.head? hrest
      exact absurd hc (hslash c (by simp))
  · rfl

theorem namesDirectory_of_below (h : Below directory path) : namesDirectory path = false := by
  obtain ⟨names, hne, hnames, rfl⟩ := h
  obtain ⟨before, last, rfl⟩ := List.eq_nil_or_concat names |>.resolve_left hne
  rw [List.concat_eq_append, List.foldl_append]
  exact namesDirectory_join (hnames last (by simp))

/-! ## Walks by names -/

theorem eq_of_walkTo_names (h : tree.walkTo here (names.map .normal) = .ok place) :
    place = here ++ names := by
  induction names generalizing here with
  | nil => simpa [walkTo] using h.symm
  | cons name names ih =>
    obtain ⟨-, there, hthere, h⟩ := walkTo_cons_eq_ok_iff.mp h
    obtain rfl : here ++ [name] = there := Except.ok.inj hthere
    rw [ih h, List.append_assoc, List.singleton_append]

theorem walkTo_names (h : ∀ above, above <+: names → above ≠ names →
      tree.entry? (here ++ above) = some .directory) :
    tree.walkTo here (names.map .normal) = .ok (here ++ names) := by
  induction names generalizing here with
  | nil => simp [walkTo]
  | cons name names ih =>
    have hhere : tree.entry? here = some .directory := by
      rw [← h [] List.nil_prefix (by simp), List.append_nil]
    have hrest : tree.walkTo (here ++ [name]) (names.map .normal) =
        .ok (here ++ [name] ++ names) := by
      refine ih fun above hprefix hne ↦ ?_
      rw [List.append_assoc, List.singleton_append]
      refine h (name :: above) (List.cons_prefix_cons.mpr ⟨rfl, hprefix⟩) ?_
      exact fun heq ↦ hne (List.cons.inj heq).2
    rw [List.map_cons, walkTo, hhere]
    dsimp only
    rw [hrest, List.append_assoc, List.singleton_append]

/-! ## Files and directories -/

theorem isFile_iff : tree.isFile path = true ↔
    ∃ place content, tree.look path = .ok (place, some (.file content)) := by
  unfold isFile
  split
  · next place content h => simp [h]
  · next h =>
    constructor
    · nofun
    · rintro ⟨place, content, hlook⟩
      exact absurd hlook (h place content)

theorem isDirectory_iff : tree.isDirectory path = true ↔
    ∃ place, tree.look path = .ok (place, some .directory) := by
  unfold isDirectory
  split
  · next place h => simp [h]
  · next h =>
    constructor
    · nofun
    · rintro ⟨place, hlook⟩
      exact absurd hlook (h place)

theorem look_eq_ok_file (hwalk : tree.steps? path = .ok steps ∧ tree.walkTo [] steps = .ok place)
    (hentry : tree.entry? place = some (.file content)) (hname : namesDirectory path = false) :
    tree.look path = .ok (place, some (.file content)) := by
  simp [look, hwalk.1, hwalk.2, hentry, hname, bind, Except.bind, pure, Except.pure]

variable (h : tree.IsTree)

include h

/-- A file below a directory is at the place of the directory, followed by the names. -/
theorem isFile_foldl_join_iff (hlook : tree.look directory = .ok (here, some .directory))
    (hne : names ≠ []) (hnames : ∀ name ∈ names, IsName name) :
    tree.isFile (names.foldl join directory) = true ↔
      ∃ content, (here ++ names, .file content) ∈ tree.entries := by
  obtain ⟨⟨steps, hsteps, hwalk⟩, -, -⟩ := exists_walk_of_look hlook
  have hpath := steps?_foldl_join h hnames hsteps
  have hplace : here ++ names ≠ [] := by simp [hne]
  rw [isFile_iff]
  constructor
  · rintro ⟨place, content, hfile⟩
    obtain ⟨⟨way, hway, hwalk'⟩, hentry, -⟩ := exists_walk_of_look hfile
    obtain rfl : steps ++ names.map .normal = way := Except.ok.inj (hpath.symm.trans hway)
    obtain ⟨there, hthere, hrest⟩ := walkTo_append_eq_ok_iff.mp hwalk'
    obtain rfl : here = there := Except.ok.inj (hwalk.symm.trans hthere)
    obtain rfl := eq_of_walkTo_names hrest
    exact ⟨content, mem_entries_of_eq hplace hentry.symm⟩
  · rintro ⟨content, hmem⟩
    have hentry := h.entry?_of_mem hmem
    have hrest : tree.walkTo here (names.map .normal) = .ok (here ++ names) := by
      refine walkTo_names fun above hprefix habove ↦ ?_
      have hbelow : here ++ above <+: here ++ names :=
        (List.prefix_append_right_inj here).mpr hprefix
      apply h.entry?_of_prefix (by simp [hentry]) hbelow
      exact fun heq ↦ habove (List.append_cancel_left heq)
    have hall := walkTo_append_eq_ok_iff.mpr ⟨here, hwalk, hrest⟩
    exact ⟨_, content, look_eq_ok_file ⟨hpath, hall⟩ hentry
      (namesDirectory_of_below ⟨names, hne, hnames, rfl⟩)⟩

/-- What is found below a directory are the files whose paths begin with the path of the directory
and go on by names. -/
theorem mem_filesBelow_iff : path ∈ tree.filesBelow directory ↔
    tree.isDirectory directory = true ∧ Below directory path ∧ tree.isFile path = true := by
  constructor
  · intro hmem
    unfold filesBelow at hmem
    split at hmem
    · next here hlook =>
      obtain ⟨⟨place, entry⟩, hentry, hfound⟩ := List.mem_filterMap.mp hmem
      dsimp only at hfound
      split at hfound
      · next content =>
        split at hfound
        · next hplace =>
          obtain rfl := Option.some.inj hfound
          obtain ⟨names, rfl⟩ := List.isPrefixOf_iff_prefix.mp hplace.1
          have hne : names ≠ [] := by
            rintro rfl
            exact hplace.2 (List.append_nil here)
          have hnames : ∀ name ∈ names, IsName name := fun name hname ↦
            h.names _ hentry name (List.mem_append_right here hname)
          rw [List.drop_left]
          exact ⟨isDirectory_iff.mpr ⟨here, hlook⟩, ⟨names, hne, hnames, rfl⟩,
            (isFile_foldl_join_iff h hlook hne hnames).mpr ⟨content, hentry⟩⟩
        · cases hfound
      · cases hfound
    · exact absurd hmem List.not_mem_nil
  · rintro ⟨hdirectory, ⟨names, hne, hnames, rfl⟩, hfile⟩
    obtain ⟨here, hlook⟩ := isDirectory_iff.mp hdirectory
    obtain ⟨content, hentry⟩ := (isFile_foldl_join_iff h hlook hne hnames).mp hfile
    simp only [filesBelow, hlook]
    refine List.mem_filterMap.mpr ⟨_, hentry, ?_⟩
    simp [hne]

end LintMend.FileTree
