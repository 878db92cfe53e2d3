import LintMend.Files.Path
import LintMend.Proofs.Text.Lines
import Mathlib.Data.List.Basic

/-!
# Names at the end of paths

Joining a name to a path puts it behind what ends with a slash, and a name is one component. So the
paths of one file in the folders of a directory are the same but for the name of the folder.
-/

namespace LintMend.Path

variable {name folder file : String} {up : Text}

/-! ## Names -/

/-- A name of one component. -/
structure IsName (name : String) : Prop where
  slash : '/' ∉ name.toList
  component : component? name.toList = some (.normal name)

instance (name : String) : Decidable (IsName name) :=
  decidable_of_iff ('/' ∉ name.toList ∧ component? name.toList = some (.normal name))
    ⟨fun h ↦ ⟨h.1, h.2⟩, fun h ↦ ⟨h.slash, h.component⟩⟩

theorem IsName.ne_nil (h : IsName name) : name.toList ≠ [] := by
  intro hnil
  have hcomponent := h.component
  simp [hnil, component?] at hcomponent

theorem IsName.ne_dot (h : IsName name) : name.toList ≠ ['.'] := by
  intro hdot
  have hcomponent := h.component
  simp [hdot, component?] at hcomponent

/-- A text behind which a name can be put. -/
def IsLead (up : Text) : Prop := up = [] ∨ up.getLast? = some '/'

theorem IsLead.of_append {above inner : Text} (h : IsLead (above ++ '/' :: inner)) :
    IsLead inner := by
  rcases List.eq_nil_or_concat inner with rfl | ⟨before, c, rfl⟩
  · exact .inl rfl
  · exact .inr (by simpa [IsLead, List.getLast?_append, List.getLast?_cons] using h)

/-- What the name of a file in a directory is put behind. -/
def folderText (directory : String) : Text :=
  if directory.isEmpty ∨ directory.toList.getLast? = some '/' then directory.toList
  else directory.toList ++ ['/']

theorem isLead_folderText (directory : String) : IsLead (folderText directory) := by
  rw [folderText]
  split
  · next h =>
    rcases h with h | h
    · exact .inl (by simpa using h)
    · exact .inr h
  · exact .inr (by simp)

theorem IsName.not_isAbsolute (h : IsName name) : ¬ isAbsolute name = true := by
  intro habsolute
  have hhead : name.toList.head? = some '/' := by simpa [isAbsolute] using habsolute
  exact h.slash (List.mem_of_mem_head? hhead)

theorem toList_join (h : IsName name) (directory : String) :
    (join directory name).toList = folderText directory ++ name.toList := by
  rw [join, if_neg h.not_isAbsolute, folderText]
  split <;> simp

theorem folderText_join (h : IsName name) (directory : String) :
    folderText (join directory name) = folderText directory ++ name.toList ++ ['/'] := by
  have hlast : (folderText directory ++ name.toList).getLast? = name.toList.getLast? := by
    rw [List.getLast?_append, List.getLast?_eq_some_getLast h.ne_nil, Option.some_or]
  rw [folderText, if_neg, toList_join h]
  rw [not_or, toList_join h, hlast]
  constructor
  · rw [String.isEmpty_iff, ← String.toList_inj, toList_join h]
    simp [h.ne_nil]
  · exact fun hslash ↦ h.slash (List.mem_of_getLast? hslash)

/-- What comes before a slash is of no importance for what a name is put behind. -/
theorem folderText_of_append {path : String} {above rest : Text}
    (h : path.toList = above ++ '/' :: rest) :
    folderText path = above ++ '/' :: folderText (String.ofList rest) := by
  have hne : ¬ path.isEmpty = true := by
    rw [String.isEmpty_iff, ← String.toList_eq_nil_iff, h]
    simp
  unfold folderText
  rw [h, String.toList_ofList]
  cases rest with
  | nil => simp
  | cons c rest =>
    have hlast : (above ++ '/' :: c :: rest).getLast? = (c :: rest).getLast? := by
      rw [List.getLast?_append, List.getLast?_cons_cons, List.getLast?_cons, Option.some_or]
    have hrest : ¬ (String.ofList (c :: rest)).isEmpty = true := by
      rw [String.isEmpty_iff, ← String.toList_eq_nil_iff, String.toList_ofList]
      simp
    rw [hlast]
    by_cases hslash : (c :: rest).getLast? = some '/'
    · rw [if_pos (.inr hslash), if_pos (.inr hslash)]
    · rw [if_neg (not_or.mpr ⟨hne, hslash⟩), if_neg (not_or.mpr ⟨hrest, hslash⟩)]
      simp

theorem isAbsolute_join {path : String} (h : IsName name) (hne : path.toList ≠ []) :
    isAbsolute (join path name) = isAbsolute path := by
  have hhead : (join path name).toList.head? = path.toList.head? := by
    rw [toList_join h]
    unfold folderText
    split
    · rw [List.head?_append_of_ne_nil _ hne]
    · rw [List.append_assoc, List.head?_append_of_ne_nil _ hne]
  rw [isAbsolute, isAbsolute, hhead]

/-! ## Components -/

theorem parts_ofList (s : Text) : parts (String.ofList s) = Text.splitOnChar '/' s := by
  rw [parts, String.toList_ofList]

theorem isAbsolute_ofList (s : Text) :
    isAbsolute (String.ofList s) = true ↔ s.head? = some '/' := by
  simp [isAbsolute]

/-- The path of a file in a folder, behind what the folder is in. -/
def inFolder (up : Text) (folder file : String) : String :=
  String.ofList (up ++ (folder.toList ++ '/' :: file.toList))

@[simp] theorem toList_inFolder (up : Text) (folder file : String) :
    (inFolder up folder file).toList = up ++ (folder.toList ++ '/' :: file.toList) :=
  String.toList_ofList

theorem join_join (hfolder : IsName folder) (hfile : IsName file) (directory : String) :
    join (join directory folder) file = inFolder (folderText directory) folder file := by
  apply String.toList_injective
  rw [toList_join hfile, folderText_join hfolder, toList_inFolder]
  simp

theorem IsName.head?_append (h : IsName name) (s : Text) : (name.toList ++ s).head? ≠ some '/' := by
  intro hslash
  rw [List.head?_append, List.head?_eq_some_head h.ne_nil, Option.some_or] at hslash
  exact h.slash (Option.some.inj hslash ▸ List.head_mem _)

/-- What the folder is in decides whether the path is absolute. -/
theorem isAbsolute_inFolder (h : IsName folder) :
    isAbsolute (inFolder up folder file) = true ↔ up.head? = some '/' := by
  rw [inFolder, isAbsolute_ofList, List.head?_append]
  cases up with
  | nil =>
    have hhead := h.head?_append ('/' :: file.toList)
    simpa only [List.head?_nil, Option.none_or, reduceCtorEq, iff_false] using hhead
  | cons c up => simp

/-- The components behind a slash follow those before it. -/
theorem components_append (above below : Text) :
    components (String.ofList (above ++ '/' :: below)) =
      components (String.ofList (above ++ ['/'])) ++
        (Text.splitOnChar '/' below).filterMap component? := by
  obtain ⟨part, parts, hparts⟩ := List.exists_cons_of_ne_nil (Text.splitOnChar_ne_nil '/' above)
  have hhead : (above ++ '/' :: below).head? = (above ++ ['/']).head? := by
    cases above <;> rfl
  have hsplit (s : Text) : Text.splitOnChar '/' (above ++ '/' :: s) =
      part :: (parts ++ Text.splitOnChar '/' s) := by
    rw [Text.splitOnChar_append, hparts, List.cons_append]
  have hkept (s : Text) : (part :: (parts ++ Text.splitOnChar '/' s)).filterMap component? =
      (part :: parts).filterMap component? ++ (Text.splitOnChar '/' s).filterMap component? := by
    rw [← List.cons_append, List.filterMap_append]
  rw [components, components]
  simp only [isAbsolute_ofList, parts_ofList, hhead, hsplit, hkept, List.head?_cons]
  rw [show (Text.splitOnChar '/' []).filterMap component? = [] from rfl, List.append_nil]
  by_cases habsolute : (above ++ ['/']).head? = some '/'
  · rw [if_pos habsolute, if_pos habsolute, List.cons_append]
  · rw [if_neg habsolute, if_neg habsolute]
    by_cases hdot : some part = some ['.']
    · rw [if_pos hdot, if_pos hdot, List.cons_append]
    · rw [if_neg hdot, if_neg hdot]

/-- A slash at the end means nothing. -/
theorem components_append_slash {s : Text} (hs : s ≠ []) :
    components (String.ofList (s ++ ['/'])) = components (String.ofList s) := by
  obtain ⟨part, parts, hparts⟩ := List.exists_cons_of_ne_nil (Text.splitOnChar_ne_nil '/' s)
  have hsplit : Text.splitOnChar '/' (s ++ ['/']) = part :: (parts ++ [[]]) := by
    rw [Text.splitOnChar_append, hparts]
    rfl
  have hkept : (part :: (parts ++ [[]])).filterMap component? =
      (part :: parts).filterMap component? := by
    rw [← List.cons_append, List.filterMap_append]
    exact List.append_nil _
  have hhead : (s ++ ['/']).head? = s.head? := by
    cases s with
    | nil => exact absurd rfl hs
    | cons c s => rfl
  unfold components
  simp only [isAbsolute_ofList, parts_ofList, hhead, hsplit, hparts, hkept, List.head?_cons]

/-- A name behind a text that ends with a slash is one more component. -/
theorem components_append_name (hup : IsLead up) (h : IsName name) :
    components (String.ofList (up ++ name.toList)) =
      components (String.ofList up) ++ [.normal name] := by
  have hname : Text.splitOnChar '/' name.toList = [name.toList] :=
    Text.splitOnChar_of_notMem h.slash
  have hcomponent : [name.toList].filterMap component? = [.normal name] := by
    simp [h.component]
  rcases hup with rfl | hup
  · have hrelative : ¬ isAbsolute (String.ofList name.toList) = true := by
      rw [String.ofList_toList]
      exact h.not_isAbsolute
    rw [List.nil_append, components, if_neg hrelative, parts_ofList, hname, List.head?_cons,
      if_neg (by simpa using h.ne_dot), hcomponent]
    rfl
  · obtain ⟨above, rfl⟩ := List.getLast?_eq_some_iff.mp hup
    rw [List.append_assoc, List.singleton_append, components_append, hname, hcomponent]

theorem components_inFolder (hup : IsLead up) (hfolder : IsName folder) (hfile : IsName file) :
    components (inFolder up folder file) =
      components (String.ofList up) ++ [.normal folder, .normal file] := by
  have hlead : IsLead (up ++ folder.toList ++ ['/']) := .inr (by simp)
  have hne : up ++ folder.toList ≠ [] := by simp [hfolder.ne_nil]
  calc
    components (inFolder up folder file) =
        components (String.ofList (up ++ folder.toList ++ ['/'] ++ file.toList)) := by
      simp [inFolder]
    _ = components (String.ofList up) ++ [.normal folder] ++ [.normal file] := by
      rw [components_append_name hlead hfile, components_append_slash hne,
        components_append_name hup hfolder]
    _ = components (String.ofList up) ++ [.normal folder, .normal file] := by simp

theorem IsName.components (h : IsName name) : components name = [.normal name] := by
  have hname := components_append_name (.inl rfl : IsLead []) h
  rwa [List.nil_append, String.ofList_toList] at hname

/-- The components of a path to which a name was joined. -/
theorem components_join (h : IsName name) (directory : String) :
    components (join directory name) = components directory ++ [.normal name] := by
  have htext : join directory name = String.ofList (folderText directory ++ name.toList) := by
    rw [← toList_join h, String.ofList_toList]
  have hfolder : components (String.ofList (folderText directory)) = components directory := by
    unfold folderText
    split
    · rw [String.ofList_toList]
    · next hnot =>
      rw [components_append_slash, String.ofList_toList]
      intro hnil
      exact hnot (.inl (by simpa using hnil))
  rw [htext, components_append_name (isLead_folderText directory) h, hfolder]

/-- A slash of the path is one of those above the folder or the one behind its name. -/
theorem cut_inFolder {before rest : Text} (hfolder : IsName folder) (hfile : IsName file)
    (h : (inFolder up folder file).toList = before ++ '/' :: rest) :
    (∃ inner, up = before ++ '/' :: inner ∧ String.ofList rest = inFolder inner folder file) ∨
      before = up ++ folder.toList := by
  rw [toList_inFolder] at h
  rcases List.append_eq_append_iff.mp h with ⟨first, rfl, hfirst⟩ | ⟨inner, rfl, hinner⟩
  · have hnames := (List.append_cons_inj_of_notMem hfolder.slash hfile.slash).mp hfirst
    exact .inr (by rw [hnames.1])
  · cases inner with
    | nil =>
      have hhead := hfolder.head?_append ('/' :: file.toList)
      rw [← List.nil_append (folder.toList ++ _), ← hinner] at hhead
      exact absurd rfl hhead
    | cons c inner =>
      obtain ⟨rfl, rfl⟩ := List.cons.inj hinner
      exact .inl ⟨inner, rfl, rfl⟩

end LintMend.Path
