import LintMend.Proofs.Files.Fork
import Mathlib.Data.List.Induction
import Mathlib.Data.List.Nodup

/-!
# The shape of a tree

A tree has the directories that its files and directories are in, each under a name of one
component. Whatever is written, made or removed keeps it so: a walk to a place goes by names, a file
is made in a directory that is there, and only files are removed.
-/

namespace LintMend.FileTree

open LintMend.Path

variable {tree tree' : FileTree} {place here above : Place} {entry : Entry} {content : Content}
  {path name : String} {steps : List Path.Component}

/-! ## Trees -/

/-- A value that stands for files and directories. -/
structure IsTree (tree : FileTree) : Prop where
  base : isAbsolute tree.base = true
  /-- The path of the top ends with a name. -/
  baseEnd : tree.base.toList.getLast? ≠ some '/'
  /-- Nothing is there twice. -/
  nodup : (tree.entries.map (·.1)).Nodup
  names : ∀ e ∈ tree.entries, ∀ name ∈ e.1, IsName name
  /-- Everything is in a directory. -/
  up : ∀ e ∈ tree.entries, e.1 ≠ [] ∧ tree.entry? e.1.dropLast = some .directory

theorem mem_entries_of_eq (hplace : place ≠ []) (h : tree.entry? place = some entry) :
    (place, entry) ∈ tree.entries := by
  rw [entry?_eq hplace] at h
  obtain ⟨e, hfind, rfl⟩ := Option.map_eq_some_iff.mp h
  obtain rfl : e.1 = place := by simpa using List.find?_some hfind
  exact List.mem_of_find?_eq_some hfind

namespace IsTree

theorem entry?_of_mem (h : tree.IsTree) (hmem : (place, entry) ∈ tree.entries) :
    tree.entry? place = some entry := by
  obtain ⟨before, behind, hentries⟩ := List.append_of_mem hmem
  have hnodup := h.nodup
  rw [hentries, List.map_append, List.map_cons, List.nodup_append] at hnodup
  have hbefore : before.find? (·.1 = place) = none := by
    rw [List.find?_eq_none]
    intro e he heq
    have heq : e.1 = place := by simpa using heq
    exact hnodup.2.2 e.1 (List.mem_map_of_mem he) place List.mem_cons_self heq
  rw [entry?_eq (h.up _ hmem).1, hentries, List.find?_append, hbefore, Option.none_or,
    List.find?_cons_of_pos (by simp), Option.map_some]

/-- The way to what is there leads through directories. -/
theorem entry?_of_prefix (h : tree.IsTree) (hplace : tree.entry? place ≠ none)
    (habove : above <+: place) (hne : above ≠ place) : tree.entry? above = some .directory := by
  induction place using List.reverseRecOn with
  | nil => exact absurd (List.prefix_nil.mp habove) hne
  | append_singleton place last ih =>
    obtain ⟨entry, hentry⟩ := Option.ne_none_iff_exists'.mp hplace
    have hup := (h.up _ (mem_entries_of_eq (by simp) hentry)).2
    rw [List.dropLast_concat] at hup
    rcases List.prefix_concat_iff.mp habove with heq | habove
    · exact absurd heq hne
    · by_cases heq : above = place
      · rw [heq, hup]
      · exact ih (by simp [hup]) habove heq

end IsTree

/-! ## Names on a walk -/

theorem isName_of_component? {part : Text} (hslash : '/' ∉ part)
    (h : component? part = some (.normal name)) : IsName name := by
  have hname : name.toList = part := by
    unfold component? at h
    split at h
    · cases h
    · split at h
      · cases h
      · rw [← Component.normal.inj (Option.some.inj h), String.toList_ofList]
  exact ⟨hname ▸ hslash, hname ▸ h⟩

theorem isName_of_mem_components (h : .normal name ∈ components path) : IsName name := by
  have hpart : .normal name ∈ (parts path).filterMap component? := by
    unfold components at h
    split at h
    · simpa using h
    · split at h
      · simpa using h
      · exact h
  obtain ⟨part, hmem, hcomponent⟩ := List.mem_filterMap.mp hpart
  exact isName_of_component? (Text.notMem_of_mem_splitOnChar hmem) hcomponent

theorem names_of_walkTo (hsteps : ∀ name, .normal name ∈ steps → IsName name)
    (hhere : ∀ name ∈ here, IsName name) (h : tree.walkTo here steps = .ok place) :
    ∀ name ∈ place, IsName name := by
  induction steps generalizing here with
  | nil => exact Except.ok.inj h ▸ hhere
  | cons step steps ih =>
    obtain ⟨-, there, hthere, h⟩ := walkTo_cons_eq_ok_iff.mp h
    refine ih (fun name hname ↦ hsteps name (List.mem_cons_of_mem step hname)) ?_ h
    cases step with
    | normal name =>
      obtain rfl : here ++ [name] = there := Except.ok.inj hthere
      intro other hother
      rcases List.mem_append.mp hother with hother | hother
      · exact hhere other hother
      · exact hsteps other (by simp [List.mem_singleton.mp hother])
    | parent =>
      change (if here.isEmpty then _ else Except.ok here.dropLast) = _ at hthere
      split at hthere
      · cases hthere
      · rw [← Except.ok.inj hthere]
        exact fun other hother ↦ hhere other (List.dropLast_subset here hother)
    | current => exact Except.ok.inj hthere ▸ hhere
    | root => exact Except.ok.inj hthere ▸ hhere

/-- A path leads to a place by names of one component. -/
theorem names_of_look {found : Option Entry} (h : tree.look path = .ok (place, found)) :
    ∀ name ∈ place, IsName name := by
  obtain ⟨⟨steps, hsteps, hwalk⟩, -, -⟩ := exists_walk_of_look h
  refine names_of_walkTo (fun name hname ↦ ?_) (by simp) hwalk
  rcases exists_of_steps? hsteps with ⟨-, rfl⟩ | ⟨rest, -, rfl⟩ | ⟨-, -, rfl⟩
  · cases hname
  · exact isName_of_mem_components hname
  · exact isName_of_mem_components hname

/-! ## Changes of a tree -/

theorem mem_of_mem_put {e : Place × Entry} (h : e ∈ (tree.put place entry).entries) :
    e = (place, entry) ∨ e ∈ tree.entries := by
  unfold FileTree.put at h
  split at h
  · obtain ⟨e', he', rfl⟩ := List.mem_map.mp h
    by_cases heq : e'.1 = place
    · exact .inl (if_pos heq)
    · rw [if_neg heq]
      exact .inr he'
  · rcases List.mem_append.mp h with h | h
    · exact .inr h
    · exact .inl (List.mem_singleton.mp h)

/-- What is put somewhere takes the place of what was there. -/
theorem nodup_put (h : (tree.entries.map (·.1)).Nodup) :
    ((tree.put place entry).entries.map (·.1)).Nodup := by
  unfold FileTree.put
  split
  · have hplaces : (tree.entries.map fun e ↦ if e.1 = place then (place, entry) else e).map (·.1) =
        tree.entries.map (·.1) := by
      rw [List.map_map]
      apply List.map_congr_left
      intro e _
      rw [Function.comp_apply]
      split
      · next heq => exact heq.symm
      · rfl
    rwa [hplaces]
  · next hnone =>
    rw [List.map_append, List.map_singleton]
    refine List.nodup_append.mpr ⟨h, List.nodup_singleton place, ?_⟩
    rintro _ hmem _ hplace rfl
    obtain ⟨e, he, heq⟩ := List.mem_map.mp hmem
    refine hnone (List.any_eq_true.mpr ⟨e, he, decide_eq_true ?_⟩)
    exact heq.trans (List.mem_singleton.mp hplace)

namespace IsTree

/-- Something is put in a directory, and no file in the place of a directory. -/
theorem put (h : tree.IsTree) (hplace : place ≠ []) (hnames : ∀ name ∈ place, IsName name)
    (hup : tree.entry? place.dropLast = some .directory)
    (hkept : tree.entry? place = some .directory → entry = .directory) :
    (tree.put place entry).IsTree where
  base := (sameBut_put tree place entry).base ▸ h.base
  baseEnd := (sameBut_put tree place entry).base ▸ h.baseEnd
  nodup := nodup_put h.nodup
  names e he := by
    rcases mem_of_mem_put he with rfl | he
    · exact hnames
    · exact h.names e he
  up e he := by
    have hold : e.1 ≠ [] ∧ tree.entry? e.1.dropLast = some .directory := by
      rcases mem_of_mem_put he with rfl | he
      · exact ⟨hplace, hup⟩
      · exact h.up e he
    refine ⟨hold.1, ?_⟩
    by_cases heq : e.1.dropLast = place
    · rw [heq] at hold
      rw [heq, entry?_put_self hplace, hkept hold.2]
    · rw [entry?_put_of_ne heq, hold.2]

/-- What is not a directory is taken away. -/
theorem erase (h : tree.IsTree) (hentry : tree.entry? place ≠ some .directory) :
    (tree.erase place).IsTree where
  base := h.base
  baseEnd := h.baseEnd
  nodup := h.nodup.sublist (List.filter_sublist.map _)
  names e he := h.names e (List.mem_of_mem_filter he)
  up e he := by
    obtain ⟨hne, hup⟩ := h.up e (List.mem_of_mem_filter he)
    refine ⟨hne, ?_⟩
    rw [entry?_erase_of_ne, hup]
    rintro rfl
    exact hentry hup

/-! ### Writing and removing -/

theorem put_of_filePlace (h : tree.IsTree) (hfile : tree.filePlace path = .ok place) :
    (tree.put place (.file content)).IsTree := by
  obtain ⟨hleads, hslot⟩ := filePlace_eq_ok_iff.mp hfile
  have hup : tree.entry? place.dropLast = some .directory := by
    rcases hslot with hcontent | hup
    · obtain ⟨content, hcontent⟩ := Option.isSome_iff_exists.mp hcontent
      exact (h.up _ (mem_entries_of_eq hleads.ne_nil (content?_eq_some_iff.mp hcontent))).2
    · exact hup
  exact h.put hleads.ne_nil (names_of_look hleads.look) hup fun hdirectory ↦
    absurd hdirectory hleads.entry

theorem write (h : tree.IsTree) (hwrite : tree.write path content = .ok tree') : tree'.IsTree := by
  obtain ⟨place, hplace, rfl⟩ := exists_of_write hwrite
  exact h.put_of_filePlace hplace

theorem append {text : Text} (h : tree.IsTree) (happend : tree.append path text = .ok tree') :
    tree'.IsTree := by
  obtain ⟨place, hplace, rfl⟩ := exists_of_append happend
  exact h.put_of_filePlace hplace

theorem remove (h : tree.IsTree) (hremove : tree.remove path = .ok tree') : tree'.IsTree := by
  obtain ⟨⟨place, found⟩, hlook, hremove⟩ := exists_of_bind_eq_ok hremove
  obtain ⟨-, hentry, -⟩ := exists_walk_of_look hlook
  dsimp only at hremove
  split at hremove
  · exact Except.ok.inj hremove ▸ h.erase (by simp [← hentry])
  · cases hremove
  · cases hremove

/-! ### Making directories -/

theorem makeDirectory (h : tree.IsTree) (hmake : tree.makeDirectory path = .ok tree') :
    tree'.IsTree := by
  unfold FileTree.makeDirectory at hmake
  split at hmake
  · cases hmake
  · next place hlook =>
    obtain ⟨-, hnone, -⟩ := exists_walk_of_look hlook
    split at hmake
    · next hup =>
      have hplace : place ≠ [] := by
        rintro rfl
        cases hnone
      rw [← Except.ok.inj hmake]
      exact h.put hplace (names_of_look hlook) hup fun _ ↦ rfl
    · cases hmake
  · cases hmake

theorem ensureDirectory (h : tree.IsTree) (hensure : tree.ensureDirectory path = .ok tree') :
    tree'.IsTree := by
  unfold FileTree.ensureDirectory at hensure
  split at hensure
  · next made hmade => exact Except.ok.inj hensure ▸ h.makeDirectory hmade
  · split at hensure
    · exact Except.ok.inj hensure ▸ h
    · cases hensure

theorem makeDirectoriesFrom {fuel : Nat} (h : tree.IsTree)
    (hmake : tree.makeDirectoriesFrom fuel path = .ok tree') : tree'.IsTree := by
  induction fuel generalizing path tree' with
  | zero => cases hmake
  | succ fuel ih =>
    unfold FileTree.makeDirectoriesFrom at hmake
    split at hmake
    · exact Except.ok.inj hmake ▸ h
    · split at hmake
      · next made hmade => exact Except.ok.inj hmake ▸ h.ensureDirectory hmade
      · split at hmake
        · split at hmake
          · cases hmake
          · next up _ =>
            obtain ⟨above, habove, hmake⟩ := exists_of_bind_eq_ok hmake
            exact (ih habove).ensureDirectory hmake
        · cases hmake

theorem makeDirectories (h : tree.IsTree) (hmake : tree.makeDirectories path = .ok tree') :
    tree'.IsTree :=
  h.makeDirectoriesFrom hmake

theorem makeDirectoriesAbove (h : tree.IsTree)
    (hmake : tree.makeDirectoriesAbove path = .ok tree') : tree'.IsTree := by
  unfold FileTree.makeDirectoriesAbove at hmake
  split at hmake
  · exact h.makeDirectories hmake
  · exact Except.ok.inj hmake ▸ h

end IsTree

end LintMend.FileTree
