import LintMend.Files.Tree
import Mathlib.Data.List.Basic

/-!
# Changing one file of a tree

A path that leads to a file, or to a place in a directory where a file can be, is led there through
directories only. Whatever is made of that file leaves the way to it as it was, and everything else
in the tree too.
-/

namespace LintMend.FileTree

variable {tree tree' : FileTree} {place here target other : Place} {entry : Entry} {path : String}
  {steps : List Path.Component} {content : Content}

/-- What is done step by step succeeds where every step does. -/
theorem exists_of_bind_eq_ok {ε α β : Type} {first : Except ε α} {next : α → Except ε β} {b : β}
    (h : (first >>= next) = .ok b) : ∃ a, first = .ok a ∧ next a = .ok b := by
  cases first with
  | error e => cases h
  | ok a => exact ⟨a, rfl, h⟩

/-! ## Entries -/

/-- An update of the entries of one place, each of which keeps its place. -/
theorem find?_update (entries : List (Place × Entry)) (place other : Place) (entry : Entry) :
    (entries.map fun e ↦ if e.1 = place then (place, entry) else e).find? (·.1 = other) =
      (entries.find? (·.1 = other)).map fun e ↦ if e.1 = place then (place, entry) else e := by
  rw [List.find?_map]
  congr 2
  funext e
  simp only [Function.comp_apply]
  split
  · next h => rw [h]
  · rfl

theorem entry?_eq (h : place ≠ []) :
    tree.entry? place = (tree.entries.find? (·.1 = place)).map (·.2) := by
  unfold entry?
  rw [if_neg (by simpa using h)]

theorem entry?_put_self (h : place ≠ []) : entry? (tree.put place entry) place = some entry := by
  rw [entry?_eq h, put]
  split
  · next hany =>
    obtain ⟨e, he, heq⟩ := List.any_eq_true.mp hany
    have hsome : (tree.entries.find? (·.1 = place)).isSome := List.find?_isSome.mpr ⟨e, he, heq⟩
    obtain ⟨found, hfound⟩ := Option.isSome_iff_exists.mp hsome
    have hplace : found.1 = place := by simpa using List.find?_some hfound
    rw [find?_update, hfound]
    simp [hplace]
  · next hany =>
    have hnone : tree.entries.find? (·.1 = place) = none := by
      rw [List.find?_eq_none]
      exact fun e he heq ↦ hany (List.any_eq_true.mpr ⟨e, he, heq⟩)
    simp [List.find?_append, hnone]

theorem entry?_put_of_ne (h : other ≠ place) :
    entry? (tree.put place entry) other = tree.entry? other := by
  unfold entry?
  rw [put]
  congr 1
  split
  · rw [find?_update]
    cases hfound : tree.entries.find? (·.1 = other) with
    | none => rfl
    | some found =>
      have hother : found.1 = other := by simpa using List.find?_some hfound
      have hne : found.1 ≠ place := fun heq ↦ h (hother.symm.trans heq)
      simp [hne]
  · simp [List.find?_append, Ne.symm h]

theorem entry?_erase_self (h : place ≠ []) : entry? (tree.erase place) place = none := by
  rw [entry?_eq h]
  simp [erase]

theorem entry?_erase_of_ne (h : other ≠ place) :
    entry? (tree.erase place) other = tree.entry? other := by
  unfold entry?
  rw [erase, List.find?_filter]
  congr 3
  funext e
  by_cases he : e.1 = other
  · simp [he, h]
  · simp [he]

/-- The content of the file at a place. -/
def content? (tree : FileTree) (place : Place) : Option Content :=
  match tree.entry? place with
  | some (.file content) => some content
  | _ => none

/-- Where there is no directory, there is a file or nothing. -/
theorem entry?_eq_map_content? (h : tree.entry? place ≠ some .directory) :
    tree.entry? place = (tree.content? place).map .file := by
  rw [content?]
  rcases hentry : tree.entry? place with _ | content | _
  · rfl
  · rfl
  · exact absurd hentry h

theorem content?_eq_some_iff :
    tree.content? place = some content ↔ tree.entry? place = some (.file content) := by
  rw [content?]
  split
  · next h => simp [h]
  · next h => simpa using h content

theorem content?_put_self (h : place ≠ []) :
    (tree.put place (.file content)).content? place = some content := by
  rw [content?, entry?_put_self h]

theorem content?_eq_none (h : tree.entry? place = none) : tree.content? place = none := by
  rw [content?, h]

/-! ## Changes at one place -/

/-- Two trees that differ at most in what is at one place. -/
structure SameBut (place : Place) (tree tree' : FileTree) : Prop where
  base : tree'.base = tree.base
  entries : ∀ other, other ≠ place → tree'.entry? other = tree.entry? other

theorem SameBut.refl (place : Place) (tree : FileTree) : SameBut place tree tree :=
  ⟨rfl, fun _ _ ↦ rfl⟩

theorem SameBut.trans {tree'' : FileTree} (h : SameBut place tree tree')
    (h' : SameBut place tree' tree'') : SameBut place tree tree'' :=
  ⟨h'.base.trans h.base, fun other hne ↦ (h'.entries other hne).trans (h.entries other hne)⟩

theorem SameBut.symm (h : SameBut place tree tree') : SameBut place tree' tree :=
  ⟨h.base.symm, fun other hne ↦ (h.entries other hne).symm⟩

theorem sameBut_put (tree : FileTree) (place : Place) (entry : Entry) :
    SameBut place tree (tree.put place entry) := by
  constructor
  · rw [put]
    split <;> rfl
  · exact fun other h ↦ entry?_put_of_ne h

theorem sameBut_erase (tree : FileTree) (place : Place) : SameBut place tree (tree.erase place) :=
  ⟨rfl, fun _ h ↦ entry?_erase_of_ne h⟩

theorem steps?_congr (h : tree'.base = tree.base) (path : String) :
    tree'.steps? path = tree.steps? path := by
  rw [steps?, steps?, h]

/-- Where a step of a walk leads, from a directory. -/
def next? (here : Place) : Path.Component → Except FileError Place
  | .normal name => .ok (here ++ [name])
  | .parent => if here.isEmpty then .error .notFound else .ok here.dropLast
  | .current => .ok here
  | .root => .ok here

theorem walkTo_cons (tree : FileTree) (here : Place) (step : Path.Component)
    (steps : List Path.Component) :
    tree.walkTo here (step :: steps) =
      match tree.entry? here with
      | none => .error .notFound
      | some (.file _) => .error .notADirectory
      | some .directory => (next? here step).bind fun there ↦ tree.walkTo there steps := by
  cases step with
  | normal name => rw [walkTo]; rfl
  | parent =>
    rw [walkTo, next?]
    cases here.isEmpty <;> rfl
  | current => rw [walkTo]; rfl
  | root => rw [walkTo]; rfl

/-- A walk that succeeds leaves a directory at every step. -/
theorem walkTo_cons_eq_ok_iff {step : Path.Component} :
    tree.walkTo here (step :: steps) = .ok target ↔ tree.entry? here = some .directory ∧
      ∃ there, next? here step = .ok there ∧ tree.walkTo there steps = .ok target := by
  rw [walkTo_cons]
  cases tree.entry? here with
  | none => simp
  | some entry =>
    cases entry with
    | file content => simp
    | directory => cases next? here step <;> simp [Except.bind]

/-- A walk leads through directories, so it is as it was where these are. -/
theorem walkTo_of_sameBut (h : SameBut place tree tree')
    (hplace : tree.entry? place ≠ some .directory)
    (hwalk : tree.walkTo here steps = .ok target) : tree'.walkTo here steps = .ok target := by
  induction steps generalizing here with
  | nil => exact hwalk
  | cons step steps ih =>
    obtain ⟨hhere, there, hnext, hrest⟩ := walkTo_cons_eq_ok_iff.mp hwalk
    have hne : here ≠ place := by
      rintro rfl
      exact hplace hhere
    exact walkTo_cons_eq_ok_iff.mpr ⟨(h.entries here hne).trans hhere, there, hnext, ih hrest⟩

theorem walkTo_append (tree : FileTree) (here : Place) (a b : List Path.Component) :
    tree.walkTo here (a ++ b) = (tree.walkTo here a).bind fun there ↦ tree.walkTo there b := by
  induction a generalizing here with
  | nil => rfl
  | cons step a ih =>
    rw [List.cons_append, walkTo_cons, walkTo_cons]
    split
    · rfl
    · rfl
    · cases next? here step with
      | error fault => rfl
      | ok there => exact ih there

theorem walkTo_append_eq_ok_iff {a b : List Path.Component} :
    tree.walkTo here (a ++ b) = .ok target ↔
      ∃ there, tree.walkTo here a = .ok there ∧ tree.walkTo there b = .ok target := by
  rw [walkTo_append]
  cases tree.walkTo here a <;> simp [Except.bind]

/-! ## Places for files -/

/-- A path leads to a place that is not a directory. -/
structure Leads (tree : FileTree) (path : String) (place : Place) : Prop where
  walk : ∃ steps, tree.steps? path = .ok steps ∧ tree.walkTo [] steps = .ok place
  entry : tree.entry? place ≠ some .directory
  name : namesDirectory path = false

namespace Leads

theorem ne_nil (h : tree.Leads path place) : place ≠ [] := by
  rintro rfl
  exact h.entry rfl

theorem look (h : tree.Leads path place) : tree.look path = .ok (place, tree.entry? place) := by
  obtain ⟨steps, hsteps, hwalk⟩ := h.walk
  simp only [FileTree.look, hsteps, hwalk, bind, Except.bind, pure, Except.pure, h.name]
  cases tree.entry? place with
  | none => rfl
  | some entry => cases entry <;> rfl

/-- A path leads where it led, whatever file stands now at one place that was for a file before. -/
theorem of_sameBut_of_entry (h : tree.Leads path place) (hsame : SameBut other tree tree')
    (hother : tree.entry? other ≠ some .directory)
    (hother' : tree'.entry? other ≠ some .directory) : tree'.Leads path place := by
  obtain ⟨steps, hsteps, hwalk⟩ := h.walk
  refine ⟨⟨steps, ?_, walkTo_of_sameBut hsame hother hwalk⟩, ?_, h.name⟩
  · rw [steps?_congr hsame.base, hsteps]
  · by_cases hplace : place = other
    · rwa [hplace]
    · rw [hsame.entries place hplace]
      exact h.entry

theorem of_sameBut (h : tree.Leads path place) (hsame : SameBut place tree tree')
    (hentry : tree'.entry? place ≠ some .directory) : tree'.Leads path place :=
  h.of_sameBut_of_entry hsame h.entry hentry

theorem read (h : tree.Leads path place) : tree.read path =
    match tree.content? place with
    | some content => .ok content
    | none => .error .notFound := by
  simp only [FileTree.read, h.look, entry?_eq_map_content? h.entry, bind, Except.bind]
  cases tree.content? place <;> rfl

end Leads

theorem exists_walk_of_look {found : Option Entry} (h : tree.look path = .ok (place, found)) :
    (∃ steps, tree.steps? path = .ok steps ∧ tree.walkTo [] steps = .ok place) ∧
      found = tree.entry? place ∧
      ∀ content, found = some (.file content) → namesDirectory path = false := by
  obtain ⟨steps, hsteps, h⟩ := exists_of_bind_eq_ok h
  obtain ⟨there, hwalk, h⟩ := exists_of_bind_eq_ok h
  split at h
  · next content hfile =>
    split at h
    · simp at h
    · next hname =>
      obtain ⟨rfl, rfl⟩ := Prod.mk.inj (Except.ok.inj h)
      exact ⟨⟨steps, hsteps, hwalk⟩, hfile.symm, fun _ _ ↦ by simpa using hname⟩
  · next hfile =>
    obtain ⟨rfl, rfl⟩ := Prod.mk.inj (Except.ok.inj h)
    exact ⟨⟨steps, hsteps, hwalk⟩, rfl, fun content hcontent ↦ absurd hcontent (hfile content)⟩

/-- The place of a file is one where there is a file, or can be. -/
theorem filePlace_eq_ok_iff : tree.filePlace path = .ok place ↔ tree.Leads path place ∧
    ((tree.content? place).isSome ∨ tree.entry? place.dropLast = some .directory) := by
  constructor
  · intro h
    obtain ⟨⟨there, entry⟩, hlook, h⟩ := exists_of_bind_eq_ok h
    obtain ⟨hwalk, rfl, hname⟩ := exists_walk_of_look hlook
    dsimp only at h
    split at h
    · simp at h
    · next content hfile =>
      obtain rfl : there = place := Except.ok.inj h
      exact ⟨⟨hwalk, by simp [hfile], hname content hfile⟩, .inl (by simp [content?, hfile])⟩
    · next hnone =>
      split at h
      · next hup =>
        split at h
        · simp at h
        · next hdirectory =>
          obtain rfl : there = place := Except.ok.inj h
          exact ⟨⟨hwalk, by simp [hnone], by simpa using hdirectory⟩, .inr hup⟩
      · simp at h
  · rintro ⟨h, hup⟩
    simp only [filePlace, h.look, entry?_eq_map_content? h.entry, bind, Except.bind]
    cases hcontent : tree.content? place with
    | none =>
      have hdirectory := hup.resolve_left (by simp [hcontent])
      simp [hdirectory, h.name, pure, Except.pure]
    | some content => rfl

theorem leads_of_filePlace (h : tree.filePlace path = .ok place) : tree.Leads path place :=
  (filePlace_eq_ok_iff.mp h).1

/-- A path can be read where it leads to a file. -/
theorem read_eq_ok_iff : tree.read path = .ok content ↔
    ∃ place, tree.Leads path place ∧ tree.content? place = some content := by
  constructor
  · intro h
    obtain ⟨⟨place, entry⟩, hlook, h⟩ := exists_of_bind_eq_ok h
    obtain ⟨hwalk, rfl, hname⟩ := exists_walk_of_look hlook
    have hentry : tree.entry? place = some (.file content) := by
      split at h
      · next hfile => exact Except.ok.inj h ▸ hfile
      · simp at h
      · simp at h
    exact ⟨place, ⟨hwalk, by simp [hentry], hname content hentry⟩,
      content?_eq_some_iff.mpr hentry⟩
  · rintro ⟨place, hleads, hcontent⟩
    rw [hleads.read, hcontent]

theorem readText_eq_ok_iff {text : Text} :
    tree.readText path = .ok text ↔ tree.read path = .ok (.text text) := by
  cases hread : tree.read path with
  | error fault => simp [readText, hread, bind, Except.bind]
  | ok found => cases found <;> simp [readText, hread, Content.text?, bind, Except.bind, pure,
      Except.pure]

/-! ## Making, changing and removing a file -/

theorem Leads.put (h : tree.Leads path place) (content : Content) :
    (tree.put place (.file content)).Leads path place :=
  h.of_sameBut (sameBut_put ..) (by simp [entry?_put_self h.ne_nil])

theorem leads_put_iff (hplace : place ≠ []) (hentry : tree.entry? place ≠ some .directory) :
    (tree.put place (.file content)).Leads path other ↔ tree.Leads path other := by
  have hfile : entry? (tree.put place (.file content)) place ≠ some .directory := by
    simp [entry?_put_self hplace]
  have hsame := sameBut_put tree place (.file content)
  exact ⟨fun h ↦ h.of_sameBut_of_entry hsame.symm hfile hentry,
    fun h ↦ h.of_sameBut_of_entry hsame hentry hfile⟩

theorem append_of_filePlace (h : tree.filePlace path = .ok place) (text : Text) :
    tree.append path text =
      .ok (tree.put place (.file (((tree.content? place).getD (.text [])).append text))) := by
  have hentry := entry?_eq_map_content? (leads_of_filePlace h).entry
  simp only [append, h, hentry, bind, Except.bind]
  cases tree.content? place <;> rfl

theorem exists_of_append {text : Text} (h : tree.append path text = .ok tree') :
    ∃ place, tree.filePlace path = .ok place ∧
      tree' = tree.put place (.file (((tree.content? place).getD (.text [])).append text)) := by
  obtain ⟨place, hplace, -⟩ := exists_of_bind_eq_ok h
  rw [append_of_filePlace hplace] at h
  exact ⟨place, hplace, (Except.ok.inj h).symm⟩

theorem exists_of_write (h : tree.write path content = .ok tree') :
    ∃ place, tree.filePlace path = .ok place ∧ tree' = tree.put place (.file content) := by
  obtain ⟨place, hplace, h⟩ := exists_of_bind_eq_ok h
  exact ⟨place, hplace, (Except.ok.inj h).symm⟩

theorem write_of_leads (h : tree.Leads path place) (hfile : (tree.content? place).isSome)
    (content : Content) : tree.write path content = .ok (tree.put place (.file content)) := by
  have hplace : tree.filePlace path = .ok place := filePlace_eq_ok_iff.mpr ⟨h, .inl hfile⟩
  simp only [write, hplace, bind, Except.bind]
  rfl

/-! ## Changing several files -/

/-- Two paths of one file, or of one place for a file. -/
def SameFile (tree : FileTree) (a b : String) : Prop :=
  ∃ place, tree.Leads a place ∧ tree.Leads b place

theorem SameFile.symm {a b : String} (h : tree.SameFile a b) : tree.SameFile b a := by
  obtain ⟨place, ha, hb⟩ := h
  exact ⟨place, hb, ha⟩

theorem SameFile.map_look_eq {a b : String} (h : tree.SameFile a b) :
    (tree.look a).map (·.1) = (tree.look b).map (·.1) := by
  obtain ⟨place, ha, hb⟩ := h
  rw [ha.look, hb.look]

/-- A tree in which files were changed or made at some places: every path leads where it led, and at
the other places is what was there. -/
structure KeepsBut (touched : Place → Prop) (tree tree' : FileTree) : Prop where
  leads : ∀ path place, tree'.Leads path place ↔ tree.Leads path place
  entries : ∀ place, ¬ touched place → tree'.entry? place = tree.entry? place

namespace KeepsBut

variable {touched touched' : Place → Prop} {tree'' : FileTree}

theorem refl (touched : Place → Prop) (tree : FileTree) : KeepsBut touched tree tree :=
  ⟨fun _ _ ↦ Iff.rfl, fun _ _ ↦ rfl⟩

theorem mono (h : KeepsBut touched tree tree') (himp : ∀ place, touched place → touched' place) :
    KeepsBut touched' tree tree' :=
  ⟨h.leads, fun place hplace ↦ h.entries place (mt (himp place) hplace)⟩

theorem trans (h : KeepsBut touched tree tree') (h' : KeepsBut touched tree' tree'') :
    KeepsBut touched tree tree'' :=
  ⟨fun path place ↦ (h'.leads path place).trans (h.leads path place),
    fun place hplace ↦ (h'.entries place hplace).trans (h.entries place hplace)⟩

theorem put (h : tree.Leads path place) (content : Content) :
    KeepsBut (· = place) tree (tree.put place (.file content)) :=
  ⟨fun _ _ ↦ leads_put_iff h.ne_nil h.entry, fun _ ↦ entry?_put_of_ne⟩

theorem sameFile_iff (h : KeepsBut touched tree tree') {a b : String} :
    tree'.SameFile a b ↔ tree.SameFile a b :=
  exists_congr fun place ↦ and_congr (h.leads a place) (h.leads b place)

/-- A file at an untouched place is read as it was. -/
theorem read (h : KeepsBut touched tree tree') (hread : tree.read path = .ok content)
    (huntouched : ∀ place, tree.Leads path place → ¬ touched place) :
    tree'.read path = .ok content := by
  obtain ⟨place, hleads, hcontent⟩ := read_eq_ok_iff.mp hread
  refine read_eq_ok_iff.mpr ⟨place, (h.leads path place).mpr hleads, ?_⟩
  rw [content?, h.entries place (huntouched place hleads), ← content?, hcontent]

end KeepsBut

/-- A path leads to a place in a directory at which there is a file, or nothing. -/
structure HasSlot (tree : FileTree) (path : String) (place : Place) : Prop
    extends tree.Leads path place where
  up : tree.entry? place.dropLast = some .directory

namespace HasSlot

theorem filePlace (h : tree.HasSlot path place) : tree.filePlace path = .ok place :=
  filePlace_eq_ok_iff.mpr ⟨h.toLeads, .inr h.up⟩

/-- A file comes, changes and goes, and its place remains one for a file. -/
theorem of_sameBut (h : tree.HasSlot path place) (hsame : SameBut place tree tree')
    (hentry : tree'.entry? place ≠ some .directory) : tree'.HasSlot path place := by
  have hup : place.dropLast ≠ place := by
    intro heq
    have hlength := congrArg List.length heq
    have hpos := List.length_pos_iff.mpr h.ne_nil
    rw [List.length_dropLast] at hlength
    omega
  exact ⟨h.toLeads.of_sameBut hsame hentry, by rw [hsame.entries _ hup, h.up]⟩

theorem put (h : tree.HasSlot path place) (content : Content) :
    (tree.put place (.file content)).HasSlot path place :=
  h.of_sameBut (sameBut_put ..) (by simp [entry?_put_self h.ne_nil])

theorem write (h : tree.HasSlot path place) (content : Content) :
    tree.write path content = .ok (tree.put place (.file content)) := by
  simp only [FileTree.write, h.filePlace, bind, Except.bind]
  rfl

end HasSlot

/-- The tree without a file, which may have been missing. -/
def without (tree : FileTree) (path : String) : FileTree := (tree.remove path).toOption.getD tree

theorem HasSlot.without (h : tree.HasSlot path place) :
    (tree.without path).HasSlot path place ∧ (tree.without path).content? place = none ∧
      SameBut place tree (tree.without path) := by
  have hremove : tree.without path =
      if (tree.content? place).isSome then tree.erase place else tree := by
    simp only [FileTree.without, remove, h.look, entry?_eq_map_content? h.entry, bind, Except.bind]
    cases tree.content? place <;> rfl
  rw [hremove]
  cases hcontent : tree.content? place with
  | none => exact ⟨h, hcontent, SameBut.refl ..⟩
  | some content =>
    have hnone : entry? (tree.erase place) place = none := entry?_erase_self h.ne_nil
    exact ⟨h.of_sameBut (sameBut_erase ..) (by simp [hnone]), content?_eq_none hnone,
      sameBut_erase ..⟩

end LintMend.FileTree
