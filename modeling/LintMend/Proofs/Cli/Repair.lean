import LintMend.Cli.Run
import LintMend.Proofs.Files.Tree
import LintMend.Proofs.Output.Summary
import LintMend.Proofs.Repair.Cycles
import Mathlib.Data.List.Pairwise

/-!
# What a repair does to the files

A repair computes the outcome of every file from the files as they were, and writes afterwards. A
file is written where its repair succeeded with another text than the file had, and then it holds
that text; every other file is as it was, but for the log. The same outcomes are reported whether
files are written or not, so a check reports as changed what a repair would write.
-/

namespace LintMend

open Repair FileTree

variable {tree before after : FileTree} {path : String} {paths : List String} {place : Place}
  {outcome : String → Except RepairError Repaired} {fix : Bool} {r : Repaired} {content : Content}

namespace Cli

/-! ## Entries -/

/-- A file whose repair succeeds with another text than the file has. -/
def Changes (outcome : String → Except RepairError Repaired) (path : String) : Prop :=
  ∃ r, outcome path = .ok r ∧ r.source ≠ r.result

/-- The entry of a file that can be written where that is needed. -/
def entryOf (path : String) : Except RepairError Repaired → Entry
  | .ok r => .repaired path r
  | .error e => .failed path (joinChain e.chain)

theorem isSome_error?_entryOf {result : Except RepairError Repaired} :
    (entryOf path result).error?.isSome ↔ ∃ e, result = .error e := by
  cases result <;> simp [entryOf, Entry.error?]

theorem isChanged_entryOf : (entryOf path (outcome path)).isChanged ↔ Changes outcome path := by
  cases h : outcome path <;> simp [entryOf, Entry.isChanged, Changes, Repaired.isChanged, h]

theorem path_entryOf {result : Except RepairError Repaired} :
    (entryOf path result).path = path := by
  cases result <;> rfl

/-- The entry of a path is that of its outcome. -/
theorem exists_entry_iff {P : Entry → Prop} :
    (∃ entry ∈ paths.map fun path ↦ entryOf path (outcome path), entry.path = path ∧ P entry) ↔
      path ∈ paths ∧ P (entryOf path (outcome path)) := by
  constructor
  · rintro ⟨entry, hentry, hpath, hP⟩
    obtain ⟨other, hother, rfl⟩ := List.mem_map.mp hentry
    rw [path_entryOf] at hpath
    exact hpath ▸ ⟨hother, hP⟩
  · rintro ⟨hpath, hP⟩
    exact ⟨_, List.mem_map_of_mem hpath, path_entryOf, hP⟩

/-! ## Writing -/

theorem repairedEntry_of_keeps (h : ¬ (fix ∧ Changes outcome path)) :
    repairedEntry fix tree path (outcome path) = (entryOf path (outcome path), tree) := by
  cases houtcome : outcome path with
  | error e => rfl
  | ok r =>
    have hkeeps : ¬ (fix ∧ r.isChanged) := by
      rintro ⟨hfix, hchanged⟩
      exact h ⟨hfix, r, houtcome, by simpa [Repaired.isChanged] using hchanged⟩
    simp only [repairedEntry, if_neg hkeeps, entryOf]

theorem repairedEntry_of_changes (houtcome : outcome path = .ok r) (hne : r.source ≠ r.result)
    (hleads : tree.Leads path place) (hfile : (tree.content? place).isSome) :
    repairedEntry true tree path (outcome path) =
      (entryOf path (outcome path), tree.put place (.file (.text r.result))) := by
  have hchanged : r.isChanged := by simpa [Repaired.isChanged] using hne
  have hwrite := write_of_leads hleads hfile (.text r.result)
  rw [houtcome]
  simp [repairedEntry, hchanged, writeResult, hwrite, entryOf]

theorem repairedEntries_false (tree : FileTree) (paths : List String)
    (outcome : String → Except RepairError Repaired) :
    repairedEntries false tree (paths.map fun path ↦ (path, outcome path)) =
      (paths.map fun path ↦ entryOf path (outcome path), tree) := by
  induction paths with
  | nil => rfl
  | cons path paths ih =>
    have hentry : repairedEntry false tree path (outcome path) =
        (entryOf path (outcome path), tree) := repairedEntry_of_keeps (by simp)
    simp only [List.map_cons, repairedEntries, hentry, ih]

/-- The places of the files that change. -/
def WrittenAt (outcome : String → Except RepairError Repaired) (paths : List String)
    (tree : FileTree) (place : Place) : Prop :=
  ∃ path ∈ paths, Changes outcome path ∧ tree.Leads path place

/-- The files that change hold their new texts, and nothing else happened. -/
structure Writes (outcome : String → Except RepairError Repaired) (paths : List String)
    (before after : FileTree) : Prop
    extends KeepsBut (WrittenAt outcome paths before) before after where
  written : ∀ path ∈ paths, ∀ r, outcome path = .ok r → r.source ≠ r.result →
    after.read path = .ok (.text r.result)

namespace Writes

theorem nil (tree : FileTree) : Writes outcome [] tree tree := ⟨.refl _ tree, nofun⟩

theorem cons_of_keeps (h : Writes outcome paths before after) (hkeeps : ¬ Changes outcome path) :
    Writes outcome (path :: paths) before after where
  toKeepsBut := h.mono fun _ ⟨other, hother, hplace⟩ ↦
    ⟨other, List.mem_cons_of_mem path hother, hplace⟩
  written := List.forall_mem_cons.mpr
    ⟨fun r houtcome hne ↦ absurd ⟨r, houtcome, hne⟩ hkeeps, h.written⟩

theorem cons_of_put (houtcome : outcome path = .ok r) (hne : r.source ≠ r.result)
    (hleads : before.Leads path place)
    (hdistinct : ∀ other ∈ paths, ¬ before.SameFile path other)
    (h : Writes outcome paths (before.put place (.file (.text r.result))) after) :
    Writes outcome (path :: paths) before after := by
  have hput := KeepsBut.put hleads (.text r.result)
  have hfirst : WrittenAt outcome (path :: paths) before place :=
    ⟨path, List.mem_cons_self, ⟨r, houtcome, hne⟩, hleads⟩
  constructor
  case toKeepsBut =>
    refine (hput.mono ?_).trans (h.mono ?_)
    · rintro there rfl
      exact hfirst
    · rintro there ⟨other, hother, hchanges, hthere⟩
      exact ⟨other, List.mem_cons_of_mem path hother, hchanges, (hput.leads other there).mp hthere⟩
  case written =>
    refine List.forall_mem_cons.mpr ⟨fun r' houtcome' _ ↦ ?_, h.written⟩
    obtain rfl : r = r' := Except.ok.inj (houtcome.symm.trans houtcome')
    have hread : (before.put place (.file (.text r.result))).read path = .ok (.text r.result) :=
      read_eq_ok_iff.mpr ⟨place, hleads.put _, content?_put_self hleads.ne_nil⟩
    refine h.read hread fun there hthere hwritten ↦ ?_
    obtain ⟨other, hother, -, hleads'⟩ := hwritten
    exact hdistinct other hother (hput.sameFile_iff.mp ⟨there, hthere, hleads'⟩)

end Writes

/-- Files are written one after the other, and none of them is that of an earlier path. -/
theorem writes_repairedEntries_true (hdistinct : paths.Pairwise fun a b ↦ ¬ tree.SameFile a b)
    (hsource : ∀ path ∈ paths, ∀ r, outcome path = .ok r →
      tree.read path = .ok (.text r.source)) :
    ∃ after, repairedEntries true tree (paths.map fun path ↦ (path, outcome path)) =
      (paths.map fun path ↦ entryOf path (outcome path), after) ∧
      Writes outcome paths tree after := by
  induction paths generalizing tree with
  | nil => exact ⟨tree, rfl, .nil tree⟩
  | cons path paths ih =>
    obtain ⟨hpath, hrest⟩ := List.pairwise_cons.mp hdistinct
    obtain ⟨hread, hreads⟩ := List.forall_mem_cons.mp hsource
    by_cases hchanges : Changes outcome path
    · obtain ⟨r, houtcome, hne⟩ := hchanges
      obtain ⟨place, hleads, hcontent⟩ := read_eq_ok_iff.mp (hread r houtcome)
      have hentry := repairedEntry_of_changes houtcome hne hleads (by rw [hcontent]; rfl)
      have hput := KeepsBut.put hleads (.text r.result)
      have hdistinct' : paths.Pairwise fun a b ↦
          ¬ (tree.put place (.file (.text r.result))).SameFile a b := by
        simpa only [hput.sameFile_iff] using hrest
      have hreads' : ∀ other ∈ paths, ∀ r', outcome other = .ok r' →
          (tree.put place (.file (.text r.result))).read other = .ok (.text r'.source) := by
        intro other hother r' houtcome'
        refine hput.read (hreads other hother r' houtcome') ?_
        rintro there hthere rfl
        exact hpath other hother ⟨there, hleads, hthere⟩
      obtain ⟨after, hafter, hwrites⟩ := ih hdistinct' hreads'
      refine ⟨after, ?_, hwrites.cons_of_put houtcome hne hleads hpath⟩
      simp only [List.map_cons, repairedEntries, hentry, hafter]
    · obtain ⟨after, hafter, hwrites⟩ := ih hrest hreads
      have hentry : repairedEntry true tree path (outcome path) =
          (entryOf path (outcome path), tree) := repairedEntry_of_keeps fun h ↦ hchanges h.2
      refine ⟨after, ?_, hwrites.cons_of_keeps hchanges⟩
      simp only [List.map_cons, repairedEntries, hentry, hafter]

/-- The entries are the same whether files are written or not. -/
theorem writes_repairedEntries (hdistinct : paths.Pairwise fun a b ↦ ¬ tree.SameFile a b)
    (hsource : ∀ path ∈ paths, ∀ r, outcome path = .ok r →
      tree.read path = .ok (.text r.source)) (fix : Bool) :
    ∃ after, repairedEntries fix tree (paths.map fun path ↦ (path, outcome path)) =
      (paths.map fun path ↦ entryOf path (outcome path), after) ∧
      Writes outcome (if fix then paths else []) tree after := by
  cases fix with
  | false => exact ⟨tree, repairedEntries_false tree paths outcome, .nil tree⟩
  | true => exact writes_repairedEntries_true hdistinct hsource

/-! ## The status -/

/-- What a status of three says, one before the other. -/
theorem status_iff (a b : Prop) [Decidable a] [Decidable b] :
    let status : UInt8 := if a then 1 else if b then 2 else 0
    (status = 1 ↔ a) ∧ (status = 2 ↔ ¬ a ∧ b) ∧ (status = 0 ↔ ¬ a ∧ ¬ b) := by
  intro status
  by_cases ha : a
  · simp [status, ha]
  · by_cases hb : b <;> simp [status, ha, hb]

/-- Errors come first, and then files that would change. -/
structure HasStatus (fix : Bool) (outcome : String → Except RepairError Repaired)
    (paths : List String) (status : UInt8) : Prop where
  failed : status = 1 ↔ ∃ path ∈ paths, ∃ e, outcome path = .error e
  changed : status = 2 ↔ (∀ path ∈ paths, ∃ r, outcome path = .ok r) ∧ ¬ fix ∧
    ∃ path ∈ paths, Changes outcome path
  clean : status = 0 ↔ (∀ path ∈ paths, ∃ r, outcome path = .ok r) ∧
    (fix ∨ ∀ path ∈ paths, ¬ Changes outcome path)

theorem hasStatus_repairStatus (fix : Bool) (outcome : String → Except RepairError Repaired)
    (paths : List String) :
    HasStatus fix outcome paths (repairStatus fix
      (Summary.ofEntries (paths.map fun path ↦ entryOf path (outcome path)))) := by
  let s := Summary.ofEntries (paths.map fun path ↦ entryOf path (outcome path))
  have herrors : 0 < s.errors ↔ ∃ path ∈ paths, ∃ e, outcome path = .error e := by
    simp only [s, Summary.errors_pos_iff, List.mem_map, exists_exists_and_eq_and,
      isSome_error?_entryOf]
  have hchanges : 0 < s.filesWithChanges ↔ ∃ path ∈ paths, Changes outcome path := by
    simp only [s, Summary.filesWithChanges_pos_iff, List.mem_map, exists_exists_and_eq_and,
      isChanged_entryOf]
  have hsucceeds : ¬ 0 < s.errors ↔ ∀ path ∈ paths, ∃ r, outcome path = .ok r := by
    rw [herrors]
    push Not
    refine forall₂_congr fun path _ ↦ ?_
    cases outcome path <;> simp
  have hkeeps : ¬ 0 < s.filesWithChanges ↔ ∀ path ∈ paths, ¬ Changes outcome path := by
    rw [hchanges]
    push Not
    rfl
  obtain ⟨hfailed, hchanged, hclean⟩ :=
    status_iff (0 < s.errors) (¬ fix ∧ 0 < s.filesWithChanges)
  constructor
  case failed => exact hfailed.trans herrors
  case changed => exact hchanged.trans (and_congr hsucceeds (and_congr_right' hchanges))
  case clean =>
    have hclear : ¬ (¬ fix ∧ 0 < s.filesWithChanges) ↔
        fix ∨ ∀ path ∈ paths, ¬ Changes outcome path := by
      rw [not_and_or, not_not, hkeeps]
    exact hclean.trans (and_congr hsucceeds hclear)

/-! ## The command -/

/-- The files with some entries added to the log, if there is one. -/
def filesLogged (stamp : String) (entries : Log) (files : FileTree) : Option String → FileTree
  | none => files
  | some log => (files.append log (Log.render stamp entries).toList).toOption.getD files

/-- The place of the log. -/
def LogAt (logPath : Option String) (files : FileTree) (place : Place) : Prop :=
  ∃ log ∈ logPath, files.Leads log place

theorem keepsBut_filesLogged (stamp : String) (entries : Log) (files : FileTree)
    (logPath : Option String) :
    KeepsBut (LogAt logPath files) files (filesLogged stamp entries files logPath) := by
  cases logPath with
  | none => exact .refl _ files
  | some log =>
    rw [filesLogged]
    cases happend : files.append log (Log.render stamp entries).toList with
    | error fault => exact .refl _ files
    | ok files' =>
      obtain ⟨place, hplace, rfl⟩ := exists_of_append happend
      have hleads := leads_of_filePlace hplace
      refine (KeepsBut.put hleads _).mono ?_
      rintro there rfl
      exact ⟨log, rfl, hleads⟩

/-- A repair looks at the files as they were, adds what it did to the log, and writes then. -/
theorem exists_runRepair_eq (s : Setting) (settings : ProjectSettings) (d : Display)
    (manager : Manager) (paths : List String) (fix : Bool) (cycles : Nat) (p : Progress) :
    let collected := (Collected.ofPaths p.files settings paths).files
    let world := { s.world with files := p.files }
    let outcome path := manager.repairFile world Rule.all path cycles
    let logged := collected.flatMap fun path ↦
      repairLog path (manager.attemptFile world Rule.all path cycles)
    ∃ earlier : Printed,
      let done := repairedEntries fix (filesLogged s.stamp logged p.files p.logPath)
        (collected.map fun path ↦ (path, outcome path))
      runRepair s settings d manager paths fix cycles p =
        (.ok (repairStatus fix (Summary.ofEntries done.1)),
          ⟨earlier.append (d.results (if fix then .fix else .check) done.1), done.2,
            p.logPath⟩) := by
  intro collected world outcome logged
  obtain ⟨printed, files, logPath⟩ := p
  let attempts := collected.map fun path ↦ (path, manager.attemptFile world Rule.all path cycles)
  have houtcomes : (collected.map fun path ↦ (path, outcome path)) =
      attempts.map fun result ↦ (result.1, result.2.bind (·.attempt.result)) := by
    rw [List.map_map]
    rfl
  have hlogged : logged = attempts.flatMap fun result ↦ repairLog result.1 result.2 := by
    rw [List.flatMap_map]
  rw [houtcomes, hlogged]
  let missing := missingLines d (Collected.ofPaths files settings paths).missing
  by_cases hverbose : d.verbose ∧ d.format = .text
  · let mode := d.bold "Mode" ++ ": " ++ (if fix then "fix" else "check")
    refine ⟨(printed.append missing).append (.outLines
      [mode, d.bold "Cycles" ++ ": " ++ toString cycles, ""]), ?_⟩
    unfold runRepair
    simp only [if_pos hverbose]
    cases logPath <;> rfl
  · refine ⟨printed.append missing, ?_⟩
    unfold runRepair
    simp only [if_neg hverbose]
    cases logPath <;> rfl

/-! ## Two modes -/

section

variable {manager : Manager} {world : World} {rules : List Rule} {limit : Nat} {e : RepairError}

/-- How the repair of a file fails: the file cannot be read as a text, or it cannot be linted, or a
pass within the limit has repaired something and what it has made of the text cannot be linted. -/
inductive Fails (manager : Manager) (world : World) (rules : List Rule) (path : String)
    (limit : Nat) : RepairError → Prop
  | read {fault : FileError} (unread : world.files.readText path = .error fault) :
      Fails manager world rules path limit (.read path fault)
  | lint {text : Text} {e : RepairError} (read : world.files.readText path = .ok text)
      (error : manager.lintFor world path = .error e) : Fails manager world rules path limit e
  | relint {text : Text} {run : LintRun} {first : Cycle} {further : List Cycle} {last : Pass}
      {e : RepairError} (read : world.files.readText path = .ok text)
      (linted : manager.lintFor world path = .ok run)
      (cycles : Alternates rules (manager.lintTextFor world path) text run.report.hints first
        further last)
      (within : (first :: further).length < limit) (changed : last.applied ≠ [])
      (error : manager.lintTextFor world path last.text = .error e) :
      Fails manager world rules path limit e

/-- A file that is read and linted is repaired in cycles. -/
theorem repairFile_eq_of_linted {text : Text} {run : LintRun}
    (hread : world.files.readText path = .ok text) (hlint : manager.lintFor world path = .ok run) :
    manager.repairFile world rules path limit =
      repairWithCycles rules (manager.lintTextFor world path) limit text run.report := by
  rw [Manager.repairFile, Manager.attemptFile, hread, hlint]
  rfl

theorem repairFile_eq_error_iff : manager.repairFile world rules path limit = .error e ↔
    Fails manager world rules path limit e := by
  cases hread : world.files.readText path with
  | error fault =>
    have hfile : manager.repairFile world rules path limit = .error (.read path fault) := by
      rw [Manager.repairFile, Manager.attemptFile, hread]
      rfl
    rw [hfile, Except.error.injEq]
    constructor
    · rintro rfl
      exact .read hread
    · rintro (hunread | ⟨hread', -⟩ | ⟨hread', -⟩)
      · obtain rfl := Except.error.inj (hread.symm.trans hunread)
        rfl
      all_goals simp [hread] at hread'
  | ok text =>
    cases hlint : manager.lintFor world path with
    | error e' =>
      have hfile : manager.repairFile world rules path limit = .error e' := by
        rw [Manager.repairFile, Manager.attemptFile, hread, hlint]
        rfl
      rw [hfile, Except.error.injEq]
      constructor
      · rintro rfl
        exact .lint hread hlint
      · rintro (hunread | ⟨-, herror⟩ | ⟨-, hlint', -⟩)
        · simp [hread] at hunread
        · exact Except.error.inj (hlint.symm.trans herror)
        · simp [hlint] at hlint'
    | ok run =>
      rw [repairFile_eq_of_linted hread hlint, repairWithCycles_eq_error_iff]
      constructor
      · rintro ⟨first, further, last, hcycles, hwithin, hchanged, herror⟩
        exact .relint hread hlint hcycles hwithin hchanged herror
      · rintro (hunread | ⟨-, herror⟩ | ⟨hread', hlint', hcycles, hwithin, hchanged, herror⟩)
        · simp [hread] at hunread
        · simp [hlint] at herror
        · obtain rfl := Except.ok.inj (hread.symm.trans hread')
          obtain rfl := Except.ok.inj (hlint.symm.trans hlint')
          exact ⟨_, _, _, hcycles, hwithin, hchanged, herror⟩

theorem readText_of_repairFile (h : manager.repairFile world rules path limit = .ok r) :
    world.files.readText path = .ok r.source := by
  cases hread : world.files.readText path with
  | error fault => cases (repairFile_eq_error_iff.mpr (.read hread)).symm.trans h
  | ok text =>
    cases hlint : manager.lintFor world path with
    | error e => cases (repairFile_eq_error_iff.mpr (.lint hread hlint)).symm.trans h
    | ok run =>
      rw [repairFile_eq_of_linted hread hlint] at h
      rw [(repairWithCycles_eq_ok_iff.mp h).1]

end

/-- Where files are to be written, those that change hold their new texts. All other files of the
run are as they were, and so is everything else, except for the log. -/
structure Leaves (fix : Bool) (outcome : String → Except RepairError Repaired)
    (paths : List String) (logPath : Option String) (before after : FileTree) : Prop
    extends KeepsBut (fun place ↦ LogAt logPath before place ∨
      fix ∧ WrittenAt outcome paths before place) before after where
  written : fix → ∀ path ∈ paths, ∀ r, outcome path = .ok r → r.source ≠ r.result →
    after.read path = .ok (.text r.result)
  kept : ∀ path ∈ paths, ¬ (fix ∧ Changes outcome path) →
    ∀ content, before.read path = .ok content → after.read path = .ok content

theorem leaves_of_writes {logPath : Option String} {logged : FileTree}
    (hlogged : KeepsBut (LogAt logPath before) before logged)
    (hwrites : Writes outcome (if fix then paths else []) logged after)
    (hlog : ∀ log ∈ logPath, ∀ path ∈ paths, ¬ before.SameFile log path)
    (hdistinct : paths.Pairwise fun a b ↦ ¬ before.SameFile a b) :
    Leaves fix outcome paths logPath before after := by
  have hframe : KeepsBut (fun place ↦ LogAt logPath before place ∨
      fix ∧ WrittenAt outcome paths before place) before after := by
    refine (hlogged.mono fun place ↦ .inl).trans (hwrites.mono ?_)
    rintro place ⟨path, hpath, hchanges, hleads⟩
    cases fix with
    | false => exact absurd hpath List.not_mem_nil
    | true => exact .inr ⟨rfl, path, hpath, hchanges, (hlogged.leads path place).mp hleads⟩
  refine ⟨hframe, ?_, ?_⟩
  · rintro rfl
    exact hwrites.written
  · intro path hpath hkeeps content hread
    refine hframe.read hread fun place hleads ↦ ?_
    rintro (⟨log, hmem, hplace⟩ | ⟨hfix, other, hother, hchanges, hplace⟩)
    · exact hlog log hmem path hpath ⟨place, hplace, hleads⟩
    · by_cases hother' : other = path
      · rw [hother'] at hchanges
        exact hkeeps ⟨hfix, hchanges⟩
      · have : Std.Symm fun a b ↦ ¬ before.SameFile a b := ⟨fun a b h hba ↦ h hba.symm⟩
        exact hdistinct.forall hother hpath hother' ⟨place, hplace, hleads⟩

/-- Logging and writing, whatever became of the files. -/
theorem exists_leaves (stamp : String) (entries : Log) {logPath : Option String}
    (hlog : ∀ log ∈ logPath, ∀ path ∈ paths, ¬ before.SameFile log path)
    (hdistinct : paths.Pairwise fun a b ↦ ¬ before.SameFile a b)
    (hsource : ∀ path ∈ paths, ∀ r, outcome path = .ok r →
      before.readText path = .ok r.source) (fix : Bool) :
    ∃ after, repairedEntries fix (filesLogged stamp entries before logPath)
        (paths.map fun path ↦ (path, outcome path)) =
      (paths.map fun path ↦ entryOf path (outcome path), after) ∧
      Leaves fix outcome paths logPath before after := by
  have hlogged := keepsBut_filesLogged stamp entries before logPath
  have hdistinct' : paths.Pairwise fun a b ↦
      ¬ (filesLogged stamp entries before logPath).SameFile a b := by
    simpa only [hlogged.sameFile_iff] using hdistinct
  have hsource' : ∀ path ∈ paths, ∀ r, outcome path = .ok r →
      (filesLogged stamp entries before logPath).read path = .ok (.text r.source) := by
    intro path hpath r houtcome
    refine hlogged.read (readText_eq_ok_iff.mp (hsource path hpath r houtcome)) ?_
    rintro place hleads ⟨log, hmem, hplace⟩
    exact hlog log hmem path hpath ⟨place, hplace, hleads⟩
  obtain ⟨after, hafter, hwrites⟩ := writes_repairedEntries hdistinct' hsource' fix
  exact ⟨after, hafter, leaves_of_writes hlogged hwrites hlog hdistinct⟩

/-- A check and a repair of the same files make the same entries, one for each file. Of the files
whose entries say changed, the repair writes the new texts and the check leaves the old ones. All
other files are left as they are by both, those with an error too, and the status says whether there
was an error. Only the log must not be one of the files. -/
theorem check_reports_what_fix_writes (s : Setting) (settings : ProjectSettings) (d : Display)
    (manager : Manager) (paths : List String) (cycles : Nat) (p : Progress)
    (hdistinct : (p.logPath.toList ++ (Collected.ofPaths p.files settings paths).files).Pairwise
      fun a b ↦ ¬ p.files.SameFile a b) :
    let collected := (Collected.ofPaths p.files settings paths).files
    let world := { s.world with files := p.files }
    let outcome path := manager.repairFile world Rule.all path cycles
    let entries := collected.map fun path ↦ entryOf path (outcome path)
    (∀ path e, outcome path = .error e ↔ Fails manager world Rule.all path cycles e) ∧
    (∀ path r, outcome path = .ok r → p.files.readText path = .ok r.source) ∧
    (∀ path, (∃ entry ∈ entries, entry.path = path ∧ entry.error?.isSome) ↔
      path ∈ collected ∧ ∃ e, outcome path = .error e) ∧
    (∀ path, (∃ entry ∈ entries, entry.path = path ∧ entry.isChanged) ↔
      path ∈ collected ∧ Changes outcome path) ∧
    ∀ fix, ∃ (earlier : Printed) (after : FileTree) (status : UInt8),
      runRepair s settings d manager paths fix cycles p =
        (.ok status, ⟨earlier.append (d.results (if fix then .fix else .check) entries), after,
          p.logPath⟩) ∧
      Leaves fix outcome collected p.logPath p.files after ∧
      HasStatus fix outcome collected status := by
  intro collected world outcome entries
  obtain ⟨-, hpairwise, hcross⟩ := List.pairwise_append.mp hdistinct
  have hlog : ∀ log ∈ p.logPath, ∀ path ∈ collected, ¬ p.files.SameFile log path :=
    fun log hmem ↦ hcross log (Option.mem_toList.mpr hmem)
  have hsource : ∀ path r, outcome path = .ok r → world.files.readText path = .ok r.source :=
    fun path r ↦ readText_of_repairFile
  refine ⟨fun path e ↦ repairFile_eq_error_iff, hsource, fun path ↦ ?_, fun path ↦ ?_,
    fun fix ↦ ?_⟩
  · rw [exists_entry_iff (P := fun entry ↦ entry.error?.isSome), isSome_error?_entryOf]
  · rw [exists_entry_iff (P := fun entry ↦ entry.isChanged), isChanged_entryOf]
  · obtain ⟨earlier, hrun⟩ := exists_runRepair_eq s settings d manager paths fix cycles p
    let logged := collected.flatMap fun path ↦
      repairLog path (manager.attemptFile world Rule.all path cycles)
    obtain ⟨after, hafter, hleaves⟩ := exists_leaves s.stamp logged hlog hpairwise
      (fun path _ ↦ hsource path) fix
    refine ⟨earlier, after, _, ?_, hleaves, hasStatus_repairStatus fix outcome collected⟩
    have hdone : repairedEntries fix (filesLogged s.stamp logged p.files p.logPath)
        (collected.map fun path ↦ (path, outcome path)) = (entries, after) := hafter
    simp only [outcome, logged, collected, world] at hdone
    rw [hrun, hdone]

/-- One file changes, one does not, and one is no text. -/
theorem check_reports_what_fix_writes_of_three_files :
    let world : World :=
      { files := ⟨"/w", [(["A.php"], .file (.text "<?php \n".toList)),
          (["B.php"], .file (.text "<?php\n".toList)), (["C.php"], .file (.binary [0xFF])),
          (["phpcs"], .directory), (["phpcs", "rulesets.csv"], .file (.text "./,PSR2\n".toList))]⟩
        isProgram := fun _ ↦ true
        launch := fun _ _ content ↦
          if content = .text "<?php \n".toList then
            .ok ⟨.text ("<phpcs><file><error line='1' column='6'>".toList ++
              "Whitespace found at end of line</error></file></phpcs>".toList), .text [],
              .ofExitCode 1⟩
          else .ok ⟨.text [], .text [], .ofExitCode 0⟩
        scratch := "/tmp/scan"
        copyFault := fun _ _ ↦ none
        xmlFault := fun _ _ ↦ "" }
    let s : Setting := ⟨world, "/w", .text [], false, "T"⟩
    let manager : Manager := ⟨⟨Adapter.all.map (·.name), ["phpcs"]⟩, .standard, "/w"⟩
    let p : Progress := ⟨.none, world.files, some "debug.log"⟩
    let ran fix := runRepair s .standard (s.display .text false) manager ["."] fix 1 p
    ((ran false).2.files.read "./A.php" = .ok (.text "<?php \n".toList) ∧
      (ran true).2.files.read "./A.php" = .ok (.text "<?php\n".toList)) ∧
    ((ran true).2.files.read "./B.php" = .ok (.text "<?php\n".toList) ∧
      (ran true).2.files.read "./C.php" = .ok (.binary [0xFF])) ∧
    ∃ p, ran true = (.ok 1, p) := by
  intro world s manager p ran
  have hcollected : (Collected.ofPaths p.files .standard ["."]).files =
      ["./A.php", "./B.php", "./C.php"] := by
    have hfound : (["."].flatMap (Collected.candidates p.files)).filter
        (fun file ↦ !ProjectSettings.standard.isExcluded file) =
          ["./A.php", "./B.php", "./C.php"] := by
      decide +kernel
    simp only [Collected.ofPaths]
    rw [hfound, List.mergeSort_of_pairwise (by decide +kernel)]
    decide +kernel
  have hdistinct : (p.logPath.toList ++ (Collected.ofPaths p.files .standard ["."]).files).Pairwise
      fun a b ↦ ¬ p.files.SameFile a b := by
    rw [hcollected]
    have hlook : ["debug.log", "./A.php", "./B.php", "./C.php"].Pairwise fun a b ↦
        (p.files.look a).map (·.1) ≠ (p.files.look b).map (·.1) := by
      decide +kernel
    exact hlook.imp fun hne hsame ↦ hne hsame.map_look_eq
  obtain ⟨hfails, -, -, -, hran⟩ :=
    check_reports_what_fix_writes s .standard (s.display .text false) manager ["."] 1 p hdistinct
  rw [hcollected] at hran
  let outcome path := manager.repairFile world Rule.all path 1
  have hchanges : ∃ r, outcome "./A.php" = .ok r ∧
      (r.source, r.result) = ("<?php \n".toList, "<?php\n".toList) := by
    have hsome : (outcome "./A.php").toOption.map (fun r ↦ (r.source, r.result)) =
        some ("<?php \n".toList, "<?php\n".toList) := by decide +kernel
    cases houtcome : outcome "./A.php" with
    | error e => simp [houtcome, Except.toOption] at hsome
    | ok r => exact ⟨r, rfl, by simpa [houtcome, Except.toOption] using hsome⟩
  have hkeeps : ¬ Changes outcome "./B.php" := by
    have hsome : (outcome "./B.php").toOption.all (fun r ↦ r.source = r.result) := by
      decide +kernel
    rintro ⟨r, houtcome, hne⟩
    simp [houtcome, Except.toOption, hne] at hsome
  have hunread : outcome "./C.php" = .error (.read "./C.php" .notText) :=
    (hfails _ _).mpr (.read (by decide +kernel))
  obtain ⟨r, houtcome, hr⟩ := hchanges
  obtain ⟨hold, hnew⟩ := Prod.mk.inj hr
  obtain ⟨_, unchanged, _, hcheck, hunchanged, -⟩ := hran false
  obtain ⟨_, changed, status, hfix, hchanged, hstatus⟩ := hran true
  rw [show ran false = _ from hcheck, show ran true = _ from hfix]
  refine ⟨⟨?_, ?_⟩, ⟨?_, ?_⟩, ?_⟩
  · exact hunchanged.kept "./A.php" (by simp) (by simp) _ (by decide +kernel)
  · rw [← hnew]
    exact hchanged.written rfl "./A.php" (by simp) r houtcome (by rw [hold, hnew]; decide)
  · exact hchanged.kept "./B.php" (by simp) (fun h ↦ hkeeps h.2) _ (by decide +kernel)
  · refine hchanged.kept "./C.php" (by simp) ?_ _ (by decide +kernel)
    rintro ⟨-, r, hrepaired, -⟩
    cases hunread.symm.trans hrepaired
  · have hfailed : status = 1 := hstatus.failed.mpr ⟨"./C.php", by simp, _, hunread⟩
    exact ⟨_, by rw [hfailed]⟩

/-! ## A log among the files -/

theorem toList_render (stamp : String) (entries : Log) : (Log.render stamp entries).toList =
    entries.flatMap fun line ↦ ("[" ++ stamp ++ "] " ++ line ++ "\n").toList := by
  have hfold : ∀ out : String,
      (entries.foldl (fun out line ↦ out ++ "[" ++ stamp ++ "] " ++ line ++ "\n") out).toList =
        out.toList ++ entries.flatMap fun line ↦ ("[" ++ stamp ++ "] " ++ line ++ "\n").toList := by
    induction entries with
    | nil => simp
    | cons line entries ih => simp [ih]
  exact hfold ""

theorem toList_render_ne_nil {entries : Log} (h : entries ≠ []) (stamp : String) :
    (Log.render stamp entries).toList ≠ [] := by
  obtain ⟨line, rest, rfl⟩ := List.exists_cons_of_ne_nil h
  rw [toList_render]
  simp

/-- A check adds what it did to the log, whatever file that is. -/
theorem read_log_of_check (s : Setting) (settings : ProjectSettings) (d : Display)
    (manager : Manager) (paths : List String) (cycles : Nat) (p : Progress) {log : String}
    (hlog : p.logPath = some log) (hread : p.files.read log = .ok content) :
    let collected := (Collected.ofPaths p.files settings paths).files
    let logged := collected.flatMap fun path ↦ repairLog path
      (manager.attemptFile { s.world with files := p.files } Rule.all path cycles)
    (runRepair s settings d manager paths false cycles p).2.files.read log =
      .ok (content.append (Log.render s.stamp logged).toList) := by
  intro collected logged
  obtain ⟨earlier, hrun⟩ := exists_runRepair_eq s settings d manager paths false cycles p
  obtain ⟨place, hleads, hcontent⟩ := read_eq_ok_iff.mp hread
  have happend := append_of_filePlace (filePlace_eq_ok_iff.mpr ⟨hleads, .inl (by simp [hcontent])⟩)
    (Log.render s.stamp logged).toList
  rw [hcontent, Option.getD_some] at happend
  have hfiles : filesLogged s.stamp logged p.files p.logPath =
      p.files.put place (.file (content.append (Log.render s.stamp logged).toList)) := by
    rw [hlog, filesLogged, happend]
    rfl
  rw [hrun, repairedEntries_false, hfiles]
  exact read_eq_ok_iff.mpr ⟨place, hleads.put _, content?_put_self hleads.ne_nil⟩

/-- The only file of a check is the log of the run. -/
theorem check_changes_file_that_is_log :
    let world : World :=
      { files := ⟨"/w", [(["A.php"], .file (.text "<?php\n".toList))]⟩
        isProgram := fun _ ↦ true
        launch := fun _ _ _ ↦ .ok ⟨.text [], .text [], .ofExitCode 0⟩
        scratch := "/tmp/scan"
        copyFault := fun _ _ ↦ none
        xmlFault := fun _ _ ↦ "" }
    let s : Setting := ⟨world, "/w", .text [], false, "T"⟩
    let manager : Manager := ⟨.ofNames (Adapter.all.map (·.name)), .standard, "/w"⟩
    let p : Progress := ⟨.none, world.files, some "A.php"⟩
    let checked := runRepair s .standard (s.display .text false) manager ["A.php"] false 1 p
    (Collected.ofPaths p.files .standard ["A.php"]).files = ["A.php"] ∧
      p.files.read "A.php" = .ok (.text "<?php\n".toList) ∧
      checked.2.files.read "A.php" ≠ .ok (.text "<?php\n".toList) := by
  intro world s manager p checked
  have hread : p.files.read "A.php" = .ok (.text "<?php\n".toList) := by decide +kernel
  refine ⟨by decide +kernel, hread, ?_⟩
  rw [read_log_of_check s .standard (s.display .text false) manager ["A.php"] 1 p rfl hread]
  intro hsame
  refine toList_render_ne_nil ?_ s.stamp
    (List.append_right_eq_self.mp (Content.text.inj (Except.ok.inj hsame)))
  decide +kernel

end Cli

end LintMend
