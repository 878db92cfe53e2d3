import LintMend.Proofs.Cli.Lint
import LintMend.Proofs.Files.Shape
import LintMend.Proofs.Registry.Run

/-!
# A run leaves a tree

All that a run does to the files is to make directories, to write files and to add to them. So the
files are a tree at every point of a run, also where it ends with an error, and what one run leaves
another one can start from.
-/

namespace LintMend

open FileTree

variable {tree tree' : FileTree} {path : String} {entry : Ruleset}

/-! ## Registries -/

namespace Registry

theorem isTree_openAt (h : tree.IsTree) (hopen : openAt tree path = .ok tree') : tree'.IsTree := by
  obtain ⟨ready, hready, hopen⟩ := exists_of_bind_eq_ok (fileFault_eq_ok_iff.mp hopen)
  have hready := h.makeDirectoriesAbove hready
  split at hopen
  · exact Except.ok.inj hopen ▸ hready
  · exact hready.write hopen

theorem isTree_addAt (h : tree.IsTree) (hadd : addAt tree path entry = .ok tree') :
    tree'.IsTree := by
  obtain ⟨-, place, hplace, rfl⟩ := exists_of_addAt hadd
  exact h.put_of_filePlace hplace

theorem isTree_removeAt {count : Nat} (h : tree.IsTree)
    (hremove : removeAt tree path entry = .ok (count, tree')) : tree'.IsTree := by
  obtain ⟨found, -, hremove⟩ := exists_of_bind_eq_ok hremove
  obtain ⟨⟨removed, content⟩, -, hremove⟩ := exists_of_bind_eq_ok hremove
  dsimp only at hremove
  split at hremove
  · split at hremove
    · exact (Prod.mk.inj (Except.ok.inj hremove)).2 ▸ h
    · obtain ⟨left, hleft, hremove⟩ := exists_of_bind_eq_ok hremove
      obtain ⟨-, rfl⟩ := Prod.mk.inj (Except.ok.inj hremove)
      exact h.write (fileFault_eq_ok_iff.mp hleft)
  · exact (Prod.mk.inj (Except.ok.inj hremove)).2 ▸ h

theorem isTree_resetAt (h : tree.IsTree) (hreset : resetAt tree path = .ok tree') :
    tree'.IsTree :=
  h.write (fileFault_eq_ok_iff.mp hreset)

theorem isTree_without (h : tree.IsTree) (path : String) : (tree.without path).IsTree := by
  unfold FileTree.without
  cases hremove : tree.remove path with
  | error fault => exact h
  | ok left => exact h.remove hremove

/-- A request that fails leaves the tree that there was. -/
theorem isTree_settle {α : Type} {result : Except Error α} {settled : α → FileTree × Answer}
    (h : tree.IsTree) (hsettled : ∀ a, result = .ok a → (settled a).1.IsTree) :
    (settle tree (result.map settled)).1.IsTree := by
  cases result with
  | error e => exact h
  | ok a => exact hsettled a rfl

/-- Whatever is requested of a registry, the files stay a tree. -/
theorem isTree_onFile (h : tree.IsTree) (path : String) (request : Request) :
    (request.onFile path tree).1.IsTree := by
  cases request with
  | add entry => exact isTree_settle h fun _ hadd ↦ isTree_addAt h hadd
  | remove entry => exact isTree_settle h fun _ hremove ↦ isTree_removeAt h hremove
  | reset => exact isTree_settle h fun _ hreset ↦ isTree_resetAt h hreset
  | all => exact isTree_settle h fun _ _ ↦ h
  | matching file => exact isTree_settle h fun _ _ ↦ h
  | delete => exact isTree_without h path

theorem isTree_run (h : tree.IsTree) (path : String) (requests : List Request) :
    (run (Request.onFile path) tree requests).1.IsTree := by
  induction requests generalizing tree with
  | nil => exact h
  | cons request requests ih => exact ih (isTree_onFile h path request)

end Registry

/-! ## Settings and managers -/

theorem UserSettings.isTree_save {user : UserSettings} (h : tree.IsTree)
    (hsave : user.save tree path = .ok tree') : tree'.IsTree := by
  simp only [save, pure_bind] at hsave
  split at hsave
  · split at hsave
    · next hwritten => exact Except.ok.inj hsave ▸ h.write hwritten
    · cases hsave
  · split at hsave
    · next hmade =>
      have hready := h.makeDirectories hmade
      split at hsave
      · next hwritten => exact Except.ok.inj hsave ▸ hready.write hwritten
      · cases hsave
    · cases hsave

theorem Manager.isTree_openIn {tools : ToolPaths} {dataDir : String} {manager : Manager}
    (h : tree.IsTree) (hopen : openIn tree tools dataDir = .ok (tree', manager)) :
    tree'.IsTree := by
  obtain ⟨first, hfirst, hopen⟩ := exists_of_bind_eq_ok hopen
  obtain ⟨second, hsecond, hopen⟩ := exists_of_bind_eq_ok hopen
  obtain ⟨rfl, -⟩ := Prod.mk.inj (Except.ok.inj hopen)
  exact Registry.isTree_openAt (Registry.isTree_openAt h hfirst) hsecond

theorem isTree_writeResult {text : Text} (h : tree.IsTree)
    (hwrite : writeResult tree path text = .ok tree') : tree'.IsTree := by
  unfold writeResult at hwrite
  split at hwrite
  · next hwritten => exact Except.ok.inj hwrite ▸ h.write hwritten
  · cases hwrite

/-! ## Parts of a run -/

namespace Cli

open Repair

variable {α β : Type} {P : α → Prop} {Q : β → Prop} {s : Setting} {settings : ProjectSettings}
  {d : Display} {manager : Manager}

/-- A part of a run that leaves a tree wherever it is ended, and whose result is as required. -/
def Job.Keeps (P : α → Prop) (job : Job α) : Prop :=
  ∀ p, p.files.IsTree → (job p).2.files.IsTree ∧ ∀ a, (job p).1 = .ok a → P a

/-- A part of a run that leaves a tree. -/
abbrev Job.KeepsTree (job : Job α) : Prop := job.Keeps fun _ ↦ True

namespace Job

theorem Keeps.bind {job : Job α} {next : α → Job β} (h : job.Keeps P)
    (hnext : ∀ a, P a → (next a).Keeps Q) : (job >>= next).Keeps Q := by
  intro p hp
  obtain ⟨hfiles, hresult⟩ := h p hp
  change (Job.bind job next p).2.files.IsTree ∧ ∀ b, (Job.bind job next p).1 = .ok b → Q b
  cases hjob : job p with
  | mk result q =>
    rw [hjob] at hfiles hresult
    cases result with
    | error reason =>
      rw [Job.bind, hjob]
      exact ⟨hfiles, fun _ heq ↦ by cases heq⟩
    | ok a =>
      rw [Job.bind, hjob]
      exact hnext a (hresult a rfl) q hfiles

theorem keeps_pure {a : α} (h : P a) : (Pure.pure a : Job α).Keeps P :=
  fun _ hp ↦ ⟨hp, fun _ heq ↦ Except.ok.inj heq ▸ h⟩

theorem keeps_halt (reason : Halt) : (halt reason : Job α).Keeps P :=
  fun _ hp ↦ ⟨hp, fun _ heq ↦ by cases heq⟩

theorem keeps_print (printed : Printed) : (print printed).KeepsTree :=
  fun _ hp ↦ ⟨hp, fun _ _ ↦ trivial⟩

theorem keeps_files : files.Keeps FileTree.IsTree :=
  fun _ hp ↦ ⟨hp, fun _ heq ↦ Except.ok.inj heq ▸ hp⟩

theorem keeps_setFiles (h : tree.IsTree) : (setFiles tree).KeepsTree :=
  fun _ _ ↦ ⟨h, fun _ _ ↦ trivial⟩

theorem keeps_setLog (path : String) : (setLog path).KeepsTree :=
  fun _ hp ↦ ⟨hp, fun _ _ ↦ trivial⟩

theorem keeps_ofExcept {ε : Type} {chain : ε → List String} {result : Except ε α}
    (h : ∀ a, result = .ok a → P a) : (ofExcept chain result).Keeps P := by
  cases result with
  | error e => exact keeps_halt _
  | ok a => exact keeps_pure (h a rfl)

end Job

/-! ## Commands -/

open Job

theorem keeps_projectSettings (globals : GlobalOptions) : (projectSettings s globals).KeepsTree := by
  unfold projectSettings
  split
  · exact keeps_pure trivial
  · refine keeps_files.bind fun files _ ↦ ?_
    dsimp only
    split
    · exact keeps_pure trivial
    · refine (keeps_ofExcept fun _ _ ↦ trivial).bind fun settings _ ↦ ?_
      split
      · exact (keeps_print _).bind fun _ _ ↦ keeps_pure trivial
      · exact keeps_pure trivial

theorem keeps_openLog (globals : GlobalOptions) : (openLog s globals settings).KeepsTree := by
  unfold openLog
  split
  · exact keeps_pure trivial
  · next path _ =>
    refine keeps_files.bind fun files hfiles ↦ ?_
    split
    · exact keeps_halt _
    · next opened hopened =>
      refine (keeps_setFiles (hfiles.append hopened)).bind fun _ _ ↦ ?_
      refine (keeps_setLog path).bind fun _ _ ↦ ?_
      split
      · exact keeps_print _
      · exact keeps_pure trivial

theorem keeps_outputFormat (name : Option String) (valid : List OutputFormat) :
    (outputFormat name settings valid).KeepsTree := by
  unfold outputFormat
  dsimp only
  split
  · exact keeps_pure trivial
  · exact keeps_halt _

theorem keeps_openManager (user : UserSettings) (named : List String) :
    (openManager s settings user named).KeepsTree := by
  unfold openManager
  refine keeps_files.bind fun files hfiles ↦ ?_
  refine (keeps_ofExcept (P := fun opened ↦ opened.1.IsTree) fun opened hopened ↦
    Manager.isTree_openIn hfiles hopened).bind fun opened hopened ↦ ?_
  refine (keeps_setFiles hopened).bind fun _ _ ↦ ?_
  refine (keeps_ofExcept fun _ _ ↦ trivial).bind fun manager _ ↦ ?_
  exact keeps_ofExcept fun _ _ ↦ trivial

theorem keeps_currentWorld : (currentWorld s).KeepsTree :=
  keeps_files.bind fun _ _ ↦ keeps_pure trivial

/-! ### Linting and repairing -/

theorem isTree_filesLogged {logPath : Option String} (h : tree.IsTree) (stamp : String)
    (entries : Log) : (filesLogged stamp entries tree logPath).IsTree := by
  cases logPath with
  | none => exact h
  | some log =>
    rw [filesLogged]
    cases happend : tree.append log (Log.render stamp entries).toList with
    | error fault => exact h
    | ok logged => exact h.append happend

theorem keeps_log (stamp : String) (entries : Log) : (log stamp entries).KeepsTree := by
  intro p hp
  rw [log_eq]
  exact ⟨isTree_filesLogged hp stamp entries, fun _ _ ↦ trivial⟩

theorem keeps_runLint (paths : List String) (stdinPath : Option String) :
    (runLint s settings d manager paths stdinPath).KeepsTree := by
  intro p hp
  refine ⟨?_, fun _ _ ↦ trivial⟩
  have hlints : ∀ results, Lints s settings manager paths p stdinPath results →
      (runLint s settings d manager paths stdinPath p).2.files.IsTree := by
    intro results hlints
    obtain ⟨_, ⟨_, _, hran⟩ | ⟨_, _, hran⟩⟩ := runLint_cases hlints d <;>
    · rw [hran]
      exact isTree_filesLogged hp _ _
  cases stdinPath with
  | none => exact hlints _ .found
  | some path =>
    cases htext : s.stdin.text? with
    | some text => exact hlints _ (.input htext)
    | none =>
      simp only [runLint, lintInput, htext]
      exact hp

theorem isTree_repairedEntry {fix : Bool} {result : Except RepairError Repaired} (h : tree.IsTree) :
    (repairedEntry fix tree path result).2.IsTree := by
  unfold repairedEntry
  split
  · exact h
  · split
    · split
      · next hwrite => exact isTree_writeResult h hwrite
      · exact h
    · exact h

theorem isTree_repairedEntries {fix : Bool}
    (results : List (String × Except RepairError Repaired)) (h : tree.IsTree) :
    (repairedEntries fix tree results).2.IsTree := by
  induction results generalizing tree with
  | nil => exact h
  | cons result results ih => exact ih (isTree_repairedEntry h)

theorem keeps_runRepair (paths : List String) (fix : Bool) (cycles : Nat) :
    (runRepair s settings d manager paths fix cycles).KeepsTree := by
  intro p hp
  obtain ⟨_, hran⟩ := exists_runRepair_eq s settings d manager paths fix cycles p
  rw [hran]
  exact ⟨isTree_repairedEntries _ (isTree_filesLogged hp _ _), fun _ _ ↦ trivial⟩

/-! ### Rulesets, adapters and editors -/

theorem keeps_openRegistry (dataDir : String) (tool : RulesetTool) :
    (openRegistry dataDir tool).KeepsTree := by
  unfold openRegistry
  refine keeps_files.bind fun files hfiles ↦ ?_
  refine (keeps_ofExcept fun opened hopened ↦
    Registry.isTree_openAt hfiles hopened).bind fun opened hopened ↦ ?_
  exact (keeps_setFiles hopened).bind fun _ _ ↦ keeps_pure trivial

theorem keeps_runRuleset (dataDir : String) (format : OutputFormat) (action : RulesetAction) :
    (runRuleset s dataDir format action).KeepsTree := by
  cases action with
  | list tool =>
    refine (keeps_openRegistry dataDir tool).bind fun path _ ↦ keeps_files.bind fun files _ ↦ ?_
    exact (keeps_ofExcept fun _ _ ↦ trivial).bind fun _ _ ↦ keeps_print _
  | add tool directory ruleset =>
    refine (keeps_openRegistry dataDir tool).bind fun path _ ↦
      keeps_files.bind fun files hfiles ↦ ?_
    refine (keeps_ofExcept fun added hadded ↦
      Registry.isTree_addAt hfiles hadded).bind fun added hadded ↦ ?_
    exact (keeps_setFiles hadded).bind fun _ _ ↦ keeps_print _
  | remove tool directory ruleset =>
    refine (keeps_openRegistry dataDir tool).bind fun path _ ↦
      keeps_files.bind fun files hfiles ↦ ?_
    refine (keeps_ofExcept (P := fun removed ↦ removed.2.IsTree) fun removed hremoved ↦
      Registry.isTree_removeAt hfiles hremoved).bind fun removed hremoved ↦ ?_
    exact (keeps_setFiles hremoved).bind fun _ _ ↦ keeps_print _
  | reset tool =>
    refine (keeps_openRegistry dataDir tool).bind fun path _ ↦
      keeps_files.bind fun files hfiles ↦ ?_
    refine (keeps_ofExcept fun cleared hcleared ↦
      Registry.isTree_resetAt hfiles hcleared).bind fun cleared hcleared ↦ ?_
    exact (keeps_setFiles hcleared).bind fun _ _ ↦ keeps_print _

theorem keeps_changeUserSettings (user : UserSettings) (path : String)
    (changes : List (String × Bool)) : (changeUserSettings user path changes).KeepsTree := by
  unfold changeUserSettings
  split
  · exact keeps_pure trivial
  · refine (keeps_ofExcept fun _ _ ↦ trivial).bind fun adapters _ ↦
      keeps_files.bind fun files hfiles ↦ ?_
    refine (keeps_ofExcept fun saved hsaved ↦
      UserSettings.isTree_save hfiles hsaved).bind fun saved hsaved ↦ ?_
    exact (keeps_setFiles hsaved).bind fun _ _ ↦ keeps_pure trivial

theorem keeps_runServer : (runServer s settings manager).KeepsTree := by
  unfold runServer
  exact keeps_currentWorld.bind fun world _ ↦ (keeps_log _ _).bind fun _ _ ↦ keeps_print _

/-! ## Whole runs -/

theorem keeps_runCommand (globals : GlobalOptions) (user : UserSettings) (command : Command) :
    (runCommand s globals settings user command).KeepsTree := by
  cases command with
  | lint paths format stdin stdinPath named =>
    refine (keeps_outputFormat _ _).bind fun format _ ↦ ?_
    exact (keeps_openManager _ _).bind fun manager _ ↦ keeps_runLint _ _
  | repair paths fix format cycles listRules =>
    unfold runCommand
    dsimp only
    split
    · exact (keeps_print _).bind fun _ _ ↦ keeps_pure trivial
    · refine (keeps_outputFormat _ _).bind fun format _ ↦ ?_
      exact (keeps_openManager _ _).bind fun manager _ ↦ keeps_runRepair _ _ _
  | ruleset action format =>
    refine (keeps_outputFormat _ _).bind fun format _ ↦ ?_
    exact (keeps_runRuleset _ _ _).bind fun _ _ ↦ keeps_pure trivial
  | adapters enable disable =>
    unfold runCommand
    dsimp only
    refine (keeps_changeUserSettings _ _ _).bind fun user _ ↦
      (keeps_openManager _ _).bind fun manager _ ↦ ?_
    exact keeps_currentWorld.bind fun world _ ↦ (keeps_print _).bind fun _ _ ↦ keeps_pure trivial
  | watch => exact (keeps_openManager _ _).bind fun _ _ ↦ keeps_pure trivial
  | serve =>
    refine (keeps_openManager _ _).bind fun manager _ ↦ ?_
    exact keeps_runServer.bind fun _ _ ↦ keeps_pure trivial

theorem keeps_runInvocation (invocation : Invocation) :
    (runInvocation s invocation).KeepsTree := by
  refine (keeps_projectSettings _).bind fun settings _ ↦ (keeps_openLog _).bind fun _ _ ↦ ?_
  refine keeps_files.bind fun files _ ↦ (keeps_ofExcept fun _ _ ↦ trivial).bind fun user _ ↦ ?_
  exact keeps_runCommand _ _ _

/-- Whatever its arguments are, and however it ends, a run that starts from a tree leaves one. -/
theorem isTree_run (s : Setting) (arguments : List String) (h : s.world.files.IsTree) :
    (run s arguments).files.IsTree := by
  unfold run
  split
  · exact h
  · exact h
  · exact h
  · next invocation _ =>
    have hran := (keeps_runInvocation (s := s) invocation ⟨.none, s.world.files, none⟩ h).1
    split <;>
    · next hrun =>
      rw [hrun] at hran
      exact hran

end Cli

end LintMend
