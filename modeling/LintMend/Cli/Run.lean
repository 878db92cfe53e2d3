import LintMend.Cli.Help
import LintMend.Editor.Stream
import LintMend.Files.Collect
import LintMend.Output.Printed

/-!
# Running a command

A command runs in a world, for a user, and ends with a status, with what it printed, and with the
files as they are then.
-/

namespace LintMend.Cli

open Repair

/-- Where, when and for whom a command runs. -/
structure Setting where
  world : World
  home : String
  stdin : Content
  colors : Bool
  /-- The time stamp of the entries in the debug log. -/
  stamp : String

/-- How a run ends. -/
structure Outcome where
  status : UInt8
  printed : Printed
  files : FileTree

/-- How far a run is: what it has printed, the files as they are, and which of them is its log. -/
structure Progress where
  printed : Printed
  files : FileTree
  logPath : Option String

/-- Why a run ends before its time. -/
inductive Halt where
  /-- An error, followed by its causes. -/
  | failed (chain : List String)
  /-- A place in a file that is the last word of 64 bits was to be counted from one. -/
  | overflow

/-- A part of a run, which may end it. -/
abbrev Job (α : Type) := Progress → Except Halt α × Progress

namespace Job

def pure {α : Type} (a : α) : Job α := fun p ↦ (.ok a, p)

def bind {α β : Type} (job : Job α) (next : α → Job β) : Job β := fun p ↦
  match job p with
  | (.ok a, p) => next a p
  | (.error e, p) => (.error e, p)

instance : Monad Job where
  pure := pure
  bind := bind

def halt {α : Type} (reason : Halt) : Job α := fun p ↦ (.error reason, p)

def fail {α : Type} (chain : List String) : Job α := halt (.failed chain)

def print (printed : Printed) : Job Unit := fun p ↦
  (.ok (), { p with printed := p.printed.append printed })

def files : Job FileTree := fun p ↦ (.ok p.files, p)

def setFiles (files : FileTree) : Job Unit := fun p ↦ (.ok (), { p with files })

def setLog (path : String) : Job Unit := fun p ↦ (.ok (), { p with logPath := some path })

/-- Adds entries to the log, if there is one. -/
def log (stamp : String) (entries : Log) : Job Unit := fun p ↦
  match p.logPath with
  | none => (.ok (), p)
  | some path =>
    let files := (p.files.append path (Log.render stamp entries).toList).toOption.getD p.files
    (.ok (), { p with files })

def ofExcept {ε α : Type} (chain : ε → List String) : Except ε α → Job α
  | .ok a => pure a
  | .error e => fail (chain e)

end Job

/-! ## Settings -/

def Setting.display (s : Setting) (format : OutputFormat) (verbose : Bool) : Display :=
  ⟨format, verbose, s.colors⟩

def bold (s : Setting) (text : String) : String := Style.strong.apply s.colors text

def colored (s : Setting) (paint : Paint) (text : String) : String :=
  (Style.of paint).apply s.colors text

/-- The settings of the project, and the file they were read from. -/
def projectSettings (s : Setting) (globals : GlobalOptions) : Job ProjectSettings := do
  if globals.noConfig then return ProjectSettings.standard
  else
    let files ← Job.files
    let found := globals.config.or (ProjectSettings.find? files files.base)
    match found with
    | none => return ProjectSettings.standard
    | some path =>
      let settings ← Job.ofExcept SettingsError.chain (ProjectSettings.load files path)
      if globals.verbose then
        Job.print (.errLines [bold s "Using config" ++ ": " ++ path])
      return settings

/-- Opens the debug log, if there is to be one. -/
def openLog (s : Setting) (globals : GlobalOptions) (settings : ProjectSettings) : Job Unit := do
  match globals.debugLog.or settings.logFile with
  | none => return ()
  | some path =>
    match (← Job.files).append path [] with
    | .error fault => Job.fail [s!"Failed to open debug log {path}", fault.message]
    | .ok files =>
      Job.setFiles files
      Job.setLog path
      if globals.verbose then Job.print (.errLines [bold s "Debug log" ++ ": " ++ path])

/-- The format that the command line or the settings name, which must be one of some. -/
def outputFormat (name : Option String) (settings : ProjectSettings) (valid : List OutputFormat) :
    Job OutputFormat :=
  let name := (name.or settings.format).getD OutputFormat.text.name
  match (OutputFormat.named? name).filter valid.contains with
  | some format => pure format
  | none =>
    let names := ", ".intercalate (valid.map (·.name))
    Job.fail [s!"Invalid output format '{name}'. Valid options: {names}"]

/-- Opens the registries and switches the adapters on and off. -/
def openManager (s : Setting) (settings : ProjectSettings) (user : UserSettings)
    (named : List String) : Job Manager := do
  let dataDir := settings.dataDirIn s.home
  let (files, manager) ← Job.ofExcept Registry.Error.chain
    (Manager.openIn (← Job.files) settings.tools dataDir)
  Job.setFiles files
  let switchOn (m : Manager) (name : String) : Except LintError Manager := m.setActive name true
  let manager ← Job.ofExcept LintError.chain (named.foldlM switchOn manager)
  let switch (m : Manager) (name : String) : Except LintError Manager :=
    m.setActive name (settings.isActive user named name)
  Job.ofExcept LintError.chain (manager.roster.names.foldlM switch manager)

/-- The world with the files as they are now. -/
def currentWorld (s : Setting) : Job World := do
  return { s.world with files := ← Job.files }

/-! ## Linting and repairing -/

def missingLines (d : Display) (paths : List String) : Printed :=
  if d.format = .text then
    .errLines (paths.map fun path ↦ d.warning ("Path does not exist: " ++ path))
  else .none

def lintLog : Except RepairError LintRun → Log
  | .ok run => run.log
  | .error _ => []

def lintStatus (s : Summary) : UInt8 :=
  if s.errors > 0 then 1 else if s.totalHints > 0 then 2 else 0

/-- Lints a text that is read as that of the file at a path. -/
def lintInput (s : Setting) (manager : Manager) (path : String) :
    Job (List (String × Except RepairError LintRun)) := do
  match s.stdin.text? with
  | none => Job.fail ["Failed to read stdin", FileError.notText.message]
  | some text =>
    let result := manager.lintTextFor (← currentWorld s) path text
    Job.log s.stamp (lintLog result)
    return [(path, result)]

def lintFiles (s : Setting) (settings : ProjectSettings) (d : Display) (manager : Manager)
    (paths : List String) : Job (List (String × Except RepairError LintRun)) := do
  let world ← currentWorld s
  let collected := Collected.ofPaths world.files settings paths
  Job.print (missingLines d collected.missing)
  let results := collected.files.map fun path ↦ (path, manager.lintFor world path)
  Job.log s.stamp (results.flatMap fun (_, r) ↦ lintLog r)
  return results

/-- Prints what a lint has found and makes an entry of it. Where a hint is none for a reader the run
ends. -/
def reportLint (d : Display) (path : String) : Except RepairError LintRun → Job Entry
  | .ok run =>
    match Entry.linted? path run.report with
    | some entry => do
      Job.print (d.entry .lint entry)
      return entry
    | none => do
      Job.print (d.cutOff path run.report)
      Job.halt .overflow
  | .error e => do
    let entry : Entry := .failed path (joinChain e.chain)
    Job.print (d.entry .lint entry)
    return entry

/-- Reports lints one after the other. -/
def reportLints (d : Display) : List (String × Except RepairError LintRun) → Job (List Entry)
  | [] => return []
  | (path, r) :: rest => do
    let entry ← reportLint d path r
    let entries ← reportLints d rest
    return entry :: entries

def runLint (s : Setting) (settings : ProjectSettings) (d : Display) (manager : Manager)
    (paths : List String) (stdinPath : Option String) : Job UInt8 := do
  let results ← match stdinPath with
    | some path => lintInput s manager path
    | none => lintFiles s settings d manager paths
  let entries ← reportLints d results
  Job.print (d.finish .lint entries)
  return lintStatus (Summary.ofEntries entries)

def repairStatus (fix : Bool) (s : Summary) : UInt8 :=
  if s.errors > 0 then 1 else if ¬ fix ∧ s.filesWithChanges > 0 then 2 else 0

/-- The entry of a repaired file, and the files after it, which are written where `fix` says so. -/
def repairedEntry (fix : Bool) (files : FileTree) (path : String) :
    Except RepairError Repaired → Entry × FileTree
  | .error e => (.failed path (joinChain e.chain), files)
  | .ok r =>
    if fix ∧ r.isChanged then
      match writeResult files path r.result with
      | .ok files => (.repaired path r, files)
      | .error e => (.failed path (joinChain e.chain), files)
    else (.repaired path r, files)

/-- The entries of some repairs, in their order, and the files after them. -/
def repairedEntries (fix : Bool) : FileTree → List (String × Except RepairError Repaired) →
    List Entry × FileTree
  | files, [] => ([], files)
  | files, (path, r) :: rest =>
    let (entry, files) := repairedEntry fix files path r
    let (entries, files) := repairedEntries fix files rest
    (entry :: entries, files)

/-- What a repair has logged, also if it has failed in the end. -/
def repairLog (path : String) : Except RepairError FileRepair → Log
  | .ok r => r.lint.log ++ r.attempt.made.log path
  | .error _ => []

def runRepair (s : Setting) (settings : ProjectSettings) (d : Display) (manager : Manager)
    (paths : List String) (fix : Bool) (cycles : Nat) : Job UInt8 := do
  let world ← currentWorld s
  let collected := Collected.ofPaths world.files settings paths
  Job.print (missingLines d collected.missing)
  if d.verbose ∧ d.format = .text then
    Job.print (.outLines [d.bold "Mode" ++ ": " ++ (if fix then "fix" else "check"),
      d.bold "Cycles" ++ ": " ++ toString cycles, ""])
  let attempts := collected.files.map fun path ↦
    (path, manager.attemptFile world Rule.all path cycles)
  Job.log s.stamp (attempts.flatMap fun (path, r) ↦ repairLog path r)
  let (entries, files) := repairedEntries fix (← Job.files)
    (attempts.map fun (path, r) ↦ (path, r.bind (·.attempt.result)))
  Job.setFiles files
  Job.print (d.results (if fix then .fix else .check) entries)
  return repairStatus fix (Summary.ofEntries entries)

def ruleLines (s : Setting) : List String :=
  bold s "Repair rules:" :: Rule.all.map fun rule ↦
    "  " ++ colored s .green rule.name ++ " - " ++ rule.description

/-! ## Rulesets -/

def rulesetsJson (tool : RulesetTool) (path : String) (entries : List Ruleset) : Json :=
  .obj [("tool", .str tool.name), ("registry", .str path),
    ("rulesets", .arr (entries.map fun e ↦
      .obj [("directory", .str e.directory), ("ruleset", .str e.ruleset)]))]

def rulesetLines (s : Setting) (tool : RulesetTool) (path : String) (entries : List Ruleset) :
    List String :=
  (bold s (tool.name ++ " rulesets") ++ " (" ++ path ++ ")")
    :: (if entries.isEmpty then ["  " ++ Style.faint.apply s.colors "none"] else [])
    ++ entries.map fun e ↦ "  " ++ colored s .green e.directory ++ " -> " ++ e.ruleset

/-- Opens the registry of a tool and gives its path. -/
def openRegistry (dataDir : String) (tool : RulesetTool) : Job String := do
  let path := Registry.pathFor dataDir tool.name
  let chain (e : Registry.Error) : List String :=
    s!"Failed to open the {tool.name} ruleset registry" :: e.chain
  Job.setFiles (← Job.ofExcept chain (Registry.openAt (← Job.files) path))
  return path

def runRuleset (s : Setting) (dataDir : String) (format : OutputFormat) :
    RulesetAction → Job Unit
  | .list tool => do
    let path ← openRegistry dataDir tool
    let entries ← Job.ofExcept Registry.Error.chain (Registry.allAt (← Job.files) path)
    Job.print <| .outLines <|
      if format = .json then [(rulesetsJson tool path entries).pretty]
      else rulesetLines s tool path entries
  | .add tool directory ruleset => do
    let path ← openRegistry dataDir tool
    Job.setFiles (← Job.ofExcept Registry.Error.chain
      (Registry.addAt (← Job.files) path ⟨directory, ruleset⟩))
    Job.print (.outLines [colored s .green "Added" ++ s!" {directory} -> {ruleset}"])
  | .remove tool directory ruleset => do
    let path ← openRegistry dataDir tool
    let (removed, files) ← Job.ofExcept Registry.Error.chain
      (Registry.removeAt (← Job.files) path ⟨directory, ruleset⟩)
    Job.setFiles files
    Job.print <|
      if removed = 0 then
        .errLines [colored s .yellow "Warning" ++ s!": no registration {directory} -> {ruleset}"]
      else .outLines [colored s .green "Removed" ++ s!" {removed} registration(s)"]
  | .reset tool => do
    let path ← openRegistry dataDir tool
    Job.setFiles (← Job.ofExcept Registry.Error.chain (Registry.resetAt (← Job.files) path))
    Job.print (.outLines [colored s .green "Removed" ++ s!" all {tool.name} registrations"])

/-! ## Adapters -/

/-- Sets the states of adapters for the user; the settings are saved if there is one to set. -/
def changeUserSettings (user : UserSettings) (path : String) (changes : List (String × Bool)) :
    Job UserSettings := do
  if changes.isEmpty then return user
  else
    let set (states : AdapterStates) (change : String × Bool) : Except LintError AdapterStates :=
      match states.set? change.1 change.2 with
      | some states => .ok states
      | none => .error (.unknownAdapter change.1)
    let adapters ← Job.ofExcept LintError.chain (changes.foldlM set user.adapters)
    let user : UserSettings := ⟨adapters⟩
    Job.setFiles (← Job.ofExcept SettingsError.chain (user.save (← Job.files) path))
    return user

def adapterLine (s : Setting) (world : World) (manager : Manager) (adapter : Adapter) : String :=
  let program := adapter.program manager.tools
  let state :=
    if manager.roster.isActive adapter.name then
      (Style.of .green).applyWide s.colors 9 "enabled"
    else Style.faint.applyWide s.colors 9 "disabled"
  let found :=
    if adapter.isAvailable world manager.tools then program
    else colored s .red (program ++ " (not found)")
  "  " ++ Style.strong.applyWide s.colors 8 adapter.name ++ " " ++ state ++ " " ++ found ++ " - "
    ++ adapter.description

def adapterLines (s : Setting) (world : World) (manager : Manager) : List String :=
  bold s "Adapters:" :: (manager.roster.names.filterMap Adapter.named?).map
    (adapterLine s world manager)

/-! ## Editors -/

/-- Serves the editor at the other end of the input and the output. -/
def runServer (s : Setting) (settings : ProjectSettings) (manager : Manager) : Job Unit := do
  let bench : Workbench := ⟨← currentWorld s, manager, Rule.all, settings.cycles⟩
  let said := Server.start.converse bench (Frame.readAll s.stdin.bytes)
  Job.log s.stamp said.log
  Job.print ⟨String.ofList said.render, ""⟩

/-! ## Commands -/

/-- Runs a command with the settings of the project and of the user, and gives the status. -/
def runCommand (s : Setting) (globals : GlobalOptions) (settings : ProjectSettings)
    (user : UserSettings) : Command → Job UInt8
  | .lint paths format stdin stdinPath named => do
    let format ← outputFormat format settings [.text, .json]
    let manager ← openManager s settings user named
    runLint s settings (s.display format globals.verbose) manager paths
      (if stdin then stdinPath else none)
  | .repair paths fix format cycles listRules => do
    if listRules then
      Job.print (.outLines (ruleLines s))
      return 0
    else
      let format ← outputFormat format settings [.text, .json, .diff]
      let manager ← openManager s settings user []
      runRepair s settings (s.display format globals.verbose) manager paths fix
        (cycles.getD settings.cycles)
  | .ruleset action format => do
    let format ← outputFormat format settings [.text, .json]
    runRuleset s (settings.dataDirIn s.home) format action
    return 0
  | .adapters enable disable => do
    let changes := enable.map (·, true) ++ disable.map (·, false)
    let user ← changeUserSettings user (UserSettings.pathIn s.home) changes
    let manager ← openManager s settings user []
    Job.print (.outLines (adapterLines s (← currentWorld s) manager))
    return 0
  | .watch _ => do
    let _ ← openManager s settings user []
    return 0
  | .serve => do
    let manager ← openManager s settings user []
    runServer s settings manager
    return 0

/-- Runs what is asked for and gives the status. -/
def runInvocation (s : Setting) (invocation : Invocation) : Job UInt8 := do
  let globals := invocation.globals
  let settings ← projectSettings s globals
  openLog s globals settings
  let user ← Job.ofExcept SettingsError.chain
    (UserSettings.load (← Job.files) (UserSettings.pathIn s.home))
  runCommand s globals settings user invocation.command

def versionLine : String := programName ++ " " ++ programVersion ++ "\n"

/-- Says that the arguments ask for nothing that the program can do. -/
def usageNotice : String :=
  "error: invalid arguments\n\nUsage: phphints [OPTIONS] <COMMAND>\n\n"
    ++ "For more information, try '--help'.\n"

/-- What becomes of the arguments of a command line. -/
def run (s : Setting) (arguments : List String) : Outcome :=
  match read arguments with
  | .usage => ⟨2, ⟨"", usageNotice⟩, s.world.files⟩
  | .version => ⟨0, ⟨versionLine, ""⟩, s.world.files⟩
  | .help names => ⟨0, ⟨help names, ""⟩, s.world.files⟩
  | .run invocation =>
    match runInvocation s invocation ⟨.none, s.world.files, none⟩ with
    | (.ok status, p) => ⟨status, p.printed, p.files⟩
    | (.error (.failed chain), p) =>
      let notice := Printed.errLines [colored s .red "Error" ++ ": " ++ joinChain chain]
      ⟨1, p.printed.append notice, p.files⟩
    | (.error .overflow, p) =>
      ⟨101, p.printed.append (.errLines ["attempt to add with overflow"]), p.files⟩

end LintMend.Cli
