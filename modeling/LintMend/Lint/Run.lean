import LintMend.Lint.World
import LintMend.Log
import LintMend.Registry
import LintMend.Report.Phpcs
import LintMend.Report.Phplint
import LintMend.Report.Phpmd

/-!
# Runs of an adapter

What an adapter does with one file: which programs it launches, what each of them gave, and the
hints or the error that come out. Only files whose path ends in `.php` are linted. The mess detector
and the code sniffer run once for each ruleset that covers the file; if some of these runs succeed
their hints count, and if there were runs and all failed the first error does.
-/

namespace LintMend

inductive AdapterError where
  | launch (program : String) (fault : FileError)
  /-- What a tool wrote cannot be read; with what the reader says of it. -/
  | parse (adapter : Adapter) (message : String)
  | registry (error : Registry.Error)
deriving DecidableEq, Repr

def AdapterError.message : AdapterError → String
  | launch program fault => s!"Failed to launch {program}: {fault.message}"
  | parse adapter message => s!"Failed to parse {adapter.name} output: {message}"
  | registry error => error.message

abbrev Hints := Except AdapterError (List Hint)

/-- One launch of a program, for one ruleset where the adapter takes rulesets. -/
structure ToolRun where
  ruleset : Option String
  program : String
  args : List String
  output : Except FileError ToolOutput
  hints : Hints

structure AdapterRun where
  adapter : Adapter
  runs : List ToolRun
  hints : Hints

namespace Adapter

/-- The hints in the output of an adapter's tool, if it can be read. -/
def hints? (output : Text) : Adapter → Option (List Hint)
  | phplint => some (Report.Phplint.hints output)
  | phpmd => Report.Phpmd.hints? output
  | phpcs => Report.Phpcs.hints? output

/-- Reads the output of an adapter's tool. -/
def parseOutput (world : World) (adapter : Adapter) (output : Text) : Hints :=
  match adapter.hints? output with
  | some hints => .ok hints
  | none => .error (.parse adapter (world.xmlFault adapter output))

def program (tools : ToolPaths) : Adapter → String
  | phplint => if tools.phpParser.isSome then tools.php else "php-parse"
  | phpmd => tools.phpmd
  | phpcs => tools.phpcs

/-- Arguments for a scanned file and a ruleset. -/
def args (tools : ToolPaths) (scanned ruleset : String) : Adapter → List String
  | phplint => tools.phpParser.toList ++ ["-c", "--no-dump", scanned]
  | phpmd => [scanned, "xml", ruleset]
  | phpcs => ["--report=xml", "--standard=" ++ ruleset, scanned]

def isAvailable (world : World) (tools : ToolPaths) (adapter : Adapter) : Bool :=
  let scriptPresent := adapter ≠ phplint ∨ tools.phpParser.all world.files.isFile
  scriptPresent && world.isProgram (adapter.program tools)

end Adapter

def isPhp (path : String) : Bool := ".php".toList.isSuffixOf path.toList

/-- The path of the temporary copy of a file, which keeps the extension of the file. -/
def scanPath (world : World) (path : String) : String :=
  world.scratch ++ "." ++ (Path.extension? path).getD "tmp"

namespace AdapterRun

def launch (world : World) (tools : ToolPaths) (adapter : Adapter) (path : String)
    (content : Content) (ruleset : Option String) : ToolRun :=
  let program := adapter.program tools
  let args := adapter.args tools (scanPath world path) (ruleset.getD "")
  let output := world.launch program args content
  { ruleset, program, args, output
    hints := match output with
      | .ok output => adapter.parseOutput world output.stdout.lossy
      | .error fault => .error (.launch program fault) }

/-- The rulesets a registry has for a file; the mess detector takes only those that are there. -/
def rulesets (world : World) (dataDir : String) (adapter : Adapter) (path : String) :
    Except Registry.Error (List String) :=
  (Registry.matchingAt world.files (Registry.pathFor dataDir adapter.name) path).map
    fun entries ↦ (entries.map (·.ruleset)).filter fun ruleset ↦
      adapter ≠ .phpmd || world.files.has ruleset

/-- The hints of several runs. -/
def combine (results : List Hints) : Hints :=
  match results.find? (fun r ↦ !r.isOk) with
  | some (.error e) =>
    if results.any (·.isOk) then .ok (results.flatMap fun r ↦ (r.toOption).getD []) else .error e
  | _ => .ok (results.flatMap fun r ↦ (r.toOption).getD [])

def of (world : World) (tools : ToolPaths) (dataDir path : String) (content : Content)
    (adapter : Adapter) : AdapterRun :=
  if ¬ isPhp path then ⟨adapter, [], .ok []⟩
  else
    match adapter with
    | .phplint =>
      let run := launch world tools adapter path content none
      ⟨adapter, [run], run.hints⟩
    | _ =>
      match rulesets world dataDir adapter path with
      | .error e => ⟨adapter, [], .error (.registry e)⟩
      | .ok rulesets =>
        let runs := rulesets.map fun ruleset ↦
          launch world tools adapter path content (some ruleset)
        ⟨adapter, runs, combine (runs.map (·.hints))⟩

/-! ## In the log -/

def toolLog (adapter : Adapter) (run : ToolRun) : Log :=
  let exit := match run.output with
    | .ok output => Log.toolExit adapter.name output.status.describe output.stderr.lossy
    | .error _ => []
  let outcome := match run.ruleset, run.hints with
    | some ruleset, .error e =>
      [Log.entry adapter.name s!"ruleset {ruleset} failed: {e.message}"]
    | _, _ => []
  Log.command adapter.name run.program run.args :: exit ++ outcome

def log (run : AdapterRun) : Log :=
  let result := match run.hints with
    | .ok hints => Log.hintCount run.adapter.name hints.length
    | .error e => Log.failed run.adapter.name e.message
  Log.adapterHeading run.adapter.name ++ run.runs.flatMap (toolLog run.adapter) ++ [result]

end AdapterRun

end LintMend
