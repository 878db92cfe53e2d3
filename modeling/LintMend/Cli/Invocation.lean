import LintMend.Cli.Grammar
import LintMend.Text.Number

/-!
# Invocations

The commands of the program, and how they are read from the arguments of a command line.
-/

namespace LintMend.Cli

/-- Tools that take rulesets. -/
inductive RulesetTool where
  | phpmd
  | phpcs
deriving DecidableEq, Repr

def RulesetTool.name : RulesetTool → String
  | phpmd => "phpmd"
  | phpcs => "phpcs"

def RulesetTool.named? (name : String) : Option RulesetTool :=
  [RulesetTool.phpmd, .phpcs].find? (·.name == name)

inductive RulesetAction where
  | list (tool : RulesetTool)
  | add (tool : RulesetTool) (directory ruleset : String)
  | remove (tool : RulesetTool) (directory ruleset : String)
  | reset (tool : RulesetTool)
deriving DecidableEq, Repr

inductive Command where
  | lint (paths : List String) (format : Option String) (stdin : Bool) (stdinPath : Option String)
      (adapters : List String)
  | repair (paths : List String) (fix : Bool) (format : Option String) (cycles : Option Nat)
      (listRules : Bool)
  | ruleset (action : RulesetAction) (format : Option String)
  | adapters (enable disable : List String)
  | watch (paths : List String)
  | serve
deriving DecidableEq, Repr

/-- Options that every command takes. -/
structure GlobalOptions where
  config : Option String
  noConfig : Bool
  verbose : Bool
  debugLog : Option String
deriving DecidableEq, Repr

structure Invocation where
  globals : GlobalOptions
  command : Command
deriving DecidableEq, Repr

/-- What a command line asks for. -/
inductive Request where
  | run (invocation : Invocation)
  /-- The help of a command, by the names that lead to it. -/
  | help (command : List String)
  | version
  /-- Nothing that the program can do. -/
  | usage
deriving Repr

/-! ## Options -/

def anyValue : String → Bool := fun _ ↦ true

def isPath (value : String) : Bool := !value.isEmpty

def isWord (value : String) : Bool := (Text.readWord? value.toList).isSome

def isRulesetTool (value : String) : Bool := (RulesetTool.named? value).isSome

def option (long : String) (arity : Arity) (valueName description : String) : Opt :=
  ⟨long, none, arity, valueName, description, false⟩

def flag (long description : String) : Opt := option long .flag "" description

def required (opt : Opt) : Opt := { opt with isRequired := true }

def globalOptions : List Opt := [
  option "config" (.once isPath) "PATH" "Path to config file (default: auto-detect .phphints.toml)",
  flag "no-config" "Ignore config files",
  { flag "verbose" "Show verbose output" with short := some 'v' },
  option "debug-log" (.once isPath) "PATH"
    "Write a debug log of tool runs and repairs to this file"]

def toolOption : Opt :=
  required (option "tool" (.once isRulesetTool) "TOOL" "[possible values: phpmd, phpcs]")

def directoryOption (description : String) : Opt :=
  required (option "directory" (.once anyValue) "DIRECTORY" description)

def rulesetOption (description : String) : Opt :=
  required (option "ruleset" (.once anyValue) "RULESET" description)

/-! ## Commands -/

/-- The commands with what they do. -/
def commandNames : List (String × String) := [
  ("lint", "Lint files and print their hints"),
  ("repair", "Repair PHP_CodeSniffer hints"),
  ("ruleset", "Manage phpmd and phpcs ruleset registrations"),
  ("adapters", "Show adapter states, or enable and disable adapters"),
  ("watch", "Re-lint files whenever they change"),
  ("lsp", "Run the LSP server on stdio")]

def rulesetCommandNames : List (String × String) := [
  ("list", "List the registrations for a tool"),
  ("add", "Check files below a directory against a ruleset"),
  ("remove", "Remove every registration equal to the pair"),
  ("reset", "Drop every registration for a tool")]

def files (description : String) (isRequired : Bool) : Operands :=
  .files ⟨"PATHS", description, isRequired⟩

def grammarOf (options : List Opt) (operands : Operands) : Grammar :=
  ⟨options ++ globalOptions, operands, false⟩

/-- The grammar of a command, by the names that lead to it. -/
def grammar? : List String → Option Grammar
  | [] => some ⟨globalOptions, .commands commandNames, true⟩
  | ["lint"] => some <| grammarOf [
      option "format" (.once anyValue) "FORMAT" "Output format: text, json",
      flag "stdin" "Read the document from stdin instead of disk",
      option "stdin-path" (.once isPath) "PATH" "Path the stdin document is linted as",
      { option "adapter" (.many anyValue) "ADAPTER"
          "Adapters to run (can be specified multiple times). Overrides settings" with
        short := some 'a' }] (files "Files or directories to lint" false)
  | ["repair"] => some <| grammarOf [
      flag "fix" "Write the repaired files instead of showing a diff",
      option "format" (.once anyValue) "FORMAT" "Output format: text, json, diff",
      option "cycles" (.once isWord) "N" "Lint-and-repair passes per file",
      flag "list-rules" "List the repair rules and exit"]
      (files "Files or directories to repair" false)
  | ["ruleset"] => some <| grammarOf [
      option "format" (.once anyValue) "FORMAT" "Output format for list: text, json"]
      (.commands rulesetCommandNames)
  | ["ruleset", "list"] => some <| grammarOf [toolOption] .none
  | ["ruleset", "add"] => some <| grammarOf [toolOption,
      directoryOption "Directory prefix the ruleset applies to",
      rulesetOption "Ruleset file (phpmd) or standard name or file (phpcs)"] .none
  | ["ruleset", "remove"] =>
    some <| grammarOf [toolOption, directoryOption "", rulesetOption ""] .none
  | ["ruleset", "reset"] => some <| grammarOf [toolOption] .none
  | ["adapters"] => some <| grammarOf [
      option "enable" (.many anyValue) "ADAPTER" "Enable an adapter in the user settings",
      option "disable" (.many anyValue) "ADAPTER" "Disable an adapter in the user settings"] .none
  | ["watch"] => some <| grammarOf [] (files "Files or directories to watch" true)
  | ["lsp"] => some <| grammarOf [] .none
  | _ => none

/-! ## Reading -/

/-- The options of every command; those given further inside go first. -/
def globalsOf (levels : List Given) : GlobalOptions :=
  let inner := levels.reverse
  { config := inner.findSome? fun g ↦ g.value? "config"
    noConfig := levels.any fun g ↦ g.has "no-config"
    verbose := levels.any fun g ↦ g.has "verbose"
    debugLog := inner.findSome? fun g ↦ g.value? "debug-log" }

def rulesetAction? (name : String) (given : Given) : Option RulesetAction := do
  let tool ← (given.value? "tool").bind RulesetTool.named?
  match name with
  | "list" => return .list tool
  | "reset" => return .reset tool
  | "add" => return .add tool (← given.value? "directory") (← given.value? "ruleset")
  | "remove" => return .remove tool (← given.value? "directory") (← given.value? "ruleset")
  | _ => none

/-- The command that leads to the last of some levels; `outer` is the level above it. -/
def command? (names : List String) (outer given : Given) : Option Command :=
  match names with
  | ["lint"] =>
    let stdin := given.has "stdin"
    if (given.files.isEmpty ∧ ¬ stdin) ∨ (stdin ∧ ¬ given.has "stdin-path") then none
    else some (.lint given.files (given.value? "format") stdin (given.value? "stdin-path")
      (given.values "adapter"))
  | ["repair"] =>
    let listRules := given.has "list-rules"
    if given.files.isEmpty ∧ ¬ listRules then none
    else some (.repair given.files (given.has "fix") (given.value? "format")
      ((given.value? "cycles").bind fun n ↦ Text.readWord? n.toList) listRules)
  | ["ruleset", action] =>
    (rulesetAction? action given).map fun a ↦ .ruleset a (outer.value? "format")
  | ["adapters"] => some (.adapters (given.values "enable") (given.values "disable"))
  | ["watch"] => if given.files.isEmpty then none else some (.watch given.files)
  | ["lsp"] => some .serve
  | _ => none

/-- Reads the arguments of the command that some names lead to, below the levels already read. The
names of a command have at most as many parts as `depth`. -/
def readFrom : Nat → List String → List Given → List String → Request
  | 0, _, _, _ => .usage
  | depth + 1, names, levels, arguments =>
    match grammar? names with
    | none => .usage
    | some grammar =>
      match grammar.scan arguments with
      | .error .help => .help names
      | .error .version => .version
      | .error .usage => .usage
      | .ok given =>
        match grammar.operands, given.command with
        | .commands _, none => .usage
        | .commands _, some ("help", topic) =>
          if (grammar? (names ++ topic)).isSome then .help (names ++ topic) else .usage
        | .commands _, some (name, rest) =>
          readFrom depth (names ++ [name]) (levels ++ [given]) rest
        | _, _ =>
          match command? names (levels.getLast?.getD Given.empty) given with
          | some command =>
            if grammar.hasRequired given then .run ⟨globalsOf (levels ++ [given]), command⟩
            else .usage
          | none => .usage

/-- What the arguments of the program ask for. -/
def read (arguments : List String) : Request := readFrom 3 [] [] arguments

end LintMend.Cli
