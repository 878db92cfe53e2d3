import LintMend.Text.Basic

/-!
# Grammar of a command line

A command takes options, which begin with a dash, and either files or one of several subcommands.
`Grammar.scan` divides the arguments of a command into the options that are given, the files, and
the subcommand with its own arguments.
-/

namespace LintMend.Cli

/-- What may follow an option. -/
inductive Arity where
  | flag
  /-- One value; the option may be given once. -/
  | once (accepts : String → Bool)
  /-- One value; the option may be given any number of times. -/
  | many (accepts : String → Bool)

structure Opt where
  /-- The name behind two dashes. -/
  long : String
  /-- The letter behind one dash. -/
  short : Option Char
  arity : Arity
  /-- How the value is called. -/
  valueName : String
  description : String
  isRequired : Bool

/-- The values that are not options. -/
structure Positional where
  name : String
  description : String
  isRequired : Bool

/-- Whether a command names files, other commands, or neither. -/
inductive Operands where
  | none
  | files (positional : Positional)
  /-- Other commands, by their names, with what they do. -/
  | commands (names : List (String × String))

structure Grammar where
  options : List Opt
  operands : Operands
  /-- Whether the command answers for the version. -/
  hasVersion : Bool

/-- What a command was given. -/
structure Given where
  /-- Options by their long names, with their values; a flag has an empty value. -/
  options : List (String × String)
  files : List String
  command : Option (String × List String)
deriving Repr

/-- Why the arguments of a command say nothing that it can do. -/
inductive Stop where
  | help
  | version
  | usage
deriving DecidableEq, Repr

namespace Given

def empty : Given := ⟨[], [], none⟩

def has (given : Given) (name : String) : Bool := given.options.any (·.1 == name)

/-- All values of an option. -/
def values (given : Given) (name : String) : List String :=
  (given.options.filter (·.1 == name)).map (·.2)

def value? (given : Given) (name : String) : Option String := (given.values name).head?

/-- Adds an option, which must accept its value and must not be given too often. -/
def add (given : Given) (opt : Opt) (value : String) : Except Stop Given :=
  let next := { given with options := given.options ++ [(opt.long, value)] }
  match opt.arity with
  | .flag => if given.has opt.long then .error .usage else .ok next
  | .once accepts =>
    if given.has opt.long ∨ ¬ accepts value then .error .usage else .ok next
  | .many accepts => if accepts value then .ok next else .error .usage

end Given

namespace Grammar

def long? (g : Grammar) (name : Text) : Option Opt :=
  g.options.find? (·.long == String.ofList name)

def short? (g : Grammar) (letter : Char) : Option Opt :=
  g.options.find? (·.short == some letter)

/-- Whether an argument can only be an option; a lone dash is a file. -/
def looksLikeOption (argument : Text) : Bool :=
  argument.head? = some '-' && argument ≠ ['-']

/-- The value of an option: the one attached to it, or the next argument. -/
def value? (attached : Option Text) (rest : List String) : Except Stop (String × List String) :=
  match attached, rest with
  | some value, _ => .ok (String.ofList value, rest)
  | none, next :: rest =>
    if looksLikeOption next.toList then .error .usage else .ok (next, rest)
  | none, [] => .error .usage

/-- An option behind two dashes, perhaps with its value behind an equals sign. -/
def scanLong (g : Grammar) (given : Given) (argument : Text) (rest : List String) :
    Except Stop (Given × List String) := do
  let name := argument.takeWhile (· ≠ '=')
  let attached := match argument.drop name.length with
    | _ :: value => some value
    | [] => none
  match g.long? name with
  | none =>
    if attached.isSome then .error .usage
    else if name = "help".toList then .error .help
    else if name = "version".toList ∧ g.hasVersion then .error .version
    else .error .usage
  | some opt =>
    match opt.arity with
    | .flag =>
      if attached.isSome then .error .usage
      else return (← given.add opt "", rest)
    | _ =>
      let (value, rest) ← value? attached rest
      return (← given.add opt value, rest)

/-- Options behind one dash: flags, of which the last may be an option with its value. -/
def scanShort (g : Grammar) (given : Given) : Text → List String →
    Except Stop (Given × List String)
  | [], rest => .ok (given, rest)
  | letter :: more, rest =>
    match g.short? letter with
    | none =>
      if letter = 'h' then .error .help
      else if letter = 'V' ∧ g.hasVersion then .error .version
      else .error .usage
    | some opt =>
      match opt.arity with
      | .flag => do scanShort g (← given.add opt "") more rest
      | _ => do
        let attached := match more with
          | [] => none
          | '=' :: value => some value
          | value => some value
        let (value, rest) ← value? attached rest
        return (← given.add opt value, rest)

/-- A file, which must have a name. -/
def scanFile (g : Grammar) (given : Given) (file : String) : Except Stop Given :=
  match g.operands with
  | .files _ =>
    if file.isEmpty then .error .usage else .ok { given with files := given.files ++ [file] }
  | _ => .error .usage

/-- Reads the arguments from the first to the last; their number bounds the steps. Behind two dashes
all arguments are files. -/
def scanFrom (g : Grammar) : Nat → Given → List String → Except Stop Given
  | 0, given, _ => .ok given
  | _, given, [] => .ok given
  | fuel + 1, given, argument :: rest =>
    match argument.toList with
    | ['-', '-'] => rest.foldlM g.scanFile given
    | '-' :: '-' :: name => do
      let (given, rest) ← g.scanLong given name rest
      scanFrom g fuel given rest
    | '-' :: letter :: letters => do
      let (given, rest) ← g.scanShort given (letter :: letters) rest
      scanFrom g fuel given rest
    | _ =>
      match g.operands with
      | .commands names =>
        if names.any (·.1 == argument) ∨ argument = "help" then
          .ok { given with command := some (argument, rest) }
        else .error .usage
      | _ => do scanFrom g fuel (← g.scanFile given argument) rest

def scan (g : Grammar) (arguments : List String) : Except Stop Given :=
  g.scanFrom arguments.length Given.empty arguments

/-- Whether all is given that must be given. -/
def hasRequired (g : Grammar) (given : Given) : Bool :=
  g.options.all fun opt ↦ !opt.isRequired || given.has opt.long

end Grammar

end LintMend.Cli
