import LintMend.Cli.Invocation
import LintMend.Release

/-!
# Help

What a command says about itself: what it does, how it is called, and a table for each kind of
argument that it takes.
-/

namespace LintMend.Cli

/-- A table of two columns under a title. -/
def table (title : String) (rows : List (String × String)) : String :=
  let width := (rows.map (·.1.length)).foldl max 0
  let row (name description : String) : String :=
    "  " ++ name ++ "".pushn ' ' (width - name.length) ++ "  " ++ description ++ "\n"
  title ++ ":\n" ++ String.join (rows.map fun (name, description) ↦ row name description)

namespace Opt

def takesValue (opt : Opt) : Bool :=
  match opt.arity with
  | .flag => false
  | _ => true

/-- The option with its value, as it is typed. -/
def form (opt : Opt) : String :=
  "--" ++ opt.long ++ (if opt.takesValue then " <" ++ opt.valueName ++ ">" else "")

/-- Options of one place stand in the order of their letters, or of their names. -/
def key (opt : Opt) : String :=
  match opt.short with
  | some letter => letter.toString
  | none => opt.long

def row (opt : Opt) : String × String :=
  let short := match opt.short with
    | some letter => "-" ++ letter.toString ++ ", "
    | none => "    "
  (short ++ opt.form, opt.description)

end Opt

def Positional.form (p : Positional) : String :=
  if p.isRequired then "<" ++ p.name ++ ">..." else "[" ++ p.name ++ "]..."

namespace Grammar

/-- How the command that some names lead to is called. -/
def callForm (g : Grammar) (names : List String) : String :=
  let required := (g.options.filter (·.isRequired)).map Opt.form
  let operands := match g.operands with
    | .none => []
    | .files positional => [positional.form]
    | .commands _ => ["<COMMAND>"]
  " ".intercalate (programName :: names ++ ["[OPTIONS]"] ++ required ++ operands)

/-- The options as they are listed. A command counts its own options, and those that every command
takes are counted for themselves; an option stands where its number says. -/
def listed (g : Grammar) : List Opt :=
  let own := g.options.take (g.options.length - globalOptions.length)
  let numbered := own.zipIdx ++ globalOptions.zipIdx
  let le (a b : Opt × Nat) : Bool := a.2 < b.2 || (a.2 == b.2 && a.1.key ≤ b.1.key)
  (numbered.mergeSort le).map (·.1)

def tables (g : Grammar) : List String :=
  let operands := match g.operands with
    | .none => []
    | .files p => [table "Arguments" [(p.form, p.description)]]
    | .commands names => [table "Commands" (names ++
        [("help", "Print this message or the help of the given subcommand(s)")])]
  let options := g.listed.map Opt.row ++ [("-h, --help", "Print help")]
    ++ (if g.hasVersion then [("-V, --version", "Print version")] else [])
  operands ++ [table "Options" options]

end Grammar

/-- What a command does, by the names that lead to it. -/
def about : List String → String
  | [name] => ((commandNames.find? (·.1 == name)).map (·.2)).getD ""
  | [_, name] => ((rulesetCommandNames.find? (·.1 == name)).map (·.2)).getD ""
  | _ => "Lint and repair PHP files with php-parse, phpmd and phpcs"

/-- The help of the command that some names lead to. -/
def help (names : List String) : String :=
  match grammar? names with
  | some grammar =>
    "\n".intercalate ((about names ++ "\n") :: ("Usage: " ++ grammar.callForm names ++ "\n")
      :: grammar.tables)
  | none => ""

end LintMend.Cli
