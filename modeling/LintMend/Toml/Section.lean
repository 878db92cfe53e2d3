import LintMend.Toml.Basic

/-!
# Tables under construction

A document says piece by piece what its tables hold: a header opens a table, a key gives a value to
one name, and dots in either lead through other tables, which are made where they are missing. What
may be extended later depends on how a table came about, so that no name is given twice.
-/

namespace LintMend.Toml

/-- How a table came about. -/
inductive Origin where
  /-- By a header of its own. -/
  | header
  /-- By the header of a table inside it. -/
  | implied
  /-- By a key with dots. -/
  | dotted
deriving DecidableEq, Repr

inductive Section where
  | value (value : Toml)
  | table (origin : Origin) (entries : List (String × Section))
  /-- The tables of a list of them, the last one first. -/
  | tables (items : List (List (String × Section)))
deriving Inhabited

namespace Section

abbrev Entries := List (String × Section)

/-- Changes what a name stands for, given what it stands for now. -/
def alter (name : String) (change : Option Section → Option Section) : Entries → Option Entries
  | [] => (change none).map fun s ↦ [(name, s)]
  | (other, s) :: entries =>
    if other = name then (change (some s)).map fun s ↦ (name, s) :: entries
    else (alter name change entries).map fun entries ↦ (other, s) :: entries

/-- Applies a change to the table of a section, or to the last one of a list. -/
def inside (change : Entries → Option Entries) : Section → Option Section
  | value _ => none
  | table origin entries => (change entries).map (table origin)
  | tables [] => none
  | tables (last :: items) => (change last).map fun last ↦ tables (last :: items)

def isDotted : Section → Bool
  | table .dotted _ => true
  | _ => false

/-- Gives a value to a key. Tables that have a header of their own are closed to keys that lead
through them, and the table that takes the name must be one that takes keys with dots or, as the
flag says, the one whose header is above. -/
def assign (v : Toml) : Bool → List String → Entries → Option Entries
  | _, [], _ => none
  | isOpen, [name], entries =>
    if isOpen then
      alter name (fun current ↦ if current.isNone then some (value v) else none) entries
    else none
  | _, name :: path, entries =>
    alter name (fun current ↦
      match current with
      | none => (assign v true path []).map (table .dotted)
      | some (table .header _) => none
      | some s => s.inside (assign v s.isDotted path)) entries

/-- Opens a table by its header. -/
def openTable : List String → Entries → Option Entries
  | [], _ => none
  | [name], entries =>
    alter name (fun current ↦
      match current with
      | none => some (table .header [])
      | some (table .implied inner) => some (table .header inner)
      | _ => none) entries
  | name :: path, entries =>
    alter name (fun current ↦
      match current with
      | none => (openTable path []).map (table .implied)
      | some s => s.inside (openTable path)) entries

/-- Adds a table to a list of tables by its header. -/
def openItem : List String → Entries → Option Entries
  | [], _ => none
  | [name], entries =>
    alter name (fun current ↦
      match current with
      | none => some (tables [[]])
      | some (tables items) => some (tables ([] :: items))
      | _ => none) entries
  | name :: path, entries =>
    alter name (fun current ↦
      match current with
      | none => (openItem path []).map (table .implied)
      | some s => s.inside (openItem path)) entries

/-- Applies a change to the table that a header has opened. -/
def within (change : Entries → Option Entries) : List String → Entries → Option Entries
  | [], entries => change entries
  | name :: path, entries =>
    alter name (fun current ↦ current.bind (inside (within change path))) entries

mutual

def toToml : Section → Toml
  | value v => v
  | table _ entries => .table (entriesToToml entries)
  | tables items => .arr (itemsToToml items).reverse

def entriesToToml : Entries → List (String × Toml)
  | [] => []
  | (name, s) :: entries => (name, s.toToml) :: entriesToToml entries

def itemsToToml : List Entries → List Toml
  | [] => []
  | entries :: items => .table (entriesToToml entries) :: itemsToToml items

end

end Section

end LintMend.Toml
