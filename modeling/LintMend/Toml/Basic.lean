/-!
# TOML values

The value of a document is a table. Floats and dates are kept as they are written.
-/

namespace LintMend

inductive Toml where
  | str (value : String)
  | int (value : Int)
  | float (text : String)
  | bool (value : Bool)
  | date (text : String)
  | arr (items : List Toml)
  | table (entries : List (String × Toml))
deriving Inhabited, Repr

namespace Toml

def str? : Toml → Option String
  | str s => some s
  | _ => none

def bool? : Toml → Option Bool
  | bool b => some b
  | _ => none

/-- An integer that is not negative. -/
def nat? : Toml → Option Nat
  | int n => if 0 ≤ n then some n.toNat else none
  | _ => none

def strs? : Toml → Option (List String)
  | arr items => items.mapM str?
  | _ => none

/-! ## Records

A record has a fixed list of fields. A table gives them by name, and an array by their places, which
are counted from zero. A date is a record that gives none of its fields.
-/

def isRecord : Toml → Bool
  | table _ => true
  | arr _ => true
  | date _ => true
  | _ => false

def field? (record : Toml) (place : Nat) (name : String) : Option Toml :=
  match record with
  | table entries => (entries.find? (·.1 == name)).map (·.2)
  | arr items => items[place]?
  | _ => none

/-- Reads a field that may be missing; fails at one that cannot be read. -/
def optional? {α : Type} (read : Toml → Option α) (record : Toml) (place : Nat) (name : String) :
    Option (Option α) :=
  match record.field? place name with
  | none => some none
  | some value => (read value).map some

/-- Reads a field, which has a default. -/
def fieldOr? {α : Type} (dflt : α) (read : Toml → Option α) (record : Toml) (place : Nat)
    (name : String) : Option α :=
  (optional? read record place name).map (·.getD dflt)

end Toml

end LintMend
