import LintMend.Word

/-!
# JSON values

The members of an object keep the order in which they were written.
-/

namespace LintMend

inductive Json where
  | null
  | bool (value : Bool)
  /-- A number written without a fraction and without an exponent. -/
  | int (value : Int)
  /-- Any other number, as it is written. -/
  | real (text : String)
  | str (value : String)
  | arr (items : List Json)
  | obj (members : List (String × Json))
deriving Inhabited, Repr

namespace Json

def nat (n : Nat) : Json := int n

/-- The value of the last member with a name; an object with none is the same as no object. -/
def get? (json : Json) (name : String) : Option Json :=
  match json with
  | obj members => (members.reverse.find? (·.1 == name)).map (·.2)
  | _ => none

def str? : Json → Option String
  | str s => some s
  | _ => none

def bool? : Json → Option Bool
  | bool b => some b
  | _ => none

def int? : Json → Option Int
  | int n => some n
  | _ => none

/-- An integer of 64 bits without a sign. -/
def word? : Json → Option Nat
  | int n => if isWord64 n then some n.toNat else none
  | _ => none

def arr? : Json → Option (List Json)
  | arr items => some items
  | _ => none

end Json

end LintMend
