import LintMend.Editor.Uri
import LintMend.Json.Basic

/-!
# Shapes of messages

What the parameters of a method must look like. Reading a value by a shape keeps what the shape
names: other members of an object are dropped, members that are null too where they need not be
there, and addresses are brought into normal form.
-/

namespace LintMend

inductive Shape where
  | anything
  | boolean
  /-- A number of 32 bits without a sign. -/
  | unsigned
  /-- A number of 32 bits with its sign. -/
  | signed
  | string
  /-- One of some strings. -/
  | word (words : List String)
  | address
  | list (item : Shape)
  /-- The second shape counts only where the first does not fit. -/
  | either (first second : Shape)
  /-- An object; each member has a name, whether it must be there, and a shape. A record that is
  `listable` can also be a list of all its members in this order. -/
  | record (listable : Bool) (members : List (String × Bool × Shape))
deriving Inhabited

namespace Shape

/-- A member that must be there. -/
def must (name : String) (shape : Shape) : String × Bool × Shape := (name, true, shape)

/-- A member that may be missing or null. -/
def may (name : String) (shape : Shape) : String × Bool × Shape := (name, false, shape)

def isNumber (p : Int → Bool) (json : Json) : Bool := json.int?.any p

def isString : Json → Bool
  | .str _ => true
  | _ => false

def isWord (words : List String) : Json → Bool
  | .str s => words.contains s
  | _ => false

def readBoolean? : Json → Option Json
  | .bool b => some (.bool b)
  | _ => none

def readAddress? : Json → Option Json
  | .str s => (Uri.parse? s.toList).map fun uri ↦ .str uri.render
  | _ => none

mutual

/-- What a shape knows of a value; `none` if the value does not fit. -/
def read? : Shape → Json → Option Json
  | anything, json => some json
  | boolean, json => readBoolean? json
  | unsigned, json => if isNumber isWord32 json then some json else none
  | signed, json => if isNumber isSigned32 json then some json else none
  | string, json => if isString json then some json else none
  | word words, json => if isWord words json then some json else none
  | address, json => readAddress? json
  | list item, json =>
    match json with
    | .arr items => (items.mapM fun json ↦ read? item json).map .arr
    | _ => none
  | either first second, json => (read? first json).or (read? second json)
  | record listable members, json =>
    match json with
    | .obj _ => (readMembers? members json).map .obj
    | .arr items => if listable then (readItems? members items).map .obj else none
    | _ => none

def readMembers? : List (String × Bool × Shape) → Json → Option (List (String × Json))
  | [], _ => some []
  | (name, needed, shape) :: members, json =>
    match json.get? name, needed with
    | none, true => none
    | none, false => readMembers? members json
    | some .null, false => readMembers? members json
    | some value, _ =>
      match read? shape value, readMembers? members json with
      | some value, some rest => some ((name, value) :: rest)
      | _, _ => none

def readItems? : List (String × Bool × Shape) → List Json → Option (List (String × Json))
  | [], [] => some []
  | [], _ :: _ => none
  | _ :: _, [] => none
  | (name, needed, shape) :: members, value :: items =>
    match value, needed with
    | .null, false => readItems? members items
    | value, _ =>
      match read? shape value, readItems? members items with
      | some value, some rest => some ((name, value) :: rest)
      | _, _ => none

end

end Shape

end LintMend
