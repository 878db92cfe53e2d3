import LintMend.Text.Basic

/-!
# Comma separated values

Rows of fields. A quote, wherever it stands, begins quoted text that lasts to the next quote that is
not doubled; commas and line breaks in quoted text are part of the field. A row ends with a line
feed, perhaps with a carriage return before it, and a row without any character is no row.
-/

namespace LintMend.Csv

/-- Quoted text that does not end; the line on which it begins, counted from one. -/
structure UnterminatedQuote where
  line : Nat
deriving DecidableEq, Repr

/-- A row with the line on which it begins, counted from one. -/
structure Record where
  line : Nat
  fields : List Text
deriving DecidableEq, Repr

/-- Where the reading of a file stands; lists hold what was read last first. -/
structure State where
  records : List Record
  fields : List Text
  field : Text
  /-- Whether the row has had a character. -/
  started : Bool
  /-- The line on which quoted text began that is not yet ended. -/
  quote : Option Nat
  line : Nat
  rowLine : Nat
deriving DecidableEq, Repr

namespace State

def initial : State := ⟨[], [], [], false, none, 1, 1⟩

def push (st : State) (c : Char) : State := { st with field := c :: st.field, started := true }

def endField (st : State) : State :=
  { st with fields := st.field.reverse :: st.fields, field := [], started := true }

/-- Ends a row, which is kept if it has had a character. -/
def endRow (st : State) : State :=
  if st.started then
    let row : Record := ⟨st.rowLine, (st.field.reverse :: st.fields).reverse⟩
    { st with records := row :: st.records, fields := [], field := [], started := false }
  else st

/-- The next row begins on the next line. -/
def nextLine (st : State) : State := { st with line := st.line + 1, rowLine := st.line + 1 }

end State

def scan : State → Text → State
  | st, [] => st
  | st, c :: s =>
    match st.quote with
    | some _ =>
      if c = '"' then
        match s with
        | '"' :: s => scan (st.push '"') s
        | s => scan { st with quote := none } s
      else if c = '\n' then scan { st.push c with line := st.line + 1 } s
      else scan (st.push c) s
    | none =>
      if c = '"' then scan { st with quote := some st.line, started := true } s
      else if c = ',' then scan st.endField s
      else if c = '\r' ∧ s.head? = some '\n' then scan st s
      else if c = '\n' then scan st.endRow.nextLine s
      else scan (st.push c) s

def parse (s : Text) : Except UnterminatedQuote (List Record) :=
  let st := scan State.initial s
  match st.quote with
  | some line => .error ⟨line⟩
  | none => .ok st.endRow.records.reverse

/-! ## Writing -/

def needsQuotes (field : Text) : Bool :=
  field.any fun c ↦ c == ',' || c == '"' || c == '\n' || c == '\r'

def doubleQuotes (field : Text) : Text := field.flatMap fun c ↦ if c = '"' then ['"', '"'] else [c]

def writeField (field : Text) : Text :=
  if needsQuotes field then '"' :: doubleQuotes field ++ ['"'] else field

/-- A row with its line feed. -/
def writeRecord (fields : List Text) : Text :=
  List.intercalate [','] (fields.map writeField) ++ ['\n']

end LintMend.Csv
