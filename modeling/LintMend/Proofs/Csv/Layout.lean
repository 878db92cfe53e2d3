import LintMend.Proofs.Csv.Written

/-!
# Files of written rows, however they are laid out

A file of written rows may end its rows with either line break, have blank lines above them, and
lack the line break behind the last. It is read as the rows it was written for, each with the line
on which its text begins.
-/

namespace LintMend.Csv

/-- A row with the blank lines above it and the line break behind it. -/
structure LaidRow where
  blanks : List LineBreak
  fields : List Text
  ending : LineBreak
deriving DecidableEq, Repr

namespace LaidRow

def lead (row : LaidRow) : Text := row.blanks.flatMap LineBreak.text

/-- The written row without the line feed it is written with. -/
def line (row : LaidRow) : Text := (writeRecord row.fields).dropLast

def text (row : LaidRow) : Text := row.lead ++ row.line ++ row.ending.text

theorem line_eq (row : LaidRow) : row.line = writeFields row.fields := by
  rw [line, writeRecord_eq, List.dropLast_concat]

end LaidRow

/-- Some rows; the line break behind the last may be missing. -/
def layOut (ended : Bool) : List LaidRow → Text
  | [] => []
  | [row] => if ended then row.text else row.lead ++ row.line
  | row :: rest => row.text ++ layOut ended rest

theorem layOut_cons_cons (ended : Bool) (row next : LaidRow) (rest : List LaidRow) :
    layOut ended (row :: next :: rest) = row.text ++ layOut ended (next :: rest) := rfl

/-- The rows behind some text, each with one more than the line feeds before its text. -/
def recordsBehind (before : Text) : List LaidRow → List Record
  | [] => []
  | row :: rest =>
    ⟨1 + (before ++ row.lead).count '\n', row.fields⟩ :: recordsBehind (before ++ row.text) rest

namespace Reader

variable {row : LaidRow} {rows : List LaidRow} {records : List Record}

theorem readAll_lead (row : LaidRow) (records : List Record) (line : Nat) :
    readAll ⟨.between records line, .nothing⟩ row.lead =
      ⟨.between records (line + row.lead.count '\n'), .nothing⟩ :=
  readAll_blanks row.blanks records line

theorem readAll_laidRow (hrow : IsRow row.fields) (records : List Record) (line : Nat) :
    readAll ⟨.between records line, .nothing⟩ row.text =
      ⟨.between (⟨line + row.lead.count '\n', row.fields⟩ :: records) (line + row.text.count '\n'),
        .nothing⟩ := by
  apply readAll_between
  rw [LaidRow.text, LaidRow.line_eq, List.append_assoc, readAll_append, readAll_lead,
    readAll_row hrow]
  exact ⟨_, rfl⟩

/-- At the end of a text the last row needs no line break. -/
theorem ends_laidRow (hrow : IsRow row.fields) (records : List Record) (line : Nat) :
    (readAll ⟨.between records line, .nothing⟩ (row.lead ++ row.line)).Ends
      (⟨line + row.lead.count '\n', row.fields⟩ :: records) := by
  rw [readAll_append, readAll_lead, LaidRow.line_eq]
  have hread : HasRead (.between records (line + row.lead.count '\n')) row.fields _ :=
    hasRead_writeFields rfl rfl hrow.ne_nil
  constructor
  · rw [finish_of_ne hread.held, hread.quote]
  · rw [finish_of_ne hread.held, hread.records_endRow (.inr hrow)]
    rfl

theorem ends_layOut (hrows : ∀ row ∈ rows, IsRow row.fields) (ended : Bool) (before : Text)
    (records : List Record) :
    (readAll ⟨.between records (1 + before.count '\n'), .nothing⟩ (layOut ended rows)).Ends
      ((recordsBehind before rows).reverse ++ records) := by
  induction rows generalizing before records with
  | nil => exact ends_between ..
  | cons row rest ih =>
    obtain ⟨hrow, hrest⟩ := List.forall_mem_cons.mp hrows
    have hlead :
        1 + (before ++ row.lead).count '\n' = 1 + before.count '\n' + row.lead.count '\n' := by
      rw [List.count_append, Nat.add_assoc]
    have htext :
        1 + (before ++ row.text).count '\n' = 1 + before.count '\n' + row.text.count '\n' := by
      rw [List.count_append, Nat.add_assoc]
    have hread := readAll_laidRow hrow records (1 + before.count '\n')
    rw [← htext, ← hlead] at hread
    cases rest with
    | nil =>
      cases ended with
      | true =>
        rw [layOut, if_pos rfl, hread]
        exact ends_between ..
      | false =>
        have hends := ends_laidRow hrow records (1 + before.count '\n')
        rwa [← hlead] at hends
    | cons next rest =>
      rw [layOut_cons_cons, readAll_append, hread]
      have hends := ih hrest (before ++ row.text)
        (⟨1 + (before ++ row.lead).count '\n', row.fields⟩ :: records)
      simpa [recordsBehind] using hends

end Reader

/-- Written rows are read back from every layout of them, each with the line of its text. -/
theorem parse_layOut (rows : List LaidRow) (hrows : ∀ row ∈ rows, IsRow row.fields) (ended : Bool) :
    parse (layOut ended rows) = .ok (recordsBehind [] rows) := by
  have hends := Reader.ends_layOut hrows ended [] []
  rw [Reader.parse_of_ends hends, List.append_nil, List.reverse_reverse]

theorem parse_layOut_of_quotes_and_blank_lines :
    parse "\"a\"\"\r\nb\",c\r\n\n\r\nd".toList =
      .ok [⟨1, ["a\"\r\nb".toList, "c".toList]⟩, ⟨5, ["d".toList]⟩] := by
  have hrows : ∀ row ∈ ([⟨[], ["a\"\r\nb".toList, "c".toList], .carriageReturnLineFeed⟩,
      ⟨[.lineFeed, .carriageReturnLineFeed], ["d".toList], .lineFeed⟩] : List LaidRow),
      IsRow row.fields := by
    simp [IsRow]
  exact parse_layOut _ hrows false

end LintMend.Csv
