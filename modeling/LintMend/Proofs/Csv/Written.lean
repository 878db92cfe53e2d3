import LintMend.Proofs.Csv.Reader
import Mathlib.Data.List.Basic

/-!
# Written fields and rows are read back

A written field is read as the field it was written for, quotes and line breaks in it included. It
may leave a quote held back, which the comma or the line break behind it settles. So a written row
is read as its fields, and behind its line break a new row begins.
-/

namespace LintMend.Csv

variable {st : State} {r : Reader} {s field : Text} {fields : List Text} {line : Nat}

/-! ## Fields -/

/-- The state after a text all of which is part of the field. -/
def State.take (st : State) (s : Text) : State :=
  { st with
    field := s.reverse ++ st.field
    started := st.started || !s.isEmpty
    line := st.line + s.count '\n' }

@[simp] theorem State.take_nil (st : State) : st.take [] = st := by
  simp [take]

theorem State.take_cons (st : State) (c : Char) (s : Text) :
    (st.hold c).take s = st.take (c :: s) := by
  simp only [take, hold, push, List.count_cons, List.reverse_cons, List.append_assoc,
    List.singleton_append, beq_iff_eq, State.mk.injEq, true_and, and_true]
  simp; omega

namespace Reader

theorem readAll_doubleQuotes (h : st.quote = some line) (s : Text) :
    readAll ⟨st, .nothing⟩ (doubleQuotes s) = ⟨st.take s, .nothing⟩ := by
  induction s generalizing st with
  | nil => simp [doubleQuotes]
  | cons c s ih =>
    have hcons : doubleQuotes (c :: s) =
        (if c = '"' then ['"', '"'] else [c]) ++ doubleQuotes s := rfl
    rw [hcons, readAll_append]
    have hhold : (st.hold c).quote = some line := h
    by_cases hquote : c = '"'
    · subst hquote
      rw [if_pos rfl, readAll_cons, readAll_cons, readAll_nil, read_read_quote h,
        ← State.hold_of_ne (by decide), ih hhold, State.take_cons]
    · rw [if_neg hquote, readAll_cons, readAll_nil, read_of_quote h, readQuoted, if_neg hquote,
        ih hhold, State.take_cons]

theorem readAll_bare (h : st.quote = none)
    (hs : ∀ c ∈ s, c ≠ ',' ∧ c ≠ '"' ∧ c ≠ '\n' ∧ c ≠ '\r') :
    readAll ⟨st, .nothing⟩ s = ⟨st.take s, .nothing⟩ := by
  induction s generalizing st with
  | nil => simp
  | cons c s ih =>
    obtain ⟨⟨hcomma, hquote, hfeed, hreturn⟩, hrest⟩ := List.forall_mem_cons.mp hs
    have hhold : (st.hold c).quote = none := h
    rw [readAll_cons, read_bare h, readBare, if_neg hquote, if_neg hcomma, if_neg hreturn,
      if_neg hfeed, ← State.hold_of_ne hfeed, ih hhold hrest, State.take_cons]

theorem needsQuotes_eq_false_iff : needsQuotes field = false ↔
    ∀ c ∈ field, c ≠ ',' ∧ c ≠ '"' ∧ c ≠ '\n' ∧ c ≠ '\r' := by
  simp [needsQuotes, and_assoc]

/-- What stands between quotes is read as it was before its quotes were doubled. -/
theorem readAll_quoted (h : st.quote = some line) (field : Text) :
    readAll ⟨st, .nothing⟩ (doubleQuotes field ++ ['"']) =
      ⟨{ st.take field with quote := none }, .quote line⟩ := by
  have htake : (st.take field).quote = some line := h
  rw [readAll_append, readAll_doubleQuotes h, readAll_cons, readAll_nil, read_of_quote htake,
    readQuoted, if_pos rfl]

/-- A written field is read as the field it was written for. -/
theorem readAll_writeField (h : st.quote = none) (field : Text) :
    readAll ⟨st, .nothing⟩ (writeField field) =
      ⟨st.take field, if needsQuotes field then .quote st.line else .nothing⟩ := by
  rw [writeField]
  split
  · next hneeds =>
    have hne : field ≠ [] := by
      rintro rfl
      simp [needsQuotes] at hneeds
    have hopen : read ⟨st, .nothing⟩ '"' =
        ⟨{ st with quote := some st.line, started := true }, .nothing⟩ := read_bare h '"'
    rw [List.cons_append, readAll_cons, hopen, readAll_quoted rfl]
    simp [State.take, hne, h]
  · next hneeds =>
    exact readAll_bare h (needsQuotes_eq_false_iff.mp (by simpa using hneeds))

end Reader

/-! ## Rows -/

/-- A row that has a character: an empty field alone leaves an empty line. -/
def IsRow (fields : List Text) : Prop := 2 ≤ fields.length ∨ ∃ field, fields = [field] ∧ field ≠ []

theorem IsRow.ne_nil (h : IsRow fields) : fields ≠ [] := by
  rintro rfl
  simp [IsRow] at h

/-- A row without its line break. -/
def writeFields (fields : List Text) : Text := List.intercalate [','] (fields.map writeField)

theorem writeRecord_eq (fields : List Text) :
    writeRecord fields = writeFields fields ++ ['\n'] := rfl

theorem writeFields_cons_cons (first second : Text) (rest : List Text) :
    writeFields (first :: second :: rest) =
      writeField first ++ ',' :: writeFields (second :: rest) := by
  simp [writeFields, List.intercalate_cons_of_ne_nil]

/-- What a reader holds that has read some fields of a row, from a state in which the row had
others, up to the end of the last. -/
structure HasRead (st : State) (fields : List Text) (r : Reader) : Prop where
  records : r.state.records = st.records
  rowLine : r.state.rowLine = st.rowLine
  quote : r.state.quote = none
  held : r.held ≠ .carriageReturn
  texts : (r.state.field.reverse :: r.state.fields).reverse = st.fields.reverse ++ fields
  started : st.started = true ∨ IsRow fields → r.state.started = true

namespace Reader

theorem hasRead_writeFields (hquote : st.quote = none) (hfield : st.field = [])
    (hne : fields ≠ []) : HasRead st fields (readAll ⟨st, .nothing⟩ (writeFields fields)) := by
  induction fields generalizing st with
  | nil => exact absurd rfl hne
  | cons first rest ih =>
    cases rest with
    | nil =>
      have hwrite : writeFields [first] = writeField first := by simp [writeFields]
      rw [hwrite, readAll_writeField hquote]
      refine ⟨rfl, rfl, hquote, ?_, ?_, ?_⟩
      · split <;> simp
      · simp [State.take, hfield]
      · rintro (hstarted | hrow)
        · simp [State.take, hstarted]
        · have hfirst : first ≠ [] := by simpa [IsRow] using hrow
          simp [State.take, hfirst]
    | cons second rest =>
      -- a comma ends the first field
      have hcomma : readAll ⟨st, .nothing⟩ (writeField first ++ [',']) =
          ⟨(st.take first).endField, .nothing⟩ := by
        rw [readAll_append, readAll_writeField hquote, readAll_cons, readAll_nil, read_comma hquote]
        split <;> simp
      have hread : readAll ⟨st, .nothing⟩ (writeFields (first :: second :: rest)) =
          readAll ⟨(st.take first).endField, .nothing⟩ (writeFields (second :: rest)) := by
        rw [writeFields_cons_cons, ← List.singleton_append, ← List.append_assoc, readAll_append,
          hcomma]
      have hrest : HasRead (st.take first).endField (second :: rest) _ := ih hquote rfl (by simp)
      rw [hread]
      refine ⟨hrest.records, hrest.rowLine, hrest.quote, hrest.held, ?_, ?_⟩
      · rw [hrest.texts]
        simp [State.endField, State.take, hfield]
      · exact fun _ ↦ hrest.started (.inl rfl)

end Reader

/-! ## Line breaks -/

inductive LineBreak where
  | lineFeed
  | carriageReturnLineFeed
deriving DecidableEq, Repr

def LineBreak.text : LineBreak → Text
  | lineFeed => ['\n']
  | carriageReturnLineFeed => ['\r', '\n']

namespace Reader

/-- Either line break ends the row. -/
theorem readAll_lineBreak (hquote : r.state.quote = none) (hheld : r.held ≠ .carriageReturn)
    (b : LineBreak) : r.readAll b.text = ⟨r.state.endRow.nextLine, .nothing⟩ := by
  cases b with
  | lineFeed => exact read_lineFeed hquote
  | carriageReturnLineFeed =>
    rw [LineBreak.text, readAll_cons, read_carriageReturn hquote hheld]
    exact read_lineFeed hquote

/-- From row to row the line goes on by the line feeds read. -/
theorem readAll_between {records records' : List Record}
    (h : ∃ line',
      readAll ⟨.between records line, .nothing⟩ s = ⟨.between records' line', .nothing⟩) :
    readAll ⟨.between records line, .nothing⟩ s =
      ⟨.between records' (line + s.count '\n'), .nothing⟩ := by
  obtain ⟨line', h⟩ := h
  have hline := line_readAll ⟨.between records line, .nothing⟩ s
  rw [h] at hline
  obtain rfl : line' = line + s.count '\n' := hline
  exact h

end Reader

theorem HasRead.records_endRow (h : HasRead st fields r)
    (hstarted : st.started = true ∨ IsRow fields) :
    r.state.endRow.records = ⟨st.rowLine, st.fields.reverse ++ fields⟩ :: st.records := by
  simp only [State.endRow, h.started hstarted, if_true, h.texts, h.rowLine, h.records]

/-- Behind the fields either line break ends the row. -/
theorem HasRead.readAll_lineBreak (h : HasRead st fields r)
    (hstarted : st.started = true ∨ IsRow fields) (b : LineBreak) : r.readAll b.text =
      ⟨.between (⟨st.rowLine, st.fields.reverse ++ fields⟩ :: st.records) (r.state.line + 1),
        .nothing⟩ := by
  have htidy := State.tidy_of_started (h.started hstarted)
  rw [Reader.readAll_lineBreak h.quote h.held, htidy.nextLine_endRow h.quote,
    h.records_endRow hstarted]

namespace Reader

/-- A written row with either line break is read as its fields. -/
theorem readAll_row (hrow : IsRow fields) (b : LineBreak) (records : List Record) (line : Nat) :
    readAll ⟨.between records line, .nothing⟩ (writeFields fields ++ b.text) =
      ⟨.between (⟨line, fields⟩ :: records) (line + (writeFields fields ++ b.text).count '\n'),
        .nothing⟩ := by
  have hread : HasRead (.between records line) fields _ := hasRead_writeFields rfl rfl hrow.ne_nil
  apply readAll_between
  rw [readAll_append, hread.readAll_lineBreak (.inr hrow)]
  exact ⟨_, rfl⟩

theorem readAll_writeRecord (hrow : IsRow fields) (records : List Record) (line : Nat) :
    readAll ⟨.between records line, .nothing⟩ (writeRecord fields) =
      ⟨.between (⟨line, fields⟩ :: records) (line + (writeRecord fields).count '\n'), .nothing⟩ :=
  readAll_row hrow .lineFeed records line

/-- Blank lines are no rows. -/
theorem readAll_blanks (blanks : List LineBreak) (records : List Record) (line : Nat) :
    readAll ⟨.between records line, .nothing⟩ (blanks.flatMap LineBreak.text) =
      ⟨.between records (line + (blanks.flatMap LineBreak.text).count '\n'), .nothing⟩ := by
  induction blanks generalizing line with
  | nil => rfl
  | cons b blanks ih =>
    have hblank : readAll ⟨.between records line, .nothing⟩ b.text =
        ⟨.between records (line + 1), .nothing⟩ :=
      readAll_lineBreak rfl (by simp) b
    apply readAll_between
    rw [List.flatMap_cons, readAll_append, hblank, ih]
    exact ⟨_, rfl⟩

end Reader

end LintMend.Csv
