import LintMend.Proofs.Csv.Written

/-!
# Rows written behind other text

Where every row of a text has its line break, a row that is written behind it is a row of its own.
Where the last has none, the first field of the new row is read as more of its last field, and the
fields behind that follow in the same row.
-/

namespace LintMend.Csv

variable {r : Reader} {st : State} {text field first second : Text} {fields rest : List Text}
  {records : List Record}

/-- Every row has its line break: the next character begins a row. -/
def EndsRow (text : Text) : Prop := text = [] ∨ text.getLast? = some '\n'

instance : Decidable (EndsRow text) := by
  unfold EndsRow
  infer_instance

namespace Reader

/-! ## A field behind a part of a row -/

/-- What a reader has kept that has read more of a field: all but the field. -/
structure KeepsRow (st : State) (r : Reader) : Prop where
  records : r.state.records = st.records
  rowLine : r.state.rowLine = st.rowLine
  fields : r.state.fields = st.fields
  quote : r.state.quote = none
  held : r.held ≠ .carriageReturn

theorem keepsRow_writeField_bare (h : st.quote = none) (field : Text) :
    KeepsRow st (readAll ⟨st, .nothing⟩ (writeField field)) := by
  rw [readAll_writeField h]
  refine ⟨rfl, rfl, rfl, h, ?_⟩
  split <;> simp

theorem writeField_ne_nil (h : field ≠ []) : writeField field ≠ [] := by
  rw [writeField]
  split
  · simp
  · exact h

/-- The first character of a written field is no line break, and a quote only where the field is
quoted. -/
theorem head_writeField (field : Text) : (writeField field).head? ≠ some '\n' ∧
    ((writeField field).head? = some '"' → needsQuotes field = true) := by
  rw [writeField]
  split
  · next h => simp [h]
  · next h =>
    have hplain := needsQuotes_eq_false_iff.mp (by simpa using h)
    constructor
    · exact fun hhead ↦ (hplain _ (List.mem_of_mem_head? hhead)).2.2.1 rfl
    · exact fun hhead ↦ absurd rfl (hplain _ (List.mem_of_mem_head? hhead)).2.1

/-- A field written behind any part of a row outside quoted text is read as more of its last
field. A quote held back and the quote that begins the field are one quote, and the quoted text goes
on. -/
theorem keepsRow_writeField (h : r.state.quote = none) (hfield : field ≠ []) :
    KeepsRow r.state (r.readAll (writeField field)) := by
  obtain ⟨st, held⟩ := r
  have hquote : st.quote = none := h
  obtain ⟨c, s, hwrite⟩ := List.exists_cons_of_ne_nil (writeField_ne_nil hfield)
  obtain ⟨hfeed, hquoted⟩ := head_writeField field
  rw [hwrite, List.head?_cons] at hfeed hquoted
  cases held with
  | nothing => exact keepsRow_writeField_bare hquote field
  | carriageReturn =>
    have hc : c ≠ '\n' := fun heq ↦ hfeed (by rw [heq])
    have hpush : (st.push '\r').quote = none := hquote
    have hread : readAll ⟨st, .carriageReturn⟩ (writeField field) =
        readAll ⟨st.push '\r', .nothing⟩ (writeField field) := by
      rw [hwrite, readAll_cons, readAll_cons, read_behind_carriageReturn hquote hc, read_bare hpush]
    rw [hread]
    have hkeeps := keepsRow_writeField_bare hpush field
    exact ⟨hkeeps.records, hkeeps.rowLine, hkeeps.fields, hkeeps.quote, hkeeps.held⟩
  | quote line =>
    by_cases hc : c = '"'
    · subst hc
      -- the two quotes stand for one, and the rest of the field is in the quoted text
      have hdoubled : read ⟨st, .quote line⟩ '"' =
          ⟨{ st.push '"' with quote := some line }, .nothing⟩ := by
        simp only [read, hquote, if_pos]
      rw [writeField, if_pos (hquoted rfl), List.cons_append, readAll_cons, hdoubled,
        readAll_quoted rfl]
      exact ⟨rfl, rfl, rfl, rfl, by simp⟩
    · have hread : readAll ⟨st, .quote line⟩ (writeField field) =
          readAll ⟨st, .nothing⟩ (writeField field) := by
        rw [hwrite, readAll_cons, readAll_cons, read_behind_quote hquote hc, read_bare hquote]
      rw [hread]
      exact keepsRow_writeField_bare hquote field

/-- A row written behind a part of a row: its first field is more of the field that is there. -/
theorem ends_readAll_writeRecord (h : r.state.quote = none) (hfirst : first ≠ []) (second : Text)
    (rest : List Text) : ∃ field, (r.readAll (writeRecord (first :: second :: rest))).Ends
      (⟨r.state.rowLine, r.state.fields.reverse ++ field :: second :: rest⟩ ::
        r.state.records) := by
  have hkeeps := keepsRow_writeField h hfirst
  generalize hbehind : r.readAll (writeField first) = r' at hkeeps
  have hcomma : r.readAll (writeField first ++ [',']) = ⟨r'.state.endField, .nothing⟩ := by
    rw [readAll_append, hbehind, readAll_cons, readAll_nil, read_comma hkeeps.quote hkeeps.held]
  have hrest : HasRead r'.state.endField (second :: rest) _ :=
    hasRead_writeFields hkeeps.quote rfl (by simp)
  have hwrite : writeRecord (first :: second :: rest) =
      (writeField first ++ [',']) ++ (writeFields (second :: rest) ++ LineBreak.lineFeed.text) := by
    rw [writeRecord_eq, writeFields_cons_cons]
    simp [LineBreak.text]
  have hfields : r'.state.endField.fields.reverse ++ second :: rest =
      r.state.fields.reverse ++ r'.state.field.reverse :: second :: rest := by
    simp [State.endField, hkeeps.fields]
  refine ⟨r'.state.field.reverse, ?_⟩
  rw [hwrite, readAll_append, hcomma, readAll_append, hrest.readAll_lineBreak (.inl rfl), hfields,
    ← hkeeps.rowLine, ← hkeeps.records]
  exact ends_between ..

/-! ## A row behind a text -/

/-- At the end of a text only the field can change. -/
theorem finish_eq (r : Reader) : r.finish =
    { r.state with field := r.finish.field, started := r.finish.started } := by
  obtain ⟨st, held⟩ := r
  cases held <;> rfl

/-- The line breaks are all there, so the row is a row of its own. -/
theorem parse_append_of_endsRow (h : parse text = .ok records) (htext : EndsRow text)
    (hrow : IsRow fields) :
    ∃ line, parse (text ++ writeRecord fields) = .ok (records ++ [⟨line, fields⟩]) := by
  have hends := ends_of_parse h
  obtain ⟨records', line, hbetween⟩ := exists_between_of_getLast? htext hends.quote
  rw [hbetween] at hends
  obtain rfl : records' = records.reverse := hends.records
  have hread : (initial.readAll (text ++ writeRecord fields)).Ends
      (⟨line, fields⟩ :: records.reverse) := by
    rw [readAll_append, hbetween, readAll_writeRecord hrow]
    exact ends_between ..
  exact ⟨line, by rw [parse_of_ends hread, List.reverse_cons, List.reverse_reverse]⟩

/-- The row is read as more of the last row, whose last field and its own first one are one. -/
theorem parse_append_of_not_endsRow (h : parse text = .ok records) (htext : ¬ EndsRow text)
    (hfirst : first ≠ []) (second : Text) (rest : List Text) :
    ∃ before last row, records = before ++ [last] ∧
      parse (text ++ writeRecord (first :: second :: rest)) = .ok (before ++ [⟨last.line, row⟩]) ∧
      row.length = last.fields.length + (second :: rest).length := by
  obtain ⟨hne, hlast⟩ := not_or.mp htext
  have hends := ends_of_parse h
  have hstarted := started_finish_readAll hne hlast
  generalize hr : initial.readAll text = r at hends hstarted
  have hquote : r.state.quote = none := (congrArg State.quote r.finish_eq).symm.trans hends.quote
  have hrecords : records = r.state.records.reverse ++
      [⟨r.state.rowLine, r.state.fields.reverse ++ [r.finish.field.reverse]⟩] := by
    rw [← List.reverse_inj, ← hends.records, State.endRow, if_pos hstarted, r.finish_eq]
    simp
  obtain ⟨field, hread⟩ := ends_readAll_writeRecord hquote hfirst second rest
  rw [← hr, ← readAll_append, hr] at hread
  refine ⟨_, _, r.state.fields.reverse ++ field :: second :: rest, hrecords, ?_, ?_⟩
  · rw [parse_of_ends hread, List.reverse_cons]
  · simp
    omega

end Reader

end LintMend.Csv
