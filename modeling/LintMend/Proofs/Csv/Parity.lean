import LintMend.Proofs.Csv.Behind
import LintMend.Proofs.Csv.Rows
import Mathlib.Data.List.Forall2
import Mathlib.Data.List.Induction

/-!
# Reading by the parity of quotes

A reader is in quoted text exactly while it has read an odd number of quotes, doubled ones and those
in the middle of a field included. So a text is refused exactly if it has an odd number of them, and
otherwise it is read row by row, each as if it stood alone: a blank one is no record, and any other
is one with a field more than it has commas between fields.
-/

namespace LintMend.Csv

variable {s row : Text} {c : Char} {r : Reader} {st st' : State} {found records : List Record}
  {n : Nat}

/-! ## Quotes -/

namespace Reader

theorem quote_readBare (h : st.quote = none) (c : Char) :
    (readBare st c).state.quote = none ↔ c ≠ '"' := by
  rw [readBare]
  split_ifs with hquote hcomma hreturn hfeed
  · simp [hquote]
  · simp [hquote, State.endField, h]
  · simp [hquote, h]
  · have hrow : st.endRow.quote = none := by
      rw [State.endRow]
      split <;> exact h
    simp [hquote, State.nextLine, hrow]
  · simp [hquote, State.push, h]

/-- A quote begins or ends quoted text, and no other character does. -/
theorem quote_read (r : Reader) (c : Char) :
    (r.read c).state.quote = none ↔ (r.state.quote = none ↔ c ≠ '"') := by
  obtain ⟨line, hquote, hread⟩ | ⟨hquote, hread | ⟨line, rfl, hread⟩ | ⟨-, hread⟩⟩ := read_cases r c
  · rw [hread, readQuoted]
    split
    · next hc => simp [hquote, hc]
    · next hc => simp [hquote, hc, State.hold, State.push]
  · rw [hread, quote_readBare hquote]
    simp [hquote]
  · simp [hread, hquote]
  · have hpush : (r.state.push '\r').quote = none := hquote
    rw [hread, quote_readBare hpush]
    simp [hquote]

theorem quote_readAll (r : Reader) (s : Text) :
    (r.readAll s).state.quote = none ↔ (r.state.quote = none ↔ Even (s.count '"')) := by
  induction s generalizing r with
  | nil => simp
  | cons c s ih =>
    rw [readAll_cons, ih, quote_read, List.count_cons]
    by_cases hc : c = '"'
    · simp only [hc, beq_self_eq_true, if_true, Nat.even_add_one, ne_eq, not_true, iff_false]
      tauto
    · simp [hc]

theorem quote_initial_readAll (s : Text) :
    (initial.readAll s).state.quote = none ↔ Even (s.count '"') := by
  rw [quote_readAll]
  exact iff_true_left rfl

theorem quote_finish (r : Reader) : r.finish.quote = r.state.quote := by
  rw [r.finish_eq]

/-! ## Characters of a row -/

/-- What a character of a row does that does not end it. -/
structure Extends (st st' : State) (commas : Nat) : Prop where
  records : st'.records = st.records
  rowLine : st'.rowLine = st.rowLine
  fields : st'.fields.length = st.fields.length + commas
  started : st.started = true → st'.started = true

theorem extends_readBare (st : State) (hc : c ≠ '\n') :
    Extends st (readBare st c).state (if c = ',' then 1 else 0) := by
  rw [readBare]
  split_ifs with hquote hcomma hcomma hreturn
  · exact absurd (hquote.symm.trans hcomma) (by decide)
  · exact ⟨rfl, rfl, rfl, fun _ ↦ rfl⟩
  · exact ⟨rfl, rfl, rfl, fun _ ↦ rfl⟩
  · exact ⟨rfl, rfl, rfl, id⟩
  · exact ⟨rfl, rfl, rfl, fun _ ↦ rfl⟩

theorem started_readBare (st : State) (hfeed : c ≠ '\n') (hreturn : c ≠ '\r') :
    (readBare st c).state.started = true := by
  rw [readBare, if_neg hreturn, if_neg hfeed]
  split_ifs <;> rfl

theorem extends_read (h : c = '\n' → r.state.quote ≠ none) :
    Extends r.state (r.read c).state (if c = ',' ∧ r.state.quote = none then 1 else 0) := by
  obtain ⟨line, hquote, hread⟩ | ⟨hquote, hread | ⟨line, rfl, hread⟩ | ⟨hc, hread⟩⟩ :=
    read_cases r c
  · have hcommas : ¬ (c = ',' ∧ r.state.quote = none) := by simp [hquote]
    rw [hread, readQuoted, if_neg hcommas]
    split
    · exact ⟨rfl, rfl, rfl, id⟩
    · exact ⟨rfl, rfl, rfl, fun _ ↦ rfl⟩
  · have hc : c ≠ '\n' := fun hc ↦ h hc hquote
    simpa only [hread, hquote, and_true] using extends_readBare r.state hc
  · rw [hread]
    exact ⟨rfl, rfl, rfl, fun _ ↦ rfl⟩
  · have hbare := extends_readBare (r.state.push '\r') hc
    simp only [hread, hquote, and_true]
    exact ⟨hbare.records, hbare.rowLine, hbare.fields, fun _ ↦ hbare.started rfl⟩

/-- What is held at the end of a part of a row that nothing stands before. -/
structure HoldsRow (row : Text) (st : State) : Prop where
  records : st.records = []
  rowLine : st.rowLine = 1
  fields : st.fields.length = bareCommas row
  started : st.started = true ∨ row = [] ∨ row = ['\r']

theorem holdsRow_readAll (h : IsPartOfRow row) : HoldsRow row (initial.readAll row).state := by
  induction row using List.reverseRecOn with
  | nil => exact ⟨rfl, rfl, rfl, .inr (.inl rfl)⟩
  | append_singleton row c ih =>
    obtain ⟨hrow, hc⟩ := isPartOfRow_concat_iff.mp h
    have hread := ih hrow
    have hstep : Extends _ ((initial.readAll row).read c).state _ :=
      extends_read fun hfeed hnone ↦ hc ⟨hfeed, (quote_initial_readAll row).mp hnone⟩
    rw [readAll_append, readAll_cons, readAll_nil]
    refine ⟨hstep.records.trans hread.records, hstep.rowLine.trans hread.rowLine, ?_, ?_⟩
    · rw [hstep.fields, hread.fields, bareCommas_concat]
      simp only [quote_initial_readAll]
    · rcases hread.started with hstarted | rfl | rfl
      · exact .inl (hstep.started hstarted)
      · -- the first character begins the row, unless it is a carriage return, which is held back
        have hfeed : c ≠ '\n' := fun hfeed ↦ hc ⟨hfeed, by simp⟩
        by_cases hreturn : c = '\r'
        · exact .inr (.inr (by rw [hreturn, List.nil_append]))
        · exact .inl (started_readBare .initial hfeed hreturn)
      · have hfeed : c ≠ '\n' := fun hfeed ↦ hc ⟨hfeed, by simp⟩
        have hbehind : (initial.readAll ['\r']).read c = readBare (State.initial.push '\r') c :=
          read_behind_carriageReturn rfl hfeed
        rw [hbehind]
        exact .inl ((extends_readBare _ hfeed).started rfl)

theorem started_finish (h : r.state.started = true) : r.finish.started = true := by
  obtain ⟨st, held⟩ := r
  cases held with
  | nothing => exact h
  | quote line => exact h
  | carriageReturn => rfl

theorem HoldsRow.finish (h : HoldsRow row r.state) : HoldsRow row r.finish := by
  rw [finish_eq]
  exact ⟨h.records, h.rowLine, h.fields, h.started.imp_left started_finish⟩

theorem HoldsRow.records_endRow (h : HoldsRow row st) (hstarted : st.started = true) :
    ∃ fields, st.endRow.records = [⟨1, fields⟩] ∧ fields.length = bareCommas row + 1 := by
  refine ⟨(st.field.reverse :: st.fields).reverse, ?_, ?_⟩
  · rw [State.endRow, if_pos hstarted, h.records, h.rowLine]
  · rw [List.length_reverse, List.length_cons, h.fields]

end Reader

/-! ## Rows that stand alone -/

/-- What a row gives that is read by itself. -/
structure Gives (row : Text) (found : List Record) : Prop where
  parse : parse row = .ok found
  blank : IsBlankRow row → found = []
  fields : ¬ IsBlankRow row → ∃ fields, found = [⟨1, fields⟩] ∧ fields.length = bareCommas row + 1

namespace Reader

/-- Behind its line feed a row has been read. -/
theorem exists_readAll_row (h : IsPartOfRow row) (heven : Even (row.count '"')) :
    ∃ found, Gives (row ++ ['\n']) found.reverse ∧ initial.readAll (row ++ ['\n']) =
      ⟨.between found (1 + (row ++ ['\n']).count '\n'), .nothing⟩ := by
  have hrow := holdsRow_readAll h
  have htidy : (initial.readAll row).state.Tidy := tidy_readAll (fun _ ↦ rfl) row
  have hquote := (quote_initial_readAll row).mpr heven
  have hline : (initial.readAll row).state.line + 1 = 1 + (row ++ ['\n']).count '\n' := by
    rw [line_readAll, List.count_append]
    rfl
  have hread : initial.readAll (row ++ ['\n']) =
      ⟨.between (initial.readAll row).state.endRow.records (1 + (row ++ ['\n']).count '\n'),
        .nothing⟩ := by
    rw [readAll_append, readAll_cons, readAll_nil, read_lineFeed hquote,
      htidy.nextLine_endRow hquote, hline]
  refine ⟨_, ⟨?_, ?_, ?_⟩, hread⟩
  · apply parse_of_ends
    rw [hread]
    exact ends_between ..
  · intro hblank
    rcases isBlankRow_concat_iff.mp hblank with rfl | rfl <;> rfl
  · intro hblank
    have hne : ¬ (row = [] ∨ row = ['\r']) := fun h ↦ hblank (isBlankRow_concat_iff.mpr h)
    obtain ⟨fields, hfields, hlength⟩ := hrow.records_endRow (hrow.started.resolve_right hne)
    refine ⟨fields, by rw [hfields, List.reverse_singleton], ?_⟩
    rw [hlength, bareCommas_concat, if_neg (by simp), Nat.add_zero]

/-- The last row ends with the text. -/
theorem exists_ends_readAll_row (h : IsPartOfRow row) (heven : Even (row.count '"')) :
    ∃ found, Gives row found.reverse ∧ (initial.readAll row).Ends found := by
  have hrow := (holdsRow_readAll h).finish
  have hquote : (initial.readAll row).finish.quote = none := by
    rw [quote_finish]
    exact (quote_initial_readAll row).mpr heven
  have hends : (initial.readAll row).Ends (initial.readAll row).finish.endRow.records :=
    ⟨hquote, rfl⟩
  refine ⟨_, ⟨parse_of_ends hends, ?_, ?_⟩, hends⟩
  · rintro (rfl | rfl | rfl)
    · rfl
    · exact absurd (by simp) (h [] [] rfl)
    · exact absurd (by simp) (h ['\r'] [] rfl)
  · intro hblank
    have hstarted : (initial.readAll row).finish.started = true := by
      rcases hrow.started with hstarted | rfl | rfl
      · exact hstarted
      · exact absurd (.inl rfl) hblank
      · rfl
    obtain ⟨fields, hfields, hlength⟩ := hrow.records_endRow hstarted
    exact ⟨fields, by rw [hfields, List.reverse_singleton], hlength⟩

end Reader

/-! ## Rows behind others -/

def Record.down (n : Nat) (record : Record) : Record := { record with line := record.line + n }

def Held.down (n : Nat) : Held → Held
  | .quote line => .quote (line + n)
  | held => held

/-- The state behind other rows, which take up some lines. -/
def State.behind (st : State) (records : List Record) (n : Nat) : State :=
  { st with
    records := st.records.map (Record.down n) ++ records
    line := st.line + n
    quote := st.quote.map (· + n)
    rowLine := st.rowLine + n }

theorem State.behind_endRow (st : State) (records : List Record) (n : Nat) :
    (st.behind records n).endRow = st.endRow.behind records n := by
  obtain ⟨_, _, _, started, _, _, _⟩ := st
  cases started <;> rfl

namespace Reader

def behind (r : Reader) (records : List Record) (n : Nat) : Reader :=
  ⟨r.state.behind records n, r.held.down n⟩

theorem readBare_behind (st : State) (c : Char) (records : List Record) (n : Nat) :
    readBare (st.behind records n) c = (readBare st c).behind records n := by
  rw [readBare, readBare]
  split_ifs
  · rfl
  · rfl
  · rfl
  · rw [State.behind_endRow]
    simp only [behind, State.behind, State.nextLine, Held.down, Reader.mk.injEq, State.mk.injEq,
      true_and, and_true]
    omega
  · rfl

theorem read_behind (r : Reader) (c : Char) (records : List Record) (n : Nat) :
    (r.behind records n).read c = (r.read c).behind records n := by
  obtain ⟨st, held⟩ := r
  cases hquote : st.quote with
  | some line =>
    have hbehind : (behind ⟨st, held⟩ records n).state.quote = some (line + n) := by
      simp [behind, State.behind, hquote]
    rw [read_of_quote hbehind, read_of_quote hquote, readQuoted, readQuoted]
    split_ifs
    · rfl
    · simp only [behind, State.behind, State.hold, State.push, Held.down, Reader.mk.injEq,
        State.mk.injEq, true_and, and_true]
      omega
  | none =>
    have hbehind : (st.behind records n).quote = none := by simp [State.behind, hquote]
    cases held with
    | nothing =>
      rw [read_bare hquote, ← readBare_behind]
      exact read_bare hbehind c
    | quote line =>
      by_cases hc : c = '"'
      · simp only [behind, read, hquote, hbehind, Held.down, if_pos hc]
        rfl
      · rw [read_behind_quote hquote hc, ← readBare_behind]
        exact read_behind_quote hbehind hc
    | carriageReturn =>
      by_cases hc : c = '\n'
      · simp only [behind, read, hquote, hbehind, Held.down, if_pos hc]
        exact readBare_behind st c records n
      · rw [read_behind_carriageReturn hquote hc, ← readBare_behind]
        exact read_behind_carriageReturn hbehind hc

theorem readAll_behind (r : Reader) (s : Text) (records : List Record) (n : Nat) :
    (r.behind records n).readAll s = (r.readAll s).behind records n := by
  induction s generalizing r with
  | nil => rfl
  | cons c s ih => rw [readAll_cons, read_behind, ih, readAll_cons]

theorem finish_behind (r : Reader) (records : List Record) (n : Nat) :
    (r.behind records n).finish = r.finish.behind records n := by
  obtain ⟨st, held⟩ := r
  cases held <;> rfl

theorem Ends.behind (h : r.Ends found) (records : List Record) (n : Nat) :
    (r.behind records n).Ends (found.map (Record.down n) ++ records) := by
  constructor
  · simp [finish_behind, State.behind, h.quote]
  · rw [finish_behind, State.behind_endRow, State.behind, h.records]

/-- Between two rows nothing is known of those before but how many lines they take up. -/
theorem behind_between (found records : List Record) (line n : Nat) :
    behind ⟨.between found (1 + line), .nothing⟩ records n =
      initial.behind (found.map (Record.down n) ++ records) (n + line) := by
  simp only [behind, initial, State.behind, State.between, State.initial, Held.down,
    Option.map_none, List.map_nil, List.nil_append, Reader.mk.injEq, State.mk.injEq, true_and,
    and_true]
  omega

end Reader

/-- A record that is read from a row, wherever the row stands. -/
structure IsRecordOf (row : Text) (record : Record) : Prop where
  parse : parse row = .ok [⟨1, record.fields⟩]
  fields : record.fields.length = bareCommas row + 1

theorem Gives.forall₂ (h : Gives row found) (n : Nat) :
    List.Forall₂ IsRecordOf ([row].filter (¬ IsBlankRow ·)) (found.map (Record.down n)) := by
  by_cases hblank : IsBlankRow row
  · rw [h.blank hblank, List.filter_cons_of_neg (by simpa using hblank)]
    exact .nil
  · obtain ⟨fields, rfl, hfields⟩ := h.fields hblank
    rw [List.filter_cons_of_pos (by simpa using hblank)]
    exact .cons ⟨h.parse, hfields⟩ .nil

theorem exists_ends_readAll (h : IsPartOfRow row) (heven : Even ((row ++ s).count '"'))
    (records : List Record) (n : Nat) : ∃ found,
      ((Reader.initial.behind records n).readAll (row ++ s)).Ends (found.reverse ++ records) ∧
      List.Forall₂ IsRecordOf ((rowsFrom row s).filter (¬ IsBlankRow ·)) found := by
  induction s generalizing row records n with
  | nil =>
    rw [List.append_nil] at heven ⊢
    obtain ⟨found, hgives, hends⟩ := Reader.exists_ends_readAll_row h heven
    refine ⟨(found.map (Record.down n)).reverse, ?_, ?_⟩
    · rw [Reader.readAll_behind, List.reverse_reverse]
      exact hends.behind records n
    · rw [← List.map_reverse]
      exact hgives.forall₂ n
  | cons c s ih =>
    have hsplit : row ++ c :: s = (row ++ [c]) ++ s := by simp
    rw [rowsFrom]
    split
    · next hc =>
      obtain ⟨rfl, hclosed⟩ := hc
      obtain ⟨found, hgives, hread⟩ := Reader.exists_readAll_row h hclosed
      have hrest : Even (([] ++ s).count '"') := (even_count_append_lineFeed hclosed s).mp heven
      obtain ⟨later, hends, hlater⟩ := ih isPartOfRow_nil hrest
        (found.map (Record.down n) ++ records) (n + (row ++ ['\n']).count '\n')
      refine ⟨(found.map (Record.down n)).reverse ++ later, ?_, ?_⟩
      · rw [hsplit, Reader.readAll_append, Reader.readAll_behind, hread, Reader.behind_between]
        simpa using hends
      · rw [← List.singleton_append, List.filter_append, ← List.map_reverse]
        exact List.rel_append (hgives.forall₂ n) hlater
    · next hc =>
      have hrow : IsPartOfRow (row ++ [c]) := isPartOfRow_concat_iff.mpr ⟨h, hc⟩
      rw [hsplit] at heven ⊢
      exact ih hrow heven records n

/-- A text is refused exactly if it has an odd number of quotes. Its rows are cut exactly behind the
line feeds with an even number of quotes before them, and where it is accepted its records are those
of its rows one by one, without the blank ones: each is what its row gives by itself, and has one
field more than the row has commas with an even number of quotes before them. -/
theorem parse_cuts_by_parity (s : Text) :
    ((∃ e, parse s = .error e) ↔ Odd (s.count '"')) ∧
    (rows s).flatten = s ∧
    (∀ before after, s = before ++ after → (CutBehind (rows s) before ↔
      ∃ init, before = init ++ ['\n'] ∧ Even (init.count '"'))) ∧
    (Even (s.count '"') → ∃ records, parse s = .ok records ∧
      List.Forall₂ IsRecordOf ((rows s).filter (¬ IsBlankRow ·)) records) := by
  refine ⟨?_, flatten_rowsFrom [] s, fun before after hs ↦
    cutBehind_rowsFrom_iff isPartOfRow_nil hs, fun heven ↦ ?_⟩
  · rw [← Nat.not_even_iff_odd, ← Reader.quote_initial_readAll, ← Reader.quote_finish,
      Reader.parse_eq]
    cases (Reader.initial.readAll s).finish.quote <;> simp
  · obtain ⟨found, hends, hfound⟩ := exists_ends_readAll isPartOfRow_nil heven [] 0
    have hinitial : Reader.initial.behind [] 0 = Reader.initial := rfl
    rw [hinitial, List.append_nil, List.nil_append] at hends
    exact ⟨found, by rw [Reader.parse_of_ends hends, List.reverse_reverse], hfound⟩

/-- Quotes in the middle of a field, doubled and not, with a comma and a line feed in the quoted
text; then a blank row, and a last one that ends with a carriage return. -/
theorem parse_cuts_by_parity_of_mixed_quotes :
    let first : Text := "a\"b,\n\"\"c\"d,e\r\n".toList
    let s := first ++ "\r\n,f\r".toList
    Even (s.count '"') ∧ rows s = [first, "\r\n".toList, ",f\r".toList] ∧
    CutBehind (rows s) first ∧ ¬ CutBehind (rows s) "a\"b,\n".toList ∧
    (∃ records, parse s = .ok records ∧
      List.Forall₂ IsRecordOf [first, ",f\r".toList] records) ∧
    ∃ e, parse (first ++ "\"".toList) = .error e := by
  intro first s
  have heven : Even (s.count '"') := by decide
  have hrows : rows s = [first, "\r\n".toList, ",f\r".toList] := by decide
  obtain ⟨-, -, hcuts, hrecords⟩ := parse_cuts_by_parity s
  obtain ⟨records, hparse, hrecords⟩ := hrecords heven
  have hodd : Odd ((first ++ "\"".toList).count '"') := by decide
  refine ⟨heven, hrows, ?_, ?_, ⟨records, hparse, ?_⟩,
    (parse_cuts_by_parity (first ++ "\"".toList)).1.mpr hodd⟩
  · exact (hcuts first "\r\n,f\r".toList rfl).mpr ⟨first.dropLast, by decide, by decide⟩
  · rw [hcuts "a\"b,\n".toList "\"\"c\"d,e\r\n\r\n,f\r".toList (by decide)]
    rintro ⟨init, hinit, heven⟩
    have hinit : init = "a\"b,".toList := by
      have hlast := congrArg List.dropLast hinit
      rw [List.dropLast_concat] at hlast
      exact hlast.symm.trans (by decide)
    rw [hinit] at heven
    exact absurd heven (by decide)
  · have hkept : (rows s).filter (¬ IsBlankRow ·) = [first, ",f\r".toList] := by decide
    rwa [hkept] at hrecords

end LintMend.Csv
