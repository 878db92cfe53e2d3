import LintMend.Csv
import Mathlib.Data.List.Basic

/-!
# Reading one character at a time

A quote that ends quoted text and a carriage return are understood by the character behind them. A
reader that holds them back until that character comes needs to look at one character only, so what
it makes of two texts in a row is what it makes of the second where the first one left it.
-/

namespace LintMend.Csv

namespace State

/-- A character that is part of the field, be it a line feed. -/
def hold (st : State) (c : Char) : State :=
  { st.push c with line := st.line + if c = '\n' then 1 else 0 }

theorem hold_of_ne {c : Char} (h : c ≠ '\n') (st : State) : st.hold c = st.push c := by
  simp [hold, h, push]

@[simp] theorem line_endRow (st : State) : st.endRow.line = st.line := by
  rw [endRow]
  split <;> rfl

/-- The state between two rows. -/
def between (records : List Record) (line : Nat) : State :=
  ⟨records, [], [], false, none, line, line⟩

/-- What holds of every state: a row that has had no character has left nothing behind. -/
def Tidy (st : State) : Prop := st.started = false → st = .between st.records st.line

theorem tidy_of_started {st : State} (h : st.started = true) : st.Tidy := by
  intro hfalse
  simp [h] at hfalse

/-- Behind a line feed a new row begins. -/
theorem Tidy.nextLine_endRow {st : State} (h : st.Tidy) (hquote : st.quote = none) :
    st.endRow.nextLine = .between st.endRow.records (st.line + 1) := by
  cases hstarted : st.started with
  | true => simp [endRow, nextLine, between, hstarted, hquote]
  | false =>
    rw [h hstarted]
    rfl

end State

/-- What the last character has left open. -/
inductive Held where
  | nothing
  /-- A quote has ended the quoted text that began on a line, unless another quote follows. -/
  | quote (line : Nat)
  /-- A carriage return is part of the field, unless a line feed follows. -/
  | carriageReturn
deriving DecidableEq, Repr

structure Reader where
  state : State
  held : Held
deriving DecidableEq, Repr

namespace Reader

def initial : Reader := ⟨.initial, .nothing⟩

/-- Reads a character outside quoted text, with nothing held back. -/
def readBare (st : State) (c : Char) : Reader :=
  if c = '"' then ⟨{ st with quote := some st.line, started := true }, .nothing⟩
  else if c = ',' then ⟨st.endField, .nothing⟩
  else if c = '\r' then ⟨st, .carriageReturn⟩
  else if c = '\n' then ⟨st.endRow.nextLine, .nothing⟩
  else ⟨st.push c, .nothing⟩

/-- Reads a character in the quoted text that began on a line. -/
def readQuoted (st : State) (line : Nat) (c : Char) : Reader :=
  if c = '"' then ⟨{ st with quote := none }, .quote line⟩ else ⟨st.hold c, .nothing⟩

def read (r : Reader) (c : Char) : Reader :=
  match r.state.quote with
  | some line => readQuoted r.state line c
  | none =>
    match r.held with
    | .nothing => readBare r.state c
    | .quote line =>
      if c = '"' then ⟨{ r.state.push c with quote := some line }, .nothing⟩
      else readBare r.state c
    | .carriageReturn =>
      if c = '\n' then readBare r.state c else readBare (r.state.push '\r') c

def readAll (r : Reader) (s : Text) : Reader := s.foldl read r

/-- The state at the end of the text, where nothing more can follow. -/
def finish (r : Reader) : State :=
  match r.held with
  | .carriageReturn => r.state.push '\r'
  | _ => r.state

variable {st : State} {r : Reader} {s t : Text} {c : Char} {line : Nat}

@[simp] theorem readAll_nil (r : Reader) : r.readAll [] = r := rfl

@[simp] theorem readAll_cons (r : Reader) (c : Char) (s : Text) :
    r.readAll (c :: s) = (r.read c).readAll s := rfl

theorem readAll_append (r : Reader) (s t : Text) : r.readAll (s ++ t) = (r.readAll s).readAll t :=
  List.foldl_append

theorem read_of_quote (h : r.state.quote = some line) (c : Char) :
    r.read c = readQuoted r.state line c := by
  rw [read, h]

theorem read_bare (h : st.quote = none) (c : Char) : read ⟨st, .nothing⟩ c = readBare st c := by
  simp only [read, h]

theorem read_behind_quote (h : st.quote = none) (hc : c ≠ '"') :
    read ⟨st, .quote line⟩ c = readBare st c := by
  simp only [read, h, if_neg hc]

theorem read_behind_carriageReturn (h : st.quote = none) (hc : c ≠ '\n') :
    read ⟨st, .carriageReturn⟩ c = readBare (st.push '\r') c := by
  simp only [read, h, if_neg hc]

/-- Two quotes in quoted text are one that is part of the field. -/
theorem read_read_quote (h : st.quote = some line) :
    (read ⟨st, .nothing⟩ '"').read '"' = ⟨st.push '"', .nothing⟩ := by
  obtain ⟨records, fields, field, started, quote, line', rowLine⟩ := st
  obtain rfl : quote = some line := h
  rfl

/-- A line feed ends the row, with a carriage return before it or without one. -/
theorem read_lineFeed (h : r.state.quote = none) :
    r.read '\n' = ⟨r.state.endRow.nextLine, .nothing⟩ := by
  obtain ⟨st, held⟩ := r
  have hquote : st.quote = none := h
  cases held <;> simp [read, readBare, hquote]

/-- Any character but a quote settles that the quote held back has ended the quoted text. -/
theorem read_of_ne (h : r.state.quote = none) (hheld : r.held ≠ .carriageReturn) (hc : c ≠ '"') :
    r.read c = readBare r.state c := by
  obtain ⟨st, held⟩ := r
  have hquote : st.quote = none := h
  cases held with
  | nothing => exact read_bare hquote c
  | quote line => exact read_behind_quote hquote hc
  | carriageReturn => exact absurd rfl hheld

theorem read_comma (h : r.state.quote = none) (hheld : r.held ≠ .carriageReturn) :
    r.read ',' = ⟨r.state.endField, .nothing⟩ :=
  read_of_ne h hheld (by decide)

theorem read_carriageReturn (h : r.state.quote = none) (hheld : r.held ≠ .carriageReturn) :
    r.read '\r' = ⟨r.state, .carriageReturn⟩ :=
  read_of_ne h hheld (by decide)

/-- All that a character can do. -/
theorem read_cases (r : Reader) (c : Char) :
    (∃ line, r.state.quote = some line ∧ r.read c = readQuoted r.state line c) ∨
    r.state.quote = none ∧ (r.read c = readBare r.state c ∨
      (∃ line, c = '"' ∧ r.read c = ⟨{ r.state.push c with quote := some line }, .nothing⟩) ∨
      c ≠ '\n' ∧ r.read c = readBare (r.state.push '\r') c) := by
  obtain ⟨st, held⟩ := r
  cases hquote : st.quote with
  | some line => exact .inl ⟨line, rfl, read_of_quote hquote c⟩
  | none =>
    refine .inr ⟨rfl, ?_⟩
    cases held with
    | nothing => exact .inl (read_bare hquote c)
    | quote line =>
      by_cases hc : c = '"'
      · exact .inr (.inl ⟨line, hc, by simp only [read, hquote, if_pos hc]⟩)
      · exact .inl (read_behind_quote hquote hc)
    | carriageReturn =>
      by_cases hc : c = '\n'
      · exact .inl (by simp only [read, hquote, if_pos hc])
      · exact .inr (.inr ⟨hc, read_behind_carriageReturn hquote hc⟩)

theorem finish_of_ne (h : r.held ≠ .carriageReturn) : r.finish = r.state := by
  obtain ⟨st, held⟩ := r
  cases held with
  | nothing => rfl
  | quote line => rfl
  | carriageReturn => exact absurd rfl h

/-! ## The scan reads as the reader does -/

/-- Where no quote follows, the quoted text has ended. -/
theorem finish_readAll_quote (h : st.quote = none) (hs : s.head? ≠ some '"') :
    (readAll ⟨st, .quote line⟩ s).finish = (readAll ⟨st, .nothing⟩ s).finish := by
  cases s with
  | nil => rfl
  | cons c s =>
    have hc : c ≠ '"' := by simpa using hs
    rw [readAll_cons, readAll_cons, read_behind_quote h hc, read_bare h]

/-- Where no line feed follows, the carriage return is part of the field. -/
theorem finish_readAll_carriageReturn (h : st.quote = none) (hs : s.head? ≠ some '\n') :
    (readAll ⟨st, .carriageReturn⟩ s).finish = (readAll ⟨st.push '\r', .nothing⟩ s).finish := by
  cases s with
  | nil => rfl
  | cons c s =>
    have hc : c ≠ '\n' := by simpa using hs
    have hpush : (st.push '\r').quote = none := h
    rw [readAll_cons, readAll_cons, read_behind_carriageReturn h hc, read_bare hpush]

theorem scan_eq (st : State) (s : Text) : scan st s = (readAll ⟨st, .nothing⟩ s).finish := by
  fun_induction scan st s with
  | case1 st => rfl
  | case2 st line hquote s ih => rw [ih, readAll_cons, readAll_cons, read_read_quote hquote]
  | case3 st line hquote s hs ih =>
    have hhead : s.head? ≠ some '"' := by
      intro h
      obtain ⟨s', rfl⟩ := List.head?_eq_some_iff.mp h
      exact hs s' rfl
    rw [ih, readAll_cons, read_of_quote hquote, readQuoted, if_pos rfl]
    exact (finish_readAll_quote rfl hhead).symm
  | case4 st s line hquote hc ih => rw [ih, readAll_cons, read_of_quote hquote]; rfl
  | case5 st c s line hquote hc hc' ih =>
    rw [ih, readAll_cons, read_of_quote hquote, readQuoted, if_neg hc, State.hold_of_ne hc']
  | case6 st s hquote ih => rw [ih, readAll_cons, read_bare hquote]; rfl
  | case7 st s hquote hc ih => rw [ih, readAll_cons, read_bare hquote]; rfl
  | case8 st c s hquote hc hc' hbreak ih =>
    -- the carriage return is dropped, for the line feed behind it ends the row
    obtain ⟨rfl, hhead⟩ := hbreak
    obtain ⟨s, rfl⟩ := List.head?_eq_some_iff.mp hhead
    rw [ih, readAll_cons, readAll_cons, readAll_cons, read_bare hquote '\r', read_lineFeed hquote]
    exact congrArg (fun r ↦ (readAll r s).finish) (read_lineFeed hquote).symm
  | case9 st s hquote hc hc' hbreak ih => rw [ih, readAll_cons, read_bare hquote]; rfl
  | case10 st c s hquote hc hc' hbreak hfeed ih =>
    rw [ih, readAll_cons, read_bare hquote, readBare, if_neg hc, if_neg hc']
    by_cases hreturn : c = '\r'
    · subst hreturn
      have hhead : s.head? ≠ some '\n' := fun h ↦ hbreak ⟨rfl, h⟩
      rw [if_pos rfl, finish_readAll_carriageReturn hquote hhead]
    · rw [if_neg hreturn, if_neg hfeed]

theorem parse_eq (s : Text) : parse s =
    match (initial.readAll s).finish.quote with
    | some line => .error ⟨line⟩
    | none => .ok (initial.readAll s).finish.endRow.records.reverse := by
  rw [parse, scan_eq]
  rfl

/-- What a text leads to that has no quoted text without an end. -/
structure Ends (r : Reader) (records : List Record) : Prop where
  quote : r.finish.quote = none
  records : r.finish.endRow.records = records

theorem parse_of_ends {records : List Record} (h : (initial.readAll s).Ends records) :
    parse s = .ok records.reverse := by
  rw [parse_eq, h.quote, ← h.records]

theorem ends_of_parse {records : List Record} (h : parse s = .ok records) :
    (initial.readAll s).Ends records.reverse := by
  rw [parse_eq] at h
  cases hquote : (initial.readAll s).finish.quote with
  | some line => simp [hquote] at h
  | none =>
    rw [hquote] at h
    exact ⟨hquote, by rw [← Except.ok.inj h, List.reverse_reverse]⟩

theorem ends_between (records : List Record) (line : Nat) :
    Ends ⟨.between records line, .nothing⟩ records := ⟨rfl, rfl⟩

/-! ## Lines and rows -/

theorem line_readBare (st : State) (c : Char) :
    (readBare st c).state.line = st.line + if c = '\n' then 1 else 0 := by
  by_cases hfeed : c = '\n'
  · subst hfeed
    exact congrArg (· + 1) st.line_endRow
  · simp only [readBare, if_neg hfeed]
    split_ifs <;> rfl

/-- The lines are counted. -/
theorem line_read (r : Reader) (c : Char) :
    (r.read c).state.line = r.state.line + if c = '\n' then 1 else 0 := by
  obtain ⟨line, -, hread⟩ | ⟨-, hread | ⟨line, rfl, hread⟩ | ⟨-, hread⟩⟩ := read_cases r c
  · rw [hread, readQuoted]
    split
    · next hc => simp [hc]
    · rfl
  · rw [hread, line_readBare]
  · rw [hread]
    rfl
  · rw [hread, line_readBare]
    rfl

theorem line_readAll (r : Reader) (s : Text) :
    (r.readAll s).state.line = r.state.line + s.count '\n' := by
  induction s generalizing r with
  | nil => rfl
  | cons c s ih =>
    rw [readAll_cons, ih, line_read, List.count_cons]
    simp only [beq_iff_eq]
    omega

/-- In quoted text the row has had a quote. -/
theorem started_of_quote (h : st.Tidy) (hquote : st.quote = some line) : st.started = true := by
  by_contra hnot
  have hbetween : st = .between st.records st.line := h (by simpa using hnot)
  rw [hbetween] at hquote
  simp [State.between] at hquote

theorem tidy_readBare (h : st.Tidy) (hquote : st.quote = none) (c : Char) :
    (readBare st c).state.Tidy := by
  rw [readBare]
  split_ifs
  · exact State.tidy_of_started rfl
  · exact State.tidy_of_started rfl
  · exact h
  · rw [h.nextLine_endRow hquote]
    exact fun _ ↦ rfl
  · exact State.tidy_of_started rfl

theorem tidy_read (h : r.state.Tidy) (c : Char) : (r.read c).state.Tidy := by
  obtain ⟨line, hquote, hread⟩ | ⟨hquote, hread | ⟨line, -, hread⟩ | ⟨-, hread⟩⟩ := read_cases r c
  · have hstarted : r.state.started = true := started_of_quote h hquote
    rw [hread, readQuoted]
    split
    · exact State.tidy_of_started hstarted
    · exact State.tidy_of_started rfl
  · rw [hread]
    exact tidy_readBare h hquote c
  · rw [hread]
    exact State.tidy_of_started rfl
  · have hpush : (r.state.push '\r').Tidy := State.tidy_of_started rfl
    rw [hread]
    exact tidy_readBare hpush hquote c

theorem tidy_readAll (h : r.state.Tidy) (s : Text) : (r.readAll s).state.Tidy := by
  induction s generalizing r with
  | nil => exact h
  | cons c s ih => exact ih (tidy_read h c)

/-- Behind any character but a line feed a row is not at its end. -/
theorem started_finish_read (h : r.state.Tidy) (hc : c ≠ '\n') :
    (r.read c).finish.started = true := by
  have hbare (st : State) : (readBare st c).finish.started = true := by
    rw [readBare]
    split_ifs <;> rfl
  obtain ⟨line, hquote, hread⟩ | ⟨-, hread | ⟨line, -, hread⟩ | ⟨-, hread⟩⟩ := read_cases r c
  · have hstarted : r.state.started = true := started_of_quote h hquote
    rw [hread, readQuoted]
    split
    · exact hstarted
    · rfl
  · rw [hread, hbare]
  · rw [hread]
    rfl
  · rw [hread, hbare]

/-! ## Ends of texts -/

/-- Behind a text that ends with a line feed a new row begins. -/
theorem exists_between_of_getLast? (h : s = [] ∨ s.getLast? = some '\n')
    (hquote : (initial.readAll s).finish.quote = none) :
    ∃ records line, initial.readAll s = ⟨.between records line, .nothing⟩ := by
  rcases h with rfl | h
  · exact ⟨[], 1, rfl⟩
  · obtain ⟨t, rfl⟩ := List.getLast?_eq_some_iff.mp h
    rw [readAll_append, readAll_cons, readAll_nil] at hquote ⊢
    have htidy : (initial.readAll t).state.Tidy := tidy_readAll (fun _ ↦ rfl) t
    cases hopen : (initial.readAll t).state.quote with
    | some line =>
      rw [read_of_quote hopen] at hquote
      simp [readQuoted, finish, State.hold, State.push, hopen] at hquote
    | none => exact ⟨_, _, by rw [read_lineFeed hopen, htidy.nextLine_endRow hopen]⟩

/-- A text that ends with anything but a line feed ends in a row. -/
theorem started_finish_readAll (h : s ≠ []) (hlast : s.getLast? ≠ some '\n') :
    (initial.readAll s).finish.started = true := by
  obtain ⟨t, c, rfl⟩ := (List.eq_nil_or_concat s).resolve_left h
  have hc : c ≠ '\n' := by simpa using hlast
  rw [List.concat_eq_append, readAll_append, readAll_cons, readAll_nil]
  exact started_finish_read (tidy_readAll (fun _ ↦ rfl) t) hc

end Reader

end LintMend.Csv
