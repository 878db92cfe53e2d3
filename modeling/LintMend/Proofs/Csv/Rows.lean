import LintMend.Csv
import Mathlib.Algebra.Ring.Parity
import Mathlib.Data.List.Basic

/-!
# Rows by the parity of quotes

Whether a character stands in quoted text can be told without reading the text: the number of quotes
before it is odd. The line feeds and the commas with an even number of quotes before them are what
cuts a text into rows, and the rows into fields.
-/

namespace LintMend.Csv

variable {s row before after first : Text} {rest : List Text} {c : Char}

/-! ## Rows -/

/-- The rows of a text that follows a part of a row, each with the line feed that ends it. -/
def rowsFrom (row : Text) : Text → List Text
  | [] => [row]
  | c :: s =>
    if c = '\n' ∧ Even (row.count '"') then (row ++ [c]) :: rowsFrom [] s
    else rowsFrom (row ++ [c]) s

/-- The rows of a text. The last one has no line feed, and is empty where a line feed is last. -/
def rows (s : Text) : List Text := rowsFrom [] s

theorem rowsFrom_ne_nil (row s : Text) : rowsFrom row s ≠ [] := by
  fun_induction rowsFrom row s with
  | case1 row => exact List.cons_ne_nil _ _
  | case2 row c s hc ih => exact List.cons_ne_nil _ _
  | case3 row c s hc ih => exact ih

theorem flatten_rowsFrom (row s : Text) : (rowsFrom row s).flatten = row ++ s := by
  fun_induction rowsFrom row s with
  | case1 row => simp
  | case2 row c s hc ih => simp [ih]
  | case3 row c s hc ih => simp [ih]

/-- A row with no character, or none but its line break. -/
def IsBlankRow (row : Text) : Prop := row = [] ∨ row = ['\n'] ∨ row = ['\r', '\n']

instance (row : Text) : Decidable (IsBlankRow row) := by
  unfold IsBlankRow
  infer_instance

theorem isBlankRow_concat_iff : IsBlankRow (row ++ ['\n']) ↔ row = [] ∨ row = ['\r'] := by
  have hreturn : row ++ ['\n'] = ['\r', '\n'] ↔ row = ['\r'] := by
    rw [show ['\r', '\n'] = ['\r'] ++ ['\n'] from rfl, List.append_left_inj]
  simp [IsBlankRow, hreturn]

/-! ## Where rows are cut -/

/-- No line feed has an even number of quotes before it. -/
def IsPartOfRow (row : Text) : Prop :=
  ∀ before after, row = before ++ '\n' :: after → ¬ Even (before.count '"')

theorem isPartOfRow_nil : IsPartOfRow [] := by simp [IsPartOfRow]

theorem isPartOfRow_concat_iff :
    IsPartOfRow (row ++ [c]) ↔ IsPartOfRow row ∧ ¬ (c = '\n' ∧ Even (row.count '"')) := by
  constructor
  · intro h
    refine ⟨fun before after hrow ↦ h before (after ++ [c]) (by simp [hrow]), ?_⟩
    rintro ⟨rfl, heven⟩
    exact h row [] rfl heven
  · rintro ⟨h, hc⟩ before after heq heven
    rcases List.eq_nil_or_concat after with rfl | ⟨rest, d, rfl⟩
    · obtain ⟨rfl, hfeed⟩ := List.append_inj' heq rfl
      exact hc ⟨by simpa using hfeed, heven⟩
    · rw [List.concat_eq_append, ← List.cons_append, ← List.append_assoc] at heq
      exact h before rest (List.append_inj' heq rfl).1 heven

/-- Behind a row that ends, the parity of quotes is that of the text behind it. -/
theorem even_count_append_lineFeed (h : Even (row.count '"')) (s : Text) :
    Even ((row ++ '\n' :: s).count '"') ↔ Even (s.count '"') := by
  rw [List.count_append, List.count_cons_of_ne (by decide), Nat.even_add]
  exact iff_true_left h

/-- The first rows, but not all of them, are the text before a place. -/
def CutBehind (rows : List Text) (before : Text) : Prop :=
  ∃ a b, rows = a ++ b ∧ a ≠ [] ∧ b ≠ [] ∧ a.flatten = before

theorem cutBehind_cons_iff (hrest : rest ≠ []) : CutBehind (first :: rest) before ↔
    before = first ∨ ∃ more, before = first ++ more ∧ CutBehind rest more := by
  constructor
  · rintro ⟨a, b, hrows, ha, hb, rfl⟩
    obtain ⟨first', a, rfl⟩ := List.exists_cons_of_ne_nil ha
    obtain ⟨rfl, hbehind⟩ := List.cons.inj hrows
    by_cases hnil : a = []
    · exact .inl (by simp [hnil])
    · exact .inr ⟨a.flatten, List.flatten_cons, a, b, hbehind, hnil, hb, rfl⟩
  · rintro (rfl | ⟨more, rfl, a, b, rfl, ha, hb, rfl⟩)
    · exact ⟨[before], rest, rfl, List.cons_ne_nil _ _, hrest, by simp⟩
    · exact ⟨first :: a, b, rfl, List.cons_ne_nil _ _, hb, List.flatten_cons⟩

theorem not_cutBehind_singleton (row before : Text) : ¬ CutBehind [row] before := by
  rintro ⟨a, b, hrows, ha, hb, -⟩
  have hlength := congrArg List.length hrows
  have hapos := List.length_pos_iff.mpr ha
  have hbpos := List.length_pos_iff.mpr hb
  rw [List.length_append, List.length_singleton] at hlength
  omega

/-- Rows are cut exactly behind the line feeds with an even number of quotes before them. -/
theorem cutBehind_rowsFrom_iff (h : IsPartOfRow row) (hs : row ++ s = before ++ after) :
    CutBehind (rowsFrom row s) before ↔
      ∃ init, before = init ++ ['\n'] ∧ Even (init.count '"') := by
  induction s generalizing row before with
  | nil =>
    refine iff_of_false (not_cutBehind_singleton row before) ?_
    rintro ⟨init, rfl, heven⟩
    rw [List.append_nil, List.append_assoc] at hs
    exact h init after hs heven
  | cons c s ih =>
    by_cases hc : c = '\n' ∧ Even (row.count '"')
    · obtain ⟨rfl, heven⟩ := hc
      rw [rowsFrom, if_pos ⟨rfl, heven⟩, cutBehind_cons_iff (rowsFrom_ne_nil [] s)]
      constructor
      · rintro (rfl | ⟨more, rfl, hmore⟩)
        · exact ⟨row, rfl, heven⟩
        · have hrest : [] ++ s = more ++ after := by simpa using hs
          obtain ⟨init, rfl, hinit⟩ := (ih isPartOfRow_nil hrest).mp hmore
          exact ⟨row ++ '\n' :: init, by simp, (even_count_append_lineFeed heven init).mpr hinit⟩
      · rintro ⟨init, rfl, hinit⟩
        -- the line feed is the one that ends the row, or stands behind it; in the row none ends it
        rw [List.append_assoc, List.singleton_append] at hs
        rcases List.append_eq_append_iff.mp hs with ⟨more, rfl, hmore⟩ | ⟨more, rfl, hmore⟩
        · cases more with
          | nil => exact .inl (by simp)
          | cons d more =>
            obtain ⟨rfl, hs⟩ := List.cons.inj hmore
            have hrest : [] ++ s = (more ++ ['\n']) ++ after := by simpa using hs
            have heven' := (even_count_append_lineFeed heven more).mp hinit
            exact .inr ⟨more ++ ['\n'], by simp,
              (ih isPartOfRow_nil hrest).mpr ⟨more, rfl, heven'⟩⟩
        · cases more with
          | nil => exact .inl (by simp)
          | cons d more =>
            obtain ⟨rfl, -⟩ := List.cons.inj hmore
            exact absurd hinit (h init more rfl)
    · rw [rowsFrom, if_neg hc]
      exact ih (isPartOfRow_concat_iff.mpr ⟨h, hc⟩) (by simpa using hs)

/-! ## Commas between fields -/

/-- The number of commas with an even number of quotes before them. -/
def bareCommas (row : Text) : Nat :=
  (List.range row.length).countP fun i ↦ row[i]? = some ',' ∧ Even ((row.take i).count '"')

theorem bareCommas_concat (row : Text) (c : Char) :
    bareCommas (row ++ [c]) = bareCommas row + if c = ',' ∧ Even (row.count '"') then 1 else 0 := by
  have hrow : (List.range row.length).countP
      (fun i ↦ (row ++ [c])[i]? = some ',' ∧ Even (((row ++ [c]).take i).count '"')) =
        bareCommas row := by
    apply List.countP_congr
    intro i hi
    have hlt : i < row.length := List.mem_range.mp hi
    simp only [List.getElem?_append_left hlt, List.take_append_of_le_length (Nat.le_of_lt hlt)]
  rw [bareCommas, List.length_append, List.length_singleton, List.range_succ, List.countP_append,
    hrow]
  simp [List.countP_singleton]

end LintMend.Csv
