import LintMend.Proofs.Editor.Place
import LintMend.Proofs.Repair.Anchor

/-!
# The order of what is underlined

An editor is sent the range of a hint moved onto the text it shows, and either end of the range is
moved by itself: a line behind the last one to the last line, a column that its line does not have
to the end of the line. Both ends then are places of the text. They keep their order wherever they
stay on different lines, and wherever they were on one line before. What is left is a range that
begins on the last line or behind it and ends on a later line: both ends come to be on the last
line, and only their columns decide.
-/

namespace LintMend

namespace Position

/-- The order of positions in a text: by lines, and on one line by columns. -/
def AtOrBefore (p q : Position) : Prop :=
  p.line < q.line ∨ p.line = q.line ∧ p.column ≤ q.column

instance (p q : Position) : Decidable (p.AtOrBefore q) := by
  unfold AtOrBefore
  infer_instance

theorem atOrBefore_same_line_iff {line a b : Nat} : AtOrBefore ⟨line, a⟩ ⟨line, b⟩ ↔ a ≤ b := by
  simp [AtOrBefore]

end Position

namespace Overlay

variable {lineLengths : List Nat} {line column : Nat} {p q : Position}

/-! ## Positions on the lines there are -/

/-- A position on a line that exists, at a column that the line has or at its end. -/
def HasPosition (lineLengths : List Nat) (p : Position) : Prop :=
  ∃ length, lineLengths[p.line]? = some length ∧ p.column ≤ length

theorem hasPosition_clamp (h : lineLengths ≠ []) (line column : Nat) :
    HasPosition lineLengths (clamp lineLengths line column) := by
  have hpos := List.length_pos_iff.mpr h
  have hlt : min line (lineLengths.length - 1) < lineLengths.length := by omega
  have hget := List.getElem?_eq_getElem hlt
  refine ⟨lineLengths[min line (lineLengths.length - 1)], hget, ?_⟩
  rw [clamp, hget]
  exact Nat.min_le_right _ _

theorem clamp_of_last_le (h : lineLengths.length ≤ line + 1) (column : Nat) :
    clamp lineLengths line column =
      ⟨lineLengths.length - 1, min column (lineLengths.getLast?.getD 0)⟩ := by
  have hline : min line (lineLengths.length - 1) = lineLengths.length - 1 := by omega
  rw [clamp, hline, List.getLast?_eq_getElem?]

/-! ## The order of two positions -/

/-- The first position is on the last line or behind it, and the second further down, but at a
column that is further left once both are on the last line. -/
structure FoldsBack (lineLengths : List Nat) (p q : Position) : Prop where
  lines : p.line < q.line
  last : lineLengths.length ≤ p.line + 1
  columns : q.column < min p.column (lineLengths.getLast?.getD 0)

instance (lineLengths : List Nat) (p q : Position) : Decidable (FoldsBack lineLengths p q) :=
  decidable_of_iff (p.line < q.line ∧ lineLengths.length ≤ p.line + 1 ∧
    q.column < min p.column (lineLengths.getLast?.getD 0))
    ⟨fun h ↦ ⟨h.1, h.2.1, h.2.2⟩, fun h ↦ ⟨h.lines, h.last, h.columns⟩⟩

theorem clamp_atOrBefore_of_same_line (hline : p.line = q.line) (hcolumn : p.column ≤ q.column) :
    (clamp lineLengths p.line p.column).AtOrBefore (clamp lineLengths q.line q.column) := by
  rw [hline]
  apply Position.atOrBefore_same_line_iff.mpr
  omega

theorem clamp_atOrBefore_of_lt_last (hline : p.line < q.line)
    (hbefore : p.line + 1 < lineLengths.length) :
    (clamp lineLengths p.line p.column).AtOrBefore (clamp lineLengths q.line q.column) := by
  left
  change min p.line (lineLengths.length - 1) < min q.line (lineLengths.length - 1)
  omega

theorem clamp_atOrBefore_iff (h : p.AtOrBefore q) :
    (clamp lineLengths p.line p.column).AtOrBefore (clamp lineLengths q.line q.column) ↔
      ¬ FoldsBack lineLengths p q := by
  rcases h with hline | ⟨hline, hcolumn⟩
  · rcases Nat.lt_or_ge (p.line + 1) lineLengths.length with hbefore | hlast
    · exact iff_of_true (clamp_atOrBefore_of_lt_last hline hbefore)
        fun hfold ↦ absurd hfold.last (Nat.not_le.mpr hbefore)
    · -- both ends come to be on the last line
      rw [clamp_of_last_le hlast, clamp_of_last_le (by omega), Position.atOrBefore_same_line_iff]
      constructor
      · intro hle hfold
        have hcolumns := hfold.columns
        omega
      · intro hfold
        apply Nat.not_lt.mp
        exact fun hcolumns ↦ hfold ⟨hline, hlast, by omega⟩
  · exact iff_of_true (clamp_atOrBefore_of_same_line hline hcolumn)
      fun hfold ↦ absurd hline (Nat.ne_of_lt hfold.lines)

end Overlay

/-! ## Positions as they are sent -/

namespace Text

open Overlay

variable {s : Text} {p : Position}

/-- A text whose lines, and the units of UTF-16 on each of them, are counted by words. -/
structure FitsWords (s : Text) : Prop where
  lines : s.lineCount ≤ words32
  units : ∀ length ∈ s.lineLengths16, length < words32

theorem sent_eq_of_hasPosition (h : s.FitsWords) (hp : HasPosition s.lineLengths16 p) :
    p.sent = p := by
  obtain ⟨length, hlength, hcolumn⟩ := hp
  have hline : p.line < s.lineLengths16.length := (List.getElem?_eq_some_iff.mp hlength).1
  have hwords := h.units length (List.mem_of_getElem? hlength)
  have hlines := h.lines
  rw [length_lineLengths16] at hline
  have hwrapLine : wrap32 p.line = p.line := Nat.mod_eq_of_lt (by omega)
  have hwrapColumn : wrap32 p.column = p.column := Nat.mod_eq_of_lt (by omega)
  rw [Position.sent, hwrapLine, hwrapColumn]

/-- A text of one line has that one length. -/
theorem lineLengths16_of_notMem (hfeed : '\n' ∉ s) (hreturn : '\r' ∉ s) :
    s.lineLengths16 = [size16 s] := by
  have hlines : s.lines = [s] := splitOnChar_of_notMem hfeed
  have hlast : ¬ s.getLast?.any (· = '\r') := by
    intro hany
    obtain ⟨c, hc, heq⟩ := (Option.any_eq_true _ _).mp hany
    obtain rfl : c = '\r' := of_decide_eq_true heq
    exact hreturn (List.mem_of_getLast? hc)
  simp [lineLengths16, hlines, dropEndWhile_of_getLast? hlast]

end Text

namespace Diagnostic

open Overlay Text

/-- The range of a hint that does not end before it begins is a range of places that the text has.
It ends before it begins exactly where its ends fold back, and so does the range that an editor is
sent for it. -/
theorem range_atOrBefore_iff {hint : Hint} (h : hint.start.AtOrBefore hint.stop) :
    (∀ lineLengths : List Nat, lineLengths ≠ [] →
      HasPosition lineLengths (tagRange lineLengths hint).start ∧
      HasPosition lineLengths (tagRange lineLengths hint).stop ∧
      ((tagRange lineLengths hint).start.AtOrBefore (tagRange lineLengths hint).stop ↔
        ¬ FoldsBack lineLengths hint.start hint.stop)) ∧
    ∀ s : Text, s.FitsWords →
      ((ofHint s.lineLengths16 hint).range.start.sent.AtOrBefore
          (ofHint s.lineLengths16 hint).range.stop.sent ↔
        ¬ FoldsBack s.lineLengths16 hint.start hint.stop) := by
  constructor
  · intro lineLengths hne
    exact ⟨hasPosition_clamp hne _ _, hasPosition_clamp hne _ _, clamp_atOrBefore_iff h⟩
  · intro s hwords
    have hne := s.lineLengths16_ne_nil
    have hstart : (tagRange s.lineLengths16 hint).start.sent =
        (tagRange s.lineLengths16 hint).start :=
      sent_eq_of_hasPosition hwords (hasPosition_clamp hne _ _)
    have hstop : (tagRange s.lineLengths16 hint).stop.sent =
        (tagRange s.lineLengths16 hint).stop :=
      sent_eq_of_hasPosition hwords (hasPosition_clamp hne _ _)
    rw [ofHint, hstart, hstop]
    exact clamp_atOrBefore_iff h

/-- A range from the first line to a line behind the last keeps its order. -/
theorem range_atOrBefore_iff_of_last_line :
    let s : Text := "<?php\necho 1;".toList
    let hint : Hint := ⟨0, 4, 6, 0, "Unexpected end of file", default, 100, "phplint"⟩
    HasPosition s.lineLengths16 (tagRange s.lineLengths16 hint).start ∧
      HasPosition s.lineLengths16 (tagRange s.lineLengths16 hint).stop ∧
      (ofHint s.lineLengths16 hint).range.start.sent.AtOrBefore
        (ofHint s.lineLengths16 hint).range.stop.sent := by
  intro s hint
  have hwords : s.FitsWords := ⟨by decide, by decide⟩
  obtain ⟨hany, hsent⟩ := @range_atOrBefore_iff hint (by decide)
  obtain ⟨hstart, hstop, -⟩ := hany s.lineLengths16 (by decide)
  exact ⟨hstart, hstop, (hsent s hwords).mpr (by decide)⟩

/-- A range that ends at the start of the line behind the last is sent as one that ends before it
begins, and so is one to the end of a line with more units than a word counts. -/
theorem not_range_atOrBefore :
    (let s : Text := "<?php\necho 1;".toList
    let hint : Hint := ⟨1, 2, 6, 0, "Unexpected end of file", default, 100, "phplint"⟩
    s.lineLengths16 = [5, 7] ∧ hint.start.AtOrBefore hint.stop ∧
      tagRange [5, 7] hint = ⟨⟨1, 6⟩, ⟨1, 0⟩⟩ ∧
      ¬ (tagRange [5, 7] hint).start.AtOrBefore (tagRange [5, 7] hint).stop ∧
      ¬ (ofHint s.lineLengths16 hint).range.start.sent.AtOrBefore
        (ofHint s.lineLengths16 hint).range.stop.sent) ∧
    (let s : Text := List.replicate words32 'a'
    let hint : Hint := ⟨0, 0, 5, words32, "Line is too long", default, 100, "phpcs"⟩
    hint.start.AtOrBefore hint.stop ∧
      ¬ (ofHint s.lineLengths16 hint).range.start.sent.AtOrBefore
        (ofHint s.lineLengths16 hint).range.stop.sent) := by
  refine ⟨by decide, ?_⟩
  intro s hint
  have hlengths : s.lineLengths16 = [words32] := by
    have hsize : size16 s = s.length := by
      apply size16_eq_length_iff.mpr
      intro c hc
      rw [List.eq_of_mem_replicate hc]
      decide
    rw [lineLengths16_of_notMem, hsize, List.length_replicate]
    · exact fun hc ↦ absurd (List.eq_of_mem_replicate hc) (by decide)
    · exact fun hc ↦ absurd (List.eq_of_mem_replicate hc) (by decide)
  rw [hlengths]
  decide

end Diagnostic

end LintMend
