import LintMend.Proofs.Editor.Place
import LintMend.Proofs.Repair.Anchor

/-!
# What an editor underlines

The place of a hint is read twice: a repair counts the characters of the line, and an editor is sent
the same column as a number of units of UTF-16, on a line without the carriage returns at its end.
On a line that exists, at a column that it has, the two are one place exactly when every character
before the column takes one unit and the column is not behind the carriage returns of the line.
-/

namespace LintMend.Text

variable {s : Text} {line column : Nat}

theorem dropEndWhile_prefix (p : Char → Bool) (s : Text) : s.dropEndWhile p <+: s :=
  ⟨_, takeEndWhile_append_dropEndWhile p s⟩

/-- The length that an editor is told of a line: up to the carriage returns at its end. -/
theorem getElem?_lineLengths16 (h : line < s.lineCount) : s.lineLengths16[line]? =
    some (size16 ((s.lineText line).dropEndWhile (· = '\r'))) := by
  obtain ⟨cr, -, hcr, hline, -⟩ := exists_behind_line h
  have hall : cr.all (· = '\r') := by
    rcases hcr with rfl | rfl <;> rfl
  rw [lineLengths16, List.getElem?_map, List.getElem?_eq_getElem h, Option.map_some, hline,
    dropEndWhile_append_of_all hall]

/-- The place of a position has as its own position the units before its column. -/
theorem counted16_place (h : line < s.lineCount) (column : Nat) :
    (s.linesBefore line ++ (s.lineText line).take column).counted16 =
      ⟨line, size16 ((s.lineText line).take column)⟩ := by
  have hleft : '\n' ∉ (s.lineText line).take column :=
    fun hmem ↦ lineFeed_notMem_lineText s line (List.mem_of_mem_take hmem)
  rw [linesBefore, counted16_ended_append (lineFeed_notMem_take s line) hleft,
    List.length_take_of_le (Nat.le_of_lt h)]

/-- When a column counts the same place of its line in characters as in units of UTF-16, and an
editor can be sent it. -/
structure CountsAlike (s : Text) (line column : Nat) : Prop where
  basic : ∀ c ∈ (s.lineText line).take column, c.toNat < 0x10000
  within : column ≤ ((s.lineText line).dropEndWhile (· = '\r')).length
  words : Position.sent ⟨line, column⟩ = ⟨line, column⟩

theorem units16_eq_one_iff {c : Char} : units16 c = 1 ↔ c.toNat < 0x10000 := by
  rw [units16]
  split <;> simp [*]

theorem size16_take_eq_iff (hcolumn : column ≤ s.length) :
    size16 (s.take column) = column ↔ ∀ c ∈ s.take column, c.toNat < 0x10000 := by
  have hlength : (s.take column).length = column := List.length_take_of_le hcolumn
  conv => lhs; rhs; rw [← hlength]
  rw [size16_eq_length_iff]
  exact forall₂_congr fun _ _ ↦ units16_eq_one_iff

theorem clamp_lineLengths16 (h : line < s.lineCount) (column : Nat) :
    Overlay.clamp s.lineLengths16 line column =
      ⟨line, min column (size16 ((s.lineText line).dropEndWhile (· = '\r')))⟩ := by
  have hlength := s.length_lineLengths16
  have hline : min line (s.lineLengths16.length - 1) = line := by omega
  rw [Overlay.clamp, hline, getElem?_lineLengths16 h, Option.getD_some]

/-- The units before a column are sent for it where it counts alike, and nowhere else. -/
theorem sent_clamp_eq_iff (h : line < s.lineCount) (hcolumn : column ≤ s.lineLength line) :
    (Overlay.clamp s.lineLengths16 line column).sent =
      ⟨line, size16 ((s.lineText line).take column)⟩ ↔ CountsAlike s line column := by
  rw [clamp_lineLengths16 h]
  let trimmed := (s.lineText line).dropEndWhile (· = '\r')
  have hprefix : trimmed <+: s.lineText line := dropEndWhile_prefix _ _
  constructor
  · intro hsent
    obtain ⟨hline, hunits⟩ : wrap32 line = line ∧ wrap32 (min column (size16 trimmed)) =
        size16 ((s.lineText line).take column) := Position.mk.inj hsent
    have hwrap : wrap32 (min column (size16 trimmed)) ≤ min column (size16 trimmed) :=
      Nat.mod_le _ _
    have hchars : ((s.lineText line).take column).length ≤ size16 ((s.lineText line).take column) :=
      length_le_size16 _
    rw [List.length_take_of_le hcolumn] at hchars
    -- a column has at least as many units before it as characters, and at most that many are sent
    have heq : size16 ((s.lineText line).take column) = column := by omega
    have hmin : min column (size16 trimmed) = column := by omega
    have hbasic := (size16_take_eq_iff hcolumn).mp heq
    refine ⟨hbasic, ?_, ?_⟩
    · by_contra hwithin
      have hbehind : trimmed.length < column := Nat.not_le.mp hwithin
      have htake : trimmed = (s.lineText line).take trimmed.length :=
        List.prefix_iff_eq_take.mp hprefix
      have hwidth : size16 trimmed = trimmed.length := by
        rw [htake, List.length_take_of_le hprefix.length_le]
        apply (size16_take_eq_iff hprefix.length_le).mpr
        intro c hc
        exact hbasic c (List.take_subset_take_left _ (Nat.le_of_lt hbehind) hc)
      omega
    · rw [hmin, heq] at hunits
      rw [Position.sent, hline, hunits]
  · rintro ⟨hbasic, hwithin, hwords⟩
    have hwidth : trimmed.length ≤ size16 trimmed := length_le_size16 trimmed
    have hmin : min column (size16 trimmed) = column := Nat.min_eq_left (hwithin.trans hwidth)
    rw [(size16_take_eq_iff hcolumn).mpr hbasic, hmin, hwords]

theorem offset16?_sent_clamp_eq_iff (h : line < s.lineCount)
    (hcolumn : column ≤ s.lineLength line) :
    s.offset16? (Overlay.clamp s.lineLengths16 line column).sent =
      some (s.offsetOf line column) ↔ CountsAlike s line column := by
  obtain ⟨behind, hs⟩ := exists_place_of_lt h column
  rw [offsetOf_of_lt h, offset16?_eq_some_size_iff hs, counted16_place h, eq_comm,
    sent_clamp_eq_iff h hcolumn]

end LintMend.Text

namespace LintMend.Diagnostic

open Text

/-- A hint on lines that a text has, at columns that they have, is repaired at these positions, and
each of the two is underlined where it is repaired exactly if it counts alike. -/
theorem underlined_where_repaired_iff {s : Text} {hint : Hint}
    (hbegin : hint.lineBegin < s.lineCount) (hend : hint.lineEnd < s.lineCount)
    (hcolumnBegin : hint.columnBegin ≤ s.lineLength hint.lineBegin)
    (hcolumnEnd : hint.columnEnd ≤ s.lineLength hint.lineEnd) :
    (Anchor.clamp s hint).start = s.offsetOf hint.lineBegin hint.columnBegin ∧
    (Anchor.clamp s hint).stop = s.offsetOf hint.lineEnd hint.columnEnd ∧
    (s.offset16? (ofHint s.lineLengths16 hint).range.start.sent =
        some (Anchor.clamp s hint).start ↔
      CountsAlike s hint.lineBegin hint.columnBegin) ∧
    (s.offset16? (ofHint s.lineLengths16 hint).range.stop.sent =
        some (Anchor.clamp s hint).stop ↔
      CountsAlike s hint.lineEnd hint.columnEnd) := by
  have hstart : (Anchor.clamp s hint).start = s.offsetOf hint.lineBegin hint.columnBegin :=
    Anchor.start_clamp_of_isIn ⟨hbegin, hcolumnBegin⟩
  have hstop : (Anchor.clamp s hint).stop = s.offsetOf hint.lineEnd hint.columnEnd :=
    Anchor.stop_clamp_of_isIn ⟨hend, hcolumnEnd⟩
  rw [hstart, hstop]
  exact ⟨rfl, rfl, offset16?_sent_clamp_eq_iff hbegin hcolumnBegin,
    offset16?_sent_clamp_eq_iff hend hcolumnEnd⟩

/-- Behind two characters of two units each the line goes on, and a blank at its end is repaired
there; what is underlined begins two units earlier. -/
theorem underlined_where_repaired_iff_of_pairs :
    let s : Text := "<?php '😀😀'; \n".toList
    let hint : Hint := ⟨0, 0, 11, 12, "Whitespace found at end of line", default, 100, "phpcs"⟩
    (ofHint s.lineLengths16 hint).range.start.sent = ⟨0, 11⟩ ∧
      s.offset16? ⟨0, 11⟩ = some 15 ∧ (Anchor.clamp s hint).start = 17 ∧
      ¬ CountsAlike s hint.lineBegin hint.columnBegin ∧
      ¬ CountsAlike s hint.lineEnd hint.columnEnd := by
  intro s hint
  have hstart : (Anchor.clamp s hint).start = 17 := by decide
  have hstop : (Anchor.clamp s hint).stop = 18 := by decide
  obtain ⟨-, -, hbegin, hend⟩ :=
    @underlined_where_repaired_iff s hint (by decide) (by decide) (by decide) (by decide)
  rw [hstart] at hbegin
  rw [hstop] at hend
  refine ⟨by decide, by decide, hstart, ?_, ?_⟩
  · exact fun halike ↦ absurd (hbegin.mpr halike) (by decide)
  · exact fun halike ↦ absurd (hend.mpr halike) (by decide)

end LintMend.Diagnostic
