import LintMend.Proofs.Text.Position
import Mathlib.Order.Bounds.Basic

/-!
# From positions to offsets and back

Positions and offsets are two names of places, and each can be out of the text: a column behind the
end of its line, an offset in a character or behind the end. Going to the other name and back keeps
every place that both can name, and takes what is out of the text to the nearest such place. What
only offsets can name is the place between the two characters of a line break.
-/

namespace LintMend.Text

variable {s line : Text} {n m column column' offset : Nat}

/-! ## Positions -/

theorem lineFeed_notMem_lineText (s : Text) (n : Nat) : '\n' ∉ s.lineText n := by
  by_cases h : n < s.lines.length
  · obtain ⟨cr, -, -, hline, -⟩ := exists_behind_line h
    have hnotMem : '\n' ∉ s.lines[n] := lineFeed_notMem_of_mem_lines (List.getElem_mem h)
    rw [hline, List.mem_append, not_or] at hnotMem
    exact hnotMem.1
  · rw [lineText_of_le (Nat.not_lt.mp h)]
    exact List.not_mem_nil

theorem positionOf_of_eq_append {a b : Text} (hs : s = a ++ b) :
    s.positionOf a.size = a.foldl stepOver ⟨0, 0⟩ := by
  rw [hs]
  exact positionFrom_size_append ⟨0, 0⟩ a b

/-- Columns behind the end of a line stand for its end. -/
theorem positionOf_offsetOf (h : n < s.lineCount) (column : Nat) :
    s.positionOf (s.offsetOf n column) = ⟨n, min column (s.lineLength n)⟩ := by
  obtain ⟨behind, hs⟩ := exists_place_of_lt h column
  have hleft : '\n' ∉ (s.lineText n).take column :=
    fun hmem ↦ lineFeed_notMem_lineText s n (List.mem_of_mem_take hmem)
  have hcount : (s.lines.take n).length = n := List.length_take_of_le (Nat.le_of_lt h)
  calc s.positionOf (s.offsetOf n column)
      = (s.linesBefore n ++ (s.lineText n).take column).foldl stepOver ⟨0, 0⟩ := by
        rw [offsetOf_of_lt h]
        exact positionOf_of_eq_append hs
    _ = ((s.lineText n).take column).foldl stepOver ⟨n, 0⟩ := by
        rw [linesBefore, List.foldl_append, foldl_stepOver_ended (lineFeed_notMem_take s n),
          hcount, Nat.zero_add]
    _ = ⟨n, min column (s.lineLength n)⟩ := by
        rw [foldl_stepOver_of_notMem hleft, List.length_take, Nat.zero_add, lineLength]

/-! ## Offsets -/

/-- The place that an offset stands for: the first one at or behind it, or the end of the text. -/
structure IsPlaceOf (s before : Text) (offset : Nat) : Prop where
  reached : min offset s.size ≤ before.size
  first : ∀ a b, s = a ++ b → min offset s.size ≤ a.size → before.size ≤ a.size

theorem exists_place_of_offset (s : Text) (offset : Nat) : ∃ before after, s = before ++ after ∧
    IsPlaceOf s before offset ∧
    ∀ here, positionFrom here s offset = before.foldl stepOver here := by
  induction s generalizing offset with
  | nil => exact ⟨[], [], rfl, ⟨by simp, by simp⟩, fun here ↦ by cases offset <;> rfl⟩
  | cons c s ih =>
    cases offset with
    | zero => exact ⟨[], c :: s, rfl, ⟨by simp, by simp⟩, fun here ↦ rfl⟩
    | succ offset =>
      obtain ⟨before, after, hs, hplace, hposition⟩ := ih (offset + 1 - c.utf8Size)
      have hc := c.utf8Size_pos
      have hreached := hplace.reached
      refine ⟨c :: before, after, by rw [hs, List.cons_append], ⟨?_, ?_⟩, fun here ↦ ?_⟩
      · simp only [size_cons]
        omega
      · intro a b hab hle
        cases a with
        | nil =>
          simp only [size_cons, size_nil] at hle
          omega
        | cons d a =>
          obtain ⟨rfl, hrest⟩ := List.cons.inj hab
          simp only [size_cons] at hle ⊢
          have hfirst := hplace.first a b hrest (by omega)
          omega
      · rw [positionFrom]
        exact hposition (stepOver here c)

/-- A place behind a carriage return that a line feed follows, or nothing. -/
def BehindReturn (s : Text) (offset : Nat) : Prop :=
  ∃ before after, s = before ++ '\r' :: after ∧ offset = size (before ++ ['\r']) ∧
    (after = [] ∨ after.head? = some '\n')

theorem head_lines_eq_nil_iff {rest : Text} {later : List Text} (h : s.lines = rest :: later) :
    rest = [] ↔ s = [] ∨ s.head? = some '\n' := by
  cases s with
  | nil =>
    obtain ⟨rfl, -⟩ := List.cons.inj (show [[]] = rest :: later from h)
    simp
  | cons c s =>
    rw [lines, splitOnChar] at h
    split at h
    · next hc =>
      obtain ⟨rfl, -⟩ := List.cons.inj h
      simp [hc]
    · next hc =>
      obtain ⟨piece, pieces, hpieces⟩ := List.exists_cons_of_ne_nil (splitOnChar_ne_nil '\n' s)
      rw [hpieces] at h
      obtain ⟨rfl, -⟩ := List.cons.inj h
      simp [hc]

/-- Whether a place is behind the carriage return of a line break shows on its line alone. -/
theorem behindReturn_iff {before after rest : Text} {later : List Text}
    (hlines : after.lines = rest :: later) :
    BehindReturn (before ++ after) before.size ↔ before.getLast? = some '\r' ∧ rest = [] := by
  rw [head_lines_eq_nil_iff hlines]
  constructor
  · rintro ⟨init, after', hs, hsize, hafter⟩
    have hs' : before ++ after = (init ++ ['\r']) ++ after' := by simpa using hs
    obtain ⟨h, hbefore, rfl⟩ := exists_append_of_size_le hs' (Nat.le_of_eq hsize)
    obtain rfl : h = [] := by
      rw [hbefore, size_append] at hsize
      exact size_eq_zero_iff.mp (by omega)
    rw [List.append_nil] at hbefore
    exact ⟨by rw [← hbefore]; simp, hafter⟩
  · rintro ⟨hlast, hafter⟩
    obtain ⟨init, rfl⟩ := List.getLast?_eq_some_iff.mp hlast
    exact ⟨init, after, by simp, rfl, hafter⟩

theorem getLast?_ended_ne (lines : List Text) : (ended lines).getLast? ≠ some '\r' := by
  rcases List.eq_nil_or_concat lines with rfl | ⟨earlier, line, rfl⟩ <;> simp

/-- A place is found again by its position, but for one between the characters of a line break: that
is moved before them. -/
theorem offsetOf_positionOf_size (before after : Text) (here : Position)
    (hhere : here = (before ++ after).positionOf before.size) :
    (¬ BehindReturn (before ++ after) before.size →
      (before ++ after).offsetOf here.line here.column = before.size) ∧
    (BehindReturn (before ++ after) before.size →
      (before ++ after).offsetOf here.line here.column + 1 = before.size) := by
  obtain ⟨earlier, left, rfl, hearlier, hleft, hposition⟩ := exists_eq_ended_append before after
  obtain ⟨rest, later, hafter, hlines⟩ := lines_append_of_notMem hleft after
  obtain ⟨hlt, htext, hbefore⟩ := line_ended_append hearlier hlines
  have hlast : (ended earlier ++ left).getLast? = some '\r' ↔ left.getLast? = some '\r' := by
    rw [List.getLast?_append]
    cases hleft : left.getLast? with
    | none => simpa using getLast?_ended_ne earlier
    | some c => rfl
  rw [hhere, hposition, behindReturn_iff hafter, hlast, offsetOf_of_lt hlt, hbefore, htext]
  by_cases hbehind : left.getLast? = some '\r' ∧ rest = []
  · obtain ⟨hreturn, rfl⟩ := hbehind
    obtain ⟨init, rfl⟩ := List.getLast?_eq_some_iff.mp hreturn
    refine ⟨fun h ↦ absurd ⟨hreturn, rfl⟩ h, fun _ ↦ ?_⟩
    rw [List.append_nil, dropCarriageReturn, if_pos hreturn, List.dropLast_concat,
      List.take_of_length_le (by simp)]
    simp [show ('\r').utf8Size = 1 from rfl, Nat.add_assoc]
  · refine ⟨fun _ ↦ ?_, fun h ↦ absurd h hbehind⟩
    have hkept : (left ++ rest).dropCarriageReturn = left ++ rest.dropCarriageReturn := by
      rcases not_and_or.mp hbehind with hreturn | hrest
      · exact dropCarriageReturn_append hreturn rest
      · exact dropCarriageReturn_append_of_ne_nil hrest left
    rw [hkept, List.take_left]

/-! ## Order -/

theorem offsetOf_le_lineEnd (h : n < s.lineCount) (column : Nat) :
    s.offsetOf n column ≤ s.lineEnd n := by
  rw [offsetOf_of_lt h, lineEnd_of_lt h]
  exact size_le_of_prefix ((List.prefix_append_right_inj _).mpr (List.take_prefix _ _))

theorem lineEnd_le_lineStart_succ (h : n + 1 < s.lineCount) :
    s.lineEnd n ≤ s.lineStart (n + 1) := by
  have hn : n < s.lines.length := Nat.lt_of_succ_lt h
  obtain ⟨cr, -, -, hline, -⟩ := exists_behind_line hn
  have hbefore : s.linesBefore (n + 1) = s.linesBefore n ++ s.lineText n ++ (cr ++ ['\n']) := by
    rw [linesBefore, linesBefore, List.take_succ_eq_append_getElem hn, ended_append, ended_cons,
      hline, ended_nil]
    simp
  rw [lineEnd_of_lt hn, lineStart_of_lt h, hbefore, size_append _ (cr ++ ['\n'])]
  exact Nat.le_add_right _ _

/-- Later positions have places further on. -/
theorem offsetOf_mono (h : n < m ∨ n = m ∧ column ≤ column') :
    s.offsetOf n column ≤ s.offsetOf m column' := by
  by_cases hm : m < s.lineCount
  · rcases h with hnm | ⟨rfl, hcolumn⟩
    · calc s.offsetOf n column
          ≤ s.lineEnd n := offsetOf_le_lineEnd (Nat.lt_trans hnm hm) column
        _ ≤ s.lineStart (n + 1) := lineEnd_le_lineStart_succ (Nat.lt_of_le_of_lt hnm hm)
        _ ≤ s.lineStart m := lineStart_le_lineStart hnm hm
        _ ≤ s.offsetOf m column' := lineStart_le_offsetOf hm column'
    · rw [offsetOf_of_lt hm, offsetOf_of_lt hm]
      exact size_le_of_prefix
        ((List.prefix_append_right_inj _).mpr (List.take_prefix_take_left hcolumn))
  · rw [offsetOf_of_le (Nat.not_lt.mp hm)]
    exact le_size_of_isBoundary (isBoundary_offsetOf s n column)

/-- A position of an existing line is found again by its offset, with a column behind the end of the
line taken to that end. An offset is found again by its position once it is rounded up to a
character and cut at the end of the text, where a place behind the carriage return of a line break
is taken to the place before it. Offsets of positions, also of lines behind the last one, stand at
characters of the text and follow the order of the positions. -/
theorem positions_and_offsets_round_trip (s : Text) :
    (∀ line < s.lineCount, ∀ column,
      s.positionOf (s.offsetOf line column) = ⟨line, min column (s.lineLength line)⟩) ∧
    (∀ offset, ∃ boundary,
      IsLeast {boundary | s.isBoundary boundary ∧ min offset s.size ≤ boundary} boundary ∧
      (¬ BehindReturn s boundary →
        s.offsetOf (s.positionOf offset).line (s.positionOf offset).column = boundary) ∧
      (BehindReturn s boundary →
        s.offsetOf (s.positionOf offset).line (s.positionOf offset).column + 1 = boundary)) ∧
    (∀ line column, s.isBoundary (s.offsetOf line column)) ∧
    ∀ line column line' column', line < line' ∨ line = line' ∧ column ≤ column' →
      s.offsetOf line column ≤ s.offsetOf line' column' := by
  refine ⟨fun line h column ↦ positionOf_offsetOf h column, fun offset ↦ ?_, isBoundary_offsetOf s,
    fun line column line' column' ↦ offsetOf_mono⟩
  obtain ⟨before, after, rfl, hplace, hposition⟩ := exists_place_of_offset s offset
  refine ⟨before.size, ⟨⟨isBoundary_size_append before after, hplace.reached⟩, ?_⟩, ?_⟩
  · rintro boundary ⟨hboundary, hle⟩
    obtain ⟨a, b, hs, rfl⟩ := isBoundary_iff.mp hboundary
    exact hplace.first a b hs hle
  · apply offsetOf_positionOf_size before after
    exact (hposition ⟨0, 0⟩).trans (positionFrom_size_append ⟨0, 0⟩ before after).symm

theorem round_trip_of_mixed_breaks :
    let s : Text := "ä\r\n\r\rb\r".toList
    (1 < s.lineCount ∧ s.positionOf (s.offsetOf 1 9) = ⟨1, 3⟩) ∧
      (¬ BehindReturn s 2 ∧ s.offsetOf (s.positionOf 1).line (s.positionOf 1).column = 2) ∧
      (BehindReturn s 8 ∧ s.offsetOf (s.positionOf 9).line (s.positionOf 9).column = 7) ∧
      s.isBoundary (s.offsetOf 0 1) ∧ s.offsetOf 0 4 ≤ s.offsetOf 2 0 := by
  intro s
  obtain ⟨hposition, hoffset, hboundary, hmono⟩ := positions_and_offsets_round_trip s
  have hinside : ¬ BehindReturn s 2 := by
    have hlines : lines "\r\n\r\rb\r".toList = ['\r'] :: ["\r\rb\r".toList] := by decide
    intro hreturn
    have hlast : ['ä'].getLast? = some '\r' := ((behindReturn_iff hlines).mp hreturn).1
    exact absurd hlast (by decide)
  have hend : BehindReturn s 8 :=
    ⟨"ä\r\n\r\rb".toList, [], by decide, by decide, .inl rfl⟩
  refine ⟨⟨by decide, hposition 1 (by decide) 9⟩, ⟨hinside, ?_⟩, ⟨hend, ?_⟩, hboundary 0 1,
    hmono 0 4 2 0 (.inl (by decide))⟩
  · obtain ⟨boundary, hleast, hkept, -⟩ := hoffset 1
    obtain rfl : boundary = 2 := by
      refine hleast.unique ⟨by decide, fun other hother ↦ ?_⟩
      refine Nat.lt_of_le_of_ne hother.2 ?_
      rintro rfl
      exact absurd hother.1 (by decide)
    exact hkept hinside
  · obtain ⟨boundary, hleast, -, hmoved⟩ := hoffset 9
    obtain rfl : boundary = 8 := hleast.unique ⟨by decide, fun other hother ↦ hother.2⟩
    exact Nat.succ.inj (hmoved hend)

end LintMend.Text
