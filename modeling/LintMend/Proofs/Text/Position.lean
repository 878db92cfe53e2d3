import LintMend.Proofs.Text.Lines

/-!
# Positions of places

Counting through a text moves a position on by one character or by one line. The position of a place
is therefore the number of line feeds before it and the number of characters behind the last of
them, and on the line of that number the characters before the place stand first.
-/

namespace LintMend.Text

variable {s a b left : Text} {earlier : List Text} {here : Position} {n : Nat} {width : Char → Nat}

/-- The position behind a character. -/
def stepOver (here : Position) (c : Char) : Position :=
  if c = '\n' then ⟨here.line + 1, 0⟩ else ⟨here.line, here.column + 1⟩

theorem positionFrom_size_append (here : Position) (a b : Text) :
    positionFrom here (a ++ b) (size a) = a.foldl stepOver here := by
  induction a generalizing here with
  | nil => cases b <;> rfl
  | cons c a ih =>
    obtain ⟨m, hm⟩ : ∃ m, c.utf8Size = m + 1 := ⟨c.utf8Size - 1, by have := c.utf8Size_pos; omega⟩
    have hsize : size (c :: a) = (m + size a) + 1 := by rw [size_cons, hm]; omega
    have hrest : m + size a + 1 - c.utf8Size = size a := by omega
    rw [List.cons_append, hsize, positionFrom, hrest]
    exact ih (stepOver here c)

/-- The position behind a character, when the columns of a line count the widths of its
characters. -/
def stepBy (width : Char → Nat) (here : Position) (c : Char) : Position :=
  if c = '\n' then ⟨here.line + 1, 0⟩ else ⟨here.line, here.column + width c⟩

/-- The width of a text on one line. -/
def widthOf (width : Char → Nat) (s : Text) : Nat := (s.map width).foldr (· + ·) 0

@[simp] theorem widthOf_cons (c : Char) (s : Text) :
    widthOf width (c :: s) = width c + widthOf width s := rfl

theorem widthOf_one (s : Text) : widthOf (fun _ ↦ 1) s = s.length := by
  induction s with
  | nil => rfl
  | cons c s ih => rw [widthOf_cons, ih, List.length_cons, Nat.add_comm]

theorem foldl_stepBy_of_notMem (h : '\n' ∉ left) :
    left.foldl (stepBy width) here = ⟨here.line, here.column + widthOf width left⟩ := by
  induction left generalizing here with
  | nil => rfl
  | cons c left ih =>
    rw [List.mem_cons, not_or] at h
    rw [List.foldl_cons, ih h.2, stepBy, if_neg (Ne.symm h.1), widthOf_cons, Nat.add_assoc]

theorem foldl_stepBy_ended (h : ∀ line ∈ earlier, '\n' ∉ line) :
    (ended earlier).foldl (stepBy width) ⟨n, 0⟩ = ⟨n + earlier.length, 0⟩ := by
  induction earlier generalizing n with
  | nil => rfl
  | cons line earlier ih =>
    rw [List.forall_mem_cons] at h
    rw [ended_cons, List.foldl_append, foldl_stepBy_of_notMem h.1, List.foldl_cons, stepBy,
      if_pos rfl, ih h.2, List.length_cons, Nat.add_assoc, Nat.add_comm 1]

theorem foldl_stepOver_of_notMem (h : '\n' ∉ left) :
    left.foldl stepOver here = ⟨here.line, here.column + left.length⟩ :=
  calc left.foldl stepOver here
      = ⟨here.line, here.column + widthOf (fun _ ↦ 1) left⟩ := foldl_stepBy_of_notMem h
    _ = ⟨here.line, here.column + left.length⟩ := by rw [widthOf_one]

theorem foldl_stepOver_ended (h : ∀ line ∈ earlier, '\n' ∉ line) :
    (ended earlier).foldl stepOver ⟨n, 0⟩ = ⟨n + earlier.length, 0⟩ :=
  foldl_stepBy_ended h

/-- A text is whole lines and the beginning of one more. -/
theorem exists_ended_append (before : Text) :
    ∃ earlier left, before = ended earlier ++ left ∧ before.lines = earlier ++ [left] ∧
      (∀ line ∈ earlier, '\n' ∉ line) ∧ '\n' ∉ left := by
  obtain ⟨earlier, left, hlines⟩ : ∃ earlier left, before.lines = earlier ++ [left] :=
    ⟨_, _, (List.dropLast_concat_getLast (lines_ne_nil before)).symm⟩
  have hfeeds : ∀ line ∈ before.lines, '\n' ∉ line := fun line ↦ lineFeed_notMem_of_mem_lines
  rw [hlines] at hfeeds
  have hearlier : ∀ line ∈ earlier, '\n' ∉ line :=
    fun line h ↦ hfeeds line (List.mem_append_left _ h)
  have hleft : '\n' ∉ left := hfeeds left (by simp)
  have hbefore : before = ended earlier ++ left := by
    rw [← intercalate_lines before, hlines, intercalate_append (List.cons_ne_nil left [])]
    simp
  exact ⟨earlier, left, hbefore, hlines, hearlier, hleft⟩

/-- Before a place stand whole lines and the beginning of its own, and they count its position. -/
theorem exists_eq_ended_append (before after : Text) :
    ∃ earlier left, before = ended earlier ++ left ∧ (∀ line ∈ earlier, '\n' ∉ line) ∧
      '\n' ∉ left ∧ (before ++ after).positionOf before.size = ⟨earlier.length, left.length⟩ := by
  obtain ⟨earlier, left, hbefore, -, hearlier, hleft⟩ := exists_ended_append before
  refine ⟨earlier, left, hbefore, hearlier, hleft, ?_⟩
  calc (before ++ after).positionOf before.size
      = before.foldl stepOver ⟨0, 0⟩ := positionFrom_size_append ⟨0, 0⟩ before after
    _ = left.foldl stepOver ⟨0 + earlier.length, 0⟩ := by
      rw [hbefore, List.foldl_append, foldl_stepOver_ended hearlier]
    _ = ⟨earlier.length, left.length⟩ := by
      rw [foldl_stepOver_of_notMem hleft, Nat.zero_add, Nat.zero_add]

/-! ## Columns of a line -/

theorem lines_append_of_notMem (h : '\n' ∉ left) (b : Text) :
    ∃ rest later, b.lines = rest :: later ∧ (left ++ b).lines = (left ++ rest) :: later := by
  obtain ⟨rest, later, hb⟩ := List.exists_cons_of_ne_nil (lines_ne_nil b)
  refine ⟨rest, later, hb, ?_⟩
  induction left with
  | nil => exact hb
  | cons c left ih =>
    rw [List.mem_cons, not_or] at h
    have hsplit := ih h.2
    rw [lines] at hsplit ⊢
    rw [List.cons_append, splitOnChar, if_neg (Ne.symm h.1), hsplit]
    rfl

theorem dropCarriageReturn_append_of_ne_nil (hb : b ≠ []) (a : Text) :
    (a ++ b).dropCarriageReturn = a ++ b.dropCarriageReturn := by
  have hgetLast : (a ++ b).getLast? = b.getLast? := by
    rw [List.getLast?_append, List.getLast?_eq_some_getLast hb, Option.some_or]
  rw [dropCarriageReturn, dropCarriageReturn, hgetLast, List.dropLast_append_of_ne_nil hb]
  split <;> rfl

theorem dropCarriageReturn_append (hlast : a.getLast? ≠ some '\r') (b : Text) :
    (a ++ b).dropCarriageReturn = a ++ b.dropCarriageReturn := by
  by_cases hb : b = []
  · simp [hb, dropCarriageReturn, hlast]
  · exact dropCarriageReturn_append_of_ne_nil hb a

/-- The line of a place is what stands before the place on it and the first line behind the place. -/
theorem line_ended_append {b rest : Text} {later : List Text}
    (hearlier : ∀ line ∈ earlier, '\n' ∉ line)
    (hlines : (left ++ b).lines = (left ++ rest) :: later) :
    earlier.length < (ended earlier ++ left ++ b).lineCount ∧
      (ended earlier ++ left ++ b).lineText earlier.length = (left ++ rest).dropCarriageReturn ∧
      (ended earlier ++ left ++ b).linesBefore earlier.length = ended earlier := by
  have hall : (ended earlier ++ left ++ b).lines = earlier ++ (left ++ rest) :: later := by
    rw [List.append_assoc, lines_ended_append hearlier, hlines]
  refine ⟨?_, ?_, ?_⟩
  · rw [lineCount, hall]
    simp
  · rw [lineText, hall]
    simp
  · rw [linesBefore, hall, List.take_left]

/-- The first characters of a line have their columns, up to the end of the last of them. -/
theorem offsetOf_ended_append (hearlier : ∀ line ∈ earlier, '\n' ∉ line) (hleft : '\n' ∉ left)
    (hlast : left.getLast? ≠ some '\r') (b : Text) :
    earlier.length < (ended earlier ++ left ++ b).lineCount ∧
      left.length ≤ (ended earlier ++ left ++ b).lineLength earlier.length ∧
      ∀ column ≤ left.length, (ended earlier ++ left ++ b).offsetOf earlier.length column =
        size (ended earlier ++ left.take column) := by
  obtain ⟨rest, later, -, hlines⟩ := lines_append_of_notMem hleft b
  obtain ⟨hlt, htext, hbefore⟩ := line_ended_append hearlier hlines
  rw [dropCarriageReturn_append hlast] at htext
  refine ⟨hlt, ?_, fun column hcolumn ↦ ?_⟩
  · rw [lineLength, htext, List.length_append]
    exact Nat.le_add_right _ _
  · rw [offsetOf_of_lt hlt, hbefore, htext, List.take_append_of_le_length hcolumn]

end LintMend.Text
