import LintMend.Proofs.Text.Cut

/-!
# Lines as places of a text

A text is its lines, joined by line feeds. The offset of a position is therefore the size of the
whole lines before its line, with their line feeds, and of the characters before its column. So
every position has a place in the text, and the place of a line moves on by whole lines.
-/

namespace LintMend.Text

variable {s line : Text} {n m column : Nat}

/-! ## Splitting and joining -/

theorem splitOnChar_eq_splitOn (separator : Char) (s : Text) :
    splitOnChar separator s = List.splitOn separator s := by
  induction s with
  | nil => simp [splitOnChar]
  | cons c s ih =>
    rw [splitOnChar, List.splitOn_cons_eq_if_modifyHead, ih]
    simp only [beq_iff_eq]
    split
    · rfl
    · cases hs : List.splitOn separator s with
      | nil => exact absurd hs (List.splitOn_ne_nil separator s)
      | cons piece pieces => rfl

theorem splitOnChar_ne_nil (separator : Char) (s : Text) : splitOnChar separator s ≠ [] := by
  rw [splitOnChar_eq_splitOn]
  exact List.splitOn_ne_nil _ _

theorem splitOnChar_append (separator : Char) (a b : Text) :
    splitOnChar separator (a ++ separator :: b) =
      splitOnChar separator a ++ splitOnChar separator b := by
  induction a with
  | nil => simp [splitOnChar]
  | cons c a ih =>
    rw [List.cons_append, splitOnChar, splitOnChar, ih]
    split
    · rfl
    · cases ha : splitOnChar separator a with
      | nil => exact absurd ha (splitOnChar_ne_nil separator a)
      | cons piece pieces => rfl

theorem splitOnChar_of_notMem {separator : Char} (h : separator ∉ s) :
    splitOnChar separator s = [s] := by
  induction s with
  | nil => rfl
  | cons c s ih =>
    rw [List.mem_cons, not_or] at h
    rw [splitOnChar, if_neg (Ne.symm h.1), ih h.2]

theorem notMem_of_mem_splitOnChar {separator : Char} {piece : Text}
    (h : piece ∈ splitOnChar separator s) : separator ∉ piece := by
  induction s generalizing piece with
  | nil =>
    obtain rfl : piece = [] := by simpa [splitOnChar] using h
    simp
  | cons c s ih =>
    rw [splitOnChar] at h
    split at h
    · rcases List.mem_cons.mp h with rfl | h
      · simp
      · exact ih h
    · next hc =>
      cases hs : splitOnChar separator s with
      | nil =>
        obtain rfl : piece = [c] := by simpa [hs] using h
        simpa using Ne.symm hc
      | cons first pieces =>
        simp only [hs] at h ih
        rcases List.mem_cons.mp h with rfl | h
        · have hfirst := ih List.mem_cons_self
          simpa [hfirst] using Ne.symm hc
        · exact ih (List.mem_cons_of_mem _ h)

theorem intercalate_splitOnChar (separator : Char) (s : Text) :
    List.intercalate [separator] (splitOnChar separator s) = s := by
  rw [splitOnChar_eq_splitOn]
  exact List.intercalate_splitOn separator

/-- Pieces before others, each with the separator that ends it. -/
theorem intercalate_append_of_ne_nil {separator : Char} {a b : List Text} (hb : b ≠ []) :
    List.intercalate [separator] (a ++ b) =
      a.flatMap (· ++ [separator]) ++ List.intercalate [separator] b := by
  induction a with
  | nil => rfl
  | cons piece a ih =>
    rw [List.cons_append, List.intercalate_cons_of_ne_nil (by simp [hb]), ih]
    simp

theorem stripStart?_eq_some_iff {start rest : Text} :
    stripStart? start s = some rest ↔ s = start ++ rest := by
  rw [stripStart?]
  split
  · next h =>
    obtain ⟨tail, rfl⟩ := List.isPrefixOf_iff_prefix.mp h
    simp
  · next h =>
    simp only [reduceCtorEq, false_iff]
    rintro rfl
    exact h (List.isPrefixOf_iff_prefix.mpr (List.prefix_append ..))

theorem lines_ne_nil (s : Text) : s.lines ≠ [] := splitOnChar_ne_nil '\n' s

theorem intercalate_lines (s : Text) : List.intercalate ['\n'] s.lines = s :=
  intercalate_splitOnChar '\n' s

theorem lineCount_pos (s : Text) : 0 < s.lineCount :=
  List.length_pos_iff.mpr (lines_ne_nil s)

/-! ## Whole lines -/

/-- Some lines, each with the line feed that ends it. -/
def ended (lines : List Text) : Text := lines.flatMap (· ++ ['\n'])

@[simp] theorem ended_nil : ended [] = [] := rfl

@[simp] theorem ended_cons (line : Text) (lines : List Text) :
    ended (line :: lines) = line ++ '\n' :: ended lines := by
  simp [ended]

@[simp] theorem ended_append (a b : List Text) : ended (a ++ b) = ended a ++ ended b := by
  simp [ended]

theorem intercalate_append {a b : List Text} (hb : b ≠ []) :
    List.intercalate ['\n'] (a ++ b) = ended a ++ List.intercalate ['\n'] b :=
  intercalate_append_of_ne_nil hb

/-- The whole lines before a line. -/
def linesBefore (s : Text) (n : Nat) : Text := ended (s.lines.take n)

theorem eq_linesBefore_append (h : n < s.lineCount) :
    s = s.linesBefore n ++ List.intercalate ['\n'] (s.lines.drop n) := by
  have hdrop : s.lines.drop n ≠ [] := by
    rw [ne_eq, List.drop_eq_nil_iff]
    exact Nat.not_le.mpr h
  rw [linesBefore, ← intercalate_append hdrop, List.take_append_drop, intercalate_lines]

theorem linesBefore_append (h : n ≤ m) :
    s.linesBefore m = s.linesBefore n ++ ended ((s.lines.take m).drop n) := by
  rw [linesBefore, linesBefore, ← ended_append]
  have hsplit := List.take_append_drop n (s.lines.take m)
  rw [List.take_take, Nat.min_eq_left h] at hsplit
  exact congrArg ended hsplit.symm

theorem lineFeed_notMem_of_mem_lines (h : line ∈ s.lines) : '\n' ∉ line :=
  notMem_of_mem_splitOnChar h

theorem lineFeed_notMem_take (s : Text) (n : Nat) : ∀ line ∈ s.lines.take n, '\n' ∉ line :=
  fun _ h ↦ lineFeed_notMem_of_mem_lines (List.mem_of_mem_take h)

theorem lineFeed_notMem_drop (s : Text) (n : Nat) : ∀ line ∈ s.lines.drop n, '\n' ∉ line :=
  fun _ h ↦ lineFeed_notMem_of_mem_lines (List.mem_of_mem_drop h)

theorem lines_append_lineFeed (h : '\n' ∉ line) (rest : Text) :
    lines (line ++ '\n' :: rest) = line :: lines rest := by
  rw [lines, splitOnChar_append, splitOnChar_of_notMem h]
  rfl

theorem lines_ended_append {before : List Text} (h : ∀ line ∈ before, '\n' ∉ line) (rest : Text) :
    lines (ended before ++ rest) = before ++ lines rest := by
  induction before with
  | nil => rfl
  | cons line before ih =>
    rw [List.forall_mem_cons] at h
    rw [ended_cons, List.append_assoc, List.cons_append, lines_append_lineFeed h.1, ih h.2,
      List.cons_append]

/-- A text that begins with whole lines of another has them as its lines. -/
theorem take_lines_linesBefore_append (h : n ≤ s.lineCount) (rest : Text) :
    (s.linesBefore n ++ rest).lines.take n = s.lines.take n := by
  have hlines : (s.linesBefore n ++ rest).lines = s.lines.take n ++ rest.lines :=
    lines_ended_append (lineFeed_notMem_take s n) rest
  have hlength : (s.lines.take n).length = n := List.length_take_of_le h
  rw [hlines, List.take_append_of_le_length (Nat.le_of_eq hlength.symm), List.take_of_length_le]
  exact Nat.le_of_eq hlength

/-- Whole lines end with a line feed. -/
theorem linesBefore_eq_nil_or_concat (s : Text) (n : Nat) :
    s.linesBefore n = [] ∨ ∃ init, s.linesBefore n = init ++ ['\n'] := by
  rw [linesBefore]
  rcases List.eq_nil_or_concat (s.lines.take n) with h | ⟨before, line, h⟩
  · exact .inl (by rw [h, ended_nil])
  · exact .inr ⟨ended before ++ line, by rw [h]; simp⟩

/-! ## Line breaks -/

/-- What ends a line that has lost its carriage return: nothing, or one. -/
theorem exists_dropCarriageReturn_append (line : Text) :
    ∃ cr, (cr = [] ∨ cr = ['\r']) ∧ line = line.dropCarriageReturn ++ cr := by
  unfold dropCarriageReturn
  split
  · next h =>
    obtain ⟨init, rfl⟩ := List.getLast?_eq_some_iff.mp h
    exact ⟨['\r'], .inr rfl, by simp⟩
  · exact ⟨[], .inl rfl, by simp⟩

theorem lineText_of_lt (h : n < s.lines.length) :
    s.lineText n = dropCarriageReturn s.lines[n] := by
  rw [lineText, List.getElem?_eq_getElem h, Option.getD_some]

theorem lineText_of_le (h : s.lineCount ≤ n) : s.lineText n = [] := by
  rw [lineText, List.getElem?_eq_none h]
  rfl

/-- A line, with all that stands before and behind it. What stands behind it begins with its line
break, of which a carriage return is part. -/
theorem exists_behind_line (h : n < s.lines.length) :
    ∃ cr behind, (cr = [] ∨ cr = ['\r']) ∧ s.lines[n] = s.lineText n ++ cr ∧
      (behind = [] ∨ ∃ rest, behind = '\n' :: rest) ∧
      s = s.linesBefore n ++ s.lineText n ++ (cr ++ behind) := by
  obtain ⟨cr, hcr, hline⟩ := exists_dropCarriageReturn_append s.lines[n]
  rw [← lineText_of_lt h] at hline
  have hs := eq_linesBefore_append h
  rw [List.drop_eq_getElem_cons h] at hs
  cases hrest : s.lines.drop (n + 1) with
  | nil =>
    rw [hrest, List.intercalate_singleton, hline] at hs
    exact ⟨cr, [], hcr, hline, .inl rfl, by simpa using hs⟩
  | cons next rest =>
    rw [hrest, List.intercalate_cons_cons, hline] at hs
    exact ⟨cr, _, hcr, hline, .inr ⟨_, rfl⟩, by simpa using hs⟩

/-! ## Offsets of positions -/

theorem offsetInLines_of_lt (lines : List Text) (h : n < lines.length) :
    offsetInLines lines n column =
      size (ended (lines.take n) ++ (lines[n].dropCarriageReturn).take column) := by
  induction lines generalizing n with
  | nil => simp at h
  | cons line lines ih =>
    cases n with
    | zero => simp [offsetInLines]
    | succ n =>
      have hn : n < lines.length := by simpa using h
      have hlines : lines ≠ [] := List.ne_nil_of_length_pos (Nat.zero_lt_of_lt hn)
      obtain ⟨next, rest, rfl⟩ := List.exists_cons_of_ne_nil hlines
      rw [offsetInLines, ih hn]
      · simp [show ('\n').utf8Size = 1 from rfl]
        omega
      · simp

theorem offsetInLines_of_le (lines : List Text) (hlines : lines ≠ []) (h : lines.length ≤ n) :
    offsetInLines lines n column = size (List.intercalate ['\n'] lines) := by
  induction lines generalizing n with
  | nil => exact absurd rfl hlines
  | cons line lines ih =>
    obtain ⟨n, rfl⟩ : ∃ k, n = k + 1 := ⟨n - 1, by simp at h; omega⟩
    cases lines with
    | nil => simp [offsetInLines]
    | cons next rest =>
      rw [offsetInLines, ih (by simp) (by simpa using h), List.intercalate_cons_cons]
      · simp [show ('\n').utf8Size = 1 from rfl]
        omega
      · simp

theorem offsetOf_of_lt (h : n < s.lineCount) :
    s.offsetOf n column = size (s.linesBefore n ++ (s.lineText n).take column) := by
  rw [offsetOf, offsetInLines_of_lt _ h, lineText_of_lt h]
  rfl

theorem offsetOf_of_le (h : s.lineCount ≤ n) : s.offsetOf n column = size s := by
  rw [offsetOf, offsetInLines_of_le _ (lines_ne_nil s) h, intercalate_lines]

theorem lineStart_of_lt (h : n < s.lineCount) : s.lineStart n = size (s.linesBefore n) := by
  rw [lineStart, offsetOf_of_lt h, List.take_zero, List.append_nil]

theorem lineEnd_of_lt (h : n < s.lineCount) :
    s.lineEnd n = size (s.linesBefore n ++ s.lineText n) := by
  rw [lineEnd, offsetOf_of_lt h, List.take_length]

/-- The place of a position on a line, with what stands behind it on the line. -/
theorem exists_place_of_lt (h : n < s.lineCount) (column : Nat) :
    ∃ behind, s = s.linesBefore n ++ (s.lineText n).take column ++
      ((s.lineText n).drop column ++ behind) := by
  obtain ⟨cr, behind, -, -, -, hs⟩ := exists_behind_line h
  exact ⟨cr ++ behind, by
    rw [List.append_assoc, ← List.append_assoc ((s.lineText n).take column),
      List.take_append_drop, ← List.append_assoc]
    exact hs⟩

/-- Every position has a place in the text. -/
theorem isBoundary_offsetOf (s : Text) (n column : Nat) : isBoundary s (s.offsetOf n column) := by
  by_cases h : n < s.lineCount
  · obtain ⟨behind, hs⟩ := exists_place_of_lt h column
    exact isBoundary_iff.mpr ⟨_, _, hs, offsetOf_of_lt h⟩
  · rw [offsetOf_of_le (Nat.not_lt.mp h)]
    exact isBoundary_size s

theorem lineStart_le_offsetOf (h : n < s.lineCount) (column : Nat) :
    s.lineStart n ≤ s.offsetOf n column := by
  rw [lineStart_of_lt h, offsetOf_of_lt h, size_append]
  exact Nat.le_add_right _ _

theorem lineStart_le_lineStart (hnm : n ≤ m) (hm : m < s.lineCount) :
    s.lineStart n ≤ s.lineStart m := by
  rw [lineStart_of_lt (Nat.lt_of_le_of_lt hnm hm), lineStart_of_lt hm, linesBefore_append hnm,
    size_append]
  exact Nat.le_add_right _ _

/-! ## Texts with the same first lines -/

theorem lt_lineCount_of_take_eq {t : Text} (h : t.lines.take (n + 1) = s.lines.take (n + 1))
    (hn : n < s.lineCount) : n < t.lineCount := by
  have hlength := congrArg List.length h
  rw [List.length_take, List.length_take] at hlength
  change n < t.lines.length
  change n < s.lines.length at hn
  omega

theorem lineText_congr {t : Text} (h : t.lines.take (n + 1) = s.lines.take (n + 1)) :
    t.lineText n = s.lineText n := by
  have hline : t.lines[n]? = s.lines[n]? := by
    rw [← List.getElem?_take_of_lt (Nat.lt_succ_self n), h,
      List.getElem?_take_of_lt (Nat.lt_succ_self n)]
  rw [lineText, lineText, hline]

theorem offsetOf_congr {t : Text} (h : t.lines.take (n + 1) = s.lines.take (n + 1))
    (hn : n < s.lineCount) (column : Nat) : t.offsetOf n column = s.offsetOf n column := by
  have hbefore : t.linesBefore n = s.linesBefore n := by
    have htake := congrArg (List.take n) h
    rw [List.take_take, List.take_take, Nat.min_eq_left (Nat.le_succ n)] at htake
    rw [linesBefore, linesBefore, htake]
  rw [offsetOf_of_lt (lt_lineCount_of_take_eq h hn), offsetOf_of_lt hn, hbefore, lineText_congr h]

/-! ## Lines as spans -/

theorem cuts_line_of_le (h : s.lineCount ≤ n) :
    Span.Cuts ⟨s.lineStart n, s.lineEnd n⟩ s s (s.lineText n) [] where
  text := by simp [lineText_of_le h]
  start := offsetOf_of_le h
  stop := by simp [lineText_of_le h, lineEnd, offsetOf_of_le h]

/-- A line stands between its start and its end. -/
theorem cuts_line (s : Text) (n : Nat) :
    ∃ before behind, Span.Cuts ⟨s.lineStart n, s.lineEnd n⟩ s before (s.lineText n) behind := by
  by_cases h : n < s.lineCount
  · obtain ⟨cr, behind, -, -, -, hs⟩ := exists_behind_line h
    exact ⟨s.linesBefore n, cr ++ behind, hs, lineStart_of_lt h, lineEnd_of_lt h⟩
  · exact ⟨s, [], cuts_line_of_le (Nat.not_lt.mp h)⟩

/-- The whole lines from one line to another stand between the starts of the two. -/
theorem cuts_lines (hnm : n ≤ m) (hm : m < s.lineCount) :
    Span.Cuts ⟨s.lineStart n, s.lineStart m⟩ s (s.linesBefore n)
      (ended ((s.lines.take m).drop n)) (List.intercalate ['\n'] (s.lines.drop m)) := by
  refine ⟨?_, lineStart_of_lt (Nat.lt_of_le_of_lt hnm hm), ?_⟩
  · rw [← linesBefore_append hnm]
    exact eq_linesBefore_append hm
  · rw [← linesBefore_append hnm]
    exact lineStart_of_lt hm

theorem lineStart_lt_lineStart (hnm : n < m) (hm : m < s.lineCount) :
    s.lineStart n < s.lineStart m := by
  apply (cuts_lines (Nat.le_of_lt hnm) hm).start_lt_stop_iff.mpr
  have hlength : 0 < ((s.lines.take m).drop n).length := by
    change m < s.lines.length at hm
    rw [List.length_drop, List.length_take]
    omega
  obtain ⟨line, rest, hlines⟩ := List.exists_cons_of_length_pos hlength
  simp [hlines]

end LintMend.Text
