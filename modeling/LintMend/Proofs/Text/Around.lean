import LintMend.Proofs.Text.Lines
import LintMend.Proofs.Text.Search

/-!
# A line and what stands around it

A line is a text of its own. What is read from a place on it, up to its end, is the same in the
whole text as in the line, except that offsets differ by the size of what stands before the line: a
line feed is in no word and in no run of spaces and tabs, and a needle without a line feed is found
on the line or begins behind it.
-/

namespace LintMend

/-- The span at a distance behind. -/
def Span.shift (distance : Nat) (span : Span) : Span :=
  ⟨distance + span.start, distance + span.stop⟩

namespace Text

variable {before line behind needle : Text} {earlier later : List Text} {offset n : Nat}

/-! ## Texts around a line -/

/-- Some lines, each with a line feed before it. -/
def led (lines : List Text) : Text := lines.flatMap ('\n' :: ·)

/-- A text of which one line is singled out. -/
def around (earlier later : List Text) (line : Text) : Text := ended earlier ++ line ++ led later

theorem led_append_cons (above : List Text) (line : Text) (later : List Text) :
    led (above ++ line :: later) = '\n' :: (ended above ++ (line ++ led later)) := by
  induction above with
  | nil => simp [led]
  | cons first above ih =>
    have hcons : led (first :: (above ++ line :: later)) =
        '\n' :: (first ++ led (above ++ line :: later)) := by
      simp [led]
    rw [List.cons_append, hcons, ih]
    simp

theorem intercalate_cons_eq (line : Text) (later : List Text) :
    List.intercalate ['\n'] (line :: later) = line ++ led later := by
  induction later generalizing line with
  | nil => simp [led]
  | cons next later ih =>
    rw [List.intercalate_cons_cons, ih]
    simp [led]

theorem lines_around (hearlier : ∀ l ∈ earlier, '\n' ∉ l) (hlater : ∀ l ∈ later, '\n' ∉ l)
    (hline : '\n' ∉ line) : (around earlier later line).lines = earlier ++ line :: later := by
  rw [around, List.append_assoc, lines_ended_append hearlier]
  congr 1
  induction later generalizing line with
  | nil =>
    rw [led, List.flatMap_nil, List.append_nil]
    exact splitOnChar_of_notMem hline
  | cons next later ih =>
    rw [List.forall_mem_cons] at hlater
    rw [led, List.flatMap_cons, List.cons_append, lines_append_lineFeed hline]
    exact congrArg (line :: ·) (ih hlater.2 hlater.1)

theorem lines_intercalate {ls : List Text} (hne : ls ≠ []) (h : ∀ l ∈ ls, '\n' ∉ l) :
    lines (List.intercalate ['\n'] ls) = ls := by
  obtain ⟨line, later, rfl⟩ := List.exists_cons_of_ne_nil hne
  rw [List.forall_mem_cons] at h
  have hnone : ∀ l ∈ ([] : List Text), '\n' ∉ l := fun l hl ↦ absurd hl List.not_mem_nil
  rw [intercalate_cons_eq]
  exact lines_around hnone h.2 h.1

/-- The lines of a text that goes on with the lines of another from one of them on. -/
theorem lines_ended_append_drop {s : Text} (h : ∀ l ∈ earlier, '\n' ∉ l) (hn : n < s.lineCount) :
    lines (ended earlier ++ List.intercalate ['\n'] (s.lines.drop n)) =
      earlier ++ s.lines.drop n := by
  have hrest : s.lines.drop n ≠ [] := by
    rw [ne_eq, List.drop_eq_nil_iff]
    exact Nat.not_le.mpr hn
  rw [lines_ended_append h, lines_intercalate hrest]
  exact lineFeed_notMem_drop s n

theorem eq_around {s : Text} (h : s.lines[n]? = some line) :
    s = around (s.lines.take n) (s.lines.drop (n + 1)) line := by
  obtain ⟨hn, hline⟩ := List.getElem?_eq_some_iff.mp h
  calc s = ended (s.lines.take n) ++ List.intercalate ['\n'] (s.lines.drop n) :=
        eq_linesBefore_append hn
    _ = ended (s.lines.take n) ++ (line ++ led (s.lines.drop (n + 1))) := by
      rw [List.drop_eq_getElem_cons hn, hline, intercalate_cons_eq]
    _ = around (s.lines.take n) (s.lines.drop (n + 1)) line := (List.append_assoc ..).symm

/-- A text with its lines is put together in one way only. -/
theorem eq_of_lines_eq {s t : Text} (h : s.lines = t.lines) : s = t := by
  rw [← intercalate_lines s, h, intercalate_lines]

theorem size_takeEndWhile_le (p : Char → Bool) (s : Text) : size (takeEndWhile p s) ≤ size s := by
  have hsize := congrArg size (takeEndWhile_append_dropEndWhile p s)
  rw [size_append] at hsize
  omega

theorem le_of_gapBefore? {s : Text} {gap : Nat} (h : gapBefore? s offset = some gap) :
    gap ≤ offset := by
  obtain ⟨before, hbefore, rfl⟩ := Option.map_eq_some_iff.mp h
  obtain ⟨_, -, rfl⟩ := before?_eq_some_iff.mp hbefore
  exact size_takeEndWhile_le isSpaceOrTab before

theorem exists_wordStart? {s : Text} (ho : isBoundary s offset) :
    ∃ word, isBoundary s word ∧ wordStart? s offset = some word := by
  obtain ⟨a, b, rfl, rfl⟩ := isBoundary_iff.mp ho
  rw [wordStart?, splitAt?_size_append]
  simp only [Option.bind_eq_bind, Option.bind_some]
  split
  · refine ⟨_, ?_, rfl⟩
    have hsplit := takeEndWhile_append_dropEndWhile isWord a
    have hsize := congrArg size hsplit
    rw [size_append] at hsize
    refine isBoundary_iff.mpr ⟨dropEndWhile isWord a, takeEndWhile isWord a ++ b, ?_, by omega⟩
    rw [← List.append_assoc, hsplit]
  · exact ⟨_, ho, rfl⟩

/-! ## What stands around -/

/-- What a line can have around it: on either side nothing, or the line feed that is next to it. -/
structure Surrounds (before behind : Text) : Prop where
  above : before = [] ∨ ∃ init, before = init ++ ['\n']
  below : behind = [] ∨ ∃ rest, behind = '\n' :: rest

theorem surrounds_around (earlier later : List Text) : Surrounds (ended earlier) (led later) where
  above := by
    rcases List.eq_nil_or_concat earlier with rfl | ⟨init, last, rfl⟩
    · exact .inl rfl
    · exact .inr ⟨ended init ++ last, by simp⟩
  below := by
    cases later with
    | nil => exact .inl rfl
    | cons next later => exact .inr ⟨next ++ led later, rfl⟩

namespace Surrounds

variable (h : Surrounds before behind)

include h

theorem takeWhile_append {p : Char → Bool} (hp : p '\n' = false) (a : Text) :
    (a ++ behind).takeWhile p = a.takeWhile p := by
  rw [List.takeWhile_append]
  split
  · next hall =>
    have hbegins := List.takeWhile_prefix p (l := a)
    rw [hbegins.eq_of_length hall]
    rcases h.below with rfl | ⟨rest, rfl⟩
    · simp
    · simp [hp]
  · rfl

theorem takeEndWhile_append {p : Char → Bool} (hp : p '\n' = false) (a : Text) :
    takeEndWhile p (before ++ a) = takeEndWhile p a := by
  rcases h.above with rfl | ⟨init, rfl⟩
  · rfl
  · rw [List.append_assoc]
    exact takeEndWhile_append_cons (by simp [hp]) init a

theorem head?_any_append {p : Char → Bool} (hp : p '\n' = false) (a : Text) :
    (a ++ behind).head?.any p = a.head?.any p := by
  apply head?_append_any
  rcases h.below with rfl | ⟨rest, rfl⟩ <;> simp [hp]

/-! ## Words and runs -/

theorem wordStart?_add (ho : isBoundary line offset) :
    wordStart? (before ++ line ++ behind) (size before + offset) =
      (wordStart? line offset).map (size before + ·) := by
  obtain ⟨a, b, rfl, rfl⟩ := isBoundary_iff.mp ho
  have hword : isWord '\n' = false := by decide
  have hle : size (takeEndWhile isWord a) ≤ size a := size_takeEndWhile_le isWord a
  have hs : before ++ (a ++ b) ++ behind = before ++ a ++ (b ++ behind) := by simp
  rw [hs, ← size_append, wordStart?, wordStart?, splitAt?_size_append, splitAt?_size_append]
  simp only [Option.bind_eq_bind, Option.bind_some, h.head?_any_append hword,
    h.takeEndWhile_append hword]
  split
  · simp only [Option.pure_def, Option.map_some, size_append, Nat.add_sub_assoc hle]
  · simp only [Option.pure_def, Option.map_some, size_append]

theorem gapAfter?_add (ho : isBoundary line offset) :
    gapAfter? (before ++ line ++ behind) (size before + offset) = gapAfter? line offset := by
  obtain ⟨a, b, rfl, rfl⟩ := isBoundary_iff.mp ho
  have hs : before ++ (a ++ b) ++ behind = before ++ a ++ (b ++ behind) := by simp
  rw [hs, ← size_append, gapAfter?, gapAfter?, after?_size_append, after?_size_append,
    Option.map_some, Option.map_some, h.takeWhile_append (by decide)]

theorem gapBefore?_add (ho : isBoundary line offset) :
    gapBefore? (before ++ line ++ behind) (size before + offset) = gapBefore? line offset := by
  obtain ⟨a, b, rfl, rfl⟩ := isBoundary_iff.mp ho
  have hs : before ++ (a ++ b) ++ behind = before ++ a ++ (b ++ behind) := by simp
  rw [hs, ← size_append, gapBefore?, gapBefore?, before?_size_append, before?_size_append,
    Option.map_some, Option.map_some, h.takeEndWhile_append (by decide)]

end Surrounds

/-! ## Searches -/

/-- A text that can be searched for on one line. -/
structure IsNeedle (needle : Text) : Prop where
  ne_nil : needle ≠ []
  lineFeed_notMem : '\n' ∉ needle

namespace Surrounds

variable (h : Surrounds before behind) (hneedle : IsNeedle needle)

include h hneedle

theorem prefix_append_iff (a : Text) : needle <+: a ++ behind ↔ needle <+: a := by
  constructor
  · rintro ⟨rest, hrest⟩
    rcases List.append_eq_append_iff.mp hrest with ⟨more, ha, -⟩ | ⟨more, hmore, hbehind⟩
    · exact ⟨more, ha.symm⟩
    · rcases h.below with hnil | ⟨tail, hfeed⟩
      · have hmore' : more = [] := (List.append_eq_nil_iff.mp (hbehind.symm.trans hnil)).1
        exact ⟨[], by rw [hmore, hmore']; simp⟩
      · cases more with
        | nil => exact ⟨[], by rw [hmore]; simp⟩
        | cons c more =>
          rw [hfeed] at hbehind
          obtain ⟨rfl, -⟩ := List.cons.inj hbehind
          exact absurd (by rw [hmore]; simp) hneedle.lineFeed_notMem
  · exact fun hbegins ↦ hbegins.trans (List.prefix_append a behind)

/-- What is found in a text around a line is found on the line or behind it. -/
theorem find?_append (a : Text) :
    find? needle (a ++ behind) = (find? needle a).or ((find? needle behind).map (size a + ·)) := by
  induction a with
  | nil =>
    have hnone : find? needle [] = none := by simp [find?, hneedle.ne_nil]
    simp [hnone]
  | cons c a ih =>
    have hbegins : needle.isPrefixOf (c :: (a ++ behind)) = needle.isPrefixOf (c :: a) := by
      rw [Bool.eq_iff_iff, List.isPrefixOf_iff_prefix, List.isPrefixOf_iff_prefix,
        ← List.cons_append, h.prefix_append_iff hneedle]
    rw [List.cons_append, find?, find?, hbegins]
    split
    · rfl
    · rw [ih, Option.map_or, Option.map_map]
      congr 2
      funext n
      simp [Nat.add_assoc]

theorem pos_of_find?_behind (hf : find? needle behind = some n) : 0 < n := by
  rcases h.below with rfl | ⟨rest, rfl⟩
  · simp [find?, hneedle.ne_nil] at hf
  · have hbegins : ¬ needle.isPrefixOf ('\n' :: rest) := by
      rw [List.isPrefixOf_iff_prefix]
      intro hbegins
      have hnil : needle <+: [] := (h.prefix_append_iff hneedle []).mp hbegins
      exact hneedle.ne_nil (List.prefix_nil.mp hnil)
    rw [find?, if_neg hbegins] at hf
    obtain ⟨m, -, rfl⟩ := Option.map_eq_some_iff.mp hf
    exact Nat.add_pos_left ('\n').utf8Size_pos m

theorem searchFrom?_add_eq_some {found : Span} (hf : searchFrom? line offset needle = some found) :
    searchFrom? (before ++ line ++ behind) (size before + offset) needle =
      some (found.shift (size before)) := by
  simp only [searchFrom?, Option.bind_eq_bind, Option.bind_eq_some_iff, Option.pure_def,
    Option.some.injEq] at hf
  obtain ⟨rest, hrest, n, hn, rfl⟩ := hf
  obtain ⟨a, rfl, rfl⟩ := after?_eq_some_iff.mp hrest
  have hs : before ++ (a ++ rest) ++ behind = before ++ a ++ (rest ++ behind) := by simp
  rw [hs, ← size_append, searchFrom?, after?_size_append]
  simp only [Option.bind_eq_bind, Option.bind_some, h.find?_append hneedle, hn, Option.some_or,
    Option.pure_def, Span.shift, size_append, Nat.add_assoc]

theorem lt_start_of_searchFrom?_add (ho : isBoundary line offset) {found : Span}
    (hnone : searchFrom? line offset needle = none)
    (hf : searchFrom? (before ++ line ++ behind) (size before + offset) needle = some found) :
    size (before ++ line) < found.start := by
  obtain ⟨a, b, rfl, rfl⟩ := isBoundary_iff.mp ho
  have hs : before ++ (a ++ b) ++ behind = before ++ a ++ (b ++ behind) := by simp
  simp only [searchFrom?, after?_size_append, Option.bind_eq_bind, Option.bind_some,
    Option.bind_eq_none_iff, reduceCtorEq, imp_false, Option.pure_def] at hnone
  have hb : find? needle b = none := Option.eq_none_iff_forall_ne_some.mpr hnone
  rw [hs, ← size_append, searchFrom?, after?_size_append] at hf
  simp only [Option.bind_eq_bind, Option.bind_some, h.find?_append hneedle, hb, Option.none_or,
    Option.bind_eq_some_iff, Option.map_eq_some_iff, Option.pure_def, Option.some.injEq] at hf
  obtain ⟨-, ⟨n, hn, rfl⟩, rfl⟩ := hf
  have hpos := h.pos_of_find?_behind hneedle hn
  change size (before ++ (a ++ b)) < size (before ++ a) + (size b + n)
  simp only [size_append]
  omega

end Surrounds

/-! ## Searches in either case -/

theorem asciiLower_append (a b : Text) : asciiLower (a ++ b) = asciiLower a ++ asciiLower b :=
  List.map_append

/-- To ignore the case of letters is to search lower case for lower case. -/
theorem searchFromIgnoringCase?_eq {s : Text} (ho : isBoundary s offset) (needle : Text) :
    searchFromIgnoringCase? s offset needle =
      searchFrom? s.asciiLower offset needle.asciiLower := by
  obtain ⟨a, b, rfl, rfl⟩ := isBoundary_iff.mp ho
  have hlower : after? (a ++ b).asciiLower (size a) = some b.asciiLower := by
    rw [asciiLower_append, ← size_asciiLower a, after?_size_append]
  rw [searchFromIgnoringCase?, searchFrom?, after?_size_append, hlower, size_asciiLower]
  rfl

theorem Surrounds.asciiLower (h : Surrounds before behind) :
    Surrounds before.asciiLower behind.asciiLower where
  above := by
    rcases h.above with rfl | ⟨init, rfl⟩
    · exact .inl rfl
    · exact .inr ⟨init.asciiLower, asciiLower_append init _⟩
  below := by
    rcases h.below with rfl | ⟨rest, rfl⟩
    · exact .inl rfl
    · exact .inr ⟨Text.asciiLower rest, rfl⟩

theorem isBoundary_asciiLower {s : Text} (ho : isBoundary s offset) :
    isBoundary s.asciiLower offset := by
  obtain ⟨a, b, rfl, rfl⟩ := isBoundary_iff.mp ho
  rw [asciiLower_append, ← size_asciiLower a]
  exact isBoundary_size_append _ _

theorem isBoundary_add (before behind : Text) (ho : isBoundary line offset) :
    isBoundary (before ++ line ++ behind) (size before + offset) := by
  obtain ⟨a, b, rfl, rfl⟩ := isBoundary_iff.mp ho
  exact isBoundary_iff.mpr ⟨before ++ a, b ++ behind, by simp, (size_append before a).symm⟩

end Text

end LintMend
