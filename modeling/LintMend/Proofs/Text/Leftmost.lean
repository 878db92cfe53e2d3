import LintMend.Proofs.Text.Slice

/-!
# The leftmost occurrence of a variable

A variable of a line is found by searches in the whole rest of the text, one behind the other: a
search goes on behind an occurrence that a longer name continues, and the last one finds the name
whole, finds it behind the line, or does not find it. Each occurrence ends further on, so the
searches come to an end; no two occurrences of a name overlap, so none is passed over. The end they
come to is the leftmost place of the line at which the name stands whole.
-/

namespace LintMend

open Text

variable {s name : Text} {n start stop : Nat} {span found : Span} {result : Option Span}

/-- A name stands on a line, in front of its line break, and no longer name continues it. -/
structure Span.IsWholeOn (span : Span) (s : Text) (n : Nat) (name : Text) : Prop where
  whole : ∃ before after, span.Cuts s before name after ∧ ¬ after.head?.any isWord
  start : s.lineStart n ≤ span.start
  stop : span.stop ≤ s.lineEnd n

namespace Text

/-! ## The end of the searches -/

/-- The end of the searches for a name from an offset on, one behind the other, where only what is
found at or before `stop` counts. -/
inductive SearchEnds (s name : Text) (stop : Nat) : Nat → Option Span → Prop
  | missing {start : Nat} (search : s.searchFrom? start name = none) :
      SearchEnds s name stop start none
  | beyond {start : Nat} {found : Span} (search : s.searchFrom? start name = some found)
      (limit : stop < found.stop) : SearchEnds s name stop start none
  | whole {start : Nat} {found : Span} {rest : Text}
      (search : s.searchFrom? start name = some found) (limit : found.stop ≤ stop)
      (behind : s.after? found.stop = some rest) (word : ¬ rest.head?.any isWord) :
      SearchEnds s name stop start (some found)
  | continued {start : Nat} {found : Span} {rest : Text} {result : Option Span}
      (search : s.searchFrom? start name = some found) (limit : found.stop ≤ stop)
      (behind : s.after? found.stop = some rest) (word : rest.head?.any isWord)
      (next : SearchEnds s name stop found.stop result) : SearchEnds s name stop start result

/-- A name is not empty, so every search gets further on. -/
theorem lt_stop_of_searchFrom? (hname : name ≠ []) (h : s.searchFrom? start name = some found) :
    start < found.stop := by
  obtain ⟨a, b, hcuts, hle⟩ := exists_cuts_of_searchFrom? h
  exact Nat.lt_of_le_of_lt hle (hcuts.start_lt_stop_iff.mpr hname)

theorem exists_after?_of_searchFrom? (h : s.searchFrom? start name = some found) :
    ∃ rest, s.after? found.stop = some rest := by
  obtain ⟨a, rest, hcuts, -⟩ := exists_cuts_of_searchFrom? h
  exact ⟨rest, hcuts.after?_stop⟩

/-- The searches come to an end. -/
theorem exists_searchEnds (hname : name ≠ []) (s : Text) (stop start : Nat) :
    ∃ result, SearchEnds s name stop start result := by
  -- what is left of the line gets shorter with every search
  induction hleft : stop - start using Nat.strongRecOn generalizing start with
  | ind left ih =>
    subst hleft
    cases search : s.searchFrom? start name with
    | none => exact ⟨none, .missing search⟩
    | some found =>
      rcases Nat.lt_or_ge stop found.stop with limit | limit
      · exact ⟨none, .beyond search limit⟩
      · obtain ⟨rest, behind⟩ := exists_after?_of_searchFrom? search
        by_cases word : rest.head?.any isWord
        · have hlt := lt_stop_of_searchFrom? hname search
          obtain ⟨result, next⟩ := ih (stop - found.stop) (by omega) found.stop rfl
          exact ⟨result, .continued search limit behind word next⟩
        · exact ⟨some found, .whole search limit behind word⟩

theorem variableFrom_of_searchFrom? {rest : Text} (hname : name ≠ [])
    (search : s.searchFrom? start name = some found) (limit : found.stop ≤ stop)
    (behind : s.after? found.stop = some rest) : Sliced.variableFrom s stop name start =
      if rest.head?.any isWord then Sliced.variableFrom s stop name found.stop
      else .ok (some found) := by
  have hlt := lt_stop_of_searchFrom? hname search
  rw [Sliced.variableFrom, search]
  simp only [dif_pos (And.intro limit hlt), Sliced.tail_of_after? behind, Sliced.ok_bind,
    Sliced.pure_eq_ok]

theorem variableFrom_of_searchEnds (hname : name ≠ []) (h : SearchEnds s name stop start result) :
    Sliced.variableFrom s stop name start = .ok result := by
  induction h with
  | missing search =>
    rw [Sliced.variableFrom, search]
    rfl
  | beyond search limit =>
    rw [Sliced.variableFrom, search]
    exact dif_neg fun h ↦ Nat.not_le.mpr limit h.1
  | whole search limit behind word =>
    rw [variableFrom_of_searchFrom? hname search limit behind, if_neg word]
  | continued search limit behind word next ih =>
    rw [variableFrom_of_searchFrom? hname search limit behind, if_pos word, ih]

/-- On a line the searches come to what a test of every place comes to, and to nothing else. -/
theorem searchEnds_line_iff (hname : IsVariable name) :
    SearchEnds s name (s.lineEnd n) (s.lineStart n) result ↔ result = s.variableOnLine? n name := by
  have hends {result : Option Span} (h : SearchEnds s name (s.lineEnd n) (s.lineStart n) result) :
      result = s.variableOnLine? n name := by
    have heq : Sliced.variableOnLine s n name = .ok result :=
      variableFrom_of_searchEnds hname.ne_nil h
    rw [Sliced.variableOnLine_eq hname] at heq
    exact (Except.ok.inj heq).symm
  constructor
  · exact hends
  · rintro rfl
    obtain ⟨result, h⟩ := exists_searchEnds hname.ne_nil s (s.lineEnd n) (s.lineStart n)
    rwa [← hends h]

/-! ## Whole occurrences on a line -/

/-- A name stands whole on a line where it stands whole in the content of the line: what stands
behind that is a line break or nothing, and continues no name. -/
theorem isWholeOn_iff : span.IsWholeOn s n name ↔ ∃ a b, s.lineText n = a ++ (name ++ b) ∧
    span = ⟨s.lineStart n + size a, s.lineStart n + size a + size name⟩ ∧
      ¬ b.head?.any isWord := by
  obtain ⟨before, behind, hcuts, hbehind⟩ := cuts_line_not_isWord s n
  have hstart : s.lineStart n = size before := hcuts.start
  have hstop : s.lineEnd n = size (before ++ s.lineText n) := hcuts.stop
  constructor
  · rintro ⟨⟨ahead, after, hspan, hword⟩, hle, hge⟩
    rw [hstart, hspan.start] at hle
    rw [hstop, hspan.stop] at hge
    have htext : before ++ (s.lineText n ++ behind) = ahead ++ (name ++ after) := by
      rw [← List.append_assoc, ← List.append_assoc, ← hcuts.text, ← hspan.text]
    obtain ⟨a, rfl, hline⟩ := exists_append_of_size_le htext hle
    rw [← List.append_assoc] at hline
    obtain ⟨b, hb, rfl⟩ := exists_append_of_size_le hline.symm (by
      simp only [size_append] at hge ⊢
      omega)
    refine ⟨a, b, by rw [hb, List.append_assoc], ?_, by rwa [head?_append_any hbehind] at hword⟩
    cases span with
    | mk first last =>
      have hfirst : first = size (before ++ a) := hspan.start
      have hlast : last = size (before ++ a ++ name) := hspan.stop
      rw [hfirst, hlast, hstart, size_append, size_append, size_append]
  · rintro ⟨a, b, hline, rfl, hword⟩
    refine ⟨⟨before ++ a, b ++ behind, ⟨?_, ?_, ?_⟩, by rwa [head?_append_any hbehind]⟩,
      Nat.le_add_right _ _, ?_⟩
    · rw [hcuts.text, hline]
      simp
    · rw [hstart, size_append]
    · rw [hstart, size_append, size_append]
    · rw [hstart, hstop, hline]
      simp only [size_append]
      omega

/-- A place of a name is known by its start. -/
theorem eq_of_isWholeOn {other : Span} (h : span.IsWholeOn s n name)
    (hother : other.IsWholeOn s n name) (hstart : span.start = other.start) : span = other := by
  obtain ⟨a, b, -, rfl, -⟩ := isWholeOn_iff.mp h
  obtain ⟨a', b', -, rfl, -⟩ := isWholeOn_iff.mp hother
  change s.lineStart n + size a = s.lineStart n + size a' at hstart
  rw [hstart]

/-- The place that a name is found at is no further on than any other place it stands whole at. -/
theorem leftmost_of_variableOnLine?_eq_some (hname : name ≠ [])
    (h : s.variableOnLine? n name = some span) : span.IsWholeOn s n name ∧
      ∀ other : Span, other.IsWholeOn s n name → span.start ≤ other.start := by
  obtain ⟨found, hfound, rfl⟩ := Option.map_eq_some_iff.mp h
  obtain ⟨a, b, hline, rfl, hwhole, hfirst⟩ := (findWhole?_eq_some_iff hname).mp hfound
  refine ⟨isWholeOn_iff.mpr ⟨a, b, hline, rfl, hwhole⟩, fun other hother ↦ ?_⟩
  obtain ⟨a', b', hline', rfl, hwhole'⟩ := isWholeOn_iff.mp hother
  change s.lineStart n + size a ≤ s.lineStart n + size a'
  refine Nat.add_le_add_left (Nat.le_of_not_lt fun hlt ↦ ?_) _
  -- the name would stand whole before its first whole place
  have hsame := hline'.symm.trans hline
  obtain ⟨skipped, rfl, hskipped⟩ := exists_append_of_size_le hsame (Nat.le_of_lt hlt)
  cases skipped with
  | nil => simp at hlt
  | cons c skipped =>
    refine hfirst a' c skipped rfl ?_
    rw [← List.cons_append, ← hskipped]
    exact startsWhole_append_iff.mpr hwhole'

theorem variableOnLine?_eq_none_iff (hname : name ≠ []) :
    s.variableOnLine? n name = none ↔ ∀ span : Span, ¬ span.IsWholeOn s n name := by
  constructor
  · intro h span hspan
    obtain ⟨a, b, hline, -, hwhole⟩ := isWholeOn_iff.mp hspan
    obtain ⟨c, rest, rfl⟩ := List.exists_cons_of_ne_nil hname
    exact not_startsWhole_of_findWhole?_eq_none (Option.map_eq_none_iff.mp h) hline
      (startsWhole_append_iff.mpr hwhole)
  · intro h
    cases hfound : s.variableOnLine? n name with
    | none => rfl
    | some span => exact absurd (leftmost_of_variableOnLine?_eq_some hname hfound).1 (h span)

/-- The searches for a variable of a line come to one end: the leftmost place of the line at which
the variable stands whole, and nothing exactly if there is no such place. -/
theorem searches_find_leftmost (hname : IsVariable name) (s : Text) (n : Nat) :
    (∀ result, SearchEnds s name (s.lineEnd n) (s.lineStart n) result ↔
      result = s.variableOnLine? n name) ∧
    (∀ span : Span, s.variableOnLine? n name = some span ↔
      span.IsWholeOn s n name ∧
        ∀ other : Span, other.IsWholeOn s n name → span.start ≤ other.start) ∧
    (s.variableOnLine? n name = none ↔ ∀ span : Span, ¬ span.IsWholeOn s n name) := by
  refine ⟨fun result ↦ searchEnds_line_iff hname, fun span ↦ ?_,
    variableOnLine?_eq_none_iff hname.ne_nil⟩
  constructor
  · exact leftmost_of_variableOnLine?_eq_some hname.ne_nil
  · rintro ⟨hspan, hleast⟩
    cases hfound : s.variableOnLine? n name with
    | none => exact absurd hspan ((variableOnLine?_eq_none_iff hname.ne_nil).mp hfound span)
    | some found =>
      obtain ⟨hfirst, hfirstLeast⟩ := leftmost_of_variableOnLine?_eq_some hname.ne_nil hfound
      have hstart := Nat.le_antisymm (hfirstLeast span hspan) (hleast found hfirst)
      rw [eq_of_isWholeOn hfirst hspan hstart]

theorem searches_find_leftmost_behind_longer_names :
    let s : Text := "<?php $a\r\nf($ab, $añ, $bc, $a=1, $a)\r\n$b".toList
    let name : Text := "$a".toList
    (IsVariable name ∧ SearchEnds s name (s.lineEnd 1) (s.lineStart 1) (some ⟨28, 30⟩) ∧
      Span.IsWholeOn ⟨28, 30⟩ s 1 name ∧
      ∀ other : Span, other.IsWholeOn s 1 name → 28 ≤ other.start) ∧
    IsVariable "$b".toList ∧ SearchEnds s "$b".toList (s.lineEnd 1) (s.lineStart 1) none ∧
      ∀ span : Span, ¬ span.IsWholeOn s 1 "$b".toList := by
  intro s name
  have hname : IsVariable name := ⟨"a".toList, by decide, by decide⟩
  have hother : IsVariable "$b".toList := ⟨"b".toList, by decide, by decide⟩
  obtain ⟨hends, hleast, -⟩ := searches_find_leftmost hname s 1
  obtain ⟨hends', -, hnone⟩ := searches_find_leftmost hother s 1
  have hfound : s.variableOnLine? 1 name = some ⟨28, 30⟩ := by decide
  have hmissing : s.variableOnLine? 1 "$b".toList = none := by decide
  exact ⟨⟨hname, (hends _).mpr hfound.symm, (hleast ⟨28, 30⟩).mp hfound⟩, hother,
    (hends' _).mpr hmissing.symm, hnone.mp hmissing⟩

end Text

end LintMend
