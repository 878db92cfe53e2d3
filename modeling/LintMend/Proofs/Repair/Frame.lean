import LintMend.Proofs.Edit.Batch
import LintMend.Proofs.Repair.Engine

/-!
# What repairs leave above their lines

Twelve rules make no edit before the start of the line of their hint: they search forward from a
place on it, and where they go back, over a word or over spaces and tabs, they stop at a line feed.
A pass takes the hints from the last to the first. With hints of these rules in the order of their
lines, each is therefore anchored in a text that down to its own line is the one it was reported
for, and there its anchor is the same.
-/

namespace LintMend

open Text

variable {s t before after : Text} {offset n : Nat}

namespace Text

/-! ## Going back from a place on a line -/

theorem lineStart_le_sub_takeEndWhile {p : Char → Bool} (hp : ¬ p '\n') (hn : n < s.lineCount)
    (hs : s = before ++ after) (hle : s.lineStart n ≤ before.size) :
    s.lineStart n ≤ before.size - (before.takeEndWhile p).size := by
  rw [lineStart_of_lt hn] at hle ⊢
  obtain ⟨rest, rfl, -⟩ := exists_append_of_size_le ((eq_linesBefore_append hn).symm.trans hs) hle
  rcases linesBefore_eq_nil_or_concat s n with hnil | ⟨init, hfeed⟩
  · rw [hnil, size_nil]
    exact Nat.zero_le _
  · have hstop : takeEndWhile p (s.linesBefore n ++ rest) = takeEndWhile p rest := by
      rw [hfeed, List.append_assoc]
      exact takeEndWhile_append_cons hp init rest
    have hrest : (dropEndWhile p rest).size + (takeEndWhile p rest).size = rest.size := by
      rw [← size_append, takeEndWhile_append_dropEndWhile]
    rw [hstop, size_append]
    omega

theorem lineStart_le_wordStart? {word : Nat} (hn : n < s.lineCount) (hle : s.lineStart n ≤ offset)
    (hword : s.wordStart? offset = some word) : s.lineStart n ≤ word := by
  rw [wordStart?, Option.bind_eq_bind, Option.bind_eq_some_iff] at hword
  obtain ⟨⟨before, after⟩, hcut, hword⟩ := hword
  obtain ⟨hs, rfl⟩ := splitAt?_eq_some_iff.mp hcut
  simp only [Option.pure_def] at hword
  split at hword
  · obtain rfl : _ = word := by simpa using hword
    exact lineStart_le_sub_takeEndWhile (by decide) hn hs hle
  · obtain rfl : _ = word := by simpa using hword
    exact hle

theorem lineStart_le_sub_gapBefore? {gap : Nat} (hn : n < s.lineCount)
    (hle : s.lineStart n ≤ offset) (hgap : s.gapBefore? offset = some gap) :
    s.lineStart n ≤ offset - gap := by
  obtain ⟨before, hbefore, rfl⟩ := Option.map_eq_some_iff.mp hgap
  obtain ⟨after, hs, rfl⟩ := before?_eq_some_iff.mp hbefore
  exact lineStart_le_sub_takeEndWhile (by decide) hn hs hle

end Text

/-! ## Anchors on one line -/

/-- An anchor whose two places stand on its line or behind it. -/
structure Anchor.FromLine (anchor : Anchor) (s : Text) : Prop extends anchor.Within s where
  start_ge : s.lineStart anchor.lineBegin ≤ anchor.start
  stop_ge : s.lineStart anchor.lineBegin ≤ anchor.stop

theorem Anchor.fromLine_clamp {hint : Hint} (hone : hint.lineEnd = hint.lineBegin) :
    (Anchor.clamp s hint).FromLine s where
  toWithin := Anchor.within_clamp s hint
  start_ge := lineStart_le_offsetOf (Anchor.within_clamp s hint).lineBegin _
  stop_ge := by
    have hline : (Anchor.clamp s hint).lineEnd = (Anchor.clamp s hint).lineBegin := by
      simp only [Anchor.clamp, hone]
    have hstop : (Anchor.clamp s hint).stop =
        s.offsetOf (Anchor.clamp s hint).lineEnd (Anchor.clamp s hint).columnEnd := rfl
    rw [hstop, hline]
    exact lineStart_le_offsetOf (Anchor.within_clamp s hint).lineBegin _

/-- An anchor on one line depends on nothing behind that line. -/
theorem Anchor.clamp_congr {hint : Hint} (hone : hint.lineEnd = hint.lineBegin)
    (hn : hint.lineBegin < s.lineCount)
    (h : t.lines.take (hint.lineBegin + 1) = s.lines.take (hint.lineBegin + 1)) :
    Anchor.clamp t hint = Anchor.clamp s hint := by
  have hline {u : Text} (hu : hint.lineBegin < u.lineCount) :
      min hint.lineBegin (u.lineCount - 1) = hint.lineBegin := by omega
  simp only [Anchor.clamp, Anchor.clampColumn, lineLength, indentation, hone, hline hn,
    hline (lt_lineCount_of_take_eq h hn), lineText_congr h, offsetOf_congr h hn]

namespace Repair

variable {rules : List Rule} {rule : Rule} {anchor : Anchor} {groups : Captures} {edit : Edit}
  {span : Span}

/-! ## Edits from the line on -/

theorem start_of_setSpaces? {count : Nat} (he : setSpaces? s span count = some edit) :
    edit.start = span.start := by
  obtain ⟨rest, held, -, -, -, rfl⟩ := exists_of_setSpaces? he
  rfl

theorem lineStart_le_locate? {token : Text} (h : anchor.FromLine s)
    (hl : locate? s anchor token = some span) : s.lineStart anchor.lineBegin ≤ span.start := by
  obtain ⟨word, hword, hfound, -⟩ := Change.exists_of_locate? hl
  obtain ⟨-, -, -, -, -, hle⟩ := exists_cuts_of_searchFromIgnoringCase? hfound
  exact Nat.le_trans (lineStart_le_wordStart? h.lineBegin h.start_ge hword) hle

namespace Rule

/-- The rules that make no edit before the line of their hint. -/
def staysBelow : Rule → Bool
  | braceSpacing | newlineAfterBrace | blankLinesBeforeClassClose | eofNewline => false
  | _ => true

theorem lineStart_le_spot? (h : anchor.FromLine s) (hrule : rule.staysBelow)
    (ho : rule.spot? s anchor groups = some offset) : s.lineStart anchor.lineBegin ≤ offset := by
  cases rule with
  | keywordSpacing =>
    simp only [spot?, Option.bind_eq_bind, Option.bind_eq_some_iff, Option.pure_def,
      Option.some.injEq] at ho
    obtain ⟨keyword, -, word, hword, found, hfound, rfl⟩ := ho
    obtain ⟨a, held, b, hcuts, -, hle⟩ := exists_cuts_of_searchFromIgnoringCase? hfound
    calc s.lineStart anchor.lineBegin ≤ word :=
          lineStart_le_wordStart? h.lineBegin h.start_ge hword
      _ ≤ found.start := hle
      _ ≤ found.stop := hcuts.start_le_stop
  | indentation =>
    obtain rfl : s.lineStart anchor.lineBegin = offset := by simpa [spot?] using ho
    exact Nat.le_refl _
  | closeParenthesisSpacing =>
    obtain rfl : anchor.stop = offset := by simpa [spot?] using ho
    exact h.stop_ge
  | braceSpacing => simp [staysBelow] at hrule
  | _ => simp [spot?] at ho

end Rule

namespace Change

/-- A brace that is searched from an anchor. -/
theorem lineStart_le_searchFrom? {needle : Text} (h : anchor.FromLine s)
    (hfound : s.searchFrom? anchor.start needle = some span) :
    s.lineStart anchor.lineBegin ≤ span.start := by
  obtain ⟨-, -, -, hle⟩ := exists_cuts_of_searchFrom? hfound
  exact Nat.le_trans h.start_ge hle

theorem lineStart_le_spacesBeforeBrace? (h : anchor.FromLine s)
    (he : spacesBeforeBrace? s anchor groups = some edit) :
    s.lineStart anchor.lineBegin ≤ edit.start := by
  obtain ⟨count, found, gap, -, hfound, -, hgap, he⟩ := exists_of_spacesBeforeBrace? he
  rw [start_of_setSpaces? he]
  exact lineStart_le_sub_gapBefore? h.lineBegin (lineStart_le_searchFrom? h hfound) hgap

theorem lineStart_le_variableOnLine? {name : Text}
    (hfound : s.variableOnLine? n name = some span) : s.lineStart n ≤ span.stop := by
  obtain ⟨found, -, rfl⟩ := Option.map_eq_some_iff.mp hfound
  change s.lineStart n ≤ s.lineStart n + found + name.size
  omega

theorem lineStart_le_defaultValue? (he : defaultValue? s anchor groups = some edit) :
    s.lineStart anchor.lineBegin ≤ edit.start := by
  obtain ⟨name, count, found, equals, gap, -, -, hfound, hequals, -, -, he⟩ :=
    exists_of_defaultValue? he
  obtain ⟨a, b, hcuts, hle⟩ := exists_cuts_of_searchFrom? hequals
  rw [start_of_setSpaces? he]
  calc s.lineStart anchor.lineBegin ≤ found.stop := lineStart_le_variableOnLine? hfound
    _ ≤ equals.start := hle
    _ ≤ equals.stop := hcuts.start_le_stop

theorem lineStart_le_argumentEquals? (he : argumentEquals? s anchor groups = some edit) :
    s.lineStart anchor.lineBegin ≤ edit.start := by
  obtain ⟨name, count, found, gap, behind, -, -, hfound, -, -, he⟩ := exists_of_argumentEquals? he
  rw [start_of_setSpaces? he]
  exact lineStart_le_variableOnLine? hfound

theorem lineStart_le_blankLineAfter? (he : blankLineAfter? s anchor = some edit) :
    s.lineStart anchor.lineBegin ≤ edit.start := by
  obtain ⟨next, rest, held, hnext, -, -, -, rfl⟩ := exists_of_blankLineAfter? he
  obtain ⟨-, hle, hlt, -⟩ := nextCodeLine?_eq_some_iff.mp hnext
  exact lineStart_le_lineStart (Nat.le_succ _) (Nat.lt_of_le_of_lt hle hlt)

theorem lineStart_le_trailingWhitespace? (he : trailingWhitespace? s anchor = some edit) :
    s.lineStart anchor.lineBegin ≤ edit.start := by
  obtain ⟨-, rfl⟩ := exists_of_trailingWhitespace? he
  exact Nat.le_add_right _ _

theorem lineStart_le_moveStatic? {edits : List Edit} (h : anchor.FromLine s)
    (he : moveStatic? s anchor = some edits) :
    ∀ edit ∈ edits, s.lineStart anchor.lineBegin ≤ edit.start := by
  obtain ⟨keyword, space, rest, written, hkeyword, hspace, -, -, rfl⟩ := exists_of_moveStatic? he
  obtain ⟨before, held, after, hcuts, -⟩ := exists_cuts_of_locate? hkeyword
  obtain ⟨a, b, hcuts', hle⟩ := exists_cuts_of_searchFrom? hspace
  have hdelete : s.lineStart anchor.lineBegin ≤ keyword.start := lineStart_le_locate? h hkeyword
  have hinsert : s.lineStart anchor.lineBegin ≤ space.stop :=
    calc s.lineStart anchor.lineBegin ≤ keyword.start := hdelete
      _ ≤ keyword.stop := hcuts.start_le_stop
      _ ≤ space.start := hle
      _ ≤ space.stop := hcuts'.start_le_stop
  intro edit hedit
  rcases List.mem_cons.mp hedit with rfl | hedit
  · exact hdelete
  · obtain rfl : edit = _ := by simpa using hedit
    exact hinsert

end Change

open Change in
/-- No edit of these rules starts before the line of its hint. -/
theorem lineStart_le_of_mem_edits (h : anchor.FromLine s) (hrule : rule.staysBelow)
    (he : edit ∈ rule.edits s anchor groups) : s.lineStart anchor.lineBegin ≤ edit.start := by
  cases hspaces : rule.countsSpaces with
  | true =>
    obtain ⟨counts, before, after, -, hspot, -, hcuts, -⟩ :=
      Rule.cuts_of_countsSpaces h.toWithin hspaces he
    have hstart : edit.start = before.size := hcuts.start
    rw [hstart]
    exact Rule.lineStart_le_spot? h hrule hspot
  | false =>
    cases rule with
    | classBraceOnNewLine =>
      obtain ⟨found, hfound, rfl⟩ := Option.map_eq_some_iff.mp (Option.mem_toList.mp he)
      exact lineStart_le_searchFrom? h hfound
    | openingBraceOnNewLine =>
      obtain ⟨found, hfound, rfl⟩ := Option.map_eq_some_iff.mp (Option.mem_toList.mp he)
      exact lineStart_le_searchFrom? h hfound
    | defaultValueSpacing => exact lineStart_le_defaultValue? (Option.mem_toList.mp he)
    | argumentEqualsSpacing => exact lineStart_le_argumentEquals? (Option.mem_toList.mp he)
    | spacesBeforeOpeningBrace => exact lineStart_le_spacesBeforeBrace? h (Option.mem_toList.mp he)
    | blankLineAfterStatement => exact lineStart_le_blankLineAfter? (Option.mem_toList.mp he)
    | elseIf =>
      obtain ⟨found, hfound, rfl⟩ := Option.map_eq_some_iff.mp (Option.mem_toList.mp he)
      exact lineStart_le_locate? h hfound
    | staticAfterVisibility =>
      rw [Rule.edits] at he
      cases hedits : moveStatic? s anchor with
      | none => simp [hedits] at he
      | some edits =>
        rw [hedits, Option.getD_some] at he
        exact lineStart_le_moveStatic? h hedits edit he
    | trailingWhitespace => exact lineStart_le_trailingWhitespace? (Option.mem_toList.mp he)
    | _ => simp_all [Rule.staysBelow, Rule.countsSpaces]

/-! ## Steps and passes -/

/-- A step of these rules leaves the lines above that of its hint. -/
theorem take_lines_step {hint : Hint} (hone : hint.lineEnd = hint.lineBegin)
    (hn : hint.lineBegin < s.lineCount)
    (hrule : (Rule.find? rules hint.message.toList).all (·.1.staysBelow)) :
    (step rules s hint).1.lines.take hint.lineBegin = s.lines.take hint.lineBegin := by
  cases hfind : Rule.find? rules hint.message.toList with
  | none => rw [step_of_find?_eq_none hfind]
  | some answer =>
    obtain ⟨rule, found⟩ := answer
    obtain ⟨t, ht, hstep⟩ := step_of_find?_eq_some (s := s) hfind
    have hline : (Anchor.clamp s hint).lineBegin = hint.lineBegin := by
      change min hint.lineBegin (s.lineCount - 1) = hint.lineBegin
      omega
    have hfrom : ∀ edit ∈ rule.edits s (Anchor.clamp s hint) found.groups,
        (s.linesBefore hint.lineBegin).size ≤ edit.start := by
      intro edit he
      have hstays : rule.staysBelow := by simpa [hfind] using hrule
      have hle := lineStart_le_of_mem_edits (Anchor.fromLine_clamp hone) hstays he
      rwa [hline, lineStart_of_lt hn] at hle
    have hs := eq_linesBefore_append hn
    rw [hs] at ht
    obtain ⟨rest, rfl⟩ := exists_of_applyEdits_append ht (hs ▸ hfrom)
    rw [hstep]
    exact take_lines_linesBefore_append (Nat.le_of_lt hn) rest

/-- With the hints in the opposite order of their lines, the lines down to that of a hint are still
as they were when a pass comes to it. -/
theorem take_lines_reached {hints : List Hint} {bound : Nat}
    (hlines : hints.Pairwise fun a b ↦ b.lineBegin < a.lineBegin)
    (hone : ∀ hint ∈ hints, hint.lineEnd = hint.lineBegin)
    (hbound : ∀ hint ∈ hints, hint.lineBegin < bound) (hcount : bound ≤ s.lineCount)
    (hrule : ∀ hint ∈ hints, (Rule.find? rules hint.message.toList).all (·.1.staysBelow))
    (ht : t.lines.take bound = s.lines.take bound) :
    ∀ place ∈ reached rules t hints,
      place.2.lines.take (place.1.lineBegin + 1) = s.lines.take (place.1.lineBegin + 1) := by
  induction hints generalizing t bound with
  | nil => simp [reached]
  | cons hint hints ih =>
    have hlt : hint.lineBegin < bound := hbound hint List.mem_cons_self
    have hshort {m : Nat} (hm : m ≤ bound) : t.lines.take m = s.lines.take m := by
      have htake := congrArg (List.take m) ht
      rwa [List.take_take, List.take_take, Nat.min_eq_left hm] at htake
    intro place hplace
    rcases List.mem_cons.mp hplace with rfl | hplace
    · exact hshort hlt
    · have hhint : hint.lineBegin < t.lineCount :=
        lt_lineCount_of_take_eq (hshort hlt) (Nat.lt_of_lt_of_le hlt hcount)
      have hstep := take_lines_step (hone hint List.mem_cons_self) hhint
        (hrule hint List.mem_cons_self)
      rw [List.pairwise_cons] at hlines
      exact ih hlines.2 (fun next h ↦ hone next (List.mem_cons_of_mem _ h)) hlines.1
        (Nat.le_of_lt (Nat.lt_of_lt_of_le hlt hcount))
        (fun next h ↦ hrule next (List.mem_cons_of_mem _ h))
        (hstep.trans (hshort (Nat.le_of_lt hlt))) place hplace

/-- Hints of single lines, in the order of their lines, keep their places: a pass comes to each of
them in a text whose lines down to its own are those of the source, and anchors it there as it
would in the source. -/
theorem anchors_repair_of_staysBelow (rules : List Rule) (s : Text) (hints : List Hint)
    (hlines : hints.Pairwise fun a b ↦ a.lineBegin < b.lineBegin)
    (hinside : ∀ hint ∈ hints, hint.lineEnd = hint.lineBegin ∧ hint.lineBegin < s.lineCount)
    (hrule : ∀ hint ∈ hints, (Rule.find? rules hint.message.toList).all (·.1.staysBelow)) :
    let places := reached rules s hints.reverse
    places.map (·.1) = hints.reverse ∧
    (repair rules s hints).steps = places.map (fun place ↦ (step rules place.2 place.1).2) ∧
    ∀ place ∈ places,
      place.2.lines.take (place.1.lineBegin + 1) = s.lines.take (place.1.lineBegin + 1) ∧
      Anchor.clamp place.2 place.1 = Anchor.clamp s place.1 := by
  intro places
  have hplaces : places.map (·.1) = hints.reverse := map_fst_reached rules s hints.reverse
  refine ⟨hplaces, steps_run rules s hints.reverse, ?_⟩
  intro place hplace
  have htake : place.2.lines.take (place.1.lineBegin + 1) =
      s.lines.take (place.1.lineBegin + 1) := by
    apply take_lines_reached (List.pairwise_reverse.mpr hlines) _ _ (Nat.le_refl _) _ rfl _ hplace
    · intro hint hhint
      exact (hinside hint (List.mem_reverse.mp hhint)).1
    · intro hint hhint
      exact (hinside hint (List.mem_reverse.mp hhint)).2
    · intro hint hhint
      exact hrule hint (List.mem_reverse.mp hhint)
  have hmem : place.1 ∈ hints := by
    rw [← List.mem_reverse, ← hplaces]
    exact List.mem_map_of_mem hplace
  obtain ⟨hone, hn⟩ := hinside place.1 hmem
  exact ⟨htake, Anchor.clamp_congr hone hn htake⟩

/-- The repair for the second hint adds a line below the first one. -/
theorem anchors_repair_of_growing_text :
    let rules : List Rule := [.classBraceOnNewLine, .indentation, .blankLineAfterStatement]
    let s : Text := "<?php\nuse A;\nclass B \x7b\n  f();\n".toList
    let hints : List Hint :=
      [⟨1, 1, 0, 1, "There must be one blank line after the last USE statement; 0 found;",
        default, 100, "phpcs"⟩,
       ⟨2, 2, 8, 9, "Opening brace of a class must be on the line after the definition",
        default, 100, "phpcs"⟩,
       ⟨3, 3, 2, 3, "Line indented incorrectly; expected 4 spaces, found 2", default, 100, "phpcs"⟩]
    (hints.Pairwise fun a b ↦ a.lineBegin < b.lineBegin) ∧
    (∀ hint ∈ hints, hint.lineEnd = hint.lineBegin ∧ hint.lineBegin < s.lineCount) ∧
    (∀ hint ∈ hints, (Rule.find? rules hint.message.toList).all (·.1.staysBelow)) ∧
    (reached rules s hints.reverse).map (·.2) =
      [s, "<?php\nuse A;\nclass B \x7b\n    f();\n".toList,
        "<?php\nuse A;\nclass B \n\x7b\n    f();\n".toList] ∧
    (reached rules s hints.reverse).map (·.1) = hints.reverse ∧
    (repair rules s hints).steps =
      (reached rules s hints.reverse).map (fun place ↦ (step rules place.2 place.1).2) ∧
    ∀ place ∈ reached rules s hints.reverse,
      place.2.lines.take (place.1.lineBegin + 1) = s.lines.take (place.1.lineBegin + 1) ∧
      Anchor.clamp place.2 place.1 = Anchor.clamp s place.1 := by
  intro rules s hints
  have hlines : hints.Pairwise fun a b ↦ a.lineBegin < b.lineBegin := by decide
  have hinside : ∀ hint ∈ hints, hint.lineEnd = hint.lineBegin ∧ hint.lineBegin < s.lineCount := by
    decide
  have hrule : ∀ hint ∈ hints, (Rule.find? rules hint.message.toList).all (·.1.staysBelow) := by
    decide +kernel
  exact ⟨hlines, hinside, hrule, by decide +kernel,
    anchors_repair_of_staysBelow rules s hints hlines hinside hrule⟩

end Repair

end LintMend
