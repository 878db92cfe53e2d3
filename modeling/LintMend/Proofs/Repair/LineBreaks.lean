import LintMend.Proofs.Repair.Pattern
import LintMend.Proofs.Text.Around
import Mathlib.Data.List.Infix

/-!
# Line breaks next to braces

Behind a brace a message is repaired by its counts: missing line feeds are put directly behind the
last brace before the end of the hint, and of surplus ones no more is deleted than blank characters
up to a line feed, so that code stays and so does the indentation before it. Above the closing brace
of a class there are no counts: the blank lines directly above the line of the hint go, and every
other line stays as it is.
-/

namespace LintMend.Repair

open Text

variable {s before after front mid rest : Text} {rules : List Rule} {hint : Hint}
  {found : Pattern.Match} {anchor : Anchor} {groups : Captures} {expected counted : Nat}
  {span : Span}

/-- The pass over one hint that ends with a text and an outcome. -/
def Pass.ofOutcome (s : Text) (hint : Hint) (t : Text) (outcome : Outcome) : Pass :=
  ⟨t, [⟨(Anchor.clamp s hint).lineBegin, hint.message, outcome⟩]⟩

/-! ## Behind a brace -/

theorem exists_brace_eq_singleton (groups : Captures) (i : Nat) : ∃ c, brace groups i = [c] := by
  rw [brace]
  split <;> exact ⟨_, rfl⟩

theorem exists_last_brace (h : brace groups 1 <:+: before) :
    ∃ front mid, before = front ++ brace groups 1 ++ mid ∧ ¬ brace groups 1 <:+: mid := by
  obtain ⟨c, hc⟩ := exists_brace_eq_singleton groups 1
  rw [hc, List.singleton_infix_iff, ← List.mem_reverse] at h
  obtain ⟨a, b, hreverse, hlast⟩ := List.eq_append_cons_of_mem h
  refine ⟨b.reverse, a.reverse, ?_, ?_⟩
  · rw [← List.reverse_reverse before, hreverse, hc]
    simp
  · rwa [hc, List.singleton_infix_iff, List.mem_reverse]

theorem exists_cuts_of_last_brace (hs : s = before ++ after) (hstop : anchor.stop = size before)
    (hbefore : before = front ++ brace groups 1 ++ mid) (hlast : ¬ brace groups 1 <:+: mid) :
    ∃ span, s.searchBefore? anchor.stop (brace groups 1) = some span ∧
      span.Cuts s front (brace groups 1) (mid ++ after) := by
  obtain ⟨c, hc⟩ := exists_brace_eq_singleton groups 1
  rw [hc, List.singleton_infix_iff] at hlast
  rw [hc] at hbefore ⊢
  refine searchBefore?_singleton ?_ ?_ (List.prefix_append mid after) hlast
  · rw [hs, hbefore]
    simp
  · rw [hstop, hbefore]
    simp

namespace Change

theorem newlineAfterBrace?_of_lt (hexpected : groups.number? 0 = some expected)
    (hcounted : groups.number? 2 = some counted) (hlt : counted < expected)
    (hspan : s.searchBefore? anchor.stop (brace groups 1) = some span) :
    newlineAfterBrace? s anchor groups =
      some (.insert span.stop (List.replicate (expected - counted) '\n')) := by
  simp [newlineAfterBrace?, hexpected, hcounted, hspan, hlt]

theorem newlineAfterBrace?_of_le (hexpected : groups.number? 0 = some expected)
    (hcounted : groups.number? 2 = some counted) (hle : expected ≤ counted)
    (hspan : s.searchBefore? anchor.stop (brace groups 1) = some span)
    (hcuts : span.Cuts s front (brace groups 1) rest) :
    ∃ gone kept, rest = gone ++ kept ∧ LeadingBreaks (counted - expected) rest gone ∧
      newlineAfterBrace? s anchor groups =
        if gone = [] then none else some (.delete span.stop (span.stop + size gone)) := by
  obtain ⟨gone, kept, hrest, hsize, hbreaks⟩ := exists_surplusBreaks (counted - expected) rest
  refine ⟨gone, kept, hrest, hbreaks, ?_⟩
  have hnot : ¬ expected > counted := by omega
  simp only [newlineAfterBrace?, hexpected, hcounted, hspan, Option.bind_eq_bind, Option.bind_some,
    if_neg hnot, hcuts.after?_stop, hsize]
  split
  · next hzero => rw [if_pos (size_eq_zero_iff.mp hzero)]
  · next n hn =>
    have hne : gone ≠ [] := size_pos_iff.mp (by omega)
    rw [if_neg hne, hn]

end Change

section Brace

variable (hfind : Rule.find? rules hint.message.toList = some (.newlineAfterBrace, found))

include hfind

theorem repair_of_missing_breaks (hexpected : found.groups.number? 0 = some expected)
    (hcounted : found.groups.number? 2 = some counted) (hlt : counted < expected)
    (hspan : s.searchBefore? (Anchor.clamp s hint).stop (brace found.groups 1) = some span)
    (hcuts : span.Cuts s front (brace found.groups 1) rest) :
    repair rules s [hint] = .ofOutcome s hint
      (front ++ brace found.groups 1 ++ List.replicate (expected - counted) '\n' ++ rest)
      (.applied .newlineAfterBrace 1) := by
  have hedit := Change.newlineAfterBrace?_of_lt hexpected hcounted hlt hspan
  have hinsert : (Edit.insert span.stop (List.replicate (expected - counted) '\n')).span.Cuts s
      (front ++ brace found.groups 1) [] rest := cuts_insert _ hcuts.text hcuts.stop
  rw [repair_singleton, step_of_edits_eq_singleton hfind (by rw [Rule.edits, hedit]; rfl) hinsert]
  rfl

theorem repair_of_surplus_breaks (hexpected : found.groups.number? 0 = some expected)
    (hcounted : found.groups.number? 2 = some counted) (hle : expected ≤ counted)
    (hspan : s.searchBefore? (Anchor.clamp s hint).stop (brace found.groups 1) = some span)
    (hcuts : span.Cuts s front (brace found.groups 1) rest) :
    ∃ gone kept, rest = gone ++ kept ∧ Change.LeadingBreaks (counted - expected) rest gone ∧
      repair rules s [hint] = .ofOutcome s hint (front ++ brace found.groups 1 ++ kept)
        (if gone = [] then .notApplied .newlineAfterBrace else .applied .newlineAfterBrace 1) := by
  obtain ⟨gone, kept, hrest, hbreaks, hedit⟩ :=
    Change.newlineAfterBrace?_of_le hexpected hcounted hle hspan hcuts
  refine ⟨gone, kept, hrest, hbreaks, ?_⟩
  rw [hrest] at hcuts
  by_cases hgone : gone = []
  · rw [if_pos hgone] at hedit
    rw [repair_singleton, step_of_edits_eq_nil hfind (by rw [Rule.edits, hedit]; rfl),
      if_pos hgone, ← List.nil_append kept, ← hgone, ← hcuts.text]
    rfl
  · rw [if_neg hgone] at hedit
    have hdelete : (Edit.delete span.stop (span.stop + size gone)).span.Cuts s
        (front ++ brace found.groups 1) gone kept := by
      refine ⟨by rw [hcuts.text]; simp, hcuts.stop, ?_⟩
      rw [size_append, ← hcuts.stop]
      rfl
    rw [repair_singleton, step_of_edits_eq_singleton hfind (by rw [Rule.edits, hedit]; rfl)
      hdelete, if_neg hgone]
    simp [Pass.ofOutcome, Edit.delete]

theorem repair_of_unread_counts
    (hnone : found.groups.number? 0 = none ∨ found.groups.number? 2 = none) :
    repair rules s [hint] = .ofOutcome s hint s (.notApplied .newlineAfterBrace) := by
  have hedit : Change.newlineAfterBrace? s (Anchor.clamp s hint) found.groups = none := by
    rcases hnone with hnone | hnone
    · simp [Change.newlineAfterBrace?, hnone]
    · cases found.groups.number? 0 <;> simp [Change.newlineAfterBrace?, hnone]
  rw [repair_singleton, step_of_edits_eq_nil hfind (by rw [Rule.edits, hedit]; rfl)]
  rfl

/-- With the last brace before the end of a hint, and what stands behind that brace, the whole of a
repair for a message about the line breaks there. -/
theorem repair_newlineAfterBrace (hs : s = before ++ after)
    (hstop : (Anchor.clamp s hint).stop = size before) (hbrace : brace found.groups 1 <:+: before) :
    ∃ front mid, before = front ++ brace found.groups 1 ++ mid ∧
      ¬ brace found.groups 1 <:+: mid ∧
      (∀ expected ∈ found.groups.number? 0, ∀ counted ∈ found.groups.number? 2,
        (counted < expected → repair rules s [hint] = .ofOutcome s hint
          (front ++ brace found.groups 1 ++ List.replicate (expected - counted) '\n' ++
            (mid ++ after)) (.applied .newlineAfterBrace 1)) ∧
        (expected ≤ counted → ∃ gone kept, mid ++ after = gone ++ kept ∧
          Change.LeadingBreaks (counted - expected) (mid ++ after) gone ∧
          repair rules s [hint] = .ofOutcome s hint (front ++ brace found.groups 1 ++ kept)
            (if gone = [] then .notApplied .newlineAfterBrace
              else .applied .newlineAfterBrace 1))) ∧
      (found.groups.number? 0 = none ∨ found.groups.number? 2 = none →
        repair rules s [hint] = .ofOutcome s hint s (.notApplied .newlineAfterBrace)) := by
  obtain ⟨front, mid, hbefore, hlast⟩ := exists_last_brace hbrace
  obtain ⟨span, hspan, hcuts⟩ := exists_cuts_of_last_brace hs hstop hbefore hlast
  refine ⟨front, mid, hbefore, hlast, fun expected hexpected counted hcounted ↦ ⟨?_, ?_⟩,
    repair_of_unread_counts hfind⟩
  · exact fun hlt ↦ repair_of_missing_breaks hfind hexpected hcounted hlt hspan hcuts
  · exact fun hle ↦ repair_of_surplus_breaks hfind hexpected hcounted hle hspan hcuts

end Brace

/-- Two of the three line breaks behind a brace are surplus; a tab between them goes too, and the
indentation of the code stays. -/
theorem repair_newlineAfterBrace_of_mixed_breaks :
    let before : Text := "<?php\nif ($a) \x7b".toList
    let after : Text := "\r\n\t\r\n\n  f();\n\x7d\n".toList
    let hint : Hint :=
      ⟨1, 1, 8, 9, "Expected 1 newline after opening brace; 3 found", default, 100, "phpcs"⟩
    (repair Rule.all (before ++ after) [hint]).text =
        "<?php\nif ($a) \x7b\n  f();\n\x7d\n".toList ∧
      ∃ front mid gone kept, before = front ++ ['\x7b'] ++ mid ∧ '\x7b' ∉ mid ∧
        mid ++ after = gone ++ kept ∧ Change.LeadingBreaks 2 (mid ++ after) gone ∧
        (repair Rule.all (before ++ after) [hint]).text = front ++ ['\x7b'] ++ kept := by
  intro before after hint
  let groups : Captures := [some "1".toList, some "opening".toList, some "3".toList]
  let found : Pattern.Match := ⟨hint.message.toList, groups⟩
  have hfind : Rule.find? Rule.all hint.message.toList = some (.newlineAfterBrace, found) :=
    Rule.find?_eq_some_iff.mpr ⟨by decide, by decide +kernel⟩
  have hbrace : brace groups 1 = ['\x7b'] := by decide
  constructor
  · rw [repair_singleton, step, hfind]
    decide +kernel
  · obtain ⟨front, mid, hbefore, hlast, hcounts, -⟩ := repair_newlineAfterBrace hfind
      (show before ++ after = before ++ after from rfl) (by decide +kernel)
      (hbrace ▸ (List.singleton_infix_iff _ _).mpr (by decide))
    obtain ⟨gone, kept, hrest, hbreaks, hpass⟩ :=
      (hcounts 1 (by decide) 3 (by decide)).2 (by decide)
    refine ⟨front, mid, gone, kept, hbefore, ?_, hrest, hbreaks, congrArg Pass.text hpass⟩
    exact fun hmem ↦ hlast ((List.singleton_infix_iff _ _).mpr hmem)

/-- Counts of more than 64 bits cannot be read, and no line break is deleted for them. -/
theorem not_leadingBreaks_of_unread_count :
    let s : Text := "x \x7b\x7d\n\n\nfoo".toList
    let hint : Hint := ⟨0, 0, 2, 4,
      "Expected 0 newlines after closing brace; 18446744073709551616 found", default, 100, "phpcs"⟩
    (Rule.find? Rule.all hint.message.toList).map (·.1) = some .newlineAfterBrace ∧
      (Anchor.clamp s hint).stop = size "x \x7b\x7d".toList ∧
      repair Rule.all s [hint] = .ofOutcome s hint s (.notApplied .newlineAfterBrace) ∧
      ¬ Change.LeadingBreaks (18446744073709551616 - 0) "\n\n\nfoo".toList [] := by
  intro s hint
  let groups : Captures :=
    [some "0".toList, some "closing".toList, some "18446744073709551616".toList]
  let found : Pattern.Match := ⟨hint.message.toList, groups⟩
  have hfind : Rule.find? Rule.all hint.message.toList = some (.newlineAfterBrace, found) :=
    Rule.find?_eq_some_iff.mpr ⟨by decide, by decide +kernel⟩
  refine ⟨by rw [hfind]; rfl, by decide +kernel,
    repair_of_unread_counts hfind (.inr (by decide +kernel)), fun hbreaks ↦ ?_⟩
  have hcount := hbreaks.count
  revert hcount
  decide

/-! ## Above a closing brace -/

/-- The lines of a text without those from one line up to another. -/
structure WithoutLines (s t : Text) (first n : Nat) : Prop where
  le : first ≤ n
  lt : n < s.lineCount
  lines : t.lines = s.lines.take first ++ s.lines.drop n

namespace WithoutLines

variable {t : Text} {first n : Nat}

theorem length_take (h : WithoutLines s t first n) : (s.lines.take first).length = first :=
  List.length_take_of_le (Nat.le_of_lt (Nat.lt_of_le_of_lt h.le h.lt))

theorem getElem?_lines (h : WithoutLines s t first n) : t.lines[first]? = s.lines[n]? := by
  have hlength := h.length_take
  rw [h.lines, List.getElem?_append_right (Nat.le_of_eq hlength), hlength, Nat.sub_self,
    List.getElem?_drop, Nat.add_zero]

theorem isBlankLine (h : WithoutLines s t first n) {k : Nat} (hk : k < first) :
    t.isBlankLine k = s.isBlankLine k := by
  have hline : t.lines[k]? = s.lines[k]? := by
    rw [h.lines, List.getElem?_append_left (by rwa [h.length_take]),
      List.getElem?_take_of_lt hk]
  rw [Text.isBlankLine, Text.isBlankLine, lineText, lineText, hline]

end WithoutLines

theorem withoutLines_delete {first n : Nat} (hle : first ≤ n) (hn : n < s.lineCount) :
    WithoutLines s (s.linesBefore first ++ List.intercalate ['\n'] (s.lines.drop n)) first n where
  le := hle
  lt := hn
  lines := lines_ended_append_drop (lineFeed_notMem_take s first) hn

theorem Change.BlankAbove.eq_iff {first n : Nat} (h : BlankAbove s n first) :
    first = n ↔ n = 0 ∨ ¬ s.isBlankLine (n - 1) := by
  constructor
  · rintro rfl
    exact h.top
  · intro hnone
    by_contra hne
    have hlt := Nat.lt_of_le_of_ne h.le hne
    rcases hnone with hzero | hcode
    · omega
    · exact hcode (h.blank (n - 1) (by omega) (by omega))

theorem repair_of_blankAbove
    (hfind : Rule.find? rules hint.message.toList = some (.blankLinesBeforeClassClose, found))
    {first n : Nat} (hn : n = (Anchor.clamp s hint).lineBegin) (hfirst : firstBlankAbove s n = first)
    (habove : Change.BlankAbove s n first) :
    ∃ t, WithoutLines s t first n ∧ repair rules s [hint] = .ofOutcome s hint t
      (if first = n then .notApplied .blankLinesBeforeClassClose
        else .applied .blankLinesBeforeClassClose 1) := by
  have hlt : n < s.lineCount := hn ▸ (Anchor.within_clamp s hint).lineBegin
  have hedit : Change.blankLinesBeforeClose? s (Anchor.clamp s hint) =
      if first = n then none else some (.delete (s.lineStart first) (s.lineStart n)) := by
    rw [Change.blankLinesBeforeClose?, ← hn, hfirst]
  by_cases hnone : first = n
  · rw [if_pos hnone] at hedit
    refine ⟨s, ⟨habove.le, hlt, by rw [hnone, List.take_append_drop]⟩, ?_⟩
    rw [repair_singleton, step_of_edits_eq_nil hfind (by rw [Rule.edits, hedit]; rfl),
      if_pos hnone]
    rfl
  · rw [if_neg hnone] at hedit
    have hcuts : (Edit.delete (s.lineStart first) (s.lineStart n)).span.Cuts s _ _ _ :=
      cuts_lines habove.le hlt
    refine ⟨_, withoutLines_delete habove.le hlt, ?_⟩
    rw [repair_singleton, step_of_edits_eq_singleton hfind (by rw [Rule.edits, hedit]; rfl) hcuts,
      if_neg hnone]
    simp [Pass.ofOutcome, Edit.delete]

/-- A repair for the message deletes the blank lines directly above the line of its hint, and is
skipped where there are none. -/
theorem repair_blankLinesBeforeClose
    (hfind : Rule.find? rules hint.message.toList = some (.blankLinesBeforeClassClose, found)) :
    let n := (Anchor.clamp s hint).lineBegin
    let t := (repair rules s [hint]).text
    ∃ first, Change.BlankAbove s n first ∧ t.lines = s.lines.take first ++ s.lines.drop n ∧
      t.lines[first]? = s.lines[n]? ∧ (first = 0 ∨ ¬ t.isBlankLine (first - 1)) ∧
      repair rules s [hint] = .ofOutcome s hint t
        (if n = 0 ∨ ¬ s.isBlankLine (n - 1) then .notApplied .blankLinesBeforeClassClose
          else .applied .blankLinesBeforeClassClose 1) := by
  intro n t
  have habove := Change.blankAbove_firstBlankAbove s n
  obtain ⟨t', hwithout, hpass⟩ := repair_of_blankAbove hfind (show n = _ from rfl) rfl habove
  have ht : t = t' := congrArg Pass.text hpass
  refine ⟨_, habove, ht ▸ hwithout.lines, ht ▸ hwithout.getElem?_lines, ?_, ?_⟩
  · rcases habove.top with hzero | hcode
    · exact .inl hzero
    · refine (Nat.eq_zero_or_pos _).imp id fun hpos ↦ ?_
      rwa [ht, hwithout.isBlankLine (by omega)]
  · simp only [← habove.eq_iff, ht]
    exact hpass

/-- Two blank lines above the closing brace, one of a space and one of a tab, each with its own line
break. -/
theorem repair_blankLinesBeforeClose_of_mixed_lines :
    let s : Text := "<?php\r\nclass A \x7b\r\n  f();\r\n \r\n\t\n\x7d\r\n".toList
    let hint : Hint := ⟨5, 5, 0, 1,
      "The closing brace for the class must go on the next line after the body", default, 100,
      "phpcs"⟩
    let t := (repair Rule.all s [hint]).text
    t = "<?php\r\nclass A \x7b\r\n  f();\r\n\x7d\r\n".toList ∧
      ∃ first, Change.BlankAbove s 5 first ∧ t.lines = s.lines.take first ++ s.lines.drop 5 ∧
        t.lines[first]? = s.lines[5]? ∧ (first = 0 ∨ ¬ t.isBlankLine (first - 1)) := by
  intro s hint t
  let found : Pattern.Match := ⟨hint.message.toList, []⟩
  have hfind : Rule.find? Rule.all hint.message.toList =
      some (.blankLinesBeforeClassClose, found) :=
    Rule.find?_eq_some_iff.mpr ⟨by decide, by decide +kernel⟩
  constructor
  · change (repair Rule.all s [hint]).text = _
    rw [repair_singleton, step, hfind]
    decide +kernel
  · obtain ⟨first, habove, hlines, hline, htop, -⟩ :=
      @repair_blankLinesBeforeClose s Rule.all hint found hfind
    exact ⟨first, habove, hlines, hline, htop⟩

end LintMend.Repair
