import LintMend.Proofs.Edit
import LintMend.Proofs.Text.Code
import LintMend.Proofs.Text.Lines
import LintMend.Repair.Change

/-!
# What each change replaces

For every change the place of the text it replaces, what stands there, and what is put there. All
of them hold for anchors within the text, which clamping always gives. So every edit of a rule has
a span of the text it was made for, and the changes of blank characters replace blank characters by
blank characters.
-/

namespace LintMend

open Text

/-- An anchor whose offsets are places of the text and whose line is one of its lines. -/
structure Anchor.Within (anchor : Anchor) (s : Text) : Prop where
  start : isBoundary s anchor.start
  stop : isBoundary s anchor.stop
  lineBegin : anchor.lineBegin < s.lineCount
  indent : anchor.indent.isAllBlank

theorem Anchor.within_clamp (s : Text) (hint : Hint) : (Anchor.clamp s hint).Within s where
  start := isBoundary_offsetOf s _ _
  stop := isBoundary_offsetOf s _ _
  lineBegin := by
    have := lineCount_pos s
    change min hint.lineBegin (s.lineCount - 1) < s.lineCount
    omega
  indent := isAllBlank_replicate isBlank_space _

namespace Repair

variable {s before held after : Text} {anchor : Anchor} {groups : Captures} {edit : Edit}
  {span : Span} {offset count expected counted : Nat}

/-! ## Insertions, spaces and surplus characters -/

theorem cuts_insert (text : Text) (hs : s = before ++ after) (ho : offset = size before) :
    (Edit.insert offset text).span.Cuts s before [] after :=
  ⟨by simp [hs], ho, by rw [List.append_nil]; exact ho⟩

theorem adjustSpaces?_eq (hs : s = before ++ after) (ho : offset = size before) :
    adjustSpaces? s offset expected counted =
      if counted < expected then
        some (.insert offset (List.replicate (expected - counted) ' '))
      else if after.take (counted - expected) = [] then none
      else some (.delete offset (size (before ++ after.take (counted - expected)))) := by
  subst hs ho
  rw [adjustSpaces?, advance?_size_append, Option.bind_some]
  have hlt : size (before ++ after.take (counted - expected)) > size before ↔
      after.take (counted - expected) ≠ [] := by
    rw [size_append, ← size_pos_iff]
    omega
  simp only [hlt, ne_eq, ite_not, gt_iff_lt]

/-- Missing spaces are inserted at a place; as many characters as there are surplus ones are
deleted behind it, or all there are. -/
theorem cuts_adjustSpaces? (h : isBoundary s offset)
    (he : adjustSpaces? s offset expected counted = some edit) :
    ∃ before after, s = before ++ after ∧ offset = size before ∧
      edit.span.Cuts s before (after.take (counted - expected)) (after.drop (counted - expected)) ∧
      edit.replacement = List.replicate (expected - counted) ' ' := by
  obtain ⟨before, after, rfl, rfl⟩ := isBoundary_iff.mp h
  rw [adjustSpaces?_eq rfl rfl] at he
  refine ⟨before, after, rfl, rfl, ?_⟩
  split at he
  · next hlt =>
    obtain rfl : Edit.insert _ _ = edit := by simpa using he
    rw [Nat.sub_eq_zero_of_le (Nat.le_of_lt hlt), List.take_zero, List.drop_zero]
    exact ⟨cuts_insert _ rfl rfl, rfl⟩
  · next hle =>
    split at he
    · simp at he
    · obtain rfl : Edit.delete _ _ = edit := by simpa using he
      rw [Nat.sub_eq_zero_of_le (Nat.not_lt.mp hle)]
      exact ⟨⟨by simp, rfl, by simp [Edit.span, Edit.delete]⟩, rfl⟩

theorem exists_of_setSpaces? (he : setSpaces? s span count = some edit) :
    ∃ rest held, s.after? span.start = some rest ∧
      rest.before? (span.stop - span.start) = some held ∧ held ≠ List.replicate count ' ' ∧
      edit = ⟨span.start, span.stop, List.replicate count ' '⟩ := by
  simp only [setSpaces?, Option.bind_eq_bind, Option.bind_eq_some_iff] at he
  obtain ⟨rest, hrest, held, hheld, he⟩ := he
  split at he
  · simp at he
  · next hne => exact ⟨rest, held, hrest, hheld, hne, (Option.some.inj he).symm⟩

theorem setSpaces?_eq (h : span.Cuts s before held after) :
    setSpaces? s span count =
      if held = List.replicate count ' ' then none
      else some ⟨span.start, span.stop, List.replicate count ' '⟩ := by
  simp [setSpaces?, h.after?_start, h.before?_held]

theorem cuts_setSpaces? (h : span.Cuts s before held after)
    (he : setSpaces? s span count = some edit) :
    edit.span.Cuts s before held after ∧ edit.replacement = List.replicate count ' ' := by
  rw [setSpaces?_eq h] at he
  split at he
  · simp at he
  · obtain rfl : Edit.mk _ _ _ = edit := by simpa using he
    exact ⟨h, rfl⟩

namespace Change

/-! ## What a change has found -/

theorem exists_of_spacesBeforeBrace? (he : spacesBeforeBrace? s anchor groups = some edit) :
    ∃ count found gap, groups.number? 0 = some count ∧
      s.searchFrom? anchor.start ['\x7b'] = some found ∧
      found.start ≤ s.lineEnd anchor.lineBegin ∧ s.gapBefore? found.start = some gap ∧
      setSpaces? s ⟨found.start - gap, found.start⟩ count = some edit := by
  simp only [spacesBeforeBrace?, Option.bind_eq_bind, Option.bind_eq_some_iff] at he
  obtain ⟨count, hcount, found, hfound, he⟩ := he
  split at he
  · simp at he
  · next hle =>
    obtain ⟨gap, hgap, he⟩ := Option.bind_eq_some_iff.mp he
    exact ⟨count, found, gap, hcount, hfound, Nat.not_lt.mp hle, hgap, he⟩

theorem exists_of_newlineAfterBrace? (he : newlineAfterBrace? s anchor groups = some edit) :
    ∃ expected counted found, groups.number? 0 = some expected ∧
      groups.number? 2 = some counted ∧
      s.searchBefore? anchor.stop (Repair.brace groups 1) = some found ∧
      (counted < expected ∧
          edit = .insert found.stop (List.replicate (expected - counted) '\n') ∨
        ∃ rest n, s.after? found.stop = some rest ∧
          surplusBreaks (counted - expected) rest = n + 1 ∧
          edit = .delete found.stop (found.stop + (n + 1))) := by
  simp only [newlineAfterBrace?, Option.bind_eq_bind, Option.bind_eq_some_iff] at he
  obtain ⟨expected, hexpected, counted, hcounted, found, hfound, he⟩ := he
  refine ⟨expected, counted, found, hexpected, hcounted, hfound, ?_⟩
  split at he
  · next hlt => exact .inl ⟨hlt, (Option.some.inj he).symm⟩
  · obtain ⟨rest, hrest, he⟩ := Option.bind_eq_some_iff.mp he
    split at he
    · simp at he
    · next n hn => exact .inr ⟨rest, n, hrest, hn, (Option.some.inj he).symm⟩

theorem exists_of_defaultValue? (he : defaultValue? s anchor groups = some edit) :
    ∃ name count found equals gap, groups.text? 0 = some name ∧ groups.number? 1 = some count ∧
      s.variableOnLine? anchor.lineBegin name = some found ∧
      s.searchFrom? found.stop ['='] = some equals ∧
      equals.stop ≤ s.lineEnd anchor.lineBegin ∧ s.gapAfter? equals.stop = some gap ∧
      setSpaces? s ⟨equals.stop, equals.stop + gap⟩ count = some edit := by
  simp only [defaultValue?, Option.bind_eq_bind, Option.bind_eq_some_iff] at he
  obtain ⟨name, hname, count, hcount, found, hfound, equals, hequals, he⟩ := he
  split at he
  · simp at he
  · next hle =>
    obtain ⟨gap, hgap, he⟩ := Option.bind_eq_some_iff.mp he
    exact ⟨name, count, found, equals, gap, hname, hcount, hfound, hequals, Nat.not_lt.mp hle,
      hgap, he⟩

theorem exists_of_argumentEquals? (he : argumentEquals? s anchor groups = some edit) :
    ∃ name count found gap behind, groups.text? 0 = some name ∧ groups.number? 1 = some count ∧
      s.variableOnLine? anchor.lineBegin name = some found ∧ s.gapAfter? found.stop = some gap ∧
      s.after? (found.stop + gap) = some ('=' :: behind) ∧
      setSpaces? s ⟨found.stop, found.stop + gap⟩ count = some edit := by
  simp only [argumentEquals?, Option.bind_eq_bind, Option.bind_eq_some_iff] at he
  obtain ⟨name, hname, count, hcount, found, hfound, gap, hgap, rest, hrest, he⟩ := he
  split at he
  · next hequals =>
    obtain ⟨behind, rfl⟩ := List.head?_eq_some_iff.mp hequals
    exact ⟨name, count, found, gap, behind, hname, hcount, hfound, hgap, hrest, he⟩
  · simp at he

theorem exists_of_eofNewline? (he : eofNewline? s groups = some edit) :
    let content := s.dropEndWhile fun c ↦ c == '\n' || c == '\r'
    ∃ count, groups.number? 0 = some count ∧ s ≠ content ++ List.replicate count '\n' ∧
      edit = ⟨content.size, s.size, List.replicate count '\n'⟩ := by
  simp only [eofNewline?, Option.bind_eq_bind, Option.bind_eq_some_iff] at he
  obtain ⟨count, hcount, he⟩ := he
  split at he
  · simp at he
  · next hne => exact ⟨count, hcount, hne, (Option.some.inj he).symm⟩

theorem exists_of_blankLineAfter? (he : blankLineAfter? s anchor = some edit) :
    let start := s.lineStart (anchor.lineBegin + 1)
    ∃ next rest held, nextCodeLine? s (anchor.lineBegin + 1) = some next ∧
      s.after? start = some rest ∧ rest.before? (s.lineStart next - start) = some held ∧
      held ≠ ['\n'] ∧ edit = ⟨start, s.lineStart next, ['\n']⟩ := by
  simp only [blankLineAfter?, Option.bind_eq_bind, Option.bind_eq_some_iff] at he
  obtain ⟨next, hnext, rest, hrest, held, hheld, he⟩ := he
  split at he
  · simp at he
  · next hne => exact ⟨next, rest, held, hnext, hrest, hheld, hne, (Option.some.inj he).symm⟩

theorem exists_of_blankLinesBeforeClose? (he : blankLinesBeforeClose? s anchor = some edit) :
    firstBlankAbove s anchor.lineBegin ≠ anchor.lineBegin ∧
      edit = .delete (s.lineStart (firstBlankAbove s anchor.lineBegin))
        (s.lineStart anchor.lineBegin) := by
  rw [blankLinesBeforeClose?] at he
  split at he
  · simp at he
  · next hne => exact ⟨hne, (Option.some.inj he).symm⟩

theorem exists_of_trailingWhitespace? (he : trailingWhitespace? s anchor = some edit) :
    let line := s.lineText anchor.lineBegin
    (line.dropEndWhile isSpaceOrTab).length ≠ line.length ∧
      edit = .delete (s.lineStart anchor.lineBegin + (line.dropEndWhile isSpaceOrTab).size)
        (s.lineStart anchor.lineBegin + line.size) := by
  rw [trailingWhitespace?] at he
  split at he
  · simp at he
  · next hne => exact ⟨hne, (Option.some.inj he).symm⟩

theorem exists_of_locate? {token : Text} (hl : locate? s anchor token = some span) :
    ∃ word, s.wordStart? anchor.start = some word ∧
      s.searchFromIgnoringCase? word token = some span ∧
      span.stop ≤ s.lineEnd anchor.lineBegin := by
  simp only [locate?, Option.bind_eq_bind, Option.bind_eq_some_iff] at hl
  obtain ⟨word, hword, found, hfound, hl⟩ := hl
  split at hl
  · next hle =>
    obtain rfl := Option.some.inj hl
    exact ⟨word, hword, hfound, hle⟩
  · simp at hl

theorem exists_of_moveStatic? {edits : List Edit} (he : moveStatic? s anchor = some edits) :
    ∃ keyword space rest written, locate? s anchor "static ".toList = some keyword ∧
      s.searchFrom? keyword.stop [' '] = some space ∧ s.after? keyword.start = some rest ∧
      rest.before? (keyword.stop - keyword.start) = some written ∧
      edits = [.delete keyword.start keyword.stop, .insert space.stop written] := by
  simp only [moveStatic?, Option.bind_eq_bind, Option.bind_eq_some_iff, Option.pure_def,
    Option.some.injEq] at he
  obtain ⟨keyword, hkeyword, space, hspace, rest, hrest, written, hwritten, rfl⟩ := he
  exact ⟨keyword, space, rest, written, hkeyword, hspace, hrest, hwritten, rfl⟩

/-! ## Braces -/

theorem cuts_classBrace? (he : classBrace? s anchor = some edit) :
    ∃ before after, edit.span.Cuts s before [] ('\x7b' :: after) ∧ edit.replacement = ['\n'] := by
  obtain ⟨found, hfound, rfl⟩ := Option.map_eq_some_iff.mp he
  obtain ⟨before, after, h, -⟩ := exists_cuts_of_searchFrom? hfound
  exact ⟨before, after, cuts_insert _ (by simpa using h.text) h.start, rfl⟩

theorem cuts_openingBrace? (he : openingBrace? s anchor = some edit) :
    ∃ before after, edit.span.Cuts s before [] ('\x7b' :: after) ∧
      edit.replacement = '\n' :: anchor.indent := by
  obtain ⟨found, hfound, rfl⟩ := Option.map_eq_some_iff.mp he
  obtain ⟨before, after, h, -⟩ := exists_cuts_of_searchFrom? hfound
  exact ⟨before, after, cuts_insert _ (by simpa using h.text) h.start, rfl⟩

theorem cuts_spacesBeforeBrace? (he : spacesBeforeBrace? s anchor groups = some edit) :
    ∃ before held after count, edit.span.Cuts s before held ('\x7b' :: after) ∧
      held.all isSpaceOrTab ∧ edit.replacement = List.replicate count ' ' := by
  obtain ⟨count, found, gap, -, hfound, -, hgap, he⟩ := exists_of_spacesBeforeBrace? he
  obtain ⟨a, b, h, -⟩ := exists_cuts_of_searchFrom? hfound
  obtain ⟨before, held, after, hcuts, hall⟩ := exists_cuts_of_gapBefore? hgap
  obtain ⟨hedit, hreplacement⟩ := cuts_setSpaces? hcuts he
  have hafter : after = '\x7b' :: b := by
    have h1 := hcuts.after?_stop
    have h2 := h.after?_start
    rw [h1] at h2
    simpa using h2
  exact ⟨before, held, b, count, hafter ▸ hedit, hall, hreplacement⟩

/-- A beginning of a text, within the blank characters at its start, that is empty or ends with a
line feed and has all the line feeds among those characters, or `surplus` of them. -/
structure LeadingBreaks (surplus : Nat) (s gone : Text) : Prop where
  within : gone <+: s.takeWhile isBlank
  last : gone = [] ∨ gone.getLast? = some '\n'
  count : gone.count '\n' = min surplus ((s.takeWhile isBlank).count '\n')

namespace LeadingBreaks

variable {gone : Text} {surplus : Nat}

theorem all_isBlank (h : LeadingBreaks surplus s gone) : gone.all isBlank :=
  List.all_eq_true.mpr fun c hc ↦
    List.all_eq_true.mp List.all_takeWhile c (h.within.subset hc)

theorem eq_nil_iff (h : LeadingBreaks surplus s gone) :
    gone = [] ↔ surplus = 0 ∨ '\n' ∉ s.takeWhile isBlank := by
  have hcount : gone = [] ↔ gone.count '\n' = 0 := by
    rw [List.count_eq_zero]
    rcases h.last with rfl | hlast
    · simp
    · have hmem := List.mem_of_getLast? hlast
      exact iff_of_false (List.ne_nil_of_mem hmem) (not_not_intro hmem)
  rw [hcount, h.count, ← List.count_eq_zero]
  omega

theorem nil (h : surplus = 0 ∨ '\n' ∉ s.takeWhile isBlank) : LeadingBreaks surplus s [] where
  within := List.nil_prefix
  last := .inl rfl
  count := by
    rw [← List.count_eq_zero] at h
    rw [List.count_nil]
    omega

theorem cons_lineFeed (h : LeadingBreaks surplus s gone) :
    LeadingBreaks (surplus + 1) ('\n' :: s) ('\n' :: gone) := by
  have hrun : ('\n' :: s).takeWhile isBlank = '\n' :: s.takeWhile isBlank :=
    List.takeWhile_cons_of_pos (by decide)
  refine ⟨?_, .inr ?_, ?_⟩
  · rw [hrun]
    exact (List.prefix_cons_inj '\n').mpr h.within
  · rcases h.last with rfl | hlast
    · rfl
    · simp [List.getLast?_cons, hlast]
  · rw [hrun, List.count_cons_self, List.count_cons_self, h.count]
    omega

theorem cons_blank {c : Char} (h : LeadingBreaks surplus s gone) (hgone : gone ≠ [])
    (hc : isBlank c) (hn : c ≠ '\n') : LeadingBreaks surplus (c :: s) (c :: gone) := by
  have hrun : (c :: s).takeWhile isBlank = c :: s.takeWhile isBlank :=
    List.takeWhile_cons_of_pos hc
  refine ⟨?_, .inr ?_, ?_⟩
  · rw [hrun]
    exact (List.prefix_cons_inj c).mpr h.within
  · simp [List.getLast?_cons, h.last.resolve_left hgone]
  · rw [hrun, List.count_cons_of_ne hn, List.count_cons_of_ne hn, h.count]

end LeadingBreaks

/-- The scan for surplus line breaks ends behind the last one that it counts. -/
theorem exists_surplusBreaks (surplus : Nat) (rest : Text) :
    ∃ held after, rest = held ++ after ∧ surplusBreaks surplus rest = size held ∧
      LeadingBreaks surplus rest held := by
  induction rest generalizing surplus with
  | nil => cases surplus <;> exact ⟨[], [], rfl, rfl, .nil (.inr List.not_mem_nil)⟩
  | cons c rest ih =>
    cases surplus with
    | zero => exact ⟨[], c :: rest, rfl, rfl, .nil (.inl rfl)⟩
    | succ surplus =>
      by_cases hc : isBlank c
      · by_cases hn : c = '\n'
        · obtain ⟨held, after, hrest, hsize, hbreaks⟩ := ih surplus
          refine ⟨c :: held, after, by rw [hrest]; rfl, ?_, hn ▸ hbreaks.cons_lineFeed⟩
          rw [surplusBreaks, if_neg (by simp [hc]), if_pos hn, hsize, size_cons]
        · obtain ⟨held, after, hrest, hsize, hbreaks⟩ := ih (surplus + 1)
          cases held with
          | nil =>
            have hnone : '\n' ∉ (c :: rest).takeWhile isBlank := by
              rw [List.takeWhile_cons_of_pos hc, List.mem_cons, not_or]
              exact ⟨Ne.symm hn, (hbreaks.eq_nil_iff.mp rfl).resolve_left (Nat.succ_ne_zero _)⟩
            refine ⟨[], c :: rest, rfl, ?_, .nil (.inr hnone)⟩
            rw [size_nil] at hsize
            simp [surplusBreaks, hc, hn, hsize]
          | cons d held =>
            have hheld : d :: held ≠ [] := List.cons_ne_nil d held
            refine ⟨c :: d :: held, after, by rw [hrest]; rfl, ?_, hbreaks.cons_blank hheld hc hn⟩
            obtain ⟨n, hn'⟩ := Nat.exists_eq_succ_of_ne_zero (Nat.ne_of_gt (size_pos_iff.mpr hheld))
            rw [surplusBreaks, hsize, hn', size_cons c, hn']
            simp [hc, hn]
      · have hnone : '\n' ∉ (c :: rest).takeWhile isBlank := by
          simp [List.takeWhile_cons_of_neg hc]
        exact ⟨[], c :: rest, rfl, by simp [surplusBreaks, hc], .nil (.inr hnone)⟩

theorem cuts_newlineAfterBrace? (he : newlineAfterBrace? s anchor groups = some edit) :
    ∃ before held after count, edit.span.Cuts s before held after ∧ held.all isBlank ∧
      edit.replacement = List.replicate count '\n' := by
  obtain ⟨expected, counted, found, -, -, hfound, ⟨-, rfl⟩ | ⟨rest, n, hrest, hn, rfl⟩⟩ :=
    exists_of_newlineAfterBrace? he
  · obtain ⟨a, b, h, -⟩ := exists_cuts_of_searchBefore? hfound
    exact ⟨_, [], b, _, cuts_insert _ h.text h.stop, rfl, rfl⟩
  · obtain ⟨a, b, h, -⟩ := exists_cuts_of_searchBefore? hfound
    obtain rfl := Option.some.inj (hrest.symm.trans h.after?_stop)
    obtain ⟨held, after, rfl, hsize, hbreaks⟩ := exists_surplusBreaks (counted - expected) rest
    have hstop : found.stop + (n + 1) = size (a ++ Repair.brace groups 1 ++ held) := by
      rw [size_append, ← h.stop, ← hsize, hn]
    exact ⟨_, held, after, 0, ⟨by rw [h.text]; simp, h.stop, hstop⟩, hbreaks.all_isBlank, rfl⟩

/-! ## Arguments -/

theorem cuts_defaultValue? (he : defaultValue? s anchor groups = some edit) :
    ∃ before held after count, edit.span.Cuts s before held after ∧ held.all isSpaceOrTab ∧
      edit.replacement = List.replicate count ' ' := by
  obtain ⟨name, count, found, equals, gap, -, -, -, -, -, hgap, he⟩ := exists_of_defaultValue? he
  obtain ⟨before, held, after, hcuts, hall, -⟩ := exists_cuts_of_gapAfter? hgap
  obtain ⟨hedit, hreplacement⟩ := cuts_setSpaces? hcuts he
  exact ⟨before, held, after, count, hedit, hall, hreplacement⟩

theorem cuts_argumentEquals? (he : argumentEquals? s anchor groups = some edit) :
    ∃ before held after count, edit.span.Cuts s before held ('=' :: after) ∧
      held.all isSpaceOrTab ∧ edit.replacement = List.replicate count ' ' := by
  obtain ⟨name, count, found, gap, behind, -, -, -, hgap, hrest, he⟩ :=
    exists_of_argumentEquals? he
  obtain ⟨before, held, after, hcuts, hall, -⟩ := exists_cuts_of_gapAfter? hgap
  obtain ⟨hedit, hreplacement⟩ := cuts_setSpaces? hcuts he
  have hafter : s.after? (found.stop + gap) = some after := hcuts.after?_stop
  obtain rfl := Option.some.inj (hafter.symm.trans hrest)
  exact ⟨before, held, behind, count, hedit, hall, hreplacement⟩

/-! ## Line breaks and blank lines -/

theorem cuts_eofNewline? (he : eofNewline? s groups = some edit) :
    ∃ before held count, edit.span.Cuts s before held [] ∧
      held.all (fun c ↦ c == '\n' || c == '\r') ∧ edit.replacement = List.replicate count '\n' := by
  obtain ⟨count, -, -, rfl⟩ := exists_of_eofNewline? he
  have hsplit := takeEndWhile_append_dropEndWhile (fun c ↦ c == '\n' || c == '\r') s
  exact ⟨_, _, count, ⟨by rw [hsplit, List.append_nil], rfl, by rw [hsplit]; rfl⟩,
    all_takeEndWhile _ _, rfl⟩

/-- Whole lines that are blank are blank with their line breaks. -/
theorem isAllBlank_ended {n m : Nat}
    (hblank : ∀ k, n ≤ k → k < m → s.isBlankLine k) :
    isAllBlank (ended ((s.lines.take m).drop n)) := by
  have hfeed := isBlank_lineFeed
  have hreturn := isBlank_carriageReturn
  rw [isAllBlank, ended, List.all_flatMap, List.all_eq_true]
  intro line hline
  obtain ⟨k, hk, rfl⟩ := List.getElem_of_mem hline
  have hcount : n + k < s.lines.length := by
    simp only [List.length_drop, List.length_take] at hk
    omega
  have hkm : n + k < m := by
    simp only [List.length_drop, List.length_take] at hk
    omega
  obtain ⟨cr, -, hcr, hsplit, -, -⟩ := exists_behind_line hcount
  have htext : (s.lineText (n + k)).all isBlank := hblank (n + k) (by omega) hkm
  rw [List.getElem_drop, List.getElem_take]
  change (s.lines[n + k] ++ ['\n']).all isBlank
  rw [hsplit]
  rcases hcr with rfl | rfl <;> simp_all

theorem nextCodeLine?_eq_some_iff {line next : Nat} : nextCodeLine? s line = some next ↔
    ¬ s.isBlankLine next ∧ line ≤ next ∧ next < s.lineCount ∧
      ∀ k, line ≤ k → k < next → s.isBlankLine k := by
  rw [nextCodeLine?, List.find?_range'_eq_some]
  simp only [List.mem_range'_1, decide_not, Bool.not_eq_true', decide_eq_false_iff_not]
  constructor
  · rintro ⟨hcode, hmem, hblank⟩
    exact ⟨hcode, hmem.1, by omega, fun k h1 h2 ↦ by simpa using hblank k h1 h2⟩
  · rintro ⟨hcode, hle, hlt, hblank⟩
    exact ⟨hcode, ⟨hle, by omega⟩, fun k h1 h2 ↦ by simpa using hblank k h1 h2⟩

theorem cuts_blankLineAfter? (he : blankLineAfter? s anchor = some edit) :
    ∃ before held after, edit.span.Cuts s before held after ∧ held.isAllBlank ∧
      edit.replacement = ['\n'] := by
  obtain ⟨next, rest, held, hnext, -, -, -, rfl⟩ := exists_of_blankLineAfter? he
  obtain ⟨-, hle, hlt, hblank⟩ := nextCodeLine?_eq_some_iff.mp hnext
  exact ⟨_, _, _, cuts_lines hle hlt, isAllBlank_ended hblank, rfl⟩

/-- The blank lines directly above a line, from the first of them on, or none. -/
structure BlankAbove (s : Text) (n first : Nat) : Prop where
  le : first ≤ n
  blank : ∀ k, first ≤ k → k < n → s.isBlankLine k
  top : first = 0 ∨ ¬ s.isBlankLine (first - 1)

theorem blankAbove_firstBlankAbove (s : Text) (n : Nat) :
    BlankAbove s n (firstBlankAbove s n) := by
  induction n with
  | zero => exact ⟨Nat.le_refl _, fun k _ hk ↦ absurd hk (Nat.not_lt_zero k), .inl rfl⟩
  | succ n ih =>
    rw [firstBlankAbove]
    split
    · next hblank =>
      refine ⟨Nat.le_succ_of_le ih.le, fun k hk hlt ↦ ?_, ih.top⟩
      rcases Nat.lt_succ_iff_lt_or_eq.mp hlt with hlt | rfl
      · exact ih.blank k hk hlt
      · exact hblank
    · next hcode =>
      exact ⟨Nat.le_refl _, fun k hk hlt ↦ absurd hlt (Nat.not_lt.mpr hk), .inr hcode⟩

theorem cuts_blankLinesBeforeClose? (h : anchor.Within s)
    (he : blankLinesBeforeClose? s anchor = some edit) :
    ∃ before held after, edit.span.Cuts s before held after ∧ held.isAllBlank ∧
      edit.replacement = [] := by
  obtain ⟨-, rfl⟩ := exists_of_blankLinesBeforeClose? he
  have habove := blankAbove_firstBlankAbove s anchor.lineBegin
  exact ⟨_, _, _, cuts_lines habove.le h.lineBegin, isAllBlank_ended habove.blank, rfl⟩

theorem cuts_trailingWhitespace? (h : anchor.Within s)
    (he : trailingWhitespace? s anchor = some edit) :
    ∃ before held after, edit.span.Cuts s before held after ∧ held.all isSpaceOrTab ∧
      edit.replacement = [] := by
  obtain ⟨-, rfl⟩ := exists_of_trailingWhitespace? he
  obtain ⟨cr, behind, -, -, -, hs⟩ := exists_behind_line h.lineBegin
  have hsplit := takeEndWhile_append_dropEndWhile isSpaceOrTab (s.lineText anchor.lineBegin)
  have hstart := lineStart_of_lt h.lineBegin
  refine ⟨s.linesBefore anchor.lineBegin ++ (s.lineText anchor.lineBegin).dropEndWhile isSpaceOrTab,
    (s.lineText anchor.lineBegin).takeEndWhile isSpaceOrTab, cr ++ behind, ⟨?_, ?_, ?_⟩,
    all_takeEndWhile _ _, rfl⟩
  · rw [List.append_assoc (s.linesBefore _), hsplit]
    exact hs
  · simp [Edit.span, Edit.delete, hstart]
  · rw [List.append_assoc, hsplit]
    simp [Edit.span, Edit.delete, hstart]

/-! ## Keywords -/

theorem exists_cuts_of_locate? {token : Text} (hl : locate? s anchor token = some span) :
    ∃ before held after, span.Cuts s before held after ∧ held.asciiLower = token.asciiLower := by
  obtain ⟨word, -, hfound, -⟩ := exists_of_locate? hl
  obtain ⟨before, held, after, h, hlower, -⟩ := exists_cuts_of_searchFromIgnoringCase? hfound
  exact ⟨before, held, after, h, hlower⟩

theorem cuts_elseIf? (he : elseIf? s anchor = some edit) :
    ∃ before held after, edit.span.Cuts s before held after ∧
      held.asciiLower = asciiLower "else if".toList ∧ edit.replacement = "elseif".toList := by
  obtain ⟨found, hfound, rfl⟩ := Option.map_eq_some_iff.mp he
  obtain ⟨before, held, after, h, hlower⟩ := exists_cuts_of_locate? hfound
  exact ⟨before, held, after, h, hlower, rfl⟩

/-- The keyword is taken from its place and put behind the next space behind it. -/
theorem cuts_moveStatic? {edits : List Edit} (he : moveStatic? s anchor = some edits) :
    ∃ first second before held middle after, edits = [first, second] ∧
      first.span.Cuts s before held (middle ++ [] ++ after) ∧
      second.span.Cuts s (before ++ held ++ middle) [] after ∧
      first.start < second.start ∧ first.replacement = [] ∧ second.replacement = held ∧
      held.asciiLower = asciiLower "static ".toList ∧ middle.getLast? = some ' ' := by
  obtain ⟨keyword, space, rest, written, hkeyword, hspace, hrest, hwritten, rfl⟩ :=
    exists_of_moveStatic? he
  obtain ⟨before, held, after, h, hlower⟩ := exists_cuts_of_locate? hkeyword
  rw [h.after?_start, Option.some.injEq] at hrest
  subst hrest
  rw [h.before?_held, Option.some.injEq] at hwritten
  subst hwritten
  obtain ⟨a, b, hs, hle⟩ := exists_cuts_of_searchFrom? hspace
  -- the space stands behind the keyword
  obtain ⟨middle, ha, hafter⟩ : ∃ middle, a = before ++ held ++ middle ∧
      after = middle ++ ([' '] ++ b) := by
    refine exists_append_of_size_le ?_ (by rw [← h.stop, ← hs.start]; exact hle)
    rw [← h.text, hs.text, List.append_assoc]
  have hne : held ≠ [] := by
    rintro rfl
    exact absurd hlower (by decide)
  have hlt : keyword.start < space.stop := by
    have h1 := h.start_lt_stop_iff.mpr hne
    have h2 := hs.start_le_stop
    omega
  refine ⟨_, _, before, held, middle ++ [' '], b, rfl, ⟨?_, h.start, h.stop⟩, ?_, hlt, rfl, rfl,
    hlower, by simp⟩
  · rw [h.text, hafter]
    simp
  · refine cuts_insert _ ?_ ?_
    · rw [hs.text, ha]
      simp
    · rw [hs.stop, ha]
      simp

end Change

end Repair

end LintMend
