import LintMend.Proofs.Repair.Change

/-!
# Three kinds of rules

Four rules count the spaces behind a spot: they insert what is missing there, or delete as many
characters behind it as are too many, whatever these are. Ten rules replace blank characters by
blank characters. The last two rewrite a keyword. Of all sixteen the text accepts every batch.
-/

namespace LintMend.Repair

variable {s t : Text} {anchor : Anchor} {groups : Captures} {rule : Rule} {edit : Edit}

/-! ## Spaces counted at a spot -/

namespace Rule

/-- The rules that count the spaces at one spot of a line, and neither look at what stands there
nor beyond it. -/
def countsSpaces : Rule → Bool
  | keywordSpacing | indentation | braceSpacing | closeParenthesisSpacing => true
  | _ => false

/-- The number of spaces that a message expects and the number that it has counted. -/
def counts? (groups : Captures) : Rule → Option (Nat × Nat)
  | keywordSpacing | braceSpacing => return (← groups.number? 0, ← groups.number? 2)
  | indentation => return (← groups.number? 1, ← groups.number? 2)
  | closeParenthesisSpacing => return (← groups.number? 0, ← groups.number? 1)
  | _ => none

/-- The spot behind which the spaces are counted. -/
def spot? (s : Text) (anchor : Anchor) (groups : Captures) : Rule → Option Nat
  | keywordSpacing => do
    let keyword ← groups.text? 1
    let start ← s.wordStart? anchor.start
    let found ← s.searchFromIgnoringCase? start keyword
    return found.stop
  | indentation => some (s.lineStart anchor.lineBegin)
  | braceSpacing => (s.searchBefore? anchor.stop (Repair.brace groups 1)).map (·.stop)
  | closeParenthesisSpacing => some anchor.stop
  | _ => none

theorem edits_of_countsSpaces (h : rule.countsSpaces) : rule.edits s anchor groups =
    ((rule.counts? groups).bind fun counts ↦ (rule.spot? s anchor groups).bind fun offset ↦
      adjustSpaces? s offset counts.1 counts.2).toList := by
  cases rule with
  | keywordSpacing =>
    simp only [edits, Change.keyword?, counts?, spot?, Option.bind_eq_bind, Option.pure_def]
    cases groups.number? 0 with
    | none => rfl
    | some expected =>
      cases groups.number? 2 with
      | none => cases groups.text? 1 <;> rfl
      | some counted => simp [Option.bind_assoc]
  | indentation =>
    simp only [edits, Change.indentation?, counts?, spot?, Option.bind_eq_bind, Option.pure_def]
    cases groups.number? 1 <;> cases groups.number? 2 <;> rfl
  | braceSpacing =>
    simp only [edits, Change.brace?, counts?, spot?, Option.bind_eq_bind, Option.pure_def]
    cases groups.number? 0 <;> cases groups.number? 2 <;> try rfl
    cases s.searchBefore? anchor.stop (Repair.brace groups 1) <;> rfl
  | closeParenthesisSpacing =>
    simp only [edits, Change.closeParenthesis?, counts?, spot?, Option.bind_eq_bind,
      Option.pure_def]
    cases groups.number? 0 <;> cases groups.number? 1 <;> rfl
  | _ => simp [countsSpaces] at h

theorem isBoundary_of_spot? (h : anchor.Within s) {offset : Nat}
    (ho : rule.spot? s anchor groups = some offset) : s.isBoundary offset := by
  cases rule with
  | keywordSpacing =>
    simp only [spot?, Option.bind_eq_bind, Option.bind_eq_some_iff, Option.pure_def,
      Option.some.injEq] at ho
    obtain ⟨keyword, -, start, -, found, hfound, rfl⟩ := ho
    obtain ⟨before, held, after, hcuts, -⟩ :=
      Text.exists_cuts_of_searchFromIgnoringCase? hfound
    exact hcuts.isBoundary_stop
  | indentation =>
    obtain rfl : s.lineStart anchor.lineBegin = offset := by simpa [spot?] using ho
    exact Text.isBoundary_offsetOf s _ _
  | braceSpacing =>
    obtain ⟨found, hfound, rfl⟩ := Option.map_eq_some_iff.mp ho
    obtain ⟨before, after, hcuts, -⟩ := Text.exists_cuts_of_searchBefore? hfound
    exact hcuts.isBoundary_stop
  | closeParenthesisSpacing =>
    obtain rfl : anchor.stop = offset := by simpa [spot?] using ho
    exact h.stop
  | _ => simp [spot?] at ho

/-- Every edit of a rule that counts spaces has its span in the text. -/
theorem cuts_of_countsSpaces (h : anchor.Within s) (hrule : rule.countsSpaces) {edit : Edit}
    (he : edit ∈ rule.edits s anchor groups) :
    ∃ counts before after, rule.counts? groups = some counts ∧
      rule.spot? s anchor groups = some (Text.size before) ∧ s = before ++ after ∧
      edit.span.Cuts s before (after.take (counts.2 - counts.1))
        (after.drop (counts.2 - counts.1)) ∧
      edit.replacement = List.replicate (counts.1 - counts.2) ' ' := by
  rw [edits_of_countsSpaces hrule, Option.mem_toList] at he
  obtain ⟨counts, hcounts, he⟩ := Option.bind_eq_some_iff.mp he
  obtain ⟨offset, hoffset, he⟩ := Option.bind_eq_some_iff.mp he
  obtain ⟨before, after, hs, rfl, hcuts, hreplacement⟩ :=
    cuts_adjustSpaces? (isBoundary_of_spot? h hoffset) he
  exact ⟨counts, before, after, hcounts, hoffset, hs, hcuts, hreplacement⟩

/-! ## Blank characters -/

/-- The rules that replace blank characters by blank characters. -/
def movesBlanks : Rule → Bool
  | classBraceOnNewLine | openingBraceOnNewLine | newlineAfterBrace | spacesBeforeOpeningBrace
  | blankLinesBeforeClassClose | eofNewline | blankLineAfterStatement | defaultValueSpacing
  | argumentEqualsSpacing | trailingWhitespace => true
  | _ => false

end Rule

/-- An edit of blank characters of a text that puts blank characters in their place. -/
def IsBlankEdit (s : Text) (edit : Edit) : Prop :=
  ∃ before held after, edit.span.Cuts s before held after ∧ held.isAllBlank ∧
    edit.replacement.isAllBlank

open Change Text in
theorem isBlankEdit_of_movesBlanks (h : anchor.Within s) (hrule : rule.movesBlanks)
    (he : edit ∈ rule.edits s anchor groups) : IsBlankEdit s edit := by
  cases rule with
  | classBraceOnNewLine =>
    obtain ⟨before, after, hcuts, hreplacement⟩ := cuts_classBrace? (Option.mem_toList.mp he)
    exact ⟨_, _, _, hcuts, rfl, by rw [hreplacement]; exact isAllBlank_replicate isBlank_lineFeed 1⟩
  | openingBraceOnNewLine =>
    obtain ⟨before, after, hcuts, hreplacement⟩ := cuts_openingBrace? (Option.mem_toList.mp he)
    refine ⟨_, _, _, hcuts, rfl, ?_⟩
    rw [hreplacement, isAllBlank, List.all_cons, isBlank_lineFeed]
    exact h.indent
  | eofNewline =>
    obtain ⟨before, held, count, hcuts, hheld, hreplacement⟩ :=
      cuts_eofNewline? (Option.mem_toList.mp he)
    exact ⟨_, _, _, hcuts, isAllBlank_of_lineBreak hheld,
      hreplacement ▸ isAllBlank_replicate isBlank_lineFeed count⟩
  | newlineAfterBrace =>
    obtain ⟨before, held, after, count, hcuts, hheld, hreplacement⟩ :=
      cuts_newlineAfterBrace? (Option.mem_toList.mp he)
    exact ⟨_, _, _, hcuts, hheld, hreplacement ▸ isAllBlank_replicate isBlank_lineFeed count⟩
  | defaultValueSpacing =>
    obtain ⟨before, held, after, count, hcuts, hheld, hreplacement⟩ :=
      cuts_defaultValue? (Option.mem_toList.mp he)
    exact ⟨_, _, _, hcuts, isAllBlank_of_spaceOrTab hheld,
      hreplacement ▸ isAllBlank_replicate isBlank_space count⟩
  | argumentEqualsSpacing =>
    obtain ⟨before, held, after, count, hcuts, hheld, hreplacement⟩ :=
      cuts_argumentEquals? (Option.mem_toList.mp he)
    exact ⟨_, _, _, hcuts, isAllBlank_of_spaceOrTab hheld,
      hreplacement ▸ isAllBlank_replicate isBlank_space count⟩
  | spacesBeforeOpeningBrace =>
    obtain ⟨before, held, after, count, hcuts, hheld, hreplacement⟩ :=
      cuts_spacesBeforeBrace? (Option.mem_toList.mp he)
    exact ⟨_, _, _, hcuts, isAllBlank_of_spaceOrTab hheld,
      hreplacement ▸ isAllBlank_replicate isBlank_space count⟩
  | blankLineAfterStatement =>
    obtain ⟨before, held, after, hcuts, hheld, hreplacement⟩ :=
      cuts_blankLineAfter? (Option.mem_toList.mp he)
    exact ⟨_, _, _, hcuts, hheld, hreplacement ▸ isAllBlank_replicate isBlank_lineFeed 1⟩
  | blankLinesBeforeClassClose =>
    obtain ⟨before, held, after, hcuts, hheld, hreplacement⟩ :=
      cuts_blankLinesBeforeClose? h (Option.mem_toList.mp he)
    exact ⟨_, _, _, hcuts, hheld, by rw [hreplacement]; rfl⟩
  | trailingWhitespace =>
    obtain ⟨before, held, after, hcuts, hheld, hreplacement⟩ :=
      cuts_trailingWhitespace? h (Option.mem_toList.mp he)
    exact ⟨_, _, _, hcuts, isAllBlank_of_spaceOrTab hheld, by rw [hreplacement]; rfl⟩
  | _ => simp [Rule.movesBlanks] at hrule

/-! ## Batches -/

theorem exists_applyEdits_of_length_le {edits : List Edit} (hlength : edits.length ≤ 1)
    (h : ∀ edit ∈ edits, ∃ before held after, edit.span.Cuts s before held after) :
    ∃ t, s.applyEdits edits = .ok t := by
  match edits, hlength with
  | [], _ => exact ⟨s, Text.applyEdits_nil s⟩
  | [edit], _ =>
    obtain ⟨before, held, after, hcuts⟩ := h edit List.mem_cons_self
    exact ⟨_, Text.applyEdits_single hcuts⟩

theorem length_edits_le (hrule : rule ≠ .staticAfterVisibility) :
    (rule.edits s anchor groups).length ≤ 1 := by
  have hone (edit? : Option Edit) : edit?.toList.length ≤ 1 := by cases edit? <;> simp
  cases rule with
  | staticAfterVisibility => exact absurd rfl hrule
  | _ => exact hone _

/-- A text accepts every batch of a rule at an anchor within the text. -/
theorem exists_applyEdits_edits (h : anchor.Within s) (rule : Rule) (groups : Captures) :
    ∃ t, s.applyEdits (rule.edits s anchor groups) = .ok t := by
  by_cases hstatic : rule = .staticAfterVisibility
  · subst hstatic
    rw [Rule.edits]
    cases hedits : Change.moveStatic? s anchor with
    | none => exact ⟨s, Text.applyEdits_nil s⟩
    | some edits =>
      obtain ⟨first, second, before, held, middle, after, rfl, hfirst, hsecond, hlt, -⟩ :=
        Change.cuts_moveStatic? hedits
      exact ⟨_, Text.applyEdits_pair hlt hfirst hsecond⟩
  · refine exists_applyEdits_of_length_le (length_edits_le hstatic) fun edit he ↦ ?_
    cases hspaces : rule.countsSpaces with
    | true =>
      obtain ⟨_, before, after, -, -, -, hcuts, -⟩ := Rule.cuts_of_countsSpaces h hspaces he
      exact ⟨_, _, _, hcuts⟩
    | false =>
      cases hblanks : rule.movesBlanks with
      | true =>
        obtain ⟨before, held, after, hcuts, -⟩ := isBlankEdit_of_movesBlanks h hblanks he
        exact ⟨before, held, after, hcuts⟩
      | false =>
        obtain rfl : rule = .elseIf := by
          cases rule <;> simp_all [Rule.countsSpaces, Rule.movesBlanks]
        obtain ⟨before, held, after, hcuts, -⟩ := Change.cuts_elseIf? (Option.mem_toList.mp he)
        exact ⟨before, held, after, hcuts⟩

end LintMend.Repair
