import LintMend.Proofs.Repair.Change
import LintMend.Proofs.Text.Slice

/-!
# Rules whose slices are checked

Every rule once more, with each slice it takes of the text as a step that can fail. At an anchor
within the text no slice fails, and the edits are those of the rule without checks. The searches
that take a number for what it is, an offset or none, slice nothing and are used as they are.
-/

namespace LintMend.Sliced

open Text Repair

variable {s before held after : Text} {anchor : Anchor} {groups : Captures} {span : Span}
  {rule : Rule} {offset : Nat}

/-- Goes on with a value that is there; without one there is no result either. -/
def onSome {α β : Type} (x : Option α) (f : α → Slicing (Option β)) : Slicing (Option β) :=
  match x with
  | none => return none
  | some a => f a

theorem onSome_eq {α β : Type} {x : Option α} {f : α → Slicing (Option β)} {g : α → Option β}
    (h : ∀ a, x = some a → f a = .ok (g a)) : onSome x f = .ok (x.bind g) := by
  cases x with
  | none => rfl
  | some a => exact h a rfl

/-! ## Anchors -/

def clampColumn (s : Text) (line column : Nat) : Slicing Nat := do
  let length ← lineLength s line
  return if column > length then length - 1 else column

def clamp (s : Text) (hint : Hint) : Slicing Anchor := do
  let last := s.lineCount - 1
  let lineBegin := min hint.lineBegin last
  let lineEnd := min hint.lineEnd last
  let columnBegin ← clampColumn s lineBegin hint.columnBegin
  let columnEnd ← clampColumn s lineEnd hint.columnEnd
  let width ← indentation s lineBegin
  return { lineBegin, lineEnd, columnBegin, columnEnd
           start := s.offsetOf lineBegin columnBegin
           stop := s.offsetOf lineEnd columnEnd
           indent := List.replicate width ' ' }

theorem clamp_eq (s : Text) (hint : Hint) : clamp s hint = .ok (Anchor.clamp s hint) := by
  simp only [clamp, clampColumn, lineLength_eq, indentation_eq, ok_bind, pure_eq_ok]
  rfl

/-! ## Spaces -/

def adjustSpaces (s : Text) (offset expected found : Nat) : Slicing (Option Edit) :=
  if expected > found then
    return some (.insert offset (List.replicate (expected - found) ' '))
  else if found > expected then do
    let stop ← advance s offset (found - expected)
    return if stop > offset then some (.delete offset stop) else none
  else return none

theorem adjustSpaces_eq (h : isBoundary s offset) (expected found : Nat) :
    adjustSpaces s offset expected found = .ok (adjustSpaces? s offset expected found) := by
  obtain ⟨stop, hstop, hstop'⟩ := exists_advance_eq h (found - expected)
  rw [adjustSpaces, adjustSpaces?, hstop, hstop', ok_bind, Option.bind_some]
  by_cases hlt : expected > found
  · rw [if_pos hlt, if_pos hlt, pure_eq_ok]
  · rw [if_neg hlt, if_neg hlt]
    by_cases hgt : found > expected
    · rw [if_pos hgt, pure_eq_ok]
    · -- nothing is surplus, so the place itself is the end
      obtain ⟨a, b, rfl, rfl⟩ := isBoundary_iff.mp h
      rw [Nat.sub_eq_zero_of_le (Nat.not_lt.mp hgt), advance?_size_append] at hstop'
      have hsame : ¬ stop > size a := by
        simp at hstop'
        omega
      rw [if_neg hgt, if_neg hsame, pure_eq_ok]

def setSpaces (s : Text) (span : Span) (count : Nat) : Slicing (Option Edit) := do
  let held ← slice s span.start span.stop
  let wanted := List.replicate count ' '
  return if held = wanted then none else some ⟨span.start, span.stop, wanted⟩

theorem setSpaces_eq (h : span.Cuts s before held after) (count : Nat) :
    setSpaces s span count = .ok (setSpaces? s span count) := by
  rw [setSpaces, slice_of_cuts h, ok_bind, setSpaces?_eq h, pure_eq_ok]

/-! ## Tokens -/

def locate (s : Text) (anchor : Anchor) (token : Text) : Slicing (Option Span) := do
  let start ← wordStart s anchor.start
  onSome (s.searchFromIgnoringCase? start token) fun found ↦
    return if found.stop ≤ s.lineEnd anchor.lineBegin then some found else none

theorem locate_eq (h : anchor.Within s) (token : Text) :
    locate s anchor token = .ok (locate? s anchor token) := by
  obtain ⟨word, hword, hword'⟩ := exists_wordStart_eq h.start
  rw [locate, locate?, hword, hword', ok_bind]
  apply onSome_eq
  intro found _
  rfl

def elseIf (s : Text) (anchor : Anchor) : Slicing (Option Edit) := do
  let found ← locate s anchor "else if".toList
  return found.map fun found ↦ ⟨found.start, found.stop, "elseif".toList⟩

theorem elseIf_eq (h : anchor.Within s) : elseIf s anchor = .ok (Change.elseIf? s anchor) := by
  rw [elseIf, locate_eq h, ok_bind, pure_eq_ok, Change.elseIf?]

def keyword (s : Text) (anchor : Anchor) (groups : Captures) : Slicing (Option Edit) :=
  onSome (groups.number? 0) fun expected ↦
  onSome (groups.text? 1) fun keyword ↦
  onSome (groups.number? 2) fun counted ↦ do
    let start ← wordStart s anchor.start
    onSome (s.searchFromIgnoringCase? start keyword) fun found ↦
      adjustSpaces s found.stop expected counted

theorem keyword_eq (h : anchor.Within s) :
    keyword s anchor groups = .ok (Change.keyword? s anchor groups) := by
  rw [keyword, Change.keyword?]
  apply onSome_eq
  intro expected _
  apply onSome_eq
  intro keyword _
  apply onSome_eq
  intro counted _
  obtain ⟨word, hword, hword'⟩ := exists_wordStart_eq h.start
  rw [hword, hword', ok_bind]
  apply onSome_eq
  intro found hfound
  obtain ⟨before, held, after, hcuts, -⟩ := exists_cuts_of_searchFromIgnoringCase? hfound
  exact adjustSpaces_eq hcuts.isBoundary_stop expected counted

def indented (s : Text) (anchor : Anchor) (groups : Captures) : Slicing (Option Edit) :=
  onSome (groups.number? 1) fun expected ↦
  onSome (groups.number? 2) fun counted ↦
    adjustSpaces s (s.lineStart anchor.lineBegin) expected counted

theorem indented_eq : indented s anchor groups = .ok (Change.indentation? s anchor groups) := by
  apply onSome_eq
  intro expected _
  apply onSome_eq
  intro counted _
  exact adjustSpaces_eq (isBoundary_offsetOf s _ _) expected counted

def closeParenthesis (s : Text) (anchor : Anchor) (groups : Captures) : Slicing (Option Edit) :=
  onSome (groups.number? 0) fun expected ↦
  onSome (groups.number? 1) fun counted ↦
    adjustSpaces s anchor.stop expected counted

theorem closeParenthesis_eq (h : anchor.Within s) :
    closeParenthesis s anchor groups = .ok (Change.closeParenthesis? s anchor groups) := by
  apply onSome_eq
  intro expected _
  apply onSome_eq
  intro counted _
  exact adjustSpaces_eq h.stop expected counted

/-- A rewritten keyword needs its slice only to be put back as it was written. -/
def moveStatic (s : Text) (anchor : Anchor) : Slicing (Option (List Edit)) := do
  onSome (← locate s anchor "static ".toList) fun keyword ↦
  onSome (s.searchFrom? keyword.stop [' ']) fun space ↦ do
    let written ← slice s keyword.start keyword.stop
    return some [.delete keyword.start keyword.stop, .insert space.stop written]

theorem moveStatic_eq (h : anchor.Within s) :
    moveStatic s anchor = .ok (Change.moveStatic? s anchor) := by
  rw [moveStatic, Change.moveStatic?, locate_eq h, ok_bind]
  apply onSome_eq
  intro keyword hkeyword
  apply onSome_eq
  intro space _
  obtain ⟨before, held, after, hcuts, -⟩ := Change.exists_cuts_of_locate? hkeyword
  rw [slice_of_cuts hcuts, ok_bind, hcuts.after?_start, Option.bind_eq_bind, Option.bind_some,
    hcuts.before?_held]
  rfl

/-! ## Braces -/

def brace (s : Text) (anchor : Anchor) (groups : Captures) : Slicing (Option Edit) :=
  onSome (groups.number? 0) fun expected ↦
  onSome (groups.number? 2) fun counted ↦
  onSome (s.searchBefore? anchor.stop (Repair.brace groups 1)) fun found ↦
    adjustSpaces s found.stop expected counted

theorem brace_eq : brace s anchor groups = .ok (Change.brace? s anchor groups) := by
  rw [brace, Change.brace?]
  apply onSome_eq
  intro expected _
  apply onSome_eq
  intro counted _
  apply onSome_eq
  intro found hfound
  obtain ⟨before, after, hcuts, -⟩ := exists_cuts_of_searchBefore? hfound
  exact adjustSpaces_eq hcuts.isBoundary_stop expected counted

def newlineAfterBrace (s : Text) (anchor : Anchor) (groups : Captures) : Slicing (Option Edit) :=
  onSome (groups.number? 0) fun expected ↦
  onSome (groups.number? 2) fun counted ↦
  onSome (s.searchBefore? anchor.stop (Repair.brace groups 1)) fun found ↦
    if expected > counted then
      return some (.insert found.stop (List.replicate (expected - counted) '\n'))
    else do
      let rest ← tail s found.stop
      match surplusBreaks (counted - expected) rest with
      | 0 => return none
      | n + 1 => return some (.delete found.stop (found.stop + (n + 1)))

theorem newlineAfterBrace_eq :
    newlineAfterBrace s anchor groups = .ok (Change.newlineAfterBrace? s anchor groups) := by
  rw [newlineAfterBrace, Change.newlineAfterBrace?]
  apply onSome_eq
  intro expected _
  apply onSome_eq
  intro counted _
  apply onSome_eq
  intro found hfound
  obtain ⟨before, after, hcuts, -⟩ := exists_cuts_of_searchBefore? hfound
  by_cases hlt : expected > counted
  · rw [if_pos hlt, if_pos hlt]
    rfl
  · have hrest : s.after? found.stop = some after := hcuts.after?_stop
    rw [if_neg hlt, if_neg hlt, hrest, tail_of_after? hrest, ok_bind, Option.bind_eq_bind,
      Option.bind_some]
    cases surplusBreaks (counted - expected) after <;> rfl

def spacesBeforeBrace (s : Text) (anchor : Anchor) (groups : Captures) : Slicing (Option Edit) :=
  onSome (groups.number? 0) fun expected ↦
  onSome (s.searchFrom? anchor.start ['\x7b']) fun found ↦
    if found.start > s.lineEnd anchor.lineBegin then return none
    else do
      let gap ← gapBefore s found.start
      setSpaces s ⟨found.start - gap, found.start⟩ expected

theorem spacesBeforeBrace_eq :
    spacesBeforeBrace s anchor groups = .ok (Change.spacesBeforeBrace? s anchor groups) := by
  rw [spacesBeforeBrace, Change.spacesBeforeBrace?]
  apply onSome_eq
  intro expected _
  apply onSome_eq
  intro found hfound
  obtain ⟨a, b, hbrace, -⟩ := exists_cuts_of_searchFrom? hfound
  obtain ⟨gap, hgap, hgap'⟩ := exists_gapBefore_eq hbrace.isBoundary_start
  obtain ⟨before, held, after, hcuts, -⟩ := exists_cuts_of_gapBefore? hgap'
  split
  · rfl
  · rw [hgap, hgap', ok_bind, Option.bind_eq_bind, Option.bind_some]
    exact setSpaces_eq hcuts expected

/-! ## Arguments -/

def defaultValue (s : Text) (anchor : Anchor) (groups : Captures) : Slicing (Option Edit) :=
  onSome (groups.text? 0) fun name ↦
  onSome (groups.number? 1) fun expected ↦ do
    onSome (← variableOnLine s anchor.lineBegin name) fun found ↦
    onSome (s.searchFrom? found.stop ['=']) fun equals ↦
      if equals.stop > s.lineEnd anchor.lineBegin then return none
      else do
        let gap ← gapAfter s equals.stop
        setSpaces s ⟨equals.stop, equals.stop + gap⟩ expected

theorem defaultValue_eq (hname : ∀ name, groups.text? 0 = some name → IsVariable name) :
    defaultValue s anchor groups = .ok (Change.defaultValue? s anchor groups) := by
  rw [defaultValue, Change.defaultValue?]
  apply onSome_eq
  intro name htext
  apply onSome_eq
  intro expected _
  rw [variableOnLine_eq (hname name htext), ok_bind]
  apply onSome_eq
  intro found _
  apply onSome_eq
  intro equals hequals
  obtain ⟨a, b, hsign, -⟩ := exists_cuts_of_searchFrom? hequals
  obtain ⟨gap, hgap, hgap'⟩ := exists_gapAfter_eq hsign.isBoundary_stop
  obtain ⟨before, held, after, hcuts, -⟩ := exists_cuts_of_gapAfter? hgap'
  split
  · rfl
  · rw [hgap, hgap', ok_bind, Option.bind_eq_bind, Option.bind_some]
    exact setSpaces_eq hcuts expected

def argumentEquals (s : Text) (anchor : Anchor) (groups : Captures) : Slicing (Option Edit) :=
  onSome (groups.text? 0) fun name ↦
  onSome (groups.number? 1) fun expected ↦ do
    onSome (← variableOnLine s anchor.lineBegin name) fun found ↦ do
      let gap ← gapAfter s found.stop
      let rest ← tail s (found.stop + gap)
      if rest.head? = some '=' then setSpaces s ⟨found.stop, found.stop + gap⟩ expected
      else return none

theorem argumentEquals_eq (hname : ∀ name, groups.text? 0 = some name → IsVariable name) :
    argumentEquals s anchor groups = .ok (Change.argumentEquals? s anchor groups) := by
  rw [argumentEquals, Change.argumentEquals?]
  apply onSome_eq
  intro name htext
  apply onSome_eq
  intro expected _
  rw [variableOnLine_eq (hname name htext), ok_bind]
  apply onSome_eq
  intro found hfound
  obtain ⟨a, b, hvariable⟩ := exists_cuts_of_variableOnLine? hfound
  obtain ⟨gap, hgap, hgap'⟩ := exists_gapAfter_eq hvariable.isBoundary_stop
  obtain ⟨before, held, after, hcuts, -⟩ := exists_cuts_of_gapAfter? hgap'
  have hrest : s.after? (found.stop + gap) = some after := hcuts.after?_stop
  rw [hgap, hgap', ok_bind, tail_of_after? hrest, ok_bind, Option.bind_eq_bind, Option.bind_some,
    hrest, Option.bind_eq_bind, Option.bind_some]
  split
  · exact setSpaces_eq hcuts expected
  · rfl

/-! ## Line breaks and blank lines -/

def eofNewline (s : Text) (groups : Captures) : Slicing (Option Edit) :=
  onSome (groups.number? 0) fun expected ↦ do
    let content := s.dropEndWhile fun c ↦ c == '\n' || c == '\r'
    let wanted := List.replicate expected '\n'
    let held ← tail s content.size
    return if held = wanted then none else some ⟨content.size, s.size, wanted⟩

theorem eofNewline_eq : eofNewline s groups = .ok (Change.eofNewline? s groups) := by
  rw [eofNewline, Change.eofNewline?]
  apply onSome_eq
  intro expected _
  have hsplit := takeEndWhile_append_dropEndWhile (fun c ↦ c == '\n' || c == '\r') s
  have htail := tail_size_append (s.dropEndWhile fun c ↦ c == '\n' || c == '\r')
    (s.takeEndWhile fun c ↦ c == '\n' || c == '\r')
  have hsame (wanted : Text) : (s = (s.dropEndWhile fun c ↦ c == '\n' || c == '\r') ++ wanted) =
      ((s.takeEndWhile fun c ↦ c == '\n' || c == '\r') = wanted) := by
    rw [eq_iff_iff, ← List.append_cancel_left_eq (s.dropEndWhile _) _ wanted, hsplit]
  rw [hsplit] at htail
  simp only [htail, ok_bind, pure_eq_ok, hsame]

def nextCodeLine (s : Text) (line : Nat) : Slicing (Option Nat) :=
  (List.range' line (s.lineCount - line)).findM? fun n ↦ return ¬ (← isBlankLine s n)

theorem nextCodeLine_eq (s : Text) (line : Nat) :
    nextCodeLine s line = .ok (nextCodeLine? s line) := by
  simp only [nextCodeLine, isBlankLine_eq, ok_bind]
  exact List.findM?_pure _ _

def blankLineAfter (s : Text) (anchor : Anchor) : Slicing (Option Edit) := do
  onSome (← nextCodeLine s (anchor.lineBegin + 1)) fun next ↦ do
    let start := s.lineStart (anchor.lineBegin + 1)
    let stop := s.lineStart next
    let held ← slice s start stop
    return if held = ['\n'] then none else some ⟨start, stop, ['\n']⟩

theorem blankLineAfter_eq (s : Text) (anchor : Anchor) :
    blankLineAfter s anchor = .ok (Change.blankLineAfter? s anchor) := by
  rw [blankLineAfter, Change.blankLineAfter?, nextCodeLine_eq, ok_bind]
  apply onSome_eq
  intro next hnext
  obtain ⟨-, hle, hlt, -⟩ := Change.nextCodeLine?_eq_some_iff.mp hnext
  have hcuts := cuts_lines hle hlt
  simp only [slice_of_cuts hcuts, ok_bind, hcuts.after?_start, Option.bind_eq_bind,
    Option.bind_some, hcuts.before?_held, pure_eq_ok]

def firstBlankAbove (s : Text) : Nat → Slicing Nat
  | 0 => return 0
  | line + 1 => do
    if ← isBlankLine s line then firstBlankAbove s line else return line + 1

theorem firstBlankAbove_eq (s : Text) (line : Nat) :
    firstBlankAbove s line = .ok (Repair.firstBlankAbove s line) := by
  induction line with
  | zero => rfl
  | succ line ih =>
    rw [firstBlankAbove, Repair.firstBlankAbove, isBlankLine_eq, ok_bind, ih]
    split <;> rfl

def blankLinesBeforeClose (s : Text) (anchor : Anchor) : Slicing (Option Edit) := do
  let first ← firstBlankAbove s anchor.lineBegin
  return if first = anchor.lineBegin then none
    else some (.delete (s.lineStart first) (s.lineStart anchor.lineBegin))

theorem blankLinesBeforeClose_eq (s : Text) (anchor : Anchor) :
    blankLinesBeforeClose s anchor = .ok (Change.blankLinesBeforeClose? s anchor) := by
  rw [blankLinesBeforeClose, firstBlankAbove_eq]
  rfl

def trailingWhitespace (s : Text) (anchor : Anchor) : Slicing (Option Edit) := do
  let line ← lineText s anchor.lineBegin
  let kept := line.dropEndWhile isSpaceOrTab
  let start := s.lineStart anchor.lineBegin
  return if kept.length = line.length then none
    else some (.delete (start + kept.size) (start + line.size))

theorem trailingWhitespace_eq (s : Text) (anchor : Anchor) :
    trailingWhitespace s anchor = .ok (Change.trailingWhitespace? s anchor) := by
  rw [trailingWhitespace, lineText_eq]
  rfl

/-! ## All rules -/

def edits (s : Text) (anchor : Anchor) (groups : Captures) : Rule → Slicing (List Edit)
  | .classBraceOnNewLine => return (Change.classBrace? s anchor).toList
  | .openingBraceOnNewLine => return (Change.openingBrace? s anchor).toList
  | .keywordSpacing => return (← keyword s anchor groups).toList
  | .indentation => return (← indented s anchor groups).toList
  | .braceSpacing => return (← brace s anchor groups).toList
  | .eofNewline => return (← eofNewline s groups).toList
  | .newlineAfterBrace => return (← newlineAfterBrace s anchor groups).toList
  | .closeParenthesisSpacing => return (← closeParenthesis s anchor groups).toList
  | .defaultValueSpacing => return (← defaultValue s anchor groups).toList
  | .argumentEqualsSpacing => return (← argumentEquals s anchor groups).toList
  | .spacesBeforeOpeningBrace => return (← spacesBeforeBrace s anchor groups).toList
  | .blankLineAfterStatement => return (← blankLineAfter s anchor).toList
  | .blankLinesBeforeClassClose => return (← blankLinesBeforeClose s anchor).toList
  | .elseIf => return (← elseIf s anchor).toList
  | .staticAfterVisibility => return (← moveStatic s anchor).getD []
  | .trailingWhitespace => return (← trailingWhitespace s anchor).toList

/-- What a message names as a variable is one, for the rules whose messages name a variable. -/
theorem isVariable_of_match? {message : Text} {found : Pattern.Match}
    (hrule : rule = .defaultValueSpacing ∨ rule = .argumentEqualsSpacing)
    (h : Pattern.match? rule.pattern message = some found) {name : Text}
    (hname : found.groups.text? 0 = some name) : IsVariable name := by
  obtain ⟨⟨groups, left⟩, hstart, rfl⟩ := Option.map_eq_some_iff.mp h
  -- both patterns are a literal and the variable behind it
  obtain ⟨literal, rest, hpattern⟩ : ∃ literal rest,
      rule.pattern = .literal literal :: .varName :: rest := by
    rcases hrule with rfl | rfl <;> exact ⟨_, _, rfl⟩
  simp only [hpattern, Pattern.matchStart?, Option.bind_eq_some_iff, Option.map_eq_some_iff]
    at hstart
  obtain ⟨t, -, ⟨read, behind⟩, hread, ⟨groups', left'⟩, -, heq⟩ := hstart
  obtain ⟨rfl, -⟩ : some read :: groups' = groups ∧ left' = left := by simpa using heq
  obtain rfl : read = name := by simpa [Captures.text?] using hname
  exact isVariable_of_readName? hread

theorem toList_eq {α : Type} {x : Slicing (Option α)} {y : Option α} (h : x = .ok y) :
    (return (← x).toList : Slicing (List α)) = .ok y.toList := by
  rw [h, ok_bind, pure_eq_ok]

/-- No rule slices a text where it has no place, in answer to a message that it knows. -/
theorem edits_eq (h : anchor.Within s) {message : Text} {found : Pattern.Match}
    (hmatch : Pattern.match? rule.pattern message = some found) :
    edits s anchor found.groups rule = .ok (rule.edits s anchor found.groups) := by
  cases rule with
  | classBraceOnNewLine => rfl
  | openingBraceOnNewLine => rfl
  | keywordSpacing => exact toList_eq (keyword_eq h)
  | indentation => exact toList_eq indented_eq
  | braceSpacing => exact toList_eq brace_eq
  | eofNewline => exact toList_eq eofNewline_eq
  | newlineAfterBrace => exact toList_eq newlineAfterBrace_eq
  | closeParenthesisSpacing => exact toList_eq (closeParenthesis_eq h)
  | defaultValueSpacing =>
    apply toList_eq
    apply defaultValue_eq
    intro name
    exact isVariable_of_match? (.inl rfl) hmatch
  | argumentEqualsSpacing =>
    apply toList_eq
    apply argumentEquals_eq
    intro name
    exact isVariable_of_match? (.inr rfl) hmatch
  | spacesBeforeOpeningBrace => exact toList_eq spacesBeforeBrace_eq
  | blankLineAfterStatement => exact toList_eq (blankLineAfter_eq s anchor)
  | blankLinesBeforeClassClose => exact toList_eq (blankLinesBeforeClose_eq s anchor)
  | elseIf => exact toList_eq (elseIf_eq h)
  | staticAfterVisibility => rw [edits, moveStatic_eq h, ok_bind, pure_eq_ok, Rule.edits]
  | trailingWhitespace => exact toList_eq (trailingWhitespace_eq s anchor)

end LintMend.Sliced
