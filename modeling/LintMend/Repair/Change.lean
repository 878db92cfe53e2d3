import LintMend.Edit
import LintMend.Repair.Anchor
import LintMend.Repair.Rule
import LintMend.Text.Search

/-!
# Changes

The edits with which a rule answers a message at an anchor. A rule whose target is not there, or
is as the message wants it already, has no edits.
-/

namespace LintMend.Repair

/-- Makes `expected` spaces of what the message counts as `found`: the missing ones are inserted at
the offset, as many characters as there are too many are deleted behind it. -/
def adjustSpaces? (s : Text) (offset expected found : Nat) : Option Edit :=
  if expected > found then
    some (.insert offset (List.replicate (expected - found) ' '))
  else
    (s.advance? offset (found - expected)).bind fun stop ↦
      if stop > offset then some (.delete offset stop) else none

/-- Makes a span hold exactly `count` spaces. -/
def setSpaces? (s : Text) (span : Span) (count : Nat) : Option Edit := do
  let rest ← s.after? span.start
  let held ← rest.before? (span.stop - span.start)
  let wanted := List.replicate count ' '
  if held = wanted then none else some ⟨span.start, span.stop, wanted⟩

/-- The brace a message names. -/
def brace (groups : Captures) (i : Nat) : Text :=
  if groups.text? i = some "opening".toList then ['\x7b'] else ['\x7d']

/-- A token at an anchor or else its next occurrence on the same line, in either case. -/
def locate? (s : Text) (anchor : Anchor) (token : Text) : Option Span := do
  let start ← s.wordStart? anchor.start
  let found ← s.searchFromIgnoringCase? start token
  if found.stop ≤ s.lineEnd anchor.lineBegin then some found else none

/-- Size of the beginning of a text that ends with the last of at most `surplus` line feeds, all of
them among the blank characters at the start of the text. -/
def surplusBreaks : Nat → Text → Nat
  | 0, _ => 0
  | _ + 1, [] => 0
  | surplus + 1, c :: s =>
    if ¬ Text.isBlank c then 0
    else if c = '\n' then c.utf8Size + surplusBreaks surplus s
    else
      match surplusBreaks (surplus + 1) s with
      | 0 => 0
      | n + 1 => c.utf8Size + (n + 1)

/-- The first line of the blank lines directly above a line, or the line itself. -/
def firstBlankAbove (s : Text) : Nat → Nat
  | 0 => 0
  | line + 1 => if s.isBlankLine line then firstBlankAbove s line else line + 1

/-- The first line that is not blank among the lines from a given one on, if the text has it. -/
def nextCodeLine? (s : Text) (line : Nat) : Option Nat :=
  ((List.range' line (s.lineCount - line)).find? fun n ↦ ¬ s.isBlankLine n)

/-! ## The edits of each rule -/

namespace Change

def classBrace? (s : Text) (anchor : Anchor) : Option Edit :=
  (s.searchFrom? anchor.start ['\x7b']).map fun found ↦ .insert found.start ['\n']

def openingBrace? (s : Text) (anchor : Anchor) : Option Edit :=
  (s.searchFrom? anchor.start ['\x7b']).map fun found ↦
    .insert found.start ('\n' :: anchor.indent)

/-- The anchor may point inside the keyword, so the search starts with the word it points into. -/
def keyword? (s : Text) (anchor : Anchor) (groups : Captures) : Option Edit := do
  let expected ← groups.number? 0
  let keyword ← groups.text? 1
  let counted ← groups.number? 2
  let start ← s.wordStart? anchor.start
  let found ← s.searchFromIgnoringCase? start keyword
  adjustSpaces? s found.stop expected counted

def indentation? (s : Text) (anchor : Anchor) (groups : Captures) : Option Edit := do
  let expected ← groups.number? 1
  let counted ← groups.number? 2
  adjustSpaces? s (s.lineStart anchor.lineBegin) expected counted

def brace? (s : Text) (anchor : Anchor) (groups : Captures) : Option Edit := do
  let expected ← groups.number? 0
  let counted ← groups.number? 2
  let found ← s.searchBefore? anchor.stop (brace groups 1)
  adjustSpaces? s found.stop expected counted

def eofNewline? (s : Text) (groups : Captures) : Option Edit := do
  let expected ← groups.number? 0
  let content := s.dropEndWhile fun c ↦ c == '\n' || c == '\r'
  let wanted := List.replicate expected '\n'
  if s = content ++ wanted then none else some ⟨content.size, s.size, wanted⟩

/-- Surplus line breaks are removed only with the blank characters around them. -/
def newlineAfterBrace? (s : Text) (anchor : Anchor) (groups : Captures) : Option Edit := do
  let expected ← groups.number? 0
  let counted ← groups.number? 2
  let found ← s.searchBefore? anchor.stop (brace groups 1)
  if expected > counted then
    return .insert found.stop (List.replicate (expected - counted) '\n')
  else
    let rest ← s.after? found.stop
    match surplusBreaks (counted - expected) rest with
    | 0 => none
    | n + 1 => some (.delete found.stop (found.stop + (n + 1)))

def closeParenthesis? (s : Text) (anchor : Anchor) (groups : Captures) : Option Edit := do
  let expected ← groups.number? 0
  let counted ← groups.number? 1
  adjustSpaces? s anchor.stop expected counted

def defaultValue? (s : Text) (anchor : Anchor) (groups : Captures) : Option Edit := do
  let name ← groups.text? 0
  let expected ← groups.number? 1
  let found ← s.variableOnLine? anchor.lineBegin name
  let equals ← s.searchFrom? found.stop ['=']
  if equals.stop > s.lineEnd anchor.lineBegin then none
  else
    let gap ← s.gapAfter? equals.stop
    setSpaces? s ⟨equals.stop, equals.stop + gap⟩ expected

def argumentEquals? (s : Text) (anchor : Anchor) (groups : Captures) : Option Edit := do
  let name ← groups.text? 0
  let expected ← groups.number? 1
  let found ← s.variableOnLine? anchor.lineBegin name
  let gap ← s.gapAfter? found.stop
  let rest ← s.after? (found.stop + gap)
  if rest.head? = some '=' then setSpaces? s ⟨found.stop, found.stop + gap⟩ expected else none

def spacesBeforeBrace? (s : Text) (anchor : Anchor) (groups : Captures) : Option Edit := do
  let expected ← groups.number? 0
  let found ← s.searchFrom? anchor.start ['\x7b']
  if found.start > s.lineEnd anchor.lineBegin then none
  else
    let gap ← s.gapBefore? found.start
    setSpaces? s ⟨found.start - gap, found.start⟩ expected

def blankLineAfter? (s : Text) (anchor : Anchor) : Option Edit := do
  let next ← nextCodeLine? s (anchor.lineBegin + 1)
  let start := s.lineStart (anchor.lineBegin + 1)
  let stop := s.lineStart next
  let rest ← s.after? start
  let held ← rest.before? (stop - start)
  if held = ['\n'] then none else some ⟨start, stop, ['\n']⟩

def blankLinesBeforeClose? (s : Text) (anchor : Anchor) : Option Edit :=
  let first := firstBlankAbove s anchor.lineBegin
  if first = anchor.lineBegin then none
  else some (.delete (s.lineStart first) (s.lineStart anchor.lineBegin))

def elseIf? (s : Text) (anchor : Anchor) : Option Edit :=
  (locate? s anchor "else if".toList).map fun found ↦
    ⟨found.start, found.stop, "elseif".toList⟩

/-- Takes the keyword `static` away and puts it back, as it was written, behind the word that
follows it. -/
def moveStatic? (s : Text) (anchor : Anchor) : Option (List Edit) := do
  let keyword ← locate? s anchor "static ".toList
  let space ← s.searchFrom? keyword.stop [' ']
  let rest ← s.after? keyword.start
  let written ← rest.before? (keyword.stop - keyword.start)
  return [.delete keyword.start keyword.stop, .insert space.stop written]

def trailingWhitespace? (s : Text) (anchor : Anchor) : Option Edit :=
  let line := s.lineText anchor.lineBegin
  let kept := line.dropEndWhile Text.isSpaceOrTab
  let start := s.lineStart anchor.lineBegin
  if kept.length = line.length then none
  else some (.delete (start + kept.size) (start + line.size))

end Change

namespace Rule

open Change in
/-- The edits of a rule; none where it finds nothing to do. -/
def edits (s : Text) (anchor : Anchor) (groups : Captures) : Rule → List Edit
  | classBraceOnNewLine => (classBrace? s anchor).toList
  | openingBraceOnNewLine => (openingBrace? s anchor).toList
  | keywordSpacing => (keyword? s anchor groups).toList
  | indentation => (indentation? s anchor groups).toList
  | braceSpacing => (brace? s anchor groups).toList
  | eofNewline => (eofNewline? s groups).toList
  | newlineAfterBrace => (newlineAfterBrace? s anchor groups).toList
  | closeParenthesisSpacing => (closeParenthesis? s anchor groups).toList
  | defaultValueSpacing => (defaultValue? s anchor groups).toList
  | argumentEqualsSpacing => (argumentEquals? s anchor groups).toList
  | spacesBeforeOpeningBrace => (spacesBeforeBrace? s anchor groups).toList
  | blankLineAfterStatement => (blankLineAfter? s anchor).toList
  | blankLinesBeforeClassClose => (blankLinesBeforeClose? s anchor).toList
  | elseIf => (elseIf? s anchor).toList
  | staticAfterVisibility => (moveStatic? s anchor).getD []
  | trailingWhitespace => (trailingWhitespace? s anchor).toList

end Rule

end LintMend.Repair
