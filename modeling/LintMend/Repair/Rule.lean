import LintMend.Repair.Pattern

/-!
# Repair rules

The sixteen kinds of messages that a repair is known for: the name and the description of each
rule, and the pattern of the messages it answers.
-/

namespace LintMend.Repair

inductive Rule where
  | classBraceOnNewLine
  | openingBraceOnNewLine
  | keywordSpacing
  | indentation
  | braceSpacing
  | eofNewline
  | newlineAfterBrace
  | closeParenthesisSpacing
  | defaultValueSpacing
  | argumentEqualsSpacing
  | spacesBeforeOpeningBrace
  | blankLineAfterStatement
  | blankLinesBeforeClassClose
  | elseIf
  | staticAfterVisibility
  | trailingWhitespace
deriving DecidableEq, Repr, Inhabited

namespace Rule

/-- Every rule, in the order in which they are tried. -/
def all : List Rule :=
  [classBraceOnNewLine, openingBraceOnNewLine, keywordSpacing, indentation, braceSpacing,
   eofNewline, newlineAfterBrace, closeParenthesisSpacing, defaultValueSpacing,
   argumentEqualsSpacing, spacesBeforeOpeningBrace, blankLineAfterStatement,
   blankLinesBeforeClassClose, elseIf, staticAfterVisibility, trailingWhitespace]

def name : Rule → String
  | classBraceOnNewLine => "class_brace_on_new_line"
  | openingBraceOnNewLine => "opening_brace_on_new_line"
  | keywordSpacing => "keyword_spacing"
  | indentation => "indentation"
  | braceSpacing => "brace_spacing"
  | eofNewline => "eof_newline"
  | newlineAfterBrace => "newline_after_brace"
  | closeParenthesisSpacing => "close_parenthesis_spacing"
  | defaultValueSpacing => "default_value_spacing"
  | argumentEqualsSpacing => "argument_equals_spacing"
  | spacesBeforeOpeningBrace => "spaces_before_opening_brace"
  | blankLineAfterStatement => "blank_line_after_statement"
  | blankLinesBeforeClassClose => "blank_lines_before_class_close"
  | elseIf => "else_if"
  | staticAfterVisibility => "static_after_visibility"
  | trailingWhitespace => "trailing_whitespace"

def named? (name : String) : Option Rule := all.find? (·.name == name)

def description : Rule → String
  | classBraceOnNewLine => "Put the opening brace of a class on the line after the definition"
  | openingBraceOnNewLine => "Put the opening brace on a new line"
  | keywordSpacing => "Fix the number of spaces after a keyword"
  | indentation => "Fix the indentation of a line"
  | braceSpacing => "Fix the number of spaces after a brace"
  | eofNewline => "End the file with the expected number of line breaks"
  | newlineAfterBrace => "Fix the number of line breaks after a brace"
  | closeParenthesisSpacing => "Fix the number of spaces after a closing parenthesis"
  | defaultValueSpacing =>
    "Fix the spacing between an argument's equals sign and default value"
  | argumentEqualsSpacing => "Fix the spacing between an argument and its equals sign"
  | spacesBeforeOpeningBrace => "Fix the number of spaces before an opening brace"
  | blankLineAfterStatement => "Leave one blank line after the last statement of a block"
  | blankLinesBeforeClassClose => "Remove blank lines above the closing brace of a class"
  | elseIf => "Replace ELSE IF with ELSEIF"
  | staticAfterVisibility => "Move the static keyword after the visibility"
  | trailingWhitespace => "Remove whitespace at the end of the line"

/-- The messages a rule answers. Counts are captured in the order expected, found, and a keyword,
brace or variable where the message names it. -/
def pattern : Rule → Pattern
  | classBraceOnNewLine =>
    [.literal "Opening brace of a class must be on the line after the definition", .stop]
  | openingBraceOnNewLine => [.literal "Opening brace should be on a new line", .stop]
  | keywordSpacing =>
    [.literal "Expected ", .capturedRun .decimal, .literal " space", .optional "s",
     .literal " after ", .capturedRun .keyword, .literal " keyword; ", .capturedRun .decimal,
     .literal " found"]
  | indentation =>
    [.run .phrase, .literal " indented incorrectly; expected", .capturedOptional " at least",
     .literal " ", .capturedRun .decimal, .literal " spaces, found ", .capturedRun .decimal]
  | braceSpacing =>
    [.literal "Expected ", .capturedRun .decimal, .literal " space", .optional "s",
     .literal " after ", .either "opening" "closing", .literal " brace; ",
     .capturedRun .decimal, .literal " found"]
  | eofNewline =>
    [.literal "Expected ", .capturedRun .decimal, .literal " newline", .optional "s",
     .literal " at end of file; ", .capturedRun .decimal, .literal " found"]
  | newlineAfterBrace =>
    [.literal "Expected ", .capturedRun .decimal, .literal " newline", .optional "s",
     .literal " after ", .either "opening" "closing", .literal " brace; ",
     .capturedRun .decimal, .literal " found"]
  | closeParenthesisSpacing =>
    [.literal "Expected ", .capturedRun .decimal, .literal " space", .optional "s",
     .literal " after closing parenthesis; found ", .capturedRun .decimal]
  | defaultValueSpacing =>
    [.literal "Incorrect spacing between default value and equals sign for argument \"",
     .varName, .literal "\"; expected ", .capturedRun .decimal, .literal " but found ",
     .capturedRun .decimal]
  | argumentEqualsSpacing =>
    [.literal "Incorrect spacing between argument \"", .varName,
     .literal "\" and equals sign; expected ", .capturedRun .decimal, .literal " but found ",
     .capturedRun .decimal]
  | spacesBeforeOpeningBrace =>
    [.literal "Expected ", .capturedRun .decimal, .literal " space", .optional "s",
     .literal " before opening brace; ", .capturedRun .decimal, .literal " found"]
  | blankLineAfterStatement =>
    [.literal "There must be one blank line after the last ", .capturedRun .keyword,
     .literal " statement; ", .capturedRun .decimal, .literal " found;"]
  | blankLinesBeforeClassClose =>
    [.literal "The closing brace for the class must go on the next line after the body", .stop]
  | elseIf => [.literal "Usage of ELSE IF is discouraged; use ELSEIF instead", .stop]
  | staticAfterVisibility =>
    [.literal "The static declaration must come after the visibility declaration", .stop]
  | trailingWhitespace => [.literal "Whitespace found at end of line", .stop]

/-- The first of some rules that answers a message, and what it captured. -/
def find? (rules : List Rule) (message : Text) : Option (Rule × Pattern.Match) :=
  rules.findSome? fun rule ↦ (Pattern.match? rule.pattern message).map fun m ↦ (rule, m)

end Rule

end LintMend.Repair
