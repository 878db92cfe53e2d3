import LintMend.Proofs.Csv.Written
import LintMend.Proofs.Text.Ascii
import LintMend.Proofs.Text.Position
import LintMend.Report.Phplint

/-!
# Errors of the syntax check are read back

The syntax check writes an error on a line of its own: an arrow, the message and the range. A
message may look like a range itself, or begin like an arrow. But no range begins inside another
one, so the last range of such a line is the one it was written with, and the message is all that
stands between the arrow and that range. Any other line gives a hint only if it holds a range in
digits of ASCII, for the digits of other scripts are found but not read.
-/

namespace LintMend

/-! ## Lines of an output -/

/-- A line loses a carriage return before the line feed that ends it. -/
theorem Text.outputLines_append_lineFeed {line : Text} (h : '\n' ∉ line) (rest : Text) :
    outputLines (line ++ '\n' :: rest) = line.dropCarriageReturn :: outputLines rest := by
  induction line with
  | nil =>
    rw [List.nil_append, outputLines, if_pos rfl]
    rfl
  | cons c line ih =>
    rw [List.mem_cons, not_or] at h
    rw [List.cons_append, outputLines, if_neg (Ne.symm h.1), ih h.2]
    cases line with
    | nil =>
      by_cases hc : c = '\r'
      · subst hc
        rfl
      · rw [if_neg fun h ↦ hc h.1]
        simp [dropCarriageReturn, hc]
    | cons d line =>
      have hd : d ≠ '\n' := by
        rintro rfl
        exact h.2 List.mem_cons_self
      have hkept := dropCarriageReturn_append_of_ne_nil (List.cons_ne_nil d line) [c]
      rw [if_neg fun h ↦ hd (Option.some.inj h.2)]
      exact congrArg (· :: outputLines rest) hkept.symm

namespace Report.Phplint

open Text Csv

/-! ## What is printed -/

namespace Range

/-- A range as a line writes it. -/
def text (range : Range) : Text :=
  [' ', 'f', 'r', 'o', 'm', ' '] ++ (range.beginLine ++ ([':'] ++ (range.beginColumn ++
    ([' ', 't', 'o', ' '] ++ (range.endLine ++ ([':'] ++ range.endColumn))))))

/-- The four numbers are made of digits, each of one at least. -/
structure IsOf (p : Char → Bool) (range : Range) : Prop where
  beginLine : range.beginLine ≠ [] ∧ ∀ c ∈ range.beginLine, p c
  beginColumn : range.beginColumn ≠ [] ∧ ∀ c ∈ range.beginColumn, p c
  endLine : range.endLine ≠ [] ∧ ∀ c ∈ range.endLine, p c
  endColumn : range.endColumn ≠ [] ∧ ∀ c ∈ range.endColumn, p c

end Range

/-- An error; its lines and columns are counted from one. -/
structure SyntaxError where
  message : Text
  beginLine : Nat
  beginColumn : Nat
  endLine : Nat
  endColumn : Nat
deriving DecidableEq, Repr

namespace SyntaxError

def range (error : SyntaxError) : Range :=
  ⟨digits error.beginLine, digits error.beginColumn, digits error.endLine, digits error.endColumn⟩

def line (error : SyntaxError) : Text :=
  ['=', '=', '>', ' '] ++ (error.message ++ error.range.text)

/-- The hint that an error stands for. Its positions are counted from zero, and its last column is
the one behind the error. -/
def hint (error : SyntaxError) : Hint where
  lineBegin := error.beginLine - 1
  lineEnd := error.endLine - 1
  columnBegin := error.beginColumn - 1
  columnEnd := error.endColumn
  message := String.ofList error.message
  color := Adapter.phplint.color
  priority := Adapter.phplint.priority
  source := Adapter.phplint.name

/-- A message takes one line, and positions are numbers of 64 bits. -/
structure Valid (error : SyntaxError) : Prop where
  message : '\n' ∉ error.message
  beginLine : error.beginLine < words64
  beginColumn : error.beginColumn < words64
  endLine : error.endLine < words64
  endColumn : error.endColumn < words64

end SyntaxError

/-- Anything else that takes one line; it holds no range in digits of ASCII. -/
structure IsOther (text : Text) : Prop where
  line : '\n' ∉ text
  range : ∀ range : Range, range.IsOf Char.isDigit → ¬ range.text <:+: text

inductive OutputLine where
  | error (error : SyntaxError)
  | other (text : Text)
deriving DecidableEq, Repr

namespace OutputLine

def text : OutputLine → Text
  | error e => e.line
  | other text => text

def error? : OutputLine → Option SyntaxError
  | error e => some e
  | other _ => none

def Valid : OutputLine → Prop
  | error e => e.Valid
  | other text => IsOther text

end OutputLine

/-- Some lines, each with the line break that ends it. -/
def printed (lines : List (OutputLine × LineBreak)) : Text :=
  lines.flatMap fun line ↦ line.1.text ++ line.2.text

variable {s t line message run rest : Text} {range : Range} {error : SyntaxError}
  {printedLine : OutputLine} {lines : List (OutputLine × LineBreak)}

/-! ## Ranges -/

theorem Range.IsOf.mono {p q : Char → Bool} (h : range.IsOf p) (hpq : ∀ c, p c → q c) :
    range.IsOf q where
  beginLine := ⟨h.beginLine.1, fun c hc ↦ hpq c (h.beginLine.2 c hc)⟩
  beginColumn := ⟨h.beginColumn.1, fun c hc ↦ hpq c (h.beginColumn.2 c hc)⟩
  endLine := ⟨h.endLine.1, fun c hc ↦ hpq c (h.endLine.2 c hc)⟩
  endColumn := ⟨h.endColumn.1, fun c hc ↦ hpq c (h.endColumn.2 c hc)⟩

theorem head?_dropWhile_any (p : Char → Bool) (s : Text) :
    (s.dropWhile p).head?.any p = false := by
  have h := List.head?_dropWhile_not p s
  cases hrest : s.dropWhile p with
  | nil => rfl
  | cons c rest =>
    rw [hrest] at h
    simpa using h

theorem digits?_eq_some_iff : digits? s = some (run, rest) ↔
    (run ≠ [] ∧ ∀ c ∈ run, isDecimal c) ∧ s = run ++ rest ∧
      rest.head?.any isDecimal = false := by
  constructor
  · intro h
    rw [digits?] at h
    split at h
    · cases h
    · next hne =>
      obtain ⟨rfl, rfl⟩ := Prod.mk.inj (Option.some.inj h)
      exact ⟨⟨by simpa using hne, List.all_eq_true.mp List.all_takeWhile⟩,
        List.takeWhile_append_dropWhile.symm, head?_dropWhile_any isDecimal s⟩
  · rintro ⟨⟨hne, hrun⟩, rfl, hrest⟩
    have hstop : rest.takeWhile isDecimal = [] ∧ rest.dropWhile isDecimal = rest := by
      cases rest with
      | nil => exact ⟨rfl, rfl⟩
      | cons c rest =>
        have hc : ¬ isDecimal c := by simpa using hrest
        exact ⟨List.takeWhile_cons_of_neg hc, List.dropWhile_cons_of_neg hc⟩
    rw [digits?, List.takeWhile_append_of_pos hrun, List.dropWhile_append_of_pos hrun, hstop.1,
      hstop.2, List.append_nil, if_neg (by simpa using hne)]

theorem range?_eq_some_iff : range? s = some range ↔
    range.IsOf isDecimal ∧ ∃ rest, s = range.text ++ rest ∧ rest.head?.any isDecimal = false := by
  have hcolon (s : Text) : ([':'] ++ s).head?.any isDecimal = false := by
    rw [List.singleton_append, List.head?_cons]
    decide
  have hto (s : Text) : (" to ".toList ++ s).head?.any isDecimal = false := by
    change (some ' ').any isDecimal = false
    decide
  obtain ⟨beginLine, beginColumn, endLine, endColumn⟩ := range
  simp only [range?, Option.bind_eq_bind, Option.bind_eq_some_iff, stripStart?_eq_some_iff,
    Prod.exists, digits?_eq_some_iff, Option.pure_def, Option.some.injEq, Range.mk.injEq]
  constructor
  · rintro ⟨_, rfl, _, _, ⟨hbeginLine, rfl, -⟩, _, rfl, _, _, ⟨hbeginColumn, rfl, -⟩, _, rfl, _, _,
      ⟨hendLine, rfl, -⟩, _, rfl, _, rest, ⟨hendColumn, rfl, hrest⟩, rfl, rfl, rfl, rfl⟩
    exact ⟨⟨hbeginLine, hbeginColumn, hendLine, hendColumn⟩, rest, by simp [Range.text], hrest⟩
  · rintro ⟨h, rest, rfl, hrest⟩
    refine ⟨_, ?_, _, _, ⟨h.beginLine, rfl, hcolon _⟩, _, rfl, _, _,
      ⟨h.beginColumn, rfl, hto _⟩, _, rfl, _, _, ⟨h.endLine, rfl, hcolon _⟩, _, rfl, _, rest,
      ⟨h.endColumn, rfl, hrest⟩, rfl, rfl, rfl, rfl⟩
    simp [Range.text]

/-! ## The last range of a line -/

theorem exists_of_lastRange? (h : lastRange? s = some (message, range)) :
    ∃ t, s = message ++ t ∧ range? t = some range := by
  induction s generalizing message with
  | nil => cases h
  | cons c s ih =>
    rw [lastRange?] at h
    split at h
    · next found hfound =>
      obtain ⟨rfl, rfl⟩ := Prod.mk.inj (Option.some.inj h)
      obtain ⟨t, rfl, ht⟩ := ih hfound
      exact ⟨t, rfl, ht⟩
    · obtain ⟨found, hfound, heq⟩ := Option.map_eq_some_iff.mp h
      obtain ⟨rfl, rfl⟩ := Prod.mk.inj heq
      exact ⟨c :: s, rfl, hfound⟩

theorem lastRange?_eq_none_iff : lastRange? s = none ↔ ∀ t, t <:+ s → range? t = none := by
  constructor
  · intro h
    induction s with
    | nil =>
      rintro t ht
      rw [List.suffix_nil.mp ht]
      rfl
    | cons c s ih =>
      rw [lastRange?] at h
      split at h
      · cases h
      · next hnone =>
        intro t ht
        rcases List.suffix_cons_iff.mp ht with rfl | ht
        · exact Option.map_eq_none_iff.mp h
        · exact ih hnone t ht
  · intro h
    rw [Option.eq_none_iff_forall_ne_some]
    rintro ⟨message, range⟩ hrange
    obtain ⟨t, rfl, ht⟩ := exists_of_lastRange? hrange
    rw [h t (List.suffix_append message t)] at ht
    cases ht

theorem lastRange?_append (h : lastRange? t = some ([], range)) (message : Text) :
    lastRange? (message ++ t) = some (message, range) := by
  induction message with
  | nil => exact h
  | cons c message ih => rw [List.cons_append, lastRange?, ih]

/-- Behind the beginning of a range no other range begins. -/
theorem range?_of_suffix_tail (h : range.IsOf isDecimal) (ht : t <:+ range.text.tail) :
    range? t = none := by
  rw [Option.eq_none_iff_forall_ne_some]
  intro other hother
  obtain ⟨-, rest, rfl, -⟩ := range?_eq_some_iff.mp hother
  obtain ⟨before, hbefore⟩ := ht
  -- the second character of a range occurs nowhere else in it
  have hdigit (number : Text) (hall : ∀ c ∈ number, isDecimal c) : 'f' ∉ number :=
    fun hmem ↦ absurd (hall 'f' hmem) (by decide)
  have honce : 'f' ∉ range.text.tail.tail := by
    simp [Range.text, hdigit _ h.beginLine.2, hdigit _ h.beginColumn.2, hdigit _ h.endLine.2,
      hdigit _ h.endColumn.2]
  rw [← hbefore] at honce
  cases before with
  | nil => exact absurd (List.cons.inj hbefore).1 (by decide)
  | cons c before => exact honce (List.mem_append_right before (by simp [Range.text]))

theorem lastRange?_text (h : range.IsOf isDecimal) :
    lastRange? range.text = some ([], range) := by
  have hrange : range? range.text = some range :=
    range?_eq_some_iff.mpr ⟨h, [], by simp, rfl⟩
  have htail : lastRange? range.text.tail = none :=
    lastRange?_eq_none_iff.mpr fun t ht ↦ range?_of_suffix_tail h ht
  obtain ⟨c, tail, htext⟩ := List.exists_cons_of_ne_nil
    (show range.text ≠ [] by simp [Range.text])
  rw [htext] at hrange htail ⊢
  rw [List.tail_cons] at htail
  rw [lastRange?, htail, hrange]
  rfl

/-- Where no range is found there is none; more digits than its own may follow one. -/
theorem isOther_of_lastRange? (hline : '\n' ∉ line) (h : lastRange? line = none) :
    IsOther line := by
  refine ⟨hline, fun range hrange hinfix ↦ ?_⟩
  obtain ⟨before, behind, rfl⟩ := hinfix
  have hdecimal : range.IsOf isDecimal := hrange.mono fun _ ↦ isDecimal_of_isDigit
  have hlonger : range? (range.text ++ behind) =
      some { range with endColumn := range.endColumn ++ behind.takeWhile isDecimal } := by
    refine range?_eq_some_iff.mpr ⟨⟨hdecimal.beginLine, hdecimal.beginColumn, hdecimal.endLine,
      ?_, ?_⟩, behind.dropWhile isDecimal, by simp [Range.text], head?_dropWhile_any isDecimal _⟩
    · simp [hdecimal.endColumn.1]
    · intro c hc
      rcases List.mem_append.mp hc with hc | hc
      · exact hdecimal.endColumn.2 c hc
      · exact List.all_eq_true.mp List.all_takeWhile c hc
  have hnone := lastRange?_eq_none_iff.mp h (range.text ++ behind)
    (by rw [List.append_assoc]; exact List.suffix_append _ _)
  rw [hlonger] at hnone
  cases hnone

/-! ## Lines -/

theorem afterArrow?_append (s : Text) : afterArrow? (['=', '=', '>', ' '] ++ s) = some s := by
  have hrest : (['=', '=', '>', ' '] ++ s).dropWhile (· = '=') = "> ".toList ++ s := rfl
  have hhead : (['=', '=', '>', ' '] ++ s).head? = some '=' := rfl
  rw [afterArrow?, if_pos hhead, hrest]
  exact stripStart?_eq_some_iff.mpr rfl

theorem suffix_of_afterArrow? (h : afterArrow? s = some t) : t <:+ s := by
  rw [afterArrow?] at h
  split at h
  · have hrest := stripStart?_eq_some_iff.mp h
    exact (List.suffix_append _ t).trans (hrest ▸ List.dropWhile_suffix _)
  · cases h

theorem errorLine?_append (h : range.IsOf isDecimal) (message : Text) :
    errorLine? (['=', '=', '>', ' '] ++ (message ++ range.text)) = some (message, range) := by
  rw [errorLine?, afterArrow?_append, Option.bind_some,
    lastRange?_append (lastRange?_text h) message, Option.some_or]

/-- What a line is read as stands in it. -/
theorem infix_of_errorLine? (h : errorLine? line = some (message, range)) :
    range.text <:+: line := by
  have hlast {s : Text} (h : lastRange? s = some (message, range)) : range.text <:+: s := by
    obtain ⟨t, rfl, ht⟩ := exists_of_lastRange? h
    obtain ⟨-, rest, rfl, -⟩ := range?_eq_some_iff.mp ht
    exact ⟨message, rest, by rw [List.append_assoc]⟩
  rcases Option.or_eq_some_iff.mp h with h | ⟨-, h⟩
  · obtain ⟨s, hs, h⟩ := Option.bind_eq_some_iff.mp h
    exact (hlast h).trans (suffix_of_afterArrow? hs).isInfix
  · exact hlast h

theorem isDigit_of_readDigits? {n : Nat} (h : readDigits? run = some n) :
    run ≠ [] ∧ ∀ c ∈ run, c.isDigit := by
  rw [readDigits?] at h
  split at h
  · cases h
  · next hdigits =>
    rw [not_or, not_not] at hdigits
    exact ⟨by simpa using hdigits.1, List.all_eq_true.mp hdigits.2⟩

/-- A line without a range in digits of ASCII gives no hint. -/
theorem hint?_eq_none (h : ∀ range : Range, range.IsOf Char.isDigit → ¬ range.text <:+: line) :
    hint? line = none := by
  rw [Option.eq_none_iff_forall_ne_some]
  intro hint hhint
  simp only [hint?, Option.bind_eq_bind, Option.bind_eq_some_iff, Prod.exists] at hhint
  obtain ⟨message, range, herror, _, hbeginLine, _, hbeginColumn, _, hendLine, _, hendColumn, -⟩ :=
    hhint
  exact h range ⟨isDigit_of_readDigits? hbeginLine, isDigit_of_readDigits? hbeginColumn,
    isDigit_of_readDigits? hendLine, isDigit_of_readDigits? hendColumn⟩ (infix_of_errorLine? herror)

/-! ## Outputs -/

theorem OutputLine.Valid.lineFeed_notMem (h : printedLine.Valid) : '\n' ∉ printedLine.text := by
  cases printedLine with
  | error error =>
    have hdigits (n : Nat) : '\n' ∉ digits n :=
      fun hmem ↦ absurd (isDigit_of_mem_digits hmem) (by decide)
    simp [OutputLine.text, SyntaxError.line, SyntaxError.range, Range.text, hdigits, h.message]
  | other text => exact h.line

theorem SyntaxError.isOf_range (error : SyntaxError) : error.range.IsOf Char.isDigit := by
  have hdigits (n : Nat) : digits n ≠ [] ∧ ∀ c ∈ digits n, c.isDigit :=
    ⟨digits_ne_nil n, fun _ ↦ isDigit_of_mem_digits⟩
  exact ⟨hdigits _, hdigits _, hdigits _, hdigits _⟩

/-- An error is read from its line. -/
theorem hint?_line (h : error.Valid) : hint? error.line = some error.hint := by
  have hrange := error.isOf_range.mono fun _ ↦ isDecimal_of_isDigit
  rw [hint?, SyntaxError.line, errorLine?_append hrange]
  simp only [SyntaxError.range, Option.bind_eq_bind, Option.bind_some,
    readDigits?_digits h.beginLine, readDigits?_digits h.beginColumn,
    readDigits?_digits h.endLine, readDigits?_digits h.endColumn, Option.pure_def]
  rfl

theorem outputLines_append_ending (hline : '\n' ∉ line) (ending : LineBreak) (rest : Text) :
    ∃ read, (read = line ∨ read = line.dropCarriageReturn) ∧
      outputLines (line ++ ending.text ++ rest) = read :: outputLines rest := by
  cases ending with
  | lineFeed =>
    refine ⟨line.dropCarriageReturn, .inr rfl, ?_⟩
    rw [LineBreak.text, List.append_assoc, List.singleton_append,
      outputLines_append_lineFeed hline]
  | carriageReturnLineFeed =>
    have hline' : '\n' ∉ line ++ ['\r'] := by simpa using hline
    have hdrop : (line ++ ['\r']).dropCarriageReturn = line := by simp [dropCarriageReturn]
    have htext : line ++ LineBreak.carriageReturnLineFeed.text ++ rest =
        (line ++ ['\r']) ++ '\n' :: rest := by
      simp [LineBreak.text]
    exact ⟨line, .inl rfl, by rw [htext, outputLines_append_lineFeed hline', hdrop]⟩

/-- A line ends with a digit. -/
theorem dropCarriageReturn_line (error : SyntaxError) :
    error.line.dropCarriageReturn = error.line := by
  have hlast : (digits error.endColumn).getLast? ≠ some '\r' := by
    intro hlast
    exact absurd (isDigit_of_mem_digits (List.mem_of_getLast? hlast)) (by decide)
  have hline : error.line = ['=', '=', '>', ' '] ++ error.message ++
      [' ', 'f', 'r', 'o', 'm', ' '] ++ digits error.beginLine ++ [':'] ++
      digits error.beginColumn ++ [' ', 't', 'o', ' '] ++ digits error.endLine ++ [':'] ++
      digits error.endColumn := by
    simp only [SyntaxError.line, SyntaxError.range, Range.text, List.append_assoc]
  rw [hline, dropCarriageReturn_append_of_ne_nil (digits_ne_nil _), dropCarriageReturn,
    if_neg hlast]

/-- A line is read as what was printed, though it may have lost a carriage return. -/
theorem hint?_read (h : printedLine.Valid)
    (hread : s = printedLine.text ∨ s = printedLine.text.dropCarriageReturn) :
    hint? s = printedLine.error?.map SyntaxError.hint := by
  cases printedLine with
  | error error =>
    rw [OutputLine.text, dropCarriageReturn_line, or_self] at hread
    rw [hread]
    exact hint?_line h
  | other text =>
    have hinfix : s <:+: text := by
      rcases hread with rfl | rfl
      · exact List.infix_rfl
      · obtain ⟨cr, -, htext⟩ := exists_dropCarriageReturn_append text
        exact ⟨[], cr, htext.symm⟩
    exact hint?_eq_none fun range hrange hmem ↦ h.range range hrange (hmem.trans hinfix)

/-- Every error that is printed is read back as its hint, in the order of the lines, and nothing
else is. -/
theorem hints_printed (h : ∀ line ∈ lines, line.1.Valid) :
    hints (printed lines) = (lines.filterMap (·.1.error?)).map SyntaxError.hint := by
  rw [hints]
  induction lines with
  | nil => rfl
  | cons line lines ih =>
    obtain ⟨hline, hlines⟩ := List.forall_mem_cons.mp h
    obtain ⟨read, hread, houtput⟩ := outputLines_append_ending hline.lineFeed_notMem line.2
      (printed lines)
    have hprinted : printed (line :: lines) = line.1.text ++ line.2.text ++ printed lines := rfl
    rw [hprinted, houtput, List.filterMap_cons, List.filterMap_cons, hint?_read hline hread,
      ih hlines]
    cases line.1.error? <;> rfl

/-- Messages that end like a range, begin like an arrow or are empty, and the first and the last
position there are, among lines that come close to an error. -/
theorem hints_printed_of_misleading_lines :
    let lines : List (OutputLine × LineBreak) :=
      [(.other "====> File a from 1:2 to b.php:".toList, .lineFeed),
        (.error ⟨"=> x from 1:2 to 3:4".toList, 3, 7, 3, 9⟩, .carriageReturnLineFeed),
        (.other " from 1:2 to 3:\r".toList, .lineFeed), (.error ⟨[], 1, 1, 12, 2⟩, .lineFeed),
        (.error ⟨" from ".toList, 1, words64 - 1, words64 - 1, 1⟩, .lineFeed)]
    (∀ line ∈ lines, line.1.Valid) ∧
    printed lines = ("====> File a from 1:2 to b.php:\n==> => x from 1:2 to 3:4 from 3:7 to 3:9\r\n" ++
      " from 1:2 to 3:\r\n==>  from 1:1 to 12:2\n==>  from  from 1:18446744073709551615 to " ++
      "18446744073709551615:1\n").toList ∧
    hints (printed lines) = [Adapter.phplint.hint 2 2 6 9 "=> x from 1:2 to 3:4".toList,
      Adapter.phplint.hint 0 11 0 2 [],
      Adapter.phplint.hint 0 (words64 - 2) (words64 - 2) 1 " from ".toList] := by
  intro lines
  have hvalid : ∀ line ∈ lines, line.1.Valid := by
    simp only [lines, List.forall_mem_cons, List.not_mem_nil, IsEmpty.forall_iff, implies_true,
      and_true]
    refine ⟨isOther_of_lastRange? (by decide) (by decide +kernel), ?_,
      isOther_of_lastRange? (by decide) (by decide +kernel), ?_, ?_⟩
    all_goals constructor <;> decide
  refine ⟨hvalid, by decide +kernel, ?_⟩
  rw [hints_printed hvalid]
  decide +kernel

end Report.Phplint

end LintMend
