import LintMend.Proofs.Repair.Engine
import LintMend.Proofs.Text.Around
import LintMend.Proofs.Text.Variable

/-!
# Repairs within a line

Five rules look at no more of a text than the line of their hint and change nothing else. A step of
such a rule is the step for that line taken as a text of its own. A pass over any hints therefore
repairs every line by itself, with the hints that are anchored on it, and hints of different lines
may stand in any order.
-/

namespace LintMend

open Text

variable {s line before behind : Text} {earlier later : List Text} {n : Nat}

/-- The same edit at a distance behind. -/
def Edit.shift (distance : Nat) (edit : Edit) : Edit :=
  ⟨distance + edit.start, distance + edit.stop, edit.replacement⟩

theorem Span.shift_behind (distance gap : Nat) (span : Span) :
    (⟨(span.shift distance).stop, (span.shift distance).stop + gap⟩ : Span) =
      Span.shift distance ⟨span.stop, span.stop + gap⟩ := by
  simp only [Span.shift, Nat.add_assoc]

theorem Span.Cuts.shift {span : Span} {a held b : Text} (h : span.Cuts line a held b)
    (before behind : Text) :
    (span.shift before.size).Cuts (before ++ line ++ behind) (before ++ a) held (b ++ behind) where
  text := by rw [h.text]; simp
  start := by
    change before.size + span.start = _
    rw [h.start, size_append]
  stop := by
    change before.size + span.stop = _
    rw [h.stop, List.append_assoc, size_append before]

namespace Text

/-- A text of which a line, and what stands around it, is given. -/
structure HasLine (s : Text) (n : Nat) (before line behind : Text) : Prop
    extends Surrounds before behind where
  text : s = before ++ line ++ behind
  lineText : s.lineText n = line.lineText 0
  offsetOf : ∀ column, s.offsetOf n column = before.size + line.offsetOf 0 column

theorem lines_of_notMem (h : '\n' ∉ line) : line.lines = [line] := splitOnChar_of_notMem h

theorem lineCount_of_notMem (h : '\n' ∉ line) : line.lineCount = 1 := by
  rw [lineCount, lines_of_notMem h, List.length_singleton]

theorem lineText_of_notMem (h : '\n' ∉ line) : line.lineText 0 = line.dropCarriageReturn := by
  rw [lineText, lines_of_notMem h]
  rfl

theorem linesBefore_zero (s : Text) : s.linesBefore 0 = [] := by
  rw [linesBefore, List.take_zero, ended_nil]

theorem hasLine_around (hearlier : ∀ l ∈ earlier, '\n' ∉ l) (hlater : ∀ l ∈ later, '\n' ∉ l)
    (hline : '\n' ∉ line) :
    HasLine (around earlier later line) earlier.length (ended earlier) line (led later) := by
  have hlines := lines_around hearlier hlater hline
  have hlt : earlier.length < (around earlier later line).lineCount := by
    rw [lineCount, hlines]
    simp
  have hbefore : (around earlier later line).linesBefore earlier.length = ended earlier := by
    rw [linesBefore, hlines, List.take_left]
  have htext : (around earlier later line).lineText earlier.length = line.lineText 0 := by
    rw [lineText_of_notMem hline, lineText, hlines]
    simp
  refine ⟨surrounds_around earlier later, rfl, htext, fun column ↦ ?_⟩
  rw [offsetOf_of_lt hlt, offsetOf_of_lt (by rw [lineCount_of_notMem hline]; exact Nat.one_pos),
    hbefore, htext, linesBefore_zero, List.nil_append, size_append]

/-- Every line of a text has all of it around it. -/
theorem hasLine_of_getElem? (hline : s.lines[n]? = some line) : '\n' ∉ line ∧
    HasLine s n (ended (s.lines.take n)) line (led (s.lines.drop (n + 1))) := by
  have hfeed : '\n' ∉ line := lineFeed_notMem_of_mem_lines (List.mem_of_getElem? hline)
  have hlt : n < s.lines.length := (List.getElem?_eq_some_iff.mp hline).1
  have hhas := hasLine_around (lineFeed_notMem_take s n) (lineFeed_notMem_drop s (n + 1)) hfeed
  rw [← eq_around hline, List.length_take_of_le (Nat.le_of_lt hlt)] at hhas
  exact ⟨hfeed, hhas⟩

namespace HasLine

variable (h : HasLine s n before line behind)

include h

theorem lineStart : s.lineStart n = before.size + line.lineStart 0 := h.offsetOf 0

theorem lineEnd : s.lineEnd n = before.size + line.lineEnd 0 := by
  rw [Text.lineEnd, h.offsetOf, h.lineText, Text.lineEnd]

theorem lineEnd_lt_iff (offset : Nat) :
    s.lineEnd n < before.size + offset ↔ line.lineEnd 0 < offset := by
  rw [h.lineEnd]
  exact Nat.add_lt_add_iff_left

theorem lineLength : s.lineLength n = line.lineLength 0 := by
  rw [Text.lineLength, h.lineText, Text.lineLength]

theorem lineEnd_le : s.lineEnd n ≤ size (before ++ line) := by
  rw [h.lineEnd, size_append]
  exact Nat.add_le_add_left (le_size_of_isBoundary (isBoundary_offsetOf line 0 _)) _

theorem variableOnLine? (name : Text) :
    s.variableOnLine? n name = (line.variableOnLine? 0 name).map (Span.shift before.size) := by
  rw [Text.variableOnLine?, Text.variableOnLine?, h.lineText, h.lineStart, Option.map_map]
  congr 1
  funext found
  simp [Span.shift, Nat.add_assoc]

theorem wordStart? {offset : Nat} (ho : isBoundary line offset) :
    s.wordStart? (before.size + offset) = (line.wordStart? offset).map (before.size + ·) := by
  rw [h.text]
  exact h.wordStart?_add ho

theorem gapAfter? {offset : Nat} (ho : isBoundary line offset) :
    s.gapAfter? (before.size + offset) = line.gapAfter? offset := by
  rw [h.text]
  exact h.gapAfter?_add ho

theorem gapBefore? {offset : Nat} (ho : isBoundary line offset) :
    s.gapBefore? (before.size + offset) = line.gapBefore? offset := by
  rw [h.text]
  exact h.gapBefore?_add ho

/-- A search from a place on the line finds the same on the line, or else nothing up to its end. -/
theorem searchFrom?_cases {needle : Text} {offset : Nat} (hneedle : IsNeedle needle)
    (ho : isBoundary line offset) :
    (∃ found, line.searchFrom? offset needle = some found ∧
      s.searchFrom? (before.size + offset) needle = some (found.shift before.size)) ∨
    (line.searchFrom? offset needle = none ∧
      ∀ found, s.searchFrom? (before.size + offset) needle = some found →
        s.lineEnd n < found.start) := by
  cases hfind : line.searchFrom? offset needle with
  | some found =>
    refine .inl ⟨found, rfl, ?_⟩
    rw [h.text]
    exact h.searchFrom?_add_eq_some hneedle hfind
  | none =>
    refine .inr ⟨rfl, fun found hfound ↦ ?_⟩
    rw [h.text] at hfound
    calc s.lineEnd n ≤ size (before ++ line) := h.lineEnd_le
      _ < found.start := h.lt_start_of_searchFrom?_add hneedle ho hfind hfound

theorem searchFromIgnoringCase?_cases {needle : Text} {offset : Nat}
    (hneedle : IsNeedle needle.asciiLower) (ho : isBoundary line offset) :
    (∃ found, line.searchFromIgnoringCase? offset needle = some found ∧
      s.searchFromIgnoringCase? (before.size + offset) needle =
        some (found.shift before.size)) ∨
    (line.searchFromIgnoringCase? offset needle = none ∧
      ∀ found, s.searchFromIgnoringCase? (before.size + offset) needle = some found →
        s.lineEnd n < found.start) := by
  have hs : isBoundary s (before.size + offset) := by
    rw [h.text]
    exact isBoundary_add before behind ho
  have hlower : s.asciiLower = before.asciiLower ++ line.asciiLower ++ behind.asciiLower := by
    rw [h.text, asciiLower_append, asciiLower_append]
  rw [searchFromIgnoringCase?_eq ho, searchFromIgnoringCase?_eq hs, hlower,
    ← size_asciiLower before]
  cases hfind : line.asciiLower.searchFrom? offset needle.asciiLower with
  | some found =>
    exact .inl ⟨found, rfl, h.toSurrounds.asciiLower.searchFrom?_add_eq_some hneedle hfind⟩
  | none =>
    refine .inr ⟨rfl, fun found hfound ↦ ?_⟩
    calc s.lineEnd n ≤ size (before ++ line) := h.lineEnd_le
      _ = size (before.asciiLower ++ line.asciiLower) := by simp
      _ < found.start :=
        h.toSurrounds.asciiLower.lt_start_of_searchFrom?_add hneedle (isBoundary_asciiLower ho)
          hfind hfound

end HasLine

end Text

namespace Repair

variable {rules : List Rule} {rule : Rule} {anchor own : Anchor} {groups : Captures} {hint : Hint}

namespace Rule

/-- The rules that look at nothing but the line of their hint. -/
def staysOnLine : Rule → Bool
  | elseIf | spacesBeforeOpeningBrace | defaultValueSpacing | argumentEqualsSpacing
  | trailingWhitespace => true
  | _ => false

end Rule

/-- An anchor in a text and the anchor on its line taken as a text. -/
structure Moves (anchor own : Anchor) (n distance : Nat) : Prop where
  lineBegin : anchor.lineBegin = n
  ownLine : own.lineBegin = 0
  start : anchor.start = distance + own.start

theorem lineBegin_clamp_of_notMem (hline : '\n' ∉ line) (hint : Hint) :
    (Anchor.clamp line hint).lineBegin = 0 := by
  change min hint.lineBegin (line.lineCount - 1) = 0
  rw [lineCount_of_notMem hline, Nat.sub_self, Nat.min_zero]

theorem moves_clamp (h : HasLine s n before line behind) (hline : '\n' ∉ line)
    (hn : min hint.lineBegin (s.lineCount - 1) = n) :
    Moves (Anchor.clamp s hint) (Anchor.clamp line hint) n before.size := by
  have hown : min hint.lineBegin (line.lineCount - 1) = 0 := lineBegin_clamp_of_notMem hline hint
  refine ⟨hn, hown, ?_⟩
  simp only [Anchor.clamp, Anchor.clampColumn, hn, hown, h.lineLength, h.offsetOf]

/-! ## Changes on a line -/

theorem setSpaces?_shift (h : HasLine s n before line behind) {span : Span} {a held b : Text}
    (hcuts : span.Cuts line a held b) (count : Nat) :
    setSpaces? s (span.shift before.size) count =
      (setSpaces? line span count).map (Edit.shift before.size) := by
  have hcuts' := hcuts.shift before behind
  rw [← h.text] at hcuts'
  rw [setSpaces?_eq hcuts, setSpaces?_eq hcuts']
  split <;> rfl

namespace Change

theorem locate?_shift (h : HasLine s n before line behind) (hm : Moves anchor own n before.size)
    (hw : own.Within line) {token : Text} (htoken : IsNeedle token.asciiLower) :
    locate? s anchor token = (locate? line own token).map (Span.shift before.size) := by
  obtain ⟨word, hword, hown⟩ := exists_wordStart? hw.start
  rw [locate?, locate?, hm.start, h.wordStart? hw.start, hown, hm.lineBegin, hm.ownLine]
  simp only [Option.bind_eq_bind, Option.map_some, Option.bind_some]
  rcases h.searchFromIgnoringCase?_cases htoken hword with ⟨found, hfound, hs⟩ | ⟨hnone, hs⟩
  · have hstop : (found.shift before.size).stop ≤ s.lineEnd n ↔ found.stop ≤ line.lineEnd 0 := by
      rw [h.lineEnd]
      exact Nat.add_le_add_iff_left
    rw [hfound, hs, Option.bind_some, Option.bind_some]
    simp only [hstop]
    split <;> rfl
  · rw [hnone, Option.bind_none, Option.map_none, Option.bind_eq_none_iff]
    intro found hfound
    have hlt := hs found hfound
    obtain ⟨_, _, _, hcuts, -⟩ := exists_cuts_of_searchFromIgnoringCase? hfound
    have hle := hcuts.start_le_stop
    rw [if_neg (by omega)]

theorem elseIf?_shift (h : HasLine s n before line behind) (hm : Moves anchor own n before.size)
    (hw : own.Within line) :
    elseIf? s anchor = (elseIf? line own).map (Edit.shift before.size) := by
  have htoken : IsNeedle (asciiLower "else if".toList) := ⟨by decide, by decide⟩
  rw [elseIf?, elseIf?, locate?_shift h hm hw htoken, Option.map_map, Option.map_map]
  rfl

theorem spacesBeforeBrace?_shift (h : HasLine s n before line behind)
    (hm : Moves anchor own n before.size) (hw : own.Within line) :
    spacesBeforeBrace? s anchor groups =
      (spacesBeforeBrace? line own groups).map (Edit.shift before.size) := by
  have hbrace : IsNeedle ['\x7b'] := ⟨by decide, by decide⟩
  rw [spacesBeforeBrace?, spacesBeforeBrace?, hm.lineBegin, hm.ownLine, hm.start]
  cases groups.number? 0 with
  | none => rfl
  | some expected =>
    simp only [Option.bind_eq_bind, Option.bind_some]
    rcases h.searchFrom?_cases hbrace hw.start with ⟨found, hfound, hs⟩ | ⟨hnone, hs⟩
    · have hstart : (found.shift before.size).start > s.lineEnd n ↔
          found.start > line.lineEnd 0 := h.lineEnd_lt_iff found.start
      obtain ⟨a, b, hcuts, -⟩ := exists_cuts_of_searchFrom? hfound
      rw [hfound, hs, Option.bind_some, Option.bind_some]
      simp only [hstart]
      split
      · rfl
      · have hgap : s.gapBefore? (found.shift before.size).start = line.gapBefore? found.start :=
          h.gapBefore? hcuts.isBoundary_start
        rw [hgap]
        cases hown : line.gapBefore? found.start with
        | none => rfl
        | some gap =>
          obtain ⟨a, held, b, hgap, -⟩ := exists_cuts_of_gapBefore? hown
          have hle : gap ≤ found.start := le_of_gapBefore? hown
          have hshift : (⟨(found.shift before.size).start - gap, (found.shift before.size).start⟩ :
              Span) = Span.shift before.size ⟨found.start - gap, found.start⟩ := by
            simp only [Span.shift, Nat.add_sub_assoc hle]
          rw [Option.bind_some, Option.bind_some, hshift, setSpaces?_shift h hgap]
    · rw [hnone, Option.bind_none, Option.map_none, Option.bind_eq_none_iff]
      intro found hfound
      rw [if_pos (hs found hfound)]

theorem defaultValue?_shift (h : HasLine s n before line behind)
    (hm : Moves anchor own n before.size) :
    defaultValue? s anchor groups =
      (defaultValue? line own groups).map (Edit.shift before.size) := by
  have hequals : IsNeedle ['='] := ⟨by decide, by decide⟩
  rw [defaultValue?, defaultValue?, hm.lineBegin, hm.ownLine]
  simp only [Option.bind_eq_bind]
  cases groups.text? 0 with
  | none => rfl
  | some name =>
    cases groups.number? 1 with
    | none => rfl
    | some expected =>
      simp only [Option.bind_some, h.variableOnLine?]
      cases hvariable : line.variableOnLine? 0 name with
      | none => rfl
      | some found =>
        obtain ⟨a, b, hfound⟩ := exists_cuts_of_variableOnLine? hvariable
        simp only [Option.map_some, Option.bind_some]
        rcases h.searchFrom?_cases hequals hfound.isBoundary_stop with
          ⟨equals, hsign, hs⟩ | ⟨hnone, hs⟩
        · have hstop : (equals.shift before.size).stop > s.lineEnd n ↔
              equals.stop > line.lineEnd 0 := h.lineEnd_lt_iff equals.stop
          obtain ⟨a, b, hcuts, -⟩ := exists_cuts_of_searchFrom? hsign
          have hgap : s.gapAfter? (equals.shift before.size).stop = line.gapAfter? equals.stop :=
            h.gapAfter? hcuts.isBoundary_stop
          have hs' : s.searchFrom? (found.shift before.size).stop ['='] =
              some (equals.shift before.size) := hs
          rw [hsign, hs', Option.bind_some, Option.bind_some, hgap]
          simp only [hstop]
          split
          · rfl
          · cases hown : line.gapAfter? equals.stop with
            | none => rfl
            | some gap =>
              obtain ⟨a, held, b, hgap, -⟩ := exists_cuts_of_gapAfter? hown
              rw [Option.bind_some, Option.bind_some, Span.shift_behind, setSpaces?_shift h hgap]
        · rw [hnone, Option.bind_none, Option.map_none, Option.bind_eq_none_iff]
          intro equals hfound
          obtain ⟨a, b, hcuts, -⟩ := exists_cuts_of_searchFrom? hfound
          have hlt := hs equals hfound
          have hle := hcuts.start_le_stop
          rw [if_pos (by omega)]

theorem argumentEquals?_shift (h : HasLine s n before line behind)
    (hm : Moves anchor own n before.size) :
    argumentEquals? s anchor groups =
      (argumentEquals? line own groups).map (Edit.shift before.size) := by
  rw [argumentEquals?, argumentEquals?, hm.lineBegin, hm.ownLine]
  simp only [Option.bind_eq_bind]
  cases groups.text? 0 with
  | none => rfl
  | some name =>
    cases groups.number? 1 with
    | none => rfl
    | some expected =>
      simp only [Option.bind_some, h.variableOnLine?]
      cases hvariable : line.variableOnLine? 0 name with
      | none => rfl
      | some found =>
        obtain ⟨a, b, hfound⟩ := exists_cuts_of_variableOnLine? hvariable
        have hgap : s.gapAfter? (found.shift before.size).stop = line.gapAfter? found.stop :=
          h.gapAfter? hfound.isBoundary_stop
        simp only [Option.map_some, Option.bind_some, hgap]
        cases hown : line.gapAfter? found.stop with
        | none => rfl
        | some gap =>
          obtain ⟨a, held, b, hcuts, -⟩ := exists_cuts_of_gapAfter? hown
          have hrest : line.after? (found.stop + gap) = some b := hcuts.after?_stop
          have hrest' : s.after? ((found.shift before.size).stop + gap) = some (b ++ behind) := by
            have hafter := (hcuts.shift before behind).after?_stop
            rw [← h.text, ← Span.shift_behind] at hafter
            exact hafter
          have hhead : (b ++ behind).head? = some '=' ↔ b.head? = some '=' := by
            cases b with
            | nil => rcases h.below with rfl | ⟨rest, rfl⟩ <;> simp
            | cons c b => rfl
          simp only [Option.bind_some, hrest, hrest', hhead]
          split
          · rw [Span.shift_behind, setSpaces?_shift h hcuts]
          · rfl

theorem trailingWhitespace?_shift (h : HasLine s n before line behind)
    (hm : Moves anchor own n before.size) :
    trailingWhitespace? s anchor = (trailingWhitespace? line own).map (Edit.shift before.size) := by
  rw [trailingWhitespace?, trailingWhitespace?, hm.lineBegin, hm.ownLine, h.lineText, h.lineStart]
  split
  · rfl
  · simp [Edit.delete, Edit.shift, Nat.add_assoc]

end Change

open Change in
/-- The edits of these rules are those that they make to the line, put where the line stands. -/
theorem edits_shift (h : HasLine s n before line behind) (hm : Moves anchor own n before.size)
    (hw : own.Within line) (hrule : rule.staysOnLine) :
    rule.edits s anchor groups = (rule.edits line own groups).map (Edit.shift before.size) := by
  have htoList {a : Option Edit} {b : Option Edit} (hab : a = b.map (Edit.shift before.size)) :
      a.toList = b.toList.map (Edit.shift before.size) := by
    rw [hab]
    cases b <;> rfl
  cases rule with
  | elseIf => exact htoList (elseIf?_shift h hm hw)
  | spacesBeforeOpeningBrace => exact htoList (spacesBeforeBrace?_shift h hm hw)
  | defaultValueSpacing => exact htoList (defaultValue?_shift h hm)
  | argumentEqualsSpacing => exact htoList (argumentEquals?_shift h hm)
  | trailingWhitespace => exact htoList (trailingWhitespace?_shift h hm)
  | _ => simp [Rule.staysOnLine] at hrule

open Change in
/-- None of their edits puts a line feed in. -/
theorem cuts_of_staysOnLine {edit : Edit} (hw : anchor.Within s) (hrule : rule.staysOnLine)
    (he : edit ∈ rule.edits s anchor groups) :
    ∃ a held b, edit.span.Cuts s a held b ∧ '\n' ∉ edit.replacement := by
  have hspaces (count : Nat) : '\n' ∉ List.replicate count ' ' := by simp
  cases rule with
  | elseIf =>
    obtain ⟨a, held, b, hcuts, -, hreplacement⟩ := cuts_elseIf? (Option.mem_toList.mp he)
    exact ⟨a, held, b, hcuts, by rw [hreplacement]; decide⟩
  | spacesBeforeOpeningBrace =>
    obtain ⟨a, held, b, count, hcuts, -, hreplacement⟩ :=
      cuts_spacesBeforeBrace? (Option.mem_toList.mp he)
    exact ⟨a, held, _, hcuts, hreplacement ▸ hspaces count⟩
  | defaultValueSpacing =>
    obtain ⟨a, held, b, count, hcuts, -, hreplacement⟩ :=
      cuts_defaultValue? (Option.mem_toList.mp he)
    exact ⟨a, held, b, hcuts, hreplacement ▸ hspaces count⟩
  | argumentEqualsSpacing =>
    obtain ⟨a, held, b, count, hcuts, -, hreplacement⟩ :=
      cuts_argumentEquals? (Option.mem_toList.mp he)
    exact ⟨a, held, _, hcuts, hreplacement ▸ hspaces count⟩
  | trailingWhitespace =>
    obtain ⟨a, held, b, hcuts, -, hreplacement⟩ :=
      cuts_trailingWhitespace? hw (Option.mem_toList.mp he)
    exact ⟨a, held, b, hcuts, by simp [hreplacement]⟩
  | _ => simp [Rule.staysOnLine] at hrule

/-! ## Steps -/

section Steps

variable (hrules : ∀ rule ∈ rules, rule.staysOnLine)

include hrules

/-- A step repairs the line of its hint as it repairs the line alone. -/
theorem step_hasLine (h : HasLine s n before line behind) (hline : '\n' ∉ line)
    (hn : min hint.lineBegin (s.lineCount - 1) = n) :
    '\n' ∉ (step rules line hint).1 ∧
      (step rules s hint).1 = before ++ (step rules line hint).1 ++ behind := by
  cases hfind : Rule.find? rules hint.message.toList with
  | none =>
    rw [step_of_find?_eq_none hfind, step_of_find?_eq_none hfind]
    exact ⟨hline, h.text⟩
  | some answer =>
    obtain ⟨rule, found⟩ := answer
    have hrule : rule.staysOnLine := hrules rule (mem_of_find? hfind).1
    have hw := Anchor.within_clamp line hint
    obtain ⟨t, ht, hstep⟩ := step_of_find?_eq_some (s := s) hfind
    obtain ⟨u, hu, hown⟩ := step_of_find?_eq_some (s := line) hfind
    rw [hstep, hown]
    rw [edits_shift h (moves_clamp h hline hn) hw hrule] at ht
    have hone : (rule.edits line (Anchor.clamp line hint) found.groups).length ≤ 1 :=
      length_edits_le (by rintro rfl; simp [Rule.staysOnLine] at hrule)
    cases hedits : rule.edits line (Anchor.clamp line hint) found.groups with
    | nil =>
      rw [hedits, applyEdits_nil] at hu
      rw [hedits, List.map_nil, applyEdits_nil] at ht
      rw [← Except.ok.inj hu, ← Except.ok.inj ht]
      exact ⟨hline, h.text⟩
    | cons edit edits =>
      rw [hedits] at hone
      have hnil : edits = [] := by
        rw [← List.length_eq_zero_iff]
        exact Nat.le_zero.mp (Nat.le_of_succ_le_succ hone)
      obtain ⟨a, held, b, hcuts, hfeed⟩ :=
        cuts_of_staysOnLine hw hrule (by rw [hedits]; exact List.mem_cons_self)
      have hcuts' : (edit.shift before.size).span.Cuts s (before ++ a) held (b ++ behind) := by
        rw [h.text]
        exact hcuts.shift before behind
      rw [hedits, hnil, applyEdits_single hcuts] at hu
      rw [hedits, hnil, List.map_singleton, applyEdits_single hcuts'] at ht
      rw [← Except.ok.inj hu, ← Except.ok.inj ht]
      have htext := hcuts.text
      refine ⟨?_, by simp [Edit.shift]⟩
      rw [htext] at hline
      simp only [List.mem_append, not_or] at hline ⊢
      exact ⟨⟨hline.1.1, hfeed⟩, hline.2⟩

/-- A step replaces the line of its hint by that line repaired, and keeps all others. -/
theorem lines_step (hline : s.lines[n]? = some line)
    (hn : min hint.lineBegin (s.lineCount - 1) = n) :
    (step rules s hint).1.lines = s.lines.set n (step rules line hint).1 := by
  have hlt : n < s.lines.length := (List.getElem?_eq_some_iff.mp hline).1
  obtain ⟨hfeed, hhas⟩ := hasLine_of_getElem? hline
  obtain ⟨hfeed', hstep⟩ := step_hasLine hrules hhas hfeed hn
  calc (step rules s hint).1.lines
      = (around (s.lines.take n) (s.lines.drop (n + 1)) (step rules line hint).1).lines := by
        rw [hstep, around]
    _ = s.lines.take n ++ (step rules line hint).1 :: s.lines.drop (n + 1) :=
        lines_around (lineFeed_notMem_take s n) (lineFeed_notMem_drop s (n + 1)) hfeed'
    _ = s.lines.set n (step rules line hint).1 := by
        rw [List.set_eq_take_append_cons_drop, if_pos hlt]

theorem lineCount_step (s : Text) (hint : Hint) :
    (step rules s hint).1.lineCount = s.lineCount := by
  have hlt := (Anchor.within_clamp s hint).lineBegin
  rw [lineCount, lines_step hrules (List.getElem?_eq_getElem hlt) rfl, List.length_set]
  rfl

/-! ## Passes -/

/-- The hints that are anchored on a line. -/
def onLine (s : Text) (n : Nat) (hints : List Hint) : List Hint :=
  hints.filter fun hint ↦ (Anchor.clamp s hint).lineBegin = n

omit hrules in
theorem onLine_congr {t : Text} (h : t.lineCount = s.lineCount) (n : Nat) (hints : List Hint) :
    onLine t n hints = onLine s n hints := by
  apply List.filter_congr
  intro hint _
  change decide (min hint.lineBegin (t.lineCount - 1) = n) =
    decide (min hint.lineBegin (s.lineCount - 1) = n)
  rw [h]

theorem lines_run (hints : List Hint) (hline : s.lines[n]? = some line) :
    (run rules s hints).text.lineCount = s.lineCount ∧
      (run rules s hints).text.lines[n]? = some (run rules line (onLine s n hints)).text := by
  induction hints generalizing s line with
  | nil => exact ⟨rfl, hline⟩
  | cons hint hints ih =>
    have hcount := lineCount_step hrules s hint
    have hlt := (Anchor.within_clamp s hint).lineBegin
    by_cases hn : (Anchor.clamp s hint).lineBegin = n
    · have hnext : (step rules s hint).1.lines[n]? = some (step rules line hint).1 := by
        rw [lines_step hrules hline hn, List.getElem?_set_self]
        exact (List.getElem?_eq_some_iff.mp hline).1
      obtain ⟨hlength, hown⟩ := ih hnext
      rw [onLine_congr hcount] at hown
      rw [onLine, List.filter_cons_of_pos (by simpa using hn)]
      exact ⟨hlength.trans hcount, hown⟩
    · have hnext : (step rules s hint).1.lines[n]? = some line := by
        rw [lines_step hrules (List.getElem?_eq_getElem hlt) rfl, List.getElem?_set_ne hn, hline]
      obtain ⟨hlength, hown⟩ := ih hnext
      rw [onLine_congr hcount] at hown
      rw [onLine, List.filter_cons_of_neg (by simpa using hn)]
      exact ⟨hlength.trans hcount, hown⟩

theorem lines_repair (hints : List Hint) (hline : s.lines[n]? = some line) :
    (repair rules s hints).text.lines[n]? = some (repair rules line (onLine s n hints)).text := by
  rw [repair, (lines_run hrules hints.reverse hline).2, onLine, List.filter_reverse]
  rfl

theorem lineCount_repair (s : Text) (hints : List Hint) :
    (repair rules s hints).text.lineCount = s.lineCount :=
  have hlt : 0 < s.lines.length := lineCount_pos s
  (lines_run hrules hints.reverse (List.getElem?_eq_getElem hlt)).1

theorem text_repair_congr {hints hints' : List Hint}
    (h : ∀ n, onLine s n hints' = onLine s n hints) :
    (repair rules s hints').text = (repair rules s hints).text := by
  apply eq_of_lines_eq
  apply List.ext_getElem?
  intro n
  cases hline : s.lines[n]? with
  | some line => rw [lines_repair hrules hints' hline, lines_repair hrules hints hline, h]
  | none =>
    have hle : s.lines.length ≤ n := List.getElem?_eq_none_iff.mp hline
    have hnone (hints : List Hint) : (repair rules s hints).text.lines[n]? = none := by
      rw [List.getElem?_eq_none_iff]
      exact Nat.le_trans (Nat.le_of_eq (lineCount_repair hrules s hints)) hle
    rw [hnone, hnone]

end Steps

/-- Each line is repaired by itself, with the hints that are anchored on it, whatever the order of
hints of different lines. -/
theorem repair_line_by_line (rules : List Rule) (hrules : ∀ rule ∈ rules, rule.staysOnLine)
    (s : Text) (hints : List Hint) :
    (repair rules s hints).text.lineCount = s.lineCount ∧
    (∀ n line, s.lines[n]? = some line →
      (repair rules s hints).text.lines[n]? = some (repair rules line (onLine s n hints)).text) ∧
    (∀ hints', (∀ n, onLine s n hints' = onLine s n hints) →
      (repair rules s hints').text = (repair rules s hints).text) ∧
    ∀ a b first second, hints = a ++ first :: second :: b →
      (Anchor.clamp s first).lineBegin ≠ (Anchor.clamp s second).lineBegin →
      (repair rules s (a ++ second :: first :: b)).text = (repair rules s hints).text := by
  refine ⟨lineCount_repair hrules s hints, fun n line ↦ lines_repair hrules hints,
    fun hints' ↦ text_repair_congr hrules, ?_⟩
  rintro a b first second rfl hne
  apply text_repair_congr hrules
  intro n
  simp only [onLine, List.filter_append, List.filter_cons, decide_eq_true_eq]
  -- one of the two at least is on another line
  by_cases hfirst : (Anchor.clamp s first).lineBegin = n
  · have hsecond : (Anchor.clamp s second).lineBegin ≠ n := fun h ↦ hne (hfirst.trans h.symm)
    simp only [if_pos hfirst, if_neg hsecond]
  · simp only [if_neg hfirst]

theorem repair_line_by_line_of_two_lines :
    let rules := Rule.all.filter (·.staysOnLine)
    let s : Text := "function f($a=1)\x7b  \r\n\x7d else if ($b)   \x7b\r\n".toList
    let hint (line column : Nat) (message : String) : Hint :=
      ⟨line, line, column, column + 1, message, default, 100, "phpcs"⟩
    let equals := hint 0 13 ("Incorrect spacing between default value and equals sign for " ++
      "argument \"$a\"; expected 1 but found 0")
    let ending := hint 0 17 "Whitespace found at end of line"
    let keyword := hint 1 2 "Usage of ELSE IF is discouraged; use ELSEIF instead"
    let brace := hint 1 15 "Expected 1 space before opening brace; 3 found"
    let hints := [equals, keyword, ending, brace]
    (∀ rule ∈ rules, rule.staysOnLine) ∧
    (repair rules s hints).text =
      "function f($a= 1)\x7b\r\n\x7d elseif ($b) \x7b\r\n".toList ∧
    (repair rules s hints).text.lines[1]? =
      some (repair rules "\x7d else if ($b)   \x7b\r".toList [keyword, brace]).text ∧
    (Anchor.clamp s equals).lineBegin ≠ (Anchor.clamp s keyword).lineBegin ∧
    (repair rules s [keyword, equals, ending, brace]).text = (repair rules s hints).text ∧
    (∀ n, onLine s n [keyword, brace, equals, ending] = onLine s n hints) ∧
    (repair rules s [keyword, brace, equals, ending]).text = (repair rules s hints).text := by
  intro rules s hint equals ending keyword brace hints
  have hrules : ∀ rule ∈ rules, rule.staysOnLine := fun rule h ↦ (List.mem_filter.mp h).2
  have hlines : (Anchor.clamp s equals).lineBegin = 0 ∧ (Anchor.clamp s ending).lineBegin = 0 ∧
      (Anchor.clamp s keyword).lineBegin = 1 ∧ (Anchor.clamp s brace).lineBegin = 1 := by
    decide +kernel
  have hne : (Anchor.clamp s equals).lineBegin ≠ (Anchor.clamp s keyword).lineBegin := by
    rw [hlines.1, hlines.2.2.1]
    decide
  have hsame (n : Nat) : onLine s n [keyword, brace, equals, ending] = onLine s n hints := by
    simp only [onLine, hints, List.filter_cons, List.filter_nil, hlines, decide_eq_true_eq]
    by_cases hn : 0 = n
    · simp [← hn]
    · simp [hn]
  have hown : onLine s 1 hints = [keyword, brace] := by
    simp [onLine, hints, hlines]
  obtain ⟨-, hline, hcongr, hswap⟩ := repair_line_by_line rules hrules s hints
  refine ⟨hrules, by decide +kernel, ?_, hne, ?_, hsame, hcongr _ hsame⟩
  · rw [← hown]
    exact hline 1 _ (by decide +kernel)
  · exact hswap [] [ending, brace] equals keyword rfl hne

end Repair

end LintMend
