import LintMend.Proofs.Repair.Anchor
import LintMend.Proofs.Repair.Repeat
import LintMend.Proofs.Repair.Sentence
import LintMend.Proofs.Report.Phpcs
import LintMend.Proofs.Text.Around
import LintMend.Proofs.Text.Position
import Mathlib.Data.List.TakeWhile

/-!
# Spaces behind a reported token

The code sniffer reports a token by its line and column, counted from one. The range of the hint
begins at the token, or at the second character of a line, and ends behind the first character of
the token. From there each rule comes to the end of the token: a keyword is searched from the start
of its word, a brace back from the end of the range, and behind a parenthesis the range ends. So a
sentence that counts the spaces behind the token makes them as many as are expected.
-/

namespace LintMend

open Text

variable {s before left after rest : Text} {earlier : List Text}

/-! ## Entries of a report -/

namespace Report.Phpcs

/-- An entry of one of the files of a report. -/
def Reports (output : Text) (message : Message) : Prop :=
  ∃ report ∈ (Xml.parse? output).bind ofNode?, ∃ entries ∈ report,
    message ∈ entries.filterMap Entry.message?

theorem exists_hint_mem {output : Text} {message : Message} (h : Reports output message) :
    ∃ found, hints? output = some found ∧ message.hint ∈ found := by
  obtain ⟨report, hreport, entries, hentries, hmessage⟩ := h
  refine ⟨hints report, hints?_eq_some hreport, ?_⟩
  rw [hints, List.mem_flatMap]
  exact ⟨entries, hentries, List.mem_map_of_mem (List.mem_mergeSort.mpr hmessage)⟩

end Report.Phpcs

namespace Text

/-! ## Starts of words -/

theorem takeEndWhile_append_of_all {p : Char → Bool} {word : Text}
    (hbefore : before.getLast?.any p = false) (hword : word.all p) :
    takeEndWhile p (before ++ word) = word := by
  have hself : takeEndWhile p word = word := by
    rw [takeEndWhile, List.takeWhile_eq_self_iff.mpr, List.reverse_reverse]
    intro c hc
    exact List.all_eq_true.mp hword c (List.mem_reverse.mp hc)
  rcases List.eq_nil_or_concat before with rfl | ⟨init, c, rfl⟩
  · exact hself
  · rw [List.concat_eq_append] at hbefore ⊢
    have hc : ¬ p c := by simpa using hbefore
    rw [List.append_assoc, List.singleton_append, takeEndWhile_append_cons hc, hself]

/-- From a place inside a word the start of the word is found. -/
theorem wordStart?_size_append {a b : Text} (hbefore : before.getLast?.any isWord = false)
    (ha : a.all isWord) (hb : b.head?.any isWord) :
    wordStart? (before ++ a ++ b) (size (before ++ a)) = some (size before) := by
  rw [wordStart?, splitAt?_size_append]
  simp only [Option.bind_eq_bind, Option.bind_some, hb, if_true,
    takeEndWhile_append_of_all hbefore ha, size_append, Nat.add_sub_cancel]
  rfl

theorem find?_of_prefix {needle : Text} (h : needle <+: s) : find? needle s = some 0 := by
  cases s with
  | nil => simp [find?, List.prefix_nil.mp h]
  | cons c s => rw [find?, if_pos (List.isPrefixOf_iff_prefix.mpr h)]

/-- What stands at a place is found there, in either case. -/
theorem searchFromIgnoringCase?_size_append {needle held : Text}
    (h : needle.asciiLower = held.asciiLower) (before b : Text) :
    searchFromIgnoringCase? (before ++ held ++ b) (size before) needle =
      some ⟨size before, size (before ++ held)⟩ := by
  have hbegins : needle.asciiLower <+: asciiLower (held ++ b) := by
    rw [h, asciiLower_append]
    exact List.prefix_append _ _
  have hsize : size needle = size held := by
    rw [← size_asciiLower needle, h, size_asciiLower]
  rw [searchFromIgnoringCase?, List.append_assoc, after?_size_append]
  simp only [Option.bind_eq_bind, Option.bind_some, find?_of_prefix hbegins, hsize, size_append,
    Nat.add_zero]
  rfl

end Text

namespace Repair

variable {rules : List Rule} {rule : Rule} {hint : Hint} {anchor : Anchor} {found : Pattern.Match}
  {token : Token} {expected counted : Nat}

/-! ## Counted spaces -/

/-- A step of a rule that counts spaces: what is missing is put in at the spot, and as many
characters behind it as are too many are taken out. -/
theorem text_step_of_counts (hfind : Rule.find? rules hint.message.toList = some (rule, found))
    (hrule : rule.countsSpaces) (hcounts : rule.counts? found.groups = some (expected, counted))
    (hspot : rule.spot? (before ++ rest) (Anchor.clamp (before ++ rest) hint) found.groups =
      some before.size) :
    (step rules (before ++ rest) hint).1 =
      before ++ List.replicate (expected - counted) ' ' ++ rest.drop (counted - expected) := by
  obtain ⟨t, ht, hstep⟩ := step_of_find?_eq_some (s := before ++ rest) hfind
  rw [Rule.edits_of_countsSpaces hrule, hcounts, hspot, Option.bind_some, Option.bind_some,
    adjustSpaces?_eq_edit?, Adjustment.applyEdits_edit? (fits_spaces rfl), Except.ok.injEq] at ht
  rw [hstep, ← ht]

/-- Counted spaces that are there become as many as are expected. -/
theorem replicate_append_drop (expected counted : Nat) (after : Text) :
    List.replicate (expected - counted) ' ' ++
        (List.replicate counted ' ' ++ after).drop (counted - expected) =
      List.replicate expected ' ' ++ after := by
  rcases Nat.le_total counted expected with hle | hle
  · rw [Nat.sub_eq_zero_of_le hle, List.drop_zero, ← List.append_assoc,
      List.replicate_append_replicate, Nat.sub_add_cancel hle]
  · rw [Nat.sub_eq_zero_of_le hle, List.replicate_zero, List.nil_append,
      List.drop_append_of_le_length (by simp), List.drop_replicate, Nat.sub_sub_self hle]

theorem size_replicate_space (n : Nat) : size (List.replicate n ' ') = n := by
  induction n with
  | zero => rfl
  | succ n ih =>
    rw [List.replicate_succ, size_cons, ih, Nat.add_comm]
    rfl

/-! ## Tokens on their lines -/

namespace Token

/-- Nothing runs into a keyword from the left. -/
def Behind (before : Text) : Token → Prop
  | keyword _ => before.getLast?.any isWord = false
  | brace _ | closeParenthesis => True

theorem countsSpaces_rule (token : Token) : token.rule.countsSpaces := by cases token <;> rfl

theorem lineFeed_notMem_text (h : token.Valid) : '\n' ∉ token.text := by
  cases token with
  | keyword word =>
    intro hmem
    exact absurd (h.chars '\n' hmem) (by decide)
  | brace opening => cases opening <;> decide
  | closeParenthesis => decide

theorem getLast?_text_ne (h : token.Valid) : token.text.getLast? ≠ some '\r' := by
  cases token with
  | keyword word =>
    intro hlast
    exact absurd (h.chars '\r' (List.mem_of_getLast? hlast)) (by decide)
  | brace opening => cases opening <;> decide
  | closeParenthesis => decide

theorem length_text_pos (h : token.Valid) : 0 < token.text.length := by
  cases token with
  | keyword word => exact Nat.lt_of_lt_of_le Nat.two_pos h.two_le
  | brace opening => cases opening <;> decide
  | closeParenthesis => decide

/-- The anchor of a hint from the token, or from the second character of the line, up to the end of
the first character of the token. -/
theorem start_stop_clamp (h : token.Valid) (hearlier : ∀ line ∈ earlier, '\n' ∉ line)
    (hleft : '\n' ∉ left) (b : Text) (hbegin : hint.lineBegin = earlier.length)
    (hend : hint.lineEnd = earlier.length) (hcolumn : hint.columnBegin = max left.length 1)
    (hcolumn' : hint.columnEnd = left.length + 1) :
    (Anchor.clamp (ended earlier ++ (left ++ token.text) ++ b) hint).start =
        size (ended earlier ++ (left ++ token.text).take (max left.length 1)) ∧
      (Anchor.clamp (ended earlier ++ (left ++ token.text) ++ b) hint).stop =
        size (ended earlier ++ (left ++ token.text).take (left.length + 1)) := by
  have hpos := length_text_pos h
  have hfeed : '\n' ∉ left ++ token.text := by
    rw [List.mem_append, not_or]
    exact ⟨hleft, lineFeed_notMem_text h⟩
  have hlast : (left ++ token.text).getLast? ≠ some '\r' := by
    have hsome := List.getLast?_isSome.mpr (List.ne_nil_of_length_pos hpos)
    rw [List.getLast?_append, Option.or_of_isSome hsome]
    exact getLast?_text_ne h
  obtain ⟨hlt, hlength, hoffset⟩ := offsetOf_ended_append hearlier hfeed hlast b
  have hbegins : max left.length 1 ≤ (left ++ token.text).length := by
    rw [List.length_append]
    omega
  have hends : left.length + 1 ≤ (left ++ token.text).length := by
    rw [List.length_append]
    omega
  have hstart : hint.start = ⟨earlier.length, max left.length 1⟩ := by
    rw [Hint.start, hbegin, hcolumn]
  have hstop : hint.stop = ⟨earlier.length, left.length + 1⟩ := by
    rw [Hint.stop, hend, hcolumn']
  rw [Anchor.start_clamp_of_isIn (hstart ▸ ⟨hlt, Nat.le_trans hbegins hlength⟩),
    Anchor.stop_clamp_of_isIn (hstop ▸ ⟨hlt, Nat.le_trans hends hlength⟩), hbegin, hcolumn,
    hend, hcolumn', hoffset _ hbegins, hoffset _ hends]
  exact ⟨rfl, rfl⟩

theorem asciiLower_toUpper {word : Text} (h : ∀ c ∈ word, Pattern.isNameStart c) :
    asciiLower (word.map Char.toUpper) = word.asciiLower := by
  rw [asciiLower, asciiLower, List.map_map]
  apply List.map_congr_left
  intro c hc
  have hascii := toNat_lt_of_isNameStart (h c hc)
  exact of_forall_ascii (p := fun c ↦ c.toUpper.toLower = c.toLower) (by decide +kernel) hascii

theorem isWord_of_isNameStart {c : Char} (h : Pattern.isNameStart c) : isWord c := by
  have hascii := toNat_lt_of_isNameStart h
  revert h
  exact of_forall_ascii (p := fun c ↦ Pattern.isNameStart c → isWord c) (by decide +kernel) hascii

theorem wordStart?_keyword {word start b : Text} (h : IsKeyword word)
    (hbehind : (start ++ left).getLast?.any isWord = false) {offset : Nat}
    (hoffset : offset = size (start ++ (left ++ word).take (max left.length 1))) :
    wordStart? (start ++ left ++ word ++ b) offset = some (size (start ++ left)) := by
  have hwords : ∀ c ∈ word, isWord c := fun c hc ↦ isWord_of_isNameStart (h.chars c hc)
  match word, h.two_le with
  | c :: d :: word, _ =>
    have hc : isWord c := hwords c (by simp)
    have hd : isWord d := hwords d (by simp)
    cases left with
    | nil =>
      -- on the second character of the keyword
      have hplace : start ++ [] ++ (c :: d :: word) ++ b =
          start ++ [] ++ [c] ++ (d :: word ++ b) := by simp
      have hsize : offset = size (start ++ [] ++ [c]) := by simpa using hoffset
      rw [hplace, hsize]
      exact wordStart?_size_append hbehind (by simp [hc]) (by simpa using hd)
    | cons e left =>
      have htake : (e :: left ++ c :: d :: word).take (max (e :: left).length 1) = e :: left := by
        rw [Nat.max_eq_left (by simp)]
        exact List.take_left
      have hsize : offset = size (start ++ (e :: left) ++ []) := by
        rw [hoffset, htake, List.append_nil]
      have hplace : start ++ (e :: left) ++ (c :: d :: word) ++ b =
          start ++ (e :: left) ++ [] ++ (c :: d :: word ++ b) := by simp
      rw [hplace, hsize]
      exact wordStart?_size_append hbehind rfl (by simpa using hc)

/-- A rule comes from the range of the hint to the end of the token. -/
theorem spot?_of_start_stop (h : token.Valid) {start b : Text}
    (hbehind : token.Behind (start ++ left))
    (hstart : anchor.start = size (start ++ (left ++ token.text).take (max left.length 1)))
    (hstop : anchor.stop = size (start ++ (left ++ token.text).take (left.length + 1))) :
    token.rule.spot? (start ++ left ++ token.text ++ b) anchor
      (token.captures expected counted) = some (size (start ++ left ++ token.text)) := by
  have hone (c : Char) : (left ++ [c]).take (left.length + 1) = left ++ [c] :=
    List.take_of_length_le (by simp)
  cases token with
  | keyword word =>
    have hword : wordStart? (start ++ left ++ word ++ b) anchor.start =
        some (size (start ++ left)) := wordStart?_keyword h hbehind hstart
    have hsearch := searchFromIgnoringCase?_size_append (asciiLower_toUpper h.chars)
      (start ++ left) b
    have hname : ((keyword word).captures expected counted).text? 1 =
        some (word.map Char.toUpper) := rfl
    simp only [rule, Rule.spot?, hname, text, hword, hsearch, Option.bind_eq_bind,
      Option.bind_some, Option.pure_def]
  | brace opening =>
    obtain ⟨c, htext, hbrace⟩ : ∃ c, (brace opening).text = [c] ∧
        Repair.brace ((brace opening).captures expected counted) 1 = [c] := by
      have hside : ((brace opening).captures expected counted).text? 1 =
          some (side opening).toList := rfl
      rw [Repair.brace, hside]
      cases opening with
      | true => exact ⟨'\x7b', rfl, if_pos rfl⟩
      | false => exact ⟨'\x7d', rfl, if_neg (by decide)⟩
    rw [htext] at hstop ⊢
    have hbefore : before? (start ++ left ++ [c] ++ b) anchor.stop =
        some (start ++ left ++ [c]) := by
      rw [hstop, hone, ← List.append_assoc, before?_size_append]
    simp only [rule, Rule.spot?, searchBefore?, hbrace, hbefore, Option.bind_eq_bind,
      Option.bind_some, findLast?_singleton_append List.not_mem_nil, Option.pure_def,
      Option.map_some, size_append]
  | closeParenthesis =>
    have hspot : anchor.stop = size (start ++ left ++ [')']) := by
      rw [hstop, text, hone, ← List.append_assoc]
    simp only [rule, Rule.spot?, text, hspot]

end Token

/-- What a report says of the spaces behind a token comes true, wherever the token stands. -/
theorem repair_reported_token (token : Token) (hvalid : token.Valid) (before after : Text)
    (hbehind : token.Behind before) (expected counted : Nat) (plural : Bool)
    (hfound : (before ++ token.text ++ (List.replicate counted ' ' ++ after)).size < words64)
    (hwanted : (before ++ token.text ++ (List.replicate expected ' ' ++ after)).size < words64)
    {output : Text} {message : Report.Phpcs.Message}
    (hreports : Report.Phpcs.Reports output message)
    (hline : message.line = (positionOf
      (before ++ token.text ++ (List.replicate counted ' ' ++ after)) before.size).line + 1)
    (hcolumn : message.column = (positionOf
      (before ++ token.text ++ (List.replicate counted ' ' ++ after)) before.size).column + 1)
    (htext : message.text.trim = token.sentence expected counted plural) :
    ∃ hints, Report.Phpcs.hints? output = some hints ∧ message.hint ∈ hints ∧
      (repair Rule.all (before ++ token.text ++ (List.replicate counted ' ' ++ after))
          [message.hint]).text =
        before ++ token.text ++ (List.replicate expected ' ' ++ after) := by
  obtain ⟨hints, hhints, hmem⟩ := Report.Phpcs.exists_hint_mem hreports
  refine ⟨hints, hhints, hmem, ?_⟩
  have hexpected : expected < words64 := by
    simp only [size_append, size_replicate_space] at hwanted
    omega
  have hcounted : counted < words64 := by
    simp only [size_append, size_replicate_space] at hfound
    omega
  -- the rule and what it reads
  obtain ⟨found, hmatch, hgroups⟩ := token.exists_match?_sentence hvalid expected counted plural
  have hmessage : message.hint.message.toList = token.sentence expected counted plural := by
    rw [← htext]
    exact String.toList_ofList
  have hfind : Rule.find? Rule.all message.hint.message.toList = some (token.rule, found) := by
    rw [hmessage]
    exact Rule.find?_eq_some_iff.mpr ⟨token.rule.mem_all, hmatch⟩
  have hcounts : token.rule.counts? found.groups = some (expected, counted) := by
    rw [hgroups]
    exact Token.counts?_captures hexpected hcounted
  -- the place of the token
  obtain ⟨earlier, left, rfl, hearlier, hleft, hplace⟩ :=
    exists_eq_ended_append before (token.text ++ (List.replicate counted ' ' ++ after))
  rw [← List.append_assoc] at hplace
  rw [hplace] at hline hcolumn
  have hlines : message.hint.lineBegin = earlier.length ∧
      message.hint.lineEnd = earlier.length := by
    change message.line - 1 = earlier.length ∧ message.line - 1 = earlier.length
    simp [hline]
  have hbegin : message.hint.columnBegin = max left.length 1 := by
    change max (message.column - 1) 1 = max left.length 1
    rw [hcolumn, Nat.add_sub_cancel]
  obtain ⟨hstart, hstop⟩ := Token.start_stop_clamp hvalid hearlier hleft
    (List.replicate counted ' ' ++ after) hlines.1 hlines.2 hbegin hcolumn
  have hspot : token.rule.spot?
      (ended earlier ++ left ++ token.text ++ (List.replicate counted ' ' ++ after))
      (Anchor.clamp (ended earlier ++ left ++ token.text ++ (List.replicate counted ' ' ++ after))
        message.hint) found.groups = some (size (ended earlier ++ left ++ token.text)) := by
    rw [← List.append_assoc (ended earlier)] at hstart hstop
    rw [hgroups]
    exact Token.spot?_of_start_stop hvalid hbehind hstart hstop
  calc (repair Rule.all _ [message.hint]).text
      = (step Rule.all (ended earlier ++ left ++ token.text ++
          (List.replicate counted ' ' ++ after)) message.hint).1 :=
        text_repair_cons Rule.all _ message.hint []
    _ = ended earlier ++ left ++ token.text ++ List.replicate (expected - counted) ' ' ++
          (List.replicate counted ' ' ++ after).drop (counted - expected) :=
        text_step_of_counts hfind token.countsSpaces_rule hcounts hspot
    _ = ended earlier ++ left ++ token.text ++ (List.replicate expected ' ' ++ after) := by
        rw [List.append_assoc, replicate_append_drop]

theorem repair_reported_token_behind_comment :
    let token := Token.keyword "If".toList
    let before : Text := "<?php\r\n/* é */ ".toList
    let after : Text := "($a) \x7b\x7d\r\n".toList
    let source := before ++ token.text ++ (List.replicate 3 ' ' ++ after)
    let output : Text := ("<phpcs><file name='A.php'><warning line='9' column='1'>Long</warning>" ++
      "<error line='2' column='9'> Expected 1 space after IF keyword; 3 found</error>" ++
      "</file></phpcs>").toList
    let message : Report.Phpcs.Message :=
      ⟨2, 9, "Expected 1 space after IF keyword; 3 found".toList⟩
    token.Valid ∧ token.Behind before ∧ source.size < words64 ∧
    (before ++ token.text ++ (List.replicate 1 ' ' ++ after)).size < words64 ∧
    Report.Phpcs.Reports output message ∧ source.positionOf before.size = ⟨1, 8⟩ ∧
    message.text.trim = token.sentence 1 3 false ∧
    ∃ hints, Report.Phpcs.hints? output = some hints ∧ message.hint ∈ hints ∧
      (repair Rule.all source [message.hint]).text =
        before ++ token.text ++ (List.replicate 1 ' ' ++ after) := by
  intro token before after source output message
  have hvalid : token.Valid := ⟨by decide, List.all_eq_true.mp (by decide +kernel)⟩
  have hbehind : token.Behind before := by
    change before.getLast?.any isWord = false
    decide +kernel
  have hfound : source.size < words64 := by decide +kernel
  have hwanted : (before ++ token.text ++ (List.replicate 1 ' ' ++ after)).size < words64 := by
    decide +kernel
  have hreports : Report.Phpcs.Reports output message :=
    ⟨[[.warning ⟨9, 1, "Long".toList⟩, .error message]], by decide +kernel, _,
      List.mem_singleton_self _, by decide +kernel⟩
  have hplace : source.positionOf before.size = ⟨1, 8⟩ := by decide +kernel
  have htext : message.text.trim = token.sentence 1 3 false := by decide +kernel
  exact ⟨hvalid, hbehind, hfound, hwanted, hreports, hplace, htext,
    repair_reported_token token hvalid before after hbehind 1 3 false hfound hwanted hreports
      (congrArg (·.line + 1) hplace.symm) (congrArg (·.column + 1) hplace.symm) htext⟩

end Repair

end LintMend
