import LintMend.Proofs.Repair.Argument
import LintMend.Proofs.Repair.Effect

/-!
# What a repair establishes

Four rules bring a place of the text into one certain form: the end of the file, the blank lines
below a statement and the gaps of an argument. A repair by one of them makes what its message asks
for and changes nothing else, and the same hint, anchored in the repaired text, finds it made.
-/

namespace LintMend.Repair

open Text

variable {s t content ending : Text} {n next count : Nat} {rules : List Rule} {rule : Rule}
  {anchor : Anchor} {groups : Captures} {hint : Hint} {edit : Edit} {found : Pattern.Match}

/-! ## The end of the file -/

/-- A text with all the line breaks at its end split off. -/
structure EndsIn (s content ending : Text) : Prop where
  text : s = content ++ ending
  breaks : ∀ c ∈ ending, c = '\n' ∨ c = '\r'
  last : content.getLast? ≠ some '\n' ∧ content.getLast? ≠ some '\r'

theorem exists_endsIn (s : Text) : ∃ content ending, EndsIn s content ending := by
  refine ⟨s.dropEndWhile fun c ↦ c == '\n' || c == '\r',
    s.takeEndWhile fun c ↦ c == '\n' || c == '\r',
    (takeEndWhile_append_dropEndWhile _ s).symm, ?_, ?_⟩
  · simpa using all_takeEndWhile (fun c ↦ c == '\n' || c == '\r') s
  · have hlast := getLast?_dropEndWhile_any (fun c ↦ c == '\n' || c == '\r') s
    constructor
    · intro h
      simp [h] at hlast
    · intro h
      simp [h] at hlast

theorem EndsIn.dropEndWhile (h : EndsIn s content ending) :
    (s.dropEndWhile fun c ↦ c == '\n' || c == '\r') = content := by
  have hall : ending.all fun c ↦ c == '\n' || c == '\r' := by simpa using h.breaks
  have hlast : ¬ content.getLast?.any fun c ↦ c == '\n' || c == '\r' := by
    have hlast := h.last
    cases hc : content.getLast? <;> simp_all
  rw [h.text, dropEndWhile_append_of_all hall, dropEndWhile_of_getLast? hlast]

theorem eofNewline?_of_endsIn (h : EndsIn s content ending)
    (hcount : groups.number? 0 = some count) :
    Change.eofNewline? s groups = if ending = List.replicate count '\n' then none
      else some ⟨content.size, s.size, List.replicate count '\n'⟩ := by
  have hsame : s = content ++ List.replicate count '\n' ↔ ending = List.replicate count '\n' := by
    rw [h.text, List.append_cancel_left_eq]
  simp only [Change.eofNewline?, hcount, Option.bind_eq_bind, Option.bind_some, h.dropEndWhile,
    hsame]

/-- A step for the end of the file leaves the line breaks that it counts, and no others. -/
theorem exists_breaks_set (hfind : Rule.find? rules hint.message.toList = some (.eofNewline, found))
    (he : Rule.eofNewline.edits s (Anchor.clamp s hint) found.groups ≠ []) :
    ∃ content ending count, EndsIn s content ending ∧ found.groups.number? 0 = some count ∧
      (step rules s hint).1 = content ++ List.replicate count '\n' ∧
      Rule.eofNewline.edits (step rules s hint).1 (Anchor.clamp (step rules s hint).1 hint)
        found.groups = [] := by
  obtain ⟨content, ending, hends⟩ := exists_endsIn s
  obtain ⟨edit, he⟩ := exists_of_toList_ne_nil he
  obtain ⟨count, hcount⟩ : ∃ count, found.groups.number? 0 = some count := by
    obtain ⟨count, hcount, -⟩ := Option.bind_eq_some_iff.mp he
    exact ⟨count, hcount⟩
  have hedits : Rule.eofNewline.edits s (Anchor.clamp s hint) found.groups = [edit] := by
    rw [Rule.edits, he]
    rfl
  rw [eofNewline?_of_endsIn hends hcount] at he
  split at he
  · simp at he
  · obtain rfl : Edit.mk _ _ _ = edit := by simpa using he
    have hcuts : Span.Cuts ⟨size content, size s⟩ s content ending [] :=
      ⟨by simpa using hends.text, rfl, congrArg size hends.text⟩
    have hstep := congrArg Prod.fst (step_of_edits_eq_singleton hfind hedits hcuts)
    rw [List.append_nil] at hstep
    have hends' : EndsIn (step rules s hint).1 content (List.replicate count '\n') :=
      ⟨hstep, by simp, hends.last⟩
    refine ⟨content, ending, count, hends, hcount, hstep, ?_⟩
    rw [Rule.edits, eofNewline?_of_endsIn hends' hcount, if_pos rfl]
    rfl

/-! ## The blank line below a statement -/

/-- The lines of a text in which one empty line takes the place of those between two others. -/
structure ClosesUp (s t : Text) (n next : Nat) : Prop where
  follows : n < next
  exists_next : next < s.lineCount
  between : ∀ k, n < k → k < next → s.isBlankLine k
  code : ¬ s.isBlankLine next
  lines : t.lines = s.lines.take (n + 1) ++ [] :: s.lines.drop next

theorem ClosesUp.length_take (h : ClosesUp s t n next) : (s.lines.take (n + 1)).length = n + 1 :=
  List.length_take_of_le (Nat.le_of_lt (Nat.lt_of_le_of_lt h.follows h.exists_next))

theorem ClosesUp.ended_between (h : ClosesUp s t n next) :
    ended ((t.lines.take (n + 2)).drop (n + 1)) = ['\n'] := by
  have hone : n + 2 - (n + 1) = 1 := by omega
  rw [List.drop_take, hone, h.lines, List.drop_left' h.length_take]
  rfl

theorem nextCodeLine?_of_closesUp (h : ClosesUp s t n next) :
    nextCodeLine? t (n + 1) = some (n + 2) := by
  have hlt : next < s.lines.length := h.exists_next
  have hlength := h.length_take
  have hempty : t.lines[n + 1]? = some [] := by
    rw [h.lines, List.getElem?_append_right (by omega), hlength, Nat.sub_self]
    rfl
  have hnext : t.lines[n + 2]? = s.lines[next]? := by
    rw [h.lines, List.getElem?_append_right (by omega), hlength]
    have hone : n + 2 - (n + 1) = 1 := by omega
    rw [hone, List.getElem?_cons_succ, List.getElem?_drop, Nat.add_zero]
  have hcode : t.isBlankLine (n + 2) = s.isBlankLine next := by
    rw [isBlankLine, isBlankLine, Text.lineText, Text.lineText, hnext]
  have hcount : n + 2 < t.lineCount := by
    rw [lineCount, h.lines, List.length_append, List.length_cons, hlength, List.length_drop]
    omega
  refine Change.nextCodeLine?_eq_some_iff.mpr
    ⟨hcode ▸ h.code, Nat.le_succ _, hcount, fun k hk hk' ↦ ?_⟩
  obtain rfl : k = n + 1 := by omega
  rw [isBlankLine, Text.lineText, hempty]
  rfl

theorem blankLineAfter?_eq (hnext : nextCodeLine? s (anchor.lineBegin + 1) = some next) :
    Change.blankLineAfter? s anchor =
      if ended ((s.lines.take next).drop (anchor.lineBegin + 1)) = ['\n'] then none
      else some ⟨s.lineStart (anchor.lineBegin + 1), s.lineStart next, ['\n']⟩ := by
  obtain ⟨-, hle, hlt, -⟩ := Change.nextCodeLine?_eq_some_iff.mp hnext
  have hcuts := cuts_lines hle hlt
  simp only [Change.blankLineAfter?, hnext, Option.bind_eq_bind, Option.bind_some,
    hcuts.after?_start, hcuts.before?_held]

/-- The text goes on below the line of the hint, so the hint is on the line it names, in either
text. -/
theorem lineBegin_clamp_of_closesUp (h : ClosesUp s t (Anchor.clamp s hint).lineBegin next) :
    (Anchor.clamp t hint).lineBegin = (Anchor.clamp s hint).lineBegin := by
  have hfollows := h.follows
  have hlt := h.exists_next
  obtain ⟨-, -, hlt', -⟩ := Change.nextCodeLine?_eq_some_iff.mp (nextCodeLine?_of_closesUp h)
  simp only [Anchor.clamp] at hfollows hlt' ⊢
  omega

theorem blankLineAfter?_of_closesUp (h : ClosesUp s t anchor.lineBegin next) :
    Change.blankLineAfter? t anchor = none := by
  rw [blankLineAfter?_eq (nextCodeLine?_of_closesUp h), if_pos h.ended_between]

/-- The lines of what is left when an empty line is put between two others. -/
theorem lines_closeUp (hnext : next < s.lineCount) (n : Nat) :
    lines (s.linesBefore n ++ ['\n'] ++ List.intercalate ['\n'] (s.lines.drop next)) =
      s.lines.take n ++ [] :: s.lines.drop next := by
  have hfeeds : ∀ l ∈ s.lines.take n ++ [[]], '\n' ∉ l := by
    rw [List.forall_mem_append]
    exact ⟨lineFeed_notMem_take s n, by simp⟩
  have hended : s.linesBefore n ++ ['\n'] = ended (s.lines.take n ++ [[]]) := by
    rw [linesBefore, ended_append]
    rfl
  rw [hended, lines_ended_append_drop hfeeds hnext]
  simp

/-- A step for the line below a statement leaves one empty line there, and the same hint has nothing
more to do. -/
theorem exists_blankLine_set
    (hfind : Rule.find? rules hint.message.toList = some (.blankLineAfterStatement, found))
    (he : Rule.blankLineAfterStatement.edits s (Anchor.clamp s hint) found.groups ≠ []) :
    ∃ next, ClosesUp s (step rules s hint).1 (Anchor.clamp s hint).lineBegin next ∧
      Rule.blankLineAfterStatement.edits (step rules s hint).1
        (Anchor.clamp (step rules s hint).1 hint) found.groups = [] := by
  obtain ⟨edit, he⟩ := exists_of_toList_ne_nil he
  obtain ⟨next, hnext⟩ : ∃ next,
      nextCodeLine? s ((Anchor.clamp s hint).lineBegin + 1) = some next := by
    obtain ⟨next, hnext, -⟩ := Option.bind_eq_some_iff.mp he
    exact ⟨next, hnext⟩
  obtain ⟨hcode, hle, hlt, hblank⟩ := Change.nextCodeLine?_eq_some_iff.mp hnext
  have hedits : Rule.blankLineAfterStatement.edits s (Anchor.clamp s hint) found.groups =
      [edit] := by
    rw [Rule.edits, he]
    rfl
  rw [blankLineAfter?_eq hnext] at he
  split at he
  · simp at he
  · obtain rfl : Edit.mk _ _ _ = edit := by simpa using he
    have hcloses : ClosesUp s (step rules s hint).1 (Anchor.clamp s hint).lineBegin next := by
      refine ⟨hle, hlt, fun k hk hk' ↦ hblank k hk hk', hcode, ?_⟩
      rw [step_of_edits_eq_singleton hfind hedits (cuts_lines hle hlt)]
      exact lines_closeUp hlt _
    refine ⟨next, hcloses, ?_⟩
    rw [← lineBegin_clamp_of_closesUp hcloses] at hcloses
    rw [Rule.edits, blankLineAfter?_of_closesUp hcloses]
    rfl

/-! ## Repairs -/

/-- What the message of a hint on line `n` asks for, made of the text `s` in the text `t`. -/
inductive Establishes (groups : Captures) (n : Nat) (s t : Text) : Rule → Prop
  /-- Behind the content of the text stand as many line feeds as are expected. -/
  | lineBreaks {content ending : Text} {count : Nat} (split : EndsIn s content ending)
      (expected : groups.number? 0 = some count)
      (result : t = content ++ List.replicate count '\n') : Establishes groups n s t .eofNewline
  /-- One empty line stands between the line of the hint and the next one that is not blank. -/
  | blankLine {next : Nat} (closes : ClosesUp s t n next) :
      Establishes groups n s t .blankLineAfterStatement
  /-- On the line of the hint the gap of the argument holds as many spaces as are expected. -/
  | gap {rule : Rule} {name front gap back : Text} {count : Nat}
      (argument : groups.text? 0 = some name) (expected : groups.number? 1 = some count)
      (blank : gap.all isSpaceOrTab) (place : IsGapOf name rule front back)
      (line : s.lines[n]? = some (front ++ (gap ++ back)))
      (result : t.lines = s.lines.set n (front ++ (List.replicate count ' ' ++ back))) :
      Establishes groups n s t rule

/-- A rule of this kind that has edits establishes what the message asks for, and has none
behind that. -/
theorem establishes_step (hfind : Rule.find? rules hint.message.toList = some (rule, found))
    (hrule : rule ∈ [.eofNewline, .blankLineAfterStatement, .defaultValueSpacing,
      .argumentEqualsSpacing])
    (he : rule.edits s (Anchor.clamp s hint) found.groups ≠ []) :
    Establishes found.groups (Anchor.clamp s hint).lineBegin s (step rules s hint).1 rule ∧
      rule.edits (step rules s hint).1 (Anchor.clamp (step rules s hint).1 hint) found.groups =
        [] := by
  have hgap (hsets : rule.setsArgumentGap) : Establishes found.groups
      (Anchor.clamp s hint).lineBegin s (step rules s hint).1 rule ∧
        rule.edits (step rules s hint).1 (Anchor.clamp (step rules s hint).1 hint) found.groups =
          [] := by
    obtain ⟨_, _, _, _, _, htext, hcount, hblank, hspot, hline, hlines, hnone⟩ :=
      exists_gap_set hfind hsets he
    exact ⟨.gap htext hcount hblank hspot hline hlines, hnone⟩
  cases rule with
  | eofNewline =>
    obtain ⟨content, ending, count, hends, hcount, hresult, hnone⟩ := exists_breaks_set hfind he
    exact ⟨.lineBreaks hends hcount hresult, hnone⟩
  | blankLineAfterStatement =>
    obtain ⟨next, hcloses, hnone⟩ := exists_blankLine_set hfind he
    exact ⟨.blankLine hcloses, hnone⟩
  | defaultValueSpacing => exact hgap rfl
  | argumentEqualsSpacing => exact hgap rfl
  | _ => simp at hrule

/-- An applied repair for the end of the file, for the blank line below a statement or for a gap of
an argument makes what the message asks for and nothing else, and to repair its result for the same
hint once more is skipped. -/
theorem repair_establishes (hfind : Rule.find? rules hint.message.toList = some (rule, found))
    (hrule : rule ∈ [.eofNewline, .blankLineAfterStatement, .defaultValueSpacing,
      .argumentEqualsSpacing])
    (happlied : (repair rules s [hint]).isChanged) :
    let t := (repair rules s [hint]).text
    Establishes found.groups (Anchor.clamp s hint).lineBegin s t rule ∧
      repair rules t [hint] =
        ⟨t, [⟨(Anchor.clamp t hint).lineBegin, hint.message, .notApplied rule⟩]⟩ := by
  intro t
  have hmade : (step rules s hint).2.isApplied := by
    have hsteps : (repair rules s [hint]).steps = [(step rules s hint).2] := rfl
    simpa [Pass.isChanged, Pass.applied, hsteps] using happlied
  obtain ⟨hestablished, hnone⟩ := establishes_step hfind hrule ((isApplied_step_iff hfind).mp hmade)
  refine ⟨hestablished, ?_⟩
  have hagain : step rules t hint = _ := step_of_edits_eq_nil hfind hnone
  rw [repair, List.reverse_singleton, run, hagain]
  rfl

/-- The gap of a tab and a space is set behind the sign of the variable, not of the longer one that
begins with it. -/
theorem repair_establishes_of_default_value :
    let s : Text := "<?php\r\nfunction f($ab=2, $a =\t 1) \x7b\x7d\r\n".toList
    let message := "Incorrect spacing between default value and equals sign for argument " ++
      "\"$a\"; expected 1 but found 2"
    let hint : Hint := ⟨1, 1, 21, 22, message, default, 100, "phpcs"⟩
    let groups : Captures := [some "$a".toList, some "1".toList, some "2".toList]
    let found : Pattern.Match := ⟨message.toList, groups⟩
    let t : Text := "<?php\r\nfunction f($ab=2, $a = 1) \x7b\x7d\r\n".toList
    Rule.find? Rule.all hint.message.toList = some (.defaultValueSpacing, found) ∧
      (repair Rule.all s [hint]).isChanged ∧
      Establishes groups 1 s t .defaultValueSpacing ∧
      repair Rule.all t [hint] = ⟨t, [⟨1, message, .notApplied .defaultValueSpacing⟩]⟩ := by
  intro s message hint groups found t
  have hfind : Rule.find? Rule.all hint.message.toList = some (.defaultValueSpacing, found) := by
    decide +kernel
  have hstep : step Rule.all s hint = (t, ⟨1, message, .applied .defaultValueSpacing 1⟩) := by
    rw [step, hfind]
    decide +kernel
  have hpass : repair Rule.all s [hint] =
      ⟨t, [⟨1, message, .applied .defaultValueSpacing 1⟩]⟩ := by
    rw [repair, List.reverse_singleton, run, hstep]
    rfl
  have happlied : (repair Rule.all s [hint]).isChanged := by
    rw [hpass]
    rfl
  have hestablished := repair_establishes hfind (by decide) happlied
  rw [hpass] at hestablished
  exact ⟨hfind, happlied, hestablished⟩

end LintMend.Repair
