import LintMend.Proofs.Repair.Line
import LintMend.Proofs.Repair.Slice
import LintMend.Proofs.Text.Position

/-!
# Gaps of arguments

Two rules set the spaces and tabs around the sign of an argument, which they look for on the line of
their hint. Where such a gap stands depends on what is before and behind it and not on what it
holds, so a gap that has been set is found again in the same place, and is as it was wanted.
-/

namespace LintMend

open Text

variable {name line a b front gap back : Text} {count : Nat} {span : Span}

namespace Text

theorem IsVariable.carriageReturn_notMem (h : IsVariable name) : '\r' ∉ name := by
  obtain ⟨identifier, rfl, hall⟩ := h
  rw [List.mem_cons, not_or]
  refine ⟨by decide, fun hmem ↦ ?_⟩
  exact absurd (List.all_eq_true.mp hall _ hmem) (by decide)

theorem head?_dropCarriageReturn_any {p : Char → Bool} (h : ¬ b.head?.any p) :
    ¬ b.dropCarriageReturn.head?.any p := by
  obtain ⟨cr, -, hb⟩ := exists_dropCarriageReturn_append b
  cases hline : b.dropCarriageReturn with
  | nil => simp
  | cons c rest =>
    rw [hline] at hb
    rw [hb] at h
    exact h

/-- On a text of one line a variable is found at its first whole occurrence; the carriage return of
the line break is in no variable and ends one. -/
theorem variableOnLine?_eq_some_iff (hname : IsVariable name) (hline : '\n' ∉ line) :
    line.variableOnLine? 0 name = some span ↔
      ∃ a b, line = a ++ (name ++ b) ∧ span = ⟨size a, size (a ++ name)⟩ ∧ FirstWhole name a b := by
  have hstart : line.lineStart 0 = 0 := by
    rw [lineStart_of_lt (lineCount_pos line), linesBefore_zero, size_nil]
  rw [variableOnLine?, lineText_of_notMem hline, hstart, Option.map_eq_some_iff]
  simp only [findWhole?_eq_some_iff hname.ne_nil, Nat.zero_add]
  constructor
  · rintro ⟨-, ⟨a, b, hsplit, rfl, hfirst⟩, rfl⟩
    obtain ⟨cr, hcr, htext⟩ := exists_dropCarriageReturn_append line
    have hreturn : ¬ cr.head?.any isWord := by rcases hcr with rfl | rfl <;> decide
    have hwhole : ¬ (b ++ cr).head?.any isWord := by
      rw [head?_append_any hreturn]
      exact hfirst.whole
    refine ⟨a, b ++ cr, ?_, by rw [size_append], hfirst.congr hname hwhole⟩
    rw [htext, hsplit]
    simp
  · rintro ⟨a, b, rfl, rfl, hfirst⟩
    have hlast : (a ++ name).getLast? ≠ some '\r' := by
      rw [List.getLast?_append, List.getLast?_eq_some_getLast hname.ne_nil, Option.some_or]
      intro h
      exact hname.carriageReturn_notMem (Option.some.inj h ▸ List.getLast_mem hname.ne_nil)
    refine ⟨size a, ⟨a, b.dropCarriageReturn, ?_, rfl, ?_⟩, by rw [size_append]⟩
    · rw [← List.append_assoc, dropCarriageReturn_append hlast, List.append_assoc]
    · exact hfirst.congr hname (head?_dropCarriageReturn_any hfirst.whole)

theorem size_le_lineEnd (hline : '\n' ∉ a ++ b) (hlast : a.getLast? ≠ some '\r') :
    size a ≤ (a ++ b).lineEnd 0 := by
  rw [lineEnd_of_lt (lineCount_pos _), linesBefore_zero, lineText_of_notMem hline,
    dropCarriageReturn_append hlast, List.nil_append, size_append]
  exact Nat.le_add_right _ _

theorem FirstWhole.congr_behind_sign {between : Text} (hname : IsVariable name)
    (h : FirstWhole name a (between ++ '=' :: b)) (back : Text) :
    FirstWhole name a (between ++ '=' :: back) := by
  apply h.congr hname
  have hword := h.whole
  cases between <;> simpa using hword

theorem not_isWord_of_isSpaceOrTab {c : Char} (h : isSpaceOrTab c) : ¬ isWord c := by
  rcases Bool.or_eq_true_iff.mp h with hc | hc
  · obtain rfl := eq_of_beq hc
    decide
  · obtain rfl := eq_of_beq hc
    decide

theorem head?_gap_append_any (hgap : gap.all isSpaceOrTab) (hb : ¬ b.head?.any isWord) :
    ¬ (gap ++ b).head?.any isWord := by
  cases gap with
  | nil => exact hb
  | cons c gap => exact not_isWord_of_isSpaceOrTab (List.all_eq_true.mp hgap c (by simp))

end Text

namespace Repair

variable {s : Text} {n : Nat} {rules : List Rule} {rule : Rule} {anchor own : Anchor}
  {groups : Captures} {hint : Hint} {found : Pattern.Match}

/-- The rules that set a gap of an argument. -/
def Rule.setsArgumentGap : Rule → Bool
  | defaultValueSpacing | argumentEqualsSpacing => true
  | _ => false

theorem Rule.staysOnLine_of_setsArgumentGap (h : rule.setsArgumentGap) : rule.staysOnLine := by
  cases rule <;> simp_all [setsArgumentGap, staysOnLine]

/-- What a line has before and behind the gap that a rule sets for an argument. -/
inductive IsGapOf (name : Text) : Rule → Text → Text → Prop
  /-- The gap behind the first sign that follows the variable. -/
  | behindSign {a between back : Text} (sign : '=' ∉ between)
      (occurs : FirstWhole name a (between ++ ['='])) (gap : ¬ back.head?.any isSpaceOrTab) :
      IsGapOf name .defaultValueSpacing (a ++ name ++ (between ++ ['='])) back
  /-- The gap between the variable and the sign next to it. -/
  | beforeSign {a back : Text} (occurs : FirstWhole name a ['=']) :
      IsGapOf name .argumentEqualsSpacing (a ++ name) ('=' :: back)

/-! ## Edits of a gap -/

section Changes

variable {between : Text} (hname : IsVariable name) (hgap : gap.all isSpaceOrTab)
  (hown : own.lineBegin = 0) (htext : groups.text? 0 = some name)
  (hcount : groups.number? 1 = some count)

namespace Change

include hname hgap hown htext hcount

theorem defaultValue?_eq_setSpaces? (hsign : '=' ∉ between)
    (hoccurs : FirstWhole name a (between ++ ['='])) (hback : ¬ back.head?.any isSpaceOrTab)
    (hline : '\n' ∉ a ++ name ++ (between ++ ['=']) ++ (gap ++ back)) :
    defaultValue? (a ++ name ++ (between ++ ['=']) ++ (gap ++ back)) own groups =
      setSpaces? (a ++ name ++ (between ++ ['=']) ++ (gap ++ back))
        ⟨size (a ++ name ++ (between ++ ['='])), size (a ++ name ++ (between ++ ['=']) ++ gap)⟩
        count := by
  have hoccurs' : FirstWhole name a (between ++ ['='] ++ (gap ++ back)) := by
    rw [List.append_assoc]
    exact hoccurs.congr_behind_sign hname (gap ++ back)
  have hvariable : (a ++ name ++ (between ++ ['=']) ++ (gap ++ back)).variableOnLine? 0 name =
      some ⟨size a, size (a ++ name)⟩ :=
    (variableOnLine?_eq_some_iff hname hline).mpr ⟨a, _, by simp, rfl, hoccurs'⟩
  have hequals : (a ++ name ++ (between ++ ['=']) ++ (gap ++ back)).searchFrom?
      (size (a ++ name)) ['='] =
        some ⟨size (a ++ name ++ between), size (a ++ name ++ (between ++ ['=']))⟩ := by
    have hrest : a ++ name ++ (between ++ ['=']) ++ (gap ++ back) =
        a ++ name ++ (between ++ '=' :: (gap ++ back)) := by simp
    rw [hrest, Sliced.searchFrom?_size_append, find?_singleton_append hsign]
    simp [Nat.add_assoc]
  have hstop : ¬ size (a ++ name ++ (between ++ ['='])) >
      (a ++ name ++ (between ++ ['=']) ++ (gap ++ back)).lineEnd 0 := by
    have hle := size_le_lineEnd hline (by simp)
    omega
  have hgapAfter := gapAfter?_size_append hgap hback (a ++ name ++ (between ++ ['=']))
  rw [defaultValue?, htext, hcount, hown]
  simp only [Option.bind_eq_bind, Option.bind_some, hvariable, hequals, if_neg hstop, hgapAfter]
  rw [← size_append]

theorem argumentEquals?_eq_setSpaces? (hoccurs : FirstWhole name a ['='])
    (hline : '\n' ∉ a ++ name ++ (gap ++ '=' :: back)) :
    argumentEquals? (a ++ name ++ (gap ++ '=' :: back)) own groups =
      setSpaces? (a ++ name ++ (gap ++ '=' :: back))
        ⟨size (a ++ name), size (a ++ name ++ gap)⟩ count := by
  have hoccurs' : FirstWhole name a (gap ++ '=' :: back) := by
    apply hoccurs.congr hname
    exact head?_gap_append_any hgap hoccurs.whole
  have hvariable : (a ++ name ++ (gap ++ '=' :: back)).variableOnLine? 0 name =
      some ⟨size a, size (a ++ name)⟩ :=
    (variableOnLine?_eq_some_iff hname hline).mpr ⟨a, _, by simp, rfl, hoccurs'⟩
  have hsign : ¬ ('=' :: back).head?.any isSpaceOrTab := by simp [isSpaceOrTab]
  have hgapAfter := gapAfter?_size_append hgap hsign (a ++ name)
  have hrest : (a ++ name ++ (gap ++ '=' :: back)).after? (size (a ++ name) + size gap) =
      some ('=' :: back) := by
    rw [← size_append, ← List.append_assoc, after?_size_append]
  rw [argumentEquals?, htext, hcount, hown]
  simp only [Option.bind_eq_bind, Option.bind_some, hvariable, hgapAfter, hrest, List.head?_cons,
    if_true]
  rw [← size_append]

end Change

include hname hgap hown htext hcount

/-- The edits of a rule for a gap of an argument: none, if it is as wanted. -/
theorem edits_of_isGapOf (hspot : IsGapOf name rule front back)
    (hline : '\n' ∉ front ++ (gap ++ back)) : rule.edits (front ++ (gap ++ back)) own groups =
      if gap = List.replicate count ' ' then []
      else [⟨size front, size (front ++ gap), List.replicate count ' '⟩] := by
  have hcuts : Span.Cuts ⟨size front, size (front ++ gap)⟩ (front ++ (gap ++ back)) front gap
      back := ⟨by simp, rfl, rfl⟩
  have hset : setSpaces? _ _ count = _ := setSpaces?_eq hcuts
  cases hspot with
  | behindSign hsign hoccurs hback =>
    rw [Rule.edits, Change.defaultValue?_eq_setSpaces? hname hgap hown htext hcount hsign hoccurs
      hback hline, hset]
    split <;> rfl
  | beforeSign hoccurs =>
    rw [Rule.edits, Change.argumentEquals?_eq_setSpaces? hname hgap hown htext hcount hoccurs
      hline, hset]
    split <;> rfl

end Changes

/-! ## Edits that have found a gap -/

section Found

variable {edit : Edit} (hname : ∀ name, groups.text? 0 = some name → IsVariable name)
  (hline : '\n' ∉ line) (hown : own.lineBegin = 0)

include hname hline hown

theorem exists_gap_of_defaultValue? (he : Change.defaultValue? line own groups = some edit) :
    ∃ name count front gap back, groups.text? 0 = some name ∧ groups.number? 1 = some count ∧
      line = front ++ (gap ++ back) ∧ gap.all isSpaceOrTab ∧
      IsGapOf name .defaultValueSpacing front back := by
  obtain ⟨name, count, found, equals, -, htext, hcount, hvariable, hequals, -⟩ :=
    Change.exists_of_defaultValue? he
  rw [hown] at hvariable
  obtain ⟨a, b, rfl, rfl, hoccurs⟩ :=
    (variableOnLine?_eq_some_iff (hname name htext) hline).mp hvariable
  rw [← List.append_assoc, Sliced.searchFrom?_size_append] at hequals
  obtain ⟨offset, hfind, -⟩ := Option.map_eq_some_iff.mp hequals
  obtain ⟨between, rest, rfl, -, hsign⟩ := exists_of_find?_singleton hfind
  obtain ⟨gap, back, rfl, hgap, hback⟩ := exists_gap rest
  have hoccurs' : FirstWhole name a (between ++ ['=']) :=
    hoccurs.congr_behind_sign (hname name htext) []
  exact ⟨name, count, a ++ name ++ (between ++ ['=']), gap, back, htext, hcount, by simp, hgap,
    .behindSign hsign hoccurs' hback⟩

theorem exists_gap_of_argumentEquals? (he : Change.argumentEquals? line own groups = some edit) :
    ∃ name count front gap back, groups.text? 0 = some name ∧ groups.number? 1 = some count ∧
      line = front ++ (gap ++ back) ∧ gap.all isSpaceOrTab ∧
      IsGapOf name .argumentEqualsSpacing front back := by
  obtain ⟨name, count, found, width, behind, htext, hcount, hvariable, hwidth, hrest, -⟩ :=
    Change.exists_of_argumentEquals? he
  rw [hown] at hvariable
  obtain ⟨a, b, rfl, rfl, hoccurs⟩ :=
    (variableOnLine?_eq_some_iff (hname name htext) hline).mp hvariable
  obtain ⟨gap, back, rfl, hgap, hback⟩ := exists_gap b
  rw [← List.append_assoc, gapAfter?_size_append hgap hback, Option.some.injEq] at hwidth
  rw [← hwidth, ← size_append, ← List.append_assoc, ← List.append_assoc, after?_size_append,
    Option.some.injEq] at hrest
  subst hrest
  have hoccurs' : FirstWhole name a ['='] := hoccurs.congr (hname name htext) (by decide)
  exact ⟨name, count, a ++ name, gap, '=' :: behind, htext, hcount, by simp, hgap,
    .beforeSign hoccurs'⟩

omit hname hline hown in
theorem exists_of_toList_ne_nil {edit? : Option Edit} (h : edit?.toList ≠ []) :
    ∃ edit, edit? = some edit :=
  Option.ne_none_iff_exists'.mp (mt Option.toList_eq_nil_iff.mpr h)

/-- A rule that has edits for a line has found there the gap that it is to set. -/
theorem exists_isGapOf (hrule : rule.setsArgumentGap) (he : rule.edits line own groups ≠ []) :
    ∃ name count front gap back, groups.text? 0 = some name ∧ groups.number? 1 = some count ∧
      line = front ++ (gap ++ back) ∧ gap.all isSpaceOrTab ∧ IsGapOf name rule front back := by
  cases rule with
  | defaultValueSpacing =>
    obtain ⟨edit, he⟩ := exists_of_toList_ne_nil he
    exact exists_gap_of_defaultValue? hname hline hown he
  | argumentEqualsSpacing =>
    obtain ⟨edit, he⟩ := exists_of_toList_ne_nil he
    exact exists_gap_of_argumentEquals? hname hline hown he
  | _ => simp [Rule.setsArgumentGap] at hrule

end Found

/-! ## Steps -/

/-- Of the rules of a registry only the one that answers the message matters. -/
theorem step_eq_step_singleton (hfind : Rule.find? rules hint.message.toList = some (rule, found)) :
    step rules s hint = step [rule] s hint := by
  have hone : Rule.find? [rule] hint.message.toList = some (rule, found) := by
    simp [Rule.find?, (mem_of_find? hfind).2]
  rw [step, step, hfind, hone]

/-- The line of a hint decides what a rule that stays on it does. -/
theorem exists_edits_eq_map (hrule : rule.staysOnLine) (hint : Hint) (groups : Captures)
    (hline : s.lines[(Anchor.clamp s hint).lineBegin]? = some line) :
    ∃ distance, rule.edits s (Anchor.clamp s hint) groups =
      (rule.edits line (Anchor.clamp line hint) groups).map (Edit.shift distance) := by
  obtain ⟨hfeed, hhas⟩ := hasLine_of_getElem? hline
  exact ⟨_, edits_shift hhas (moves_clamp hhas hfeed rfl) (Anchor.within_clamp line hint) hrule⟩

/-- On a line alone the gap is set, and is then as wanted. -/
theorem step_of_isGapOf (hfind : Rule.find? rules hint.message.toList = some (rule, found))
    (hspot : IsGapOf name rule front back) (hname : IsVariable name)
    (hgap : gap.all isSpaceOrTab) (hline : '\n' ∉ front ++ (gap ++ back))
    (htext : found.groups.text? 0 = some name) (hcount : found.groups.number? 1 = some count) :
    (step rules (front ++ (gap ++ back)) hint).1 = front ++ (List.replicate count ' ' ++ back) := by
  have hedits := edits_of_isGapOf hname hgap (lineBegin_clamp_of_notMem hline hint) htext hcount
    hspot hline
  by_cases hwanted : gap = List.replicate count ' '
  · rw [if_pos hwanted] at hedits
    rw [step_of_edits_eq_nil hfind hedits, hwanted]
  · rw [if_neg hwanted] at hedits
    have hcuts : (Edit.mk (size front) (size (front ++ gap)) (List.replicate count ' ')).span.Cuts
        (front ++ (gap ++ back)) front gap back := ⟨by simp, rfl, rfl⟩
    rw [step_of_edits_eq_singleton hfind hedits hcuts, List.append_assoc]

/-- What a step for a gap of an argument comes to: on the line of the hint the gap is as wanted, all
else is as before, and the rule has nothing more to do. -/
theorem exists_gap_set (hfind : Rule.find? rules hint.message.toList = some (rule, found))
    (hrule : rule.setsArgumentGap)
    (he : rule.edits s (Anchor.clamp s hint) found.groups ≠ []) :
    ∃ name count front gap back, found.groups.text? 0 = some name ∧
      found.groups.number? 1 = some count ∧ gap.all isSpaceOrTab ∧ IsGapOf name rule front back ∧
      s.lines[(Anchor.clamp s hint).lineBegin]? = some (front ++ (gap ++ back)) ∧
      (step rules s hint).1.lines = s.lines.set (Anchor.clamp s hint).lineBegin
        (front ++ (List.replicate count ' ' ++ back)) ∧
      rule.edits (step rules s hint).1 (Anchor.clamp (step rules s hint).1 hint) found.groups =
        [] := by
  have hstays := Rule.staysOnLine_of_setsArgumentGap hrule
  have hname : ∀ name, found.groups.text? 0 = some name → IsVariable name := by
    have hkind : rule = .defaultValueSpacing ∨ rule = .argumentEqualsSpacing := by
      cases rule <;> simp_all [Rule.setsArgumentGap]
    intro name
    exact Sliced.isVariable_of_match? hkind (mem_of_find? hfind).2
  have hlt : (Anchor.clamp s hint).lineBegin < s.lines.length :=
    (Anchor.within_clamp s hint).lineBegin
  obtain ⟨line, hline⟩ : ∃ line, s.lines[(Anchor.clamp s hint).lineBegin]? = some line :=
    ⟨_, List.getElem?_eq_getElem hlt⟩
  obtain ⟨hfeed, -⟩ := hasLine_of_getElem? hline
  obtain ⟨distance, hmap⟩ := exists_edits_eq_map hstays hint found.groups hline
  rw [hmap, ne_eq, List.map_eq_nil_iff] at he
  obtain ⟨name, count, front, gap, back, htext, hcount, rfl, hgap, hspot⟩ :=
    exists_isGapOf hname hfeed (lineBegin_clamp_of_notMem hfeed hint) hrule he
  have hrules : ∀ r ∈ [rule], r.staysOnLine := by simpa using hstays
  have hlines : (step rules s hint).1.lines = s.lines.set (Anchor.clamp s hint).lineBegin
      (front ++ (List.replicate count ' ' ++ back)) := by
    rw [← step_of_isGapOf hfind hspot (hname name htext) hgap hfeed htext hcount,
      step_eq_step_singleton hfind, step_eq_step_singleton hfind]
    exact lines_step hrules hline rfl
  refine ⟨name, count, front, gap, back, htext, hcount, hgap, hspot, hline, hlines, ?_⟩
  have hsame : (Anchor.clamp (step rules s hint).1 hint).lineBegin =
      (Anchor.clamp s hint).lineBegin := by
    change min hint.lineBegin ((step rules s hint).1.lines.length - 1) = _
    rw [hlines, List.length_set]
    rfl
  have hline' : (step rules s hint).1.lines[(Anchor.clamp (step rules s hint).1 hint).lineBegin]? =
      some (front ++ (List.replicate count ' ' ++ back)) := by
    rw [hsame, hlines, List.getElem?_set_self hlt]
  obtain ⟨hfeed', -⟩ := hasLine_of_getElem? hline'
  obtain ⟨distance', hmap'⟩ := exists_edits_eq_map hstays hint found.groups hline'
  have hspaces : (List.replicate count ' ').all isSpaceOrTab := by
    rw [List.all_replicate]
    split <;> rfl
  have hwanted := edits_of_isGapOf (hname name htext) hspaces
    (lineBegin_clamp_of_notMem hfeed' hint) htext hcount hspot hfeed'
  rw [hmap', hwanted, if_pos rfl, List.map_nil]

end Repair

end LintMend
