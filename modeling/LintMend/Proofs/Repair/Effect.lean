import LintMend.Proofs.Edit.Batch
import LintMend.Proofs.Repair.Account
import LintMend.Repair.Cycles

/-!
# Repairs that change nothing

A rule that finds its target as the message wants it has no edits, so that its hint is skipped. All
rules but one see to that: what they put in is never what they take away. The rule that moves the
keyword `static` behind the next word does not look at that word; where it is the keyword again the
text stays as it was, and the hint is reported as applied all the same.
-/

namespace LintMend

open Text

variable {s t before held after rest : Text} {edit : Edit} {span : Span}
  {offset start stop count expected counted : Nat}

/-! ## Edits that put back what they take away -/

def Edit.IsVacuous (s : Text) (edit : Edit) : Prop :=
  ∃ before after, edit.span.Cuts s before edit.replacement after

theorem Text.applyEdits_single_eq_self_iff : s.applyEdits [edit] = .ok s ↔ edit.IsVacuous s := by
  constructor
  · intro h
    obtain ⟨hroom, -⟩ := applyEdits_eq_ok_iff.mp h
    have hwithin := hroom.within edit List.mem_cons_self
    obtain ⟨before, held, after, hcuts⟩ :=
      Span.exists_cuts hwithin.start hwithin.stop hwithin.ordered
    change edit.span.Cuts s before held after at hcuts
    rw [applyEdits_single hcuts, Except.ok.injEq, hcuts.text] at h
    have hheld : edit.replacement = held := by simpa using h
    exact ⟨before, after, hheld ▸ hcuts⟩
  · rintro ⟨before, after, hcuts⟩
    rw [applyEdits_single hcuts, ← hcuts.text]

theorem not_isVacuous_insert {text : Text} (h : text ≠ []) :
    ¬ (Edit.insert offset text).IsVacuous s := by
  rintro ⟨before, after, hcuts⟩
  exact Nat.lt_irrefl _ (hcuts.start_lt_stop_iff.mpr h)

theorem not_isVacuous_delete (h : start < stop) : ¬ (Edit.delete start stop).IsVacuous s := by
  rintro ⟨before, after, hcuts⟩
  exact hcuts.start_lt_stop_iff.mp h rfl

/-- What a rule reads at the range of an edit is what an edit that is vacuous puts back. -/
theorem Edit.IsVacuous.replacement_eq (h : edit.IsVacuous s) (hrest : s.after? edit.start = some rest)
    (hheld : rest.before? (edit.stop - edit.start) = some held) : edit.replacement = held := by
  obtain ⟨before, after, hcuts⟩ := h
  have hafter : s.after? edit.start = some (edit.replacement ++ after) := hcuts.after?_start
  obtain rfl : edit.replacement ++ after = rest := by simpa [hrest] using hafter.symm
  have hread : before? (edit.replacement ++ after) (edit.stop - edit.start) =
      some edit.replacement := hcuts.before?_held
  simpa [hheld] using hread.symm

namespace Repair

variable {anchor : Anchor} {groups : Captures} {rule : Rule} {rules : List Rule} {hint : Hint}

theorem not_isVacuous_adjustSpaces? (he : adjustSpaces? s offset expected counted = some edit) :
    ¬ edit.IsVacuous s := by
  rw [adjustSpaces?] at he
  split at he
  · next hlt =>
    obtain rfl : Edit.insert _ _ = edit := by simpa using he
    apply not_isVacuous_insert
    rw [ne_eq, List.replicate_eq_nil_iff]
    omega
  · obtain ⟨stop, -, he⟩ := Option.bind_eq_some_iff.mp he
    split at he
    · next hlt =>
      obtain rfl : Edit.delete _ _ = edit := by simpa using he
      exact not_isVacuous_delete hlt
    · simp at he

theorem not_isVacuous_setSpaces? (he : setSpaces? s span count = some edit) :
    ¬ edit.IsVacuous s := by
  obtain ⟨rest, held, hrest, hheld, hne, rfl⟩ := exists_of_setSpaces? he
  exact fun hvacuous ↦ hne (hvacuous.replacement_eq hrest hheld).symm

namespace Change

theorem not_isVacuous_newlineAfterBrace? (he : newlineAfterBrace? s anchor groups = some edit) :
    ¬ edit.IsVacuous s := by
  obtain ⟨expected, counted, found, -, -, -, ⟨hlt, rfl⟩ | ⟨rest, n, -, -, rfl⟩⟩ :=
    exists_of_newlineAfterBrace? he
  · apply not_isVacuous_insert
    rw [ne_eq, List.replicate_eq_nil_iff]
    omega
  · exact not_isVacuous_delete (by omega)

theorem not_isVacuous_spacesBeforeBrace? (he : spacesBeforeBrace? s anchor groups = some edit) :
    ¬ edit.IsVacuous s := by
  obtain ⟨count, found, gap, -, -, -, -, he⟩ := exists_of_spacesBeforeBrace? he
  exact not_isVacuous_setSpaces? he

theorem not_isVacuous_defaultValue? (he : defaultValue? s anchor groups = some edit) :
    ¬ edit.IsVacuous s := by
  obtain ⟨name, count, found, equals, gap, -, -, -, -, -, -, he⟩ := exists_of_defaultValue? he
  exact not_isVacuous_setSpaces? he

theorem not_isVacuous_argumentEquals? (he : argumentEquals? s anchor groups = some edit) :
    ¬ edit.IsVacuous s := by
  obtain ⟨name, count, found, gap, behind, -, -, -, -, -, he⟩ := exists_of_argumentEquals? he
  exact not_isVacuous_setSpaces? he

theorem not_isVacuous_eofNewline? (he : eofNewline? s groups = some edit) :
    ¬ edit.IsVacuous s := by
  obtain ⟨count, -, hne, rfl⟩ := exists_of_eofNewline? he
  rintro ⟨before, after, hcuts⟩
  have hsplit := takeEndWhile_append_dropEndWhile (fun c ↦ c == '\n' || c == '\r') s
  -- the range reaches from the end of the content to that of the text
  have hcontent := before?_eq_some_iff.mpr ⟨_, hsplit.symm, rfl⟩
  have hbefore := Option.some.inj (hcontent.symm.trans hcuts.before?_start)
  have hafter : after = [] := by
    have hsize := congrArg size hcuts.text
    have hstop : s.size = _ := hcuts.stop
    rw [size_append, ← hstop] at hsize
    exact size_eq_zero_iff.mp (by omega)
  refine hne ?_
  rw [hbefore]
  simpa [hafter] using hcuts.text

theorem not_isVacuous_blankLineAfter? (he : blankLineAfter? s anchor = some edit) :
    ¬ edit.IsVacuous s := by
  obtain ⟨next, rest, held, -, hrest, hheld, hne, rfl⟩ := exists_of_blankLineAfter? he
  exact fun hvacuous ↦ hne (hvacuous.replacement_eq hrest hheld).symm

theorem not_isVacuous_blankLinesBeforeClose? (h : anchor.Within s)
    (he : blankLinesBeforeClose? s anchor = some edit) : ¬ edit.IsVacuous s := by
  obtain ⟨hne, rfl⟩ := exists_of_blankLinesBeforeClose? he
  have hlt := Nat.lt_of_le_of_ne (blankAbove_firstBlankAbove s anchor.lineBegin).le hne
  exact not_isVacuous_delete (lineStart_lt_lineStart hlt h.lineBegin)

theorem not_isVacuous_trailingWhitespace? (he : trailingWhitespace? s anchor = some edit) :
    ¬ edit.IsVacuous s := by
  obtain ⟨hne, rfl⟩ := exists_of_trailingWhitespace? he
  have hsplit := takeEndWhile_append_dropEndWhile isSpaceOrTab (s.lineText anchor.lineBegin)
  have hgap : (s.lineText anchor.lineBegin).takeEndWhile isSpaceOrTab ≠ [] := by
    intro hnil
    rw [hnil, List.append_nil] at hsplit
    exact hne (congrArg List.length hsplit)
  have hsize := congrArg size hsplit
  rw [size_append] at hsize
  have hpos := size_pos_iff.mpr hgap
  apply not_isVacuous_delete
  omega

theorem not_isVacuous_elseIf? (he : elseIf? s anchor = some edit) : ¬ edit.IsVacuous s := by
  obtain ⟨before, held, after, hcuts, hlower, hreplacement⟩ := cuts_elseIf? he
  rintro ⟨before', after', hcuts'⟩
  -- the range is one character longer than what is put there
  have hheld : size held = 7 := by
    rw [← size_asciiLower, hlower]
    decide
  have hput : size edit.replacement = 6 := by
    rw [hreplacement]
    decide
  have h1 := hcuts.stop
  have h2 := hcuts'.stop
  rw [size_append, ← hcuts.start] at h1
  rw [size_append, ← hcuts'.start] at h2
  omega

end Change

open Change in
/-- Every rule but that for `static` puts in something else than it takes away. -/
theorem Rule.not_isVacuous (h : anchor.Within s) (hrule : rule ≠ .staticAfterVisibility)
    (he : edit ∈ rule.edits s anchor groups) : ¬ edit.IsVacuous s := by
  cases hspaces : rule.countsSpaces with
  | true =>
    rw [edits_of_countsSpaces hspaces, Option.mem_toList] at he
    obtain ⟨counts, -, he⟩ := Option.bind_eq_some_iff.mp he
    obtain ⟨offset, -, he⟩ := Option.bind_eq_some_iff.mp he
    exact not_isVacuous_adjustSpaces? he
  | false =>
    cases rule with
    | classBraceOnNewLine =>
      obtain ⟨found, -, rfl⟩ := Option.map_eq_some_iff.mp (Option.mem_toList.mp he)
      exact not_isVacuous_insert (List.cons_ne_nil _ _)
    | openingBraceOnNewLine =>
      obtain ⟨found, -, rfl⟩ := Option.map_eq_some_iff.mp (Option.mem_toList.mp he)
      exact not_isVacuous_insert (List.cons_ne_nil _ _)
    | eofNewline => exact not_isVacuous_eofNewline? (Option.mem_toList.mp he)
    | newlineAfterBrace => exact not_isVacuous_newlineAfterBrace? (Option.mem_toList.mp he)
    | defaultValueSpacing => exact not_isVacuous_defaultValue? (Option.mem_toList.mp he)
    | argumentEqualsSpacing => exact not_isVacuous_argumentEquals? (Option.mem_toList.mp he)
    | spacesBeforeOpeningBrace => exact not_isVacuous_spacesBeforeBrace? (Option.mem_toList.mp he)
    | blankLineAfterStatement => exact not_isVacuous_blankLineAfter? (Option.mem_toList.mp he)
    | blankLinesBeforeClassClose =>
      exact not_isVacuous_blankLinesBeforeClose? h (Option.mem_toList.mp he)
    | elseIf => exact not_isVacuous_elseIf? (Option.mem_toList.mp he)
    | trailingWhitespace => exact not_isVacuous_trailingWhitespace? (Option.mem_toList.mp he)
    | staticAfterVisibility => exact absurd rfl hrule
    | keywordSpacing | indentation | braceSpacing | closeParenthesisSpacing =>
      simp [countsSpaces] at hspaces

/-! ## The keyword that is moved -/

theorem append_cons_inj_of_notMem {c : Char} {a a' b b' : Text} (ha : c ∉ a) (ha' : c ∉ a') :
    a ++ c :: b = a' ++ c :: b' ↔ a = a' ∧ b = b' := by
  induction a generalizing a' with
  | nil => cases a' <;> grind
  | cons d a ih => cases a' <;> grind

/-- A part of a text that is taken away and put back further behind changes places with what stands
between. -/
theorem applyEdits_move {middle : Text} (hcuts : span.Cuts s before held (middle ++ after))
    (hheld : held ≠ []) :
    s.applyEdits [.delete span.start span.stop, .insert (span.stop + size middle) held] =
      .ok (before ++ (middle ++ (held ++ after))) := by
  have htext : s = before ++ held ++ middle ++ after := by simp [hcuts.text]
  have hspot : span.stop + size middle = size (before ++ held ++ middle) := by
    rw [size_append _ middle, hcuts.stop]
  have hlt : span.start < span.stop + size middle :=
    Nat.lt_add_right _ (hcuts.start_lt_stop_iff.mpr hheld)
  have hfirst : (Edit.delete span.start span.stop).span.Cuts s before held
      (middle ++ [] ++ after) := ⟨by simp [htext], hcuts.start, hcuts.stop⟩
  rw [applyEdits_pair hlt hfirst (cuts_insert _ htext hspot)]
  simp [Edit.delete, Edit.insert]

/-- However it is written, the keyword ends with its only space. -/
theorem exists_word_of_asciiLower_eq (h : held.asciiLower = asciiLower "static ".toList) :
    ∃ word, held = word ++ [' '] ∧ ' ' ∉ word := by
  have hsplit : held.map Char.toLower = "static".toList ++ [' '] := h
  obtain ⟨word, behind, rfl, hword, hbehind⟩ := List.map_eq_append_iff.mp hsplit
  obtain ⟨c, rfl, hc⟩ := List.map_eq_singleton_iff.mp hbehind
  obtain rfl := toLower_eq_space_iff.mp hc
  refine ⟨word, rfl, fun hmem ↦ ?_⟩
  have hlower : ' '.toLower ∈ word.map Char.toLower := List.mem_map_of_mem hmem
  rw [hword] at hlower
  exact absurd hlower (by decide)

namespace Change

/-- Whether the keyword that would be moved stands twice in a row, written in the same way. -/
def standsTwice (s : Text) (anchor : Anchor) : Bool :=
  (do
    let keyword ← locate? s anchor "static ".toList
    let rest ← s.after? keyword.start
    let written ← rest.before? (keyword.stop - keyword.start)
    let behind ← s.after? keyword.stop
    return written.isPrefixOf behind : Option Bool).getD false

theorem standsTwice_iff_startsWith (hl : locate? s anchor "static ".toList = some span)
    (hcuts : span.Cuts s before held after) : standsTwice s anchor ↔ held <+: after := by
  simp only [standsTwice, hl, hcuts.after?_start, hcuts.before?_held, hcuts.after?_stop,
    Option.bind_eq_bind, Option.bind_some, Option.pure_def, Option.getD_some,
    List.isPrefixOf_iff_prefix]

theorem moveStatic?_eq (hl : locate? s anchor "static ".toList = some span)
    (hcuts : span.Cuts s before held after) :
    moveStatic? s anchor = (find? [' '] after).map fun n ↦
      [.delete span.start span.stop, .insert (span.stop + (n + 1)) held] := by
  simp only [moveStatic?, hl, searchFrom?, hcuts.after?_start, hcuts.after?_stop,
    hcuts.before?_held, Option.bind_eq_bind, Option.bind_some]
  cases find? [' '] after <;> rfl

/-- What stands behind the keyword up to the next space changes places with it. -/
theorem applyEdits_moveStatic? {skipped : Text}
    (hl : locate? s anchor "static ".toList = some span)
    (hcuts : span.Cuts s before held (skipped ++ ' ' :: rest)) (hheld : held ≠ [])
    (hskipped : ' ' ∉ skipped) :
    ∃ edits, moveStatic? s anchor = some edits ∧
      s.applyEdits edits = .ok (before ++ (skipped ++ ' ' :: (held ++ rest))) := by
  have hcuts' : span.Cuts s before held (skipped ++ [' '] ++ rest) := by simpa using hcuts
  have hsize : size (skipped ++ [' ']) = size skipped + 1 := size_append _ _
  refine ⟨_, by rw [moveStatic?_eq hl hcuts, find?_singleton_append hskipped, Option.map_some], ?_⟩
  rw [← hsize, applyEdits_move hcuts' hheld]
  simp

/-- The keyword is put back where it was taken away exactly where the next word is the keyword
again. -/
theorem standsTwice_iff : standsTwice s anchor ↔
    ∃ edits, moveStatic? s anchor = some edits ∧ s.applyEdits edits = .ok s := by
  cases hl : locate? s anchor "static ".toList with
  | none =>
    simp only [standsTwice, moveStatic?, hl, Option.bind_eq_bind, Option.bind_none,
      Option.getD_none, Bool.false_eq_true, reduceCtorEq, false_and, exists_false]
  | some span =>
    obtain ⟨before, held, after, hcuts, hlower⟩ := exists_cuts_of_locate? hl
    obtain ⟨word, rfl, hword⟩ := exists_word_of_asciiLower_eq hlower
    rw [standsTwice_iff_startsWith hl hcuts]
    cases hfind : find? [' '] after with
    | none =>
      have hspace := notMem_of_find?_singleton_eq_none hfind
      rw [moveStatic?_eq hl hcuts, hfind]
      simp only [Option.map_none, reduceCtorEq, false_and, exists_false, iff_false]
      exact fun hstart ↦ hspace (hstart.subset (by simp))
    | some n =>
      obtain ⟨next, rest, rfl, rfl, hnext⟩ := exists_of_find?_singleton hfind
      obtain ⟨edits, hedits, hmoved⟩ := applyEdits_moveStatic? hl hcuts (by simp) hnext
      rw [List.append_assoc word, List.singleton_append] at hmoved
      have htwice : word ++ [' '] <+: next ++ ' ' :: rest ↔ word = next := by
        constructor
        · rintro ⟨behind, hbehind⟩
          rw [List.append_assoc] at hbehind
          exact ((append_cons_inj_of_notMem hword hnext).mp hbehind).1
        · rintro rfl
          exact ⟨rest, by simp⟩
      have hsame : before ++ (next ++ ' ' :: (word ++ ' ' :: rest)) = s ↔ word = next := by
        rw [hcuts.text, List.append_assoc before, List.append_right_inj, List.append_assoc word,
          List.singleton_append, append_cons_inj_of_notMem hnext hword]
        constructor
        · exact fun h ↦ h.1.symm
        · rintro rfl
          exact ⟨rfl, rfl⟩
      simp only [hedits, Option.some.injEq, exists_eq_left', hmoved, Except.ok.injEq, htwice, hsame]

end Change

/-! ## Steps and passes -/

/-- Whether a step moves the keyword to where it was: the text stays, though the rule has edits. -/
def putsBack (rules : List Rule) (s : Text) (hint : Hint) : Bool :=
  ((Rule.find? rules hint.message.toList).any fun answer ↦ answer.1 = .staticAfterVisibility) &&
    Change.standsTwice s (Anchor.clamp s hint)

theorem isApplied_step_iff {found : Pattern.Match}
    (h : Rule.find? rules hint.message.toList = some (rule, found)) :
    (step rules s hint).2.isApplied ↔ rule.edits s (Anchor.clamp s hint) found.groups ≠ [] := by
  obtain ⟨t, -, hstep⟩ := step_of_find?_eq_some (s := s) h
  rw [hstep]
  cases rule.edits s (Anchor.clamp s hint) found.groups with
  | nil => simp [Step.isApplied, Step.rule?]
  | cons edit edits => simp [Step.isApplied, Step.rule?]

/-- A step that is applied and leaves the text is one that puts the keyword back. -/
theorem isApplied_and_text_step_eq_iff :
    (step rules s hint).2.isApplied ∧ (step rules s hint).1 = s ↔ putsBack rules s hint := by
  cases hfind : Rule.find? rules hint.message.toList with
  | none => simp [step_of_find?_eq_none hfind, putsBack, hfind, Step.isApplied, Step.rule?]
  | some answer =>
    obtain ⟨rule, found⟩ := answer
    obtain ⟨t, ht, hstep⟩ := step_of_find?_eq_some (s := s) hfind
    rw [isApplied_step_iff hfind, hstep]
    by_cases hrule : rule = .staticAfterVisibility
    · subst hrule
      have hback : putsBack rules s hint ↔ Change.standsTwice s (Anchor.clamp s hint) := by
        simp [putsBack, hfind]
      rw [hback, Change.standsTwice_iff]
      rw [Rule.edits] at ht ⊢
      cases hedits : Change.moveStatic? s (Anchor.clamp s hint) with
      | none => simp
      | some edits =>
        obtain ⟨first, second, -, -, -, -, rfl, -⟩ := Change.cuts_moveStatic? hedits
        rw [hedits, Option.getD_some] at ht
        simp [ht]
    · have hback : ¬ putsBack rules s hint := by simp [putsBack, hfind, hrule]
      simp only [hback, Bool.false_eq_true, iff_false, not_and]
      rintro hedits rfl
      -- a single edit, which would put back what it takes away
      obtain ⟨edit, rest, hcons⟩ := List.exists_cons_of_ne_nil hedits
      have hlength : (rule.edits t (Anchor.clamp t hint) found.groups).length ≤ 1 :=
        length_edits_le hrule
      obtain rfl : rest = [] := by simpa [hcons] using hlength
      rw [hcons] at ht
      exact Rule.not_isVacuous (Anchor.within_clamp t hint) hrule
        (hcons ▸ List.mem_cons_self) (applyEdits_single_eq_self_iff.mp ht)

/-- A step is applied where it changes the text, and where it puts the keyword back. -/
theorem isApplied_step_eq (rules : List Rule) (s : Text) (hint : Hint) :
    (step rules s hint).2.isApplied = ((step rules s hint).1 ≠ s || putsBack rules s hint) := by
  have hskip : ¬ (step rules s hint).2.isApplied → (step rules s hint).1 = s :=
    text_step_of_not_isApplied
  rw [Bool.eq_iff_iff, Bool.or_eq_true, decide_eq_true_eq, ← isApplied_and_text_step_eq_iff]
  tauto

theorem applied_repair_eq (rules : List Rule) (s : Text) (hints : List Hint) :
    (repair rules s hints).applied =
      ((reached rules s hints.reverse).filter fun (hint, t) ↦
        (step rules t hint).1 ≠ t || putsBack rules t hint).map
          fun (hint, t) ↦ (step rules t hint).2 := by
  rw [Pass.applied, repair, steps_run, List.filter_map]
  congr 2
  funext entry
  exact isApplied_step_eq rules entry.2 entry.1

theorem isChanged_repair_iff (rules : List Rule) (s : Text) (hints : List Hint) :
    (repair rules s hints).isChanged ↔ ∃ entry ∈ reached rules s hints.reverse,
      (step rules entry.2 entry.1).1 ≠ entry.2 ∨ putsBack rules entry.2 entry.1 := by
  rw [Pass.isChanged, applied_repair_eq]
  simp only [List.isEmpty_map, List.isEmpty_iff, List.filter_eq_nil_iff, Bool.or_eq_true,
    decide_eq_true_eq, not_forall, not_not, exists_prop, decide_not,
    Bool.not_eq_true', decide_eq_false_iff_not]

/-- Where the repaired text can be linted, a further cycle follows a pass that has applied a
hint. -/
theorem further_ne_nil_iff {ε : Type} {lint : Text → Except ε LintRun} {run : LintRun}
    {hints : List Hint} (h : lint (repair rules s hints).text = .ok run) (more : Nat) :
    (cyclesFrom rules lint (more + 1) s hints).2.1 ≠ [] ↔ (repair rules s hints).isChanged := by
  simp only [cyclesFrom, h]
  cases (repair rules s hints).isChanged <;> simp

/-- A pass reports as applied the hints whose steps change the text and those whose steps put the
keyword back, and of these exactly the latter leave the text. One hint of either kind is enough for
the pass to be reported as changed, and for another cycle to follow where one is allowed and the
repaired text can be linted. -/
theorem applied_repair_eq_changed_or_put_back (rules : List Rule) (s : Text) (hints : List Hint) :
    (repair rules s hints).applied =
      ((reached rules s hints.reverse).filter fun (hint, t) ↦
        (step rules t hint).1 ≠ t || putsBack rules t hint).map
          (fun (hint, t) ↦ (step rules t hint).2) ∧
    (∀ hint t, (step rules t hint).2.isApplied ∧ (step rules t hint).1 = t ↔
      putsBack rules t hint) ∧
    ((repair rules s hints).isChanged ↔ ∃ entry ∈ reached rules s hints.reverse,
      (step rules entry.2 entry.1).1 ≠ entry.2 ∨ putsBack rules entry.2 entry.1) ∧
    ∀ (ε : Type) (lint : Text → Except ε LintRun) (run : LintRun),
      lint (repair rules s hints).text = .ok run →
      ∀ more, (cyclesFrom rules lint (more + 1) s hints).2.1 ≠ [] ↔
        (repair rules s hints).isChanged :=
  ⟨applied_repair_eq rules s hints, fun _ _ ↦ isApplied_and_text_step_eq_iff,
    isChanged_repair_iff rules s hints, fun _ _ _ h more ↦ further_ne_nil_iff h more⟩

/-- A pass that leaves the text in which the keyword stands twice reports it as changed, and another
cycle follows whatever a lint finds then. -/
theorem applied_repair_of_keyword_twice :
    let s := "<?php\nclass A\n\x7b\n    static static $a;\n\x7d\n".toList
    let hint : Hint :=
      ⟨3, 3, 4, 5, "The static declaration must come after the visibility declaration", default,
        100, "phpcs"⟩
    let pass := repair Rule.all s [hint]
    putsBack Rule.all s hint ∧ pass.applied = [(step Rule.all s hint).2] ∧ pass.isChanged ∧
      pass.text = s ∧ ∀ run : LintRun,
        (cyclesFrom Rule.all (fun _ ↦ (.ok run : Except LintError LintRun)) 1 s [hint]).2.1 ≠ [] := by
  intro s hint pass
  have hback : putsBack Rule.all s hint := by decide +kernel
  obtain ⟨happlied, hboth, hiff, hfurther⟩ :=
    applied_repair_eq_changed_or_put_back Rule.all s [hint]
  have hchanged : pass.isChanged := hiff.mpr ⟨(hint, s), List.mem_cons_self, .inr hback⟩
  refine ⟨hback, ?_, hchanged, ((hboth hint s).mpr hback).2,
    fun run ↦ (hfurther LintError _ run rfl 0).mpr hchanged⟩
  simpa [reached, hback] using happlied

end Repair

end LintMend
