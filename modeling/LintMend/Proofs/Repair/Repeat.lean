import LintMend.Proofs.Repair.Engine

/-!
# Hints that are listed twice

Five rules adjust a text by the two counts of a message: they put in what is missing at their spot
or take out what is surplus behind it. They do not look whether a text has been adjusted already.
A hint that is listed twice in a row is therefore repaired twice, the second time in the text that
the first repair has left, and is harmless exactly when nothing is left to adjust there.
-/

namespace LintMend.Repair

open Text

variable {s t before after : Text} {rules : List Rule} {rule : Rule} {hint : Hint}
  {found : Pattern.Match} {anchor : Anchor} {groups : Captures} {expected counted offset : Nat}

/-- What is put in at a spot and what is taken out behind it. -/
structure Adjustment where
  spot : Nat
  missing : Text
  surplus : Text
deriving DecidableEq, Repr

namespace Adjustment

def isNone (adjustment : Adjustment) : Bool :=
  adjustment.missing.isEmpty && adjustment.surplus.isEmpty

def edit? (adjustment : Adjustment) : Option Edit :=
  if adjustment.missing ≠ [] then some (.insert adjustment.spot adjustment.missing)
  else if adjustment.surplus ≠ [] then
    some (.delete adjustment.spot (adjustment.spot + adjustment.surplus.size))
  else none

/-- An adjustment at a place of a text that puts something in or takes something out, not both. -/
structure Fits (adjustment : Adjustment) (s before after : Text) : Prop where
  text : s = before ++ adjustment.surplus ++ after
  spot : adjustment.spot = before.size
  one : adjustment.missing = [] ∨ adjustment.surplus = []

/-- Edits that make an adjustment, if there is one, and one that fits the text. -/
structure Describes (adjustment? : Option Adjustment) (s : Text) (edits : List Edit) : Prop where
  edits : edits = (adjustment?.bind edit?).toList
  fits : ∀ adjustment ∈ adjustment?, ∃ before after, adjustment.Fits s before after

theorem describes_none (s : Text) : Describes none s [] := ⟨rfl, by simp⟩

theorem applyEdits_edit? {adjustment : Adjustment} (h : adjustment.Fits s before after) :
    s.applyEdits adjustment.edit?.toList = .ok (before ++ adjustment.missing ++ after) := by
  by_cases hmissing : adjustment.missing = []
  · by_cases hsurplus : adjustment.surplus = []
    · have hnone : adjustment.edit? = none := by simp [edit?, hmissing, hsurplus]
      rw [hnone, Option.toList_none, applyEdits_nil, h.text, hmissing, hsurplus]
    · have hdelete : adjustment.edit? =
          some (.delete adjustment.spot (adjustment.spot + adjustment.surplus.size)) := by
        simp [edit?, hmissing, hsurplus]
      have hcuts : (Edit.delete adjustment.spot (adjustment.spot + adjustment.surplus.size)).span.Cuts
          s before adjustment.surplus after :=
        ⟨h.text, h.spot, by rw [size_append, ← h.spot]; rfl⟩
      rw [hdelete, Option.toList_some, applyEdits_single hcuts, hmissing]
      rfl
  · have hsurplus : adjustment.surplus = [] := h.one.resolve_left hmissing
    have hinsert : adjustment.edit? = some (.insert adjustment.spot adjustment.missing) := by
      simp [edit?, hmissing]
    have hcuts : (Edit.insert adjustment.spot adjustment.missing).span.Cuts s before [] after :=
      cuts_insert _ (by rw [h.text, hsurplus, List.append_nil]) h.spot
    rw [hinsert, Option.toList_some, applyEdits_single hcuts]
    rfl

/-- A text is left as it is only by an adjustment of nothing. -/
theorem append_eq_iff_isNone {adjustment : Adjustment} (h : adjustment.Fits s before after) :
    before ++ adjustment.missing ++ after = s ↔ adjustment.isNone := by
  rw [h.text, List.append_left_inj, List.append_right_inj, isNone, Bool.and_eq_true,
    List.isEmpty_iff, List.isEmpty_iff]
  rcases h.one with hmissing | hsurplus
  · simp [hmissing, eq_comm]
  · simp [hsurplus]

end Adjustment

/-! ## Rules that adjust -/

namespace Rule

/-- The rules that adjust a text by the counts of a message. -/
def adjusts : Rule → Bool
  | keywordSpacing | indentation | braceSpacing | closeParenthesisSpacing | newlineAfterBrace => true
  | _ => false

theorem adjusts_iff : rule.adjusts ↔ rule = newlineAfterBrace ∨ rule.countsSpaces := by
  cases rule <;> simp [adjusts, countsSpaces]

/-- How a rule adjusts a text: by spaces and whatever stands behind the spot, or by line breaks and
the blank characters before them. -/
def adjustment? (s : Text) (anchor : Anchor) (groups : Captures) : Rule → Option Adjustment
  | newlineAfterBrace => do
    let expected ← groups.number? 0
    let counted ← groups.number? 2
    let brace ← s.searchBefore? anchor.stop (Repair.brace groups 1)
    let rest ← s.after? brace.stop
    let surplus ← rest.before? (surplusBreaks (counted - expected) rest)
    return ⟨brace.stop, List.replicate (expected - counted) '\n', surplus⟩
  | rule => do
    let counts ← rule.counts? groups
    let spot ← rule.spot? s anchor groups
    let rest ← s.after? spot
    return ⟨spot, List.replicate (counts.1 - counts.2) ' ', rest.take (counts.2 - counts.1)⟩

/-- Nothing is left to adjust: a count cannot be read, there is no spot, the counts are equal, or
they speak of a surplus of which nothing stands behind the spot any more. -/
def Settled (s : Text) (anchor : Anchor) (groups : Captures) : Rule → Prop
  | newlineAfterBrace =>
    ∀ expected ∈ groups.number? 0, ∀ counted ∈ groups.number? 2,
    ∀ found ∈ s.searchBefore? anchor.stop (Repair.brace groups 1), ∀ rest ∈ s.after? found.stop,
      expected = counted ∨ expected < counted ∧ '\n' ∉ rest.takeWhile isBlank
  | rule =>
    ∀ counts ∈ rule.counts? groups, ∀ spot ∈ rule.spot? s anchor groups,
      counts.1 = counts.2 ∨ counts.1 < counts.2 ∧ spot = s.size

theorem adjustment?_of_countsSpaces (hrule : rule.countsSpaces) :
    rule.adjustment? s anchor groups = (rule.counts? groups).bind fun counts ↦
      (rule.spot? s anchor groups).bind fun spot ↦ (s.after? spot).bind fun rest ↦
        some ⟨spot, List.replicate (counts.1 - counts.2) ' ', rest.take (counts.2 - counts.1)⟩ := by
  cases rule with
  | newlineAfterBrace => simp [countsSpaces] at hrule
  | _ => rfl

theorem settled_of_countsSpaces (hrule : rule.countsSpaces) :
    rule.Settled s anchor groups ↔ ∀ counts ∈ rule.counts? groups,
      ∀ spot ∈ rule.spot? s anchor groups,
        counts.1 = counts.2 ∨ counts.1 < counts.2 ∧ spot = s.size := by
  cases rule with
  | newlineAfterBrace => simp [countsSpaces] at hrule
  | _ => rfl

end Rule

theorem adjustSpaces?_eq_edit? :
    adjustSpaces? (before ++ after) before.size expected counted =
      Adjustment.edit? ⟨before.size, List.replicate (expected - counted) ' ',
        after.take (counted - expected)⟩ := by
  rw [adjustSpaces?_eq rfl rfl, Adjustment.edit?]
  by_cases hlt : counted < expected
  · have hmissing : List.replicate (expected - counted) ' ' ≠ [] := by
      simp
      omega
    rw [if_pos hlt, if_pos hmissing]
  · have hmissing : List.replicate (expected - counted) ' ' = [] := by
      simp
      omega
    simp only [if_neg hlt, hmissing, ne_eq, not_true_eq_false, if_false, ite_not, size_append]

theorem fits_spaces (hspot : offset = before.size) :
    Adjustment.Fits ⟨offset, List.replicate (expected - counted) ' ', after.take (counted - expected)⟩
      (before ++ after) before (after.drop (counted - expected)) where
  text := by simp
  spot := hspot
  one := by
    rcases Nat.le_total counted expected with hle | hle
    · exact .inr (by simp [Nat.sub_eq_zero_of_le hle])
    · exact .inl (by simp [Nat.sub_eq_zero_of_le hle])

theorem describes_of_countsSpaces (h : anchor.Within s) (hrule : rule.countsSpaces) :
    Adjustment.Describes (rule.adjustment? s anchor groups) s (rule.edits s anchor groups) := by
  rw [Rule.edits_of_countsSpaces hrule, Rule.adjustment?_of_countsSpaces hrule]
  cases hcounts : rule.counts? groups with
  | none => exact Adjustment.describes_none s
  | some counts =>
    cases hspot : rule.spot? s anchor groups with
    | none => exact Adjustment.describes_none s
    | some offset =>
      obtain ⟨before, after, rfl, rfl⟩ := isBoundary_iff.mp (Rule.isBoundary_of_spot? h hspot)
      simp only [Option.bind_some, after?_size_append]
      refine ⟨congrArg Option.toList adjustSpaces?_eq_edit?, ?_⟩
      intro adjustment hadjustment
      obtain rfl : _ = adjustment := by simpa using hadjustment
      exact ⟨before, _, fits_spaces rfl⟩

/-! ## Line breaks -/

theorem lineBreaks_eq_edit? (offset expected counted : Nat) (held : Text) :
    (if expected > counted then some (.insert offset (List.replicate (expected - counted) '\n'))
      else
        match held.size with
        | 0 => none
        | n + 1 => some (.delete offset (offset + (n + 1)))) =
      Adjustment.edit? ⟨offset, List.replicate (expected - counted) '\n', held⟩ := by
  rw [Adjustment.edit?]
  by_cases hlt : counted < expected
  · have hmissing : List.replicate (expected - counted) '\n' ≠ [] := by
      simp
      omega
    rw [if_pos hlt, if_pos hmissing]
  · have hmissing : List.replicate (expected - counted) '\n' = [] := by
      simp
      omega
    rw [if_neg hlt, hmissing, if_neg (by simp)]
    cases hsize : held.size with
    | zero =>
      rw [if_neg]
      simpa using size_eq_zero_iff.mp hsize
    | succ n =>
      rw [if_pos]
      rintro rfl
      simp at hsize

theorem describes_newlineAfterBrace :
    Adjustment.Describes (Rule.newlineAfterBrace.adjustment? s anchor groups) s
      (Rule.newlineAfterBrace.edits s anchor groups) := by
  rw [Rule.edits, Change.newlineAfterBrace?, Rule.adjustment?]
  simp only [Option.bind_eq_bind, Option.pure_def]
  cases groups.number? 0 with
  | none => exact Adjustment.describes_none s
  | some expected =>
    cases groups.number? 2 with
    | none => exact Adjustment.describes_none s
    | some counted =>
      cases hfound : s.searchBefore? anchor.stop (brace groups 1) with
      | none => exact Adjustment.describes_none s
      | some found =>
        obtain ⟨a, b, hcuts, -⟩ := exists_cuts_of_searchBefore? hfound
        obtain ⟨held, rest, rfl, hsize, -⟩ :=
          Change.exists_surplusBreaks (counted - expected) b
        simp only [Option.bind_some, hcuts.after?_stop, hsize, before?_size_append]
        refine ⟨congrArg Option.toList (lineBreaks_eq_edit? _ _ _ held), ?_⟩
        intro adjustment hadjustment
        obtain rfl : _ = adjustment := by simpa using hadjustment
        refine ⟨a ++ brace groups 1, rest, by rw [hcuts.text]; simp, hcuts.stop, ?_⟩
        rcases Nat.le_total counted expected with hle | hle
        · rw [Nat.sub_eq_zero_of_le hle, surplusBreaks] at hsize
          exact .inr (size_eq_zero_iff.mp hsize.symm)
        · exact .inl (by simp [Nat.sub_eq_zero_of_le hle])

/-- The edits of a rule that adjusts are those of its adjustment. -/
theorem describes_of_adjusts (h : anchor.Within s) (groups : Captures) (hrule : rule.adjusts) :
    Adjustment.Describes (rule.adjustment? s anchor groups) s (rule.edits s anchor groups) := by
  rcases Rule.adjusts_iff.mp hrule with rfl | hcounts
  · exact describes_newlineAfterBrace
  · exact describes_of_countsSpaces h hcounts

/-! ## Where nothing is left to adjust -/

theorem settled_iff_of_countsSpaces (h : anchor.Within s) (hrule : rule.countsSpaces) :
    rule.Settled s anchor groups ↔ (rule.adjustment? s anchor groups).all (·.isNone) := by
  rw [Rule.settled_of_countsSpaces hrule, Rule.adjustment?_of_countsSpaces hrule]
  cases rule.counts? groups with
  | none => simp
  | some counts =>
    cases hspot : rule.spot? s anchor groups with
    | none => simp
    | some offset =>
      obtain ⟨before, after, rfl, rfl⟩ := isBoundary_iff.mp (Rule.isBoundary_of_spot? h hspot)
      have hsize : before.size = size (before ++ after) ↔ after = [] := by
        rw [size_append, ← size_eq_zero_iff]
        omega
      simp only [Option.bind_some, after?_size_append, Option.all_some, Adjustment.isNone,
        Option.mem_some_iff, forall_eq', hsize, Bool.and_eq_true, List.isEmpty_iff,
        List.replicate_eq_nil_iff, List.take_eq_nil_iff]
      by_cases hafter : after = []
      · simp only [hafter, or_true, and_true]
        omega
      · simp only [hafter, or_false, and_false]
        omega

theorem settled_newlineAfterBrace_iff : Rule.newlineAfterBrace.Settled s anchor groups ↔
    (Rule.newlineAfterBrace.adjustment? s anchor groups).all (·.isNone) := by
  rw [Rule.Settled, Rule.adjustment?]
  simp only [Option.bind_eq_bind, Option.pure_def]
  cases groups.number? 0 with
  | none => simp
  | some expected =>
    cases groups.number? 2 with
    | none => simp
    | some counted =>
      cases hfound : s.searchBefore? anchor.stop (brace groups 1) with
      | none => simp
      | some found =>
        obtain ⟨a, b, hcuts, -⟩ := exists_cuts_of_searchBefore? hfound
        obtain ⟨held, rest, rfl, hsize, hbreaks⟩ :=
          Change.exists_surplusBreaks (counted - expected) b
        have hheld : held = [] ↔
            expected ≥ counted ∨ '\n' ∉ (held ++ rest).takeWhile isBlank := by
          rw [hbreaks.eq_nil_iff, Nat.sub_eq_zero_iff_le]
        simp only [Option.bind_some, hcuts.after?_stop, hsize, before?_size_append, Option.all_some,
          Adjustment.isNone, Bool.and_eq_true, List.isEmpty_iff, List.replicate_eq_nil_iff,
          Option.mem_some_iff, forall_eq', hheld]
        by_cases hbreak : '\n' ∈ (held ++ rest).takeWhile isBlank
        · simp only [hbreak, not_true_eq_false, or_false, and_false]
          omega
        · simp only [hbreak, not_false_eq_true, or_true, and_true]
          omega

/-- A text is settled where the adjustment, if there is one, is one of nothing. -/
theorem settled_iff (h : anchor.Within s) (hrule : rule.adjusts) :
    rule.Settled s anchor groups ↔ (rule.adjustment? s anchor groups).all (·.isNone) := by
  rcases Rule.adjusts_iff.mp hrule with rfl | hcounts
  · exact settled_newlineAfterBrace_iff
  · exact settled_iff_of_countsSpaces h hcounts

/-! ## Steps and passes -/

/-- A step of a rule that adjusts makes its adjustment, and nothing else. -/
theorem exists_fits_step (hfind : Rule.find? rules hint.message.toList = some (rule, found))
    (hrule : rule.adjusts) {adjustment : Adjustment}
    (hadjustment : adjustment ∈ rule.adjustment? s (Anchor.clamp s hint) found.groups) :
    ∃ before after, adjustment.Fits s before after ∧
      (step rules s hint).1 = before ++ adjustment.missing ++ after := by
  have hdescribes := describes_of_adjusts (Anchor.within_clamp s hint) found.groups hrule
  obtain ⟨before, after, hfits⟩ := hdescribes.fits adjustment hadjustment
  obtain ⟨t, ht, hstep⟩ := step_of_find?_eq_some (s := s) hfind
  have hone : (rule.adjustment? s (Anchor.clamp s hint) found.groups).bind Adjustment.edit? =
      adjustment.edit? := by
    rw [Option.mem_def.mp hadjustment, Option.bind_some]
  rw [hdescribes.edits, hone, Adjustment.applyEdits_edit? hfits, Except.ok.injEq] at ht
  exact ⟨before, after, hfits, by rw [hstep, ht]⟩

theorem step_eq_self_iff_settled
    (hfind : Rule.find? rules hint.message.toList = some (rule, found)) (hrule : rule.adjusts) :
    (step rules s hint).1 = s ↔ rule.Settled s (Anchor.clamp s hint) found.groups := by
  rw [settled_iff (Anchor.within_clamp s hint) hrule]
  cases hadjustment : rule.adjustment? s (Anchor.clamp s hint) found.groups with
  | none =>
    have hdescribes := describes_of_adjusts (Anchor.within_clamp s hint) found.groups hrule
    obtain ⟨t, ht, hstep⟩ := step_of_find?_eq_some (s := s) hfind
    rw [hdescribes.edits, hadjustment, Option.bind_none, Option.toList_none, applyEdits_nil,
      Except.ok.injEq] at ht
    simp [hstep, ht.symm]
  | some adjustment =>
    obtain ⟨before, after, hfits, hstep⟩ := exists_fits_step hfind hrule hadjustment
    rw [hstep, Adjustment.append_eq_iff_isNone hfits, Option.all_some]

/-- The second copy of a hint adjusts the text that the first one leaves by the counts of the
message once more. It changes nothing exactly when nothing is left to adjust there, and then the
hints listed before the two find the same text as behind one. -/
theorem repair_repeated_iff_settled
    (hfind : Rule.find? rules hint.message.toList = some (rule, found)) (hrule : rule.adjusts)
    (s : Text) (hints : List Hint) :
    let once := (repair rules s (hint :: hints)).text
    let twice := (repair rules s (hint :: hint :: hints)).text
    let anchor := Anchor.clamp once hint
    (∀ adjustment ∈ rule.adjustment? once anchor found.groups, ∃ before after,
      adjustment.Fits once before after ∧ twice = before ++ adjustment.missing ++ after) ∧
    (twice = once ↔ rule.Settled once anchor found.groups) ∧
    ∀ earlier, rule.Settled once anchor found.groups →
      (repair rules s (earlier ++ hint :: hint :: hints)).text =
        (repair rules s (earlier ++ hint :: hints)).text := by
  intro once twice anchor
  have htwice : twice = (step rules once hint).1 := text_repair_cons rules s hint (hint :: hints)
  refine ⟨?_, ?_, ?_⟩
  · intro adjustment hadjustment
    rw [htwice]
    exact exists_fits_step hfind hrule hadjustment
  · rw [htwice]
    exact step_eq_self_iff_settled hfind hrule
  · intro earlier hsettled
    have hsame : twice = once := by
      rw [htwice]
      exact (step_eq_self_iff_settled hfind hrule).mpr hsettled
    rw [text_repair_append, text_repair_append]
    exact congrArg (fun t ↦ (repair rules t earlier).text) hsame

/-- A brace with its line breaks taken out is settled; a hint for a line above it follows. -/
theorem repair_repeated_of_settled_brace :
    let rules : List Rule := [.keywordSpacing, .newlineAfterBrace]
    let s : Text := "<?php\nif($a) \x7b\n\x7d\n\nf();\n".toList
    let earlier : List Hint :=
      [⟨1, 1, 0, 1, "Expected 1 space after IF keyword; 0 found", default, 100, "phpcs"⟩]
    let hint : Hint :=
      ⟨2, 2, 0, 1, "Expected 0 newlines after closing brace; 2 found", default, 100, "phpcs"⟩
    let found : Pattern.Match :=
      ⟨hint.message.toList, [some "0".toList, some "closing".toList, some "2".toList]⟩
    let once := (repair rules s [hint]).text
    Rule.find? rules hint.message.toList = some (.newlineAfterBrace, found) ∧
    Rule.newlineAfterBrace.adjusts ∧
    Rule.newlineAfterBrace.Settled once (Anchor.clamp once hint) found.groups ∧
    once = "<?php\nif($a) \x7b\n\x7df();\n".toList ∧
    (repair rules s [hint, hint]).text = once ∧
    (repair rules s (earlier ++ [hint, hint])).text = (repair rules s (earlier ++ [hint])).text := by
  intro rules s earlier hint found once
  have hfind : Rule.find? rules hint.message.toList = some (.newlineAfterBrace, found) := by
    decide +kernel
  have hsettled : Rule.newlineAfterBrace.Settled once (Anchor.clamp once hint) found.groups :=
    settled_newlineAfterBrace_iff.mpr (by decide +kernel)
  obtain ⟨-, htwice, hearlier⟩ := repair_repeated_iff_settled hfind rfl s []
  exact ⟨hfind, rfl, hsettled, by decide +kernel, htwice.mpr hsettled, hearlier earlier hsettled⟩

/-- The space that is missing once is put in twice. -/
theorem repair_repeated_of_missing_space :
    let rules : List Rule := [.keywordSpacing]
    let s : Text := "<?php\nif($a) \x7b\n".toList
    let hint : Hint :=
      ⟨1, 1, 1, 1, "Expected 1 space after IF keyword; 0 found", default, 100, "phpcs"⟩
    (Rule.find? rules hint.message.toList).map (·.1) = some .keywordSpacing ∧
    (repair rules s [hint]).text = "<?php\nif ($a) \x7b\n".toList ∧
    (repair rules s [hint, hint]).text = "<?php\nif  ($a) \x7b\n".toList ∧
    (repair rules s [hint, hint]).text ≠ (repair rules s [hint]).text := by
  decide +kernel

end LintMend.Repair
