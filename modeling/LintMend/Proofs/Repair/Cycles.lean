import LintMend.Repair.File
import Mathlib.Data.List.Basic

/-!
# Repairs with different limits

Whatever the limit is, the cycles of a repair alternate between repairing and linting the repaired
text, and what the limit decides is how far they get. So a repair that ends because a pass has
applied nothing is the same for every limit that lets it come so far, and otherwise a larger limit
continues where a smaller one ends.
-/

namespace LintMend.Repair

variable {ε : Type} {rules : List Rule} {lint : Text → Except ε LintRun} {s source : Text}
  {hints : List Hint} {report : LintReport AdapterError} {more limit : Nat}
  {first : Cycle} {further : List Cycle} {last : Pass} {run : LintRun} {e : ε} {error : Option ε}

/-- Cycles that start with a text and hints for it: each repairs the text it is given, and as long
as that changes something the repaired text can be linted for the hints of the next cycle. -/
inductive Alternates (rules : List Rule) (lint : Text → Except ε LintRun) :
    Text → List Hint → Cycle → List Cycle → Pass → Prop
  | last (s : Text) (hints : List Hint) :
      Alternates rules lint s hints ⟨repair rules s hints, none⟩ [] (repair rules s hints)
  | next {s : Text} {hints : List Hint} {run : LintRun} {first : Cycle} {further : List Cycle}
      {last : Pass} (changed : (repair rules s hints).isChanged)
      (linted : lint (repair rules s hints).text = .ok run)
      (rest : Alternates rules lint (repair rules s hints).text run.report.hints first further
        last) :
      Alternates rules lint s hints ⟨repair rules s hints, some run⟩ (first :: further) last

namespace Alternates

theorem lastPass_eq (h : Alternates rules lint s hints first further last) :
    (further.getLast?.getD first).pass = last := by
  induction h with
  | last => rfl
  | next changed linted rest ih =>
    rw [List.getLast?_cons]
    exact ih

/-- Each cycle but the last is followed by a lint. -/
theorem length_lints (h : Alternates rules lint s hints first further last) :
    ((first :: further).filterMap (·.lint)).length = further.length := by
  induction h with
  | last => rfl
  | next changed linted rest ih => exact congrArg Nat.succ ih

/-- From one start there is only one way on. -/
theorem passes_le {first' : Cycle} {further' : List Cycle} {last' : Pass}
    (h : Alternates rules lint s hints first further last)
    (h' : Alternates rules lint s hints first' further' last')
    (hle : further.length ≤ further'.length) :
    (first :: further).map (·.pass) <+: (first' :: further').map (·.pass) := by
  induction h generalizing first' further' with
  | last => cases h' <;> simp
  | next changed linted rest ih =>
    cases h' with
    | last => exact absurd hle (Nat.not_succ_le_zero _)
    | next changed' linted' rest' =>
      obtain rfl := Except.ok.inj (linted.symm.trans linted')
      exact (List.prefix_cons_inj _).mpr (ih rest' (Nat.le_of_succ_le_succ hle))

end Alternates

/-! ## The cycles from a start -/

/-- How cycles can have ended: at the limit, with a pass that has applied nothing, or before the
limit with a lint that fails. -/
inductive Ends (lint : Text → Except ε LintRun) (more made : Nat) (last : Pass) : Option ε → Prop
  | done (h : made = more ∨ ¬ last.isChanged) : Ends lint more made last none
  | failed {e : ε} (within : made < more) (changed : last.isChanged)
      (error : lint last.text = .error e) : Ends lint more made last (some e)

theorem Ends.succ {made : Nat} (h : Ends lint more made last error) :
    Ends lint (more + 1) (made + 1) last error := by
  cases h with
  | done h => exact .done (h.imp_left (congrArg Nat.succ))
  | failed within changed herror => exact .failed (Nat.succ_lt_succ within) changed herror

theorem Ends.of_succ {made : Nat} (h : Ends lint (more + 1) (made + 1) last error) :
    Ends lint more made last error := by
  cases h with
  | done h => exact .done (h.imp_left Nat.succ.inj)
  | failed within changed herror => exact .failed (Nat.lt_of_succ_lt_succ within) changed herror

theorem cyclesFrom_of_not_isChanged (h : ¬ (repair rules s hints).isChanged) :
    cyclesFrom rules lint more s hints = (⟨repair rules s hints, none⟩, [], none) := by
  cases more with
  | zero => rfl
  | succ more => rw [cyclesFrom, if_neg h]

theorem cyclesFrom_succ_of_ok (hchanged : (repair rules s hints).isChanged)
    (hrun : lint (repair rules s hints).text = .ok run)
    (hrest : cyclesFrom rules lint more (repair rules s hints).text run.report.hints =
      (first, further, error)) :
    cyclesFrom rules lint (more + 1) s hints =
      (⟨repair rules s hints, some run⟩, first :: further, error) := by
  simp only [cyclesFrom, if_pos hchanged, hrun, hrest]

theorem cyclesFrom_succ_of_error (hchanged : (repair rules s hints).isChanged)
    (herror : lint (repair rules s hints).text = .error e) :
    cyclesFrom rules lint (more + 1) s hints = (⟨repair rules s hints, none⟩, [], some e) := by
  simp only [cyclesFrom, if_pos hchanged, herror]

/-- The cycles alternate until they end. -/
theorem alternates_of_cyclesFrom (h : cyclesFrom rules lint more s hints = (first, further, error)) :
    ∃ last, Alternates rules lint s hints first further last ∧ further.length ≤ more ∧
      Ends lint more further.length last error := by
  induction more generalizing s hints first further with
  | zero =>
    obtain ⟨rfl, rfl, rfl⟩ : _ ∧ _ ∧ _ := by simpa only [cyclesFrom, Prod.mk.injEq] using h
    exact ⟨_, .last s hints, Nat.le_refl 0, .done (.inl rfl)⟩
  | succ more ih =>
    by_cases hchanged : (repair rules s hints).isChanged
    · cases hlint : lint (repair rules s hints).text with
      | error e =>
        rw [cyclesFrom_succ_of_error hchanged hlint] at h
        obtain ⟨rfl, rfl, rfl⟩ : _ ∧ _ ∧ _ := by simpa only [Prod.mk.injEq] using h
        exact ⟨_, .last s hints, Nat.zero_le _, .failed (Nat.succ_pos _) hchanged hlint⟩
      | ok run =>
        obtain ⟨next, rest, error', hrest⟩ : ∃ next rest error', cyclesFrom rules lint more
            (repair rules s hints).text run.report.hints = (next, rest, error') := ⟨_, _, _, rfl⟩
        rw [cyclesFrom_succ_of_ok hchanged hlint hrest] at h
        obtain ⟨rfl, rfl, rfl⟩ : _ ∧ _ ∧ _ := by simpa only [Prod.mk.injEq] using h
        obtain ⟨last, halternates, hle, hend⟩ := ih hrest
        exact ⟨last, .next hchanged hlint halternates, Nat.succ_le_succ hle, hend.succ⟩
    · rw [cyclesFrom_of_not_isChanged hchanged] at h
      obtain ⟨rfl, rfl, rfl⟩ : _ ∧ _ ∧ _ := by simpa only [Prod.mk.injEq] using h
      exact ⟨_, .last s hints, Nat.zero_le _, .done (.inr hchanged)⟩

theorem Alternates.cyclesFrom_eq (h : Alternates rules lint s hints first further last)
    (hle : further.length ≤ more) (hend : Ends lint more further.length last error) :
    cyclesFrom rules lint more s hints = (first, further, error) := by
  induction h generalizing more with
  | last s hints =>
    cases hend with
    | done h =>
      rcases h with rfl | h
      · rfl
      · exact cyclesFrom_of_not_isChanged h
    | failed within changed herror =>
      obtain ⟨more, rfl⟩ := Nat.exists_eq_succ_of_ne_zero (Nat.ne_of_gt within)
      exact cyclesFrom_succ_of_error changed herror
  | next changed linted rest ih =>
    cases more with
    | zero => exact absurd hle (Nat.not_succ_le_zero _)
    | succ more =>
      exact cyclesFrom_succ_of_ok changed linted (ih (Nat.le_of_succ_le_succ hle) hend.of_succ)

/-! ## A repair -/

variable {r a b : Repaired}

theorem Attempt.result_eq_ok_iff {attempt : Attempt ε} :
    attempt.result = .ok r ↔ attempt.error = none ∧ attempt.made = r := by
  rw [result]
  cases attempt.error <;> simp

theorem Attempt.result_eq_error_iff {attempt : Attempt ε} :
    attempt.result = .error e ↔ attempt.error = some e := by
  rw [result]
  cases attempt.error <;> simp

theorem repairWithCycles_eq_ok_iff : repairWithCycles rules lint limit source report = .ok r ↔
    r.source = source ∧ r.failuresBefore = report.failures ∧
      cyclesFrom rules lint (limit - 1) source report.hints = (r.first, r.further, none) := by
  obtain ⟨first, further, error, hcycles⟩ : ∃ first further error,
      cyclesFrom rules lint (limit - 1) source report.hints = (first, further, error) :=
    ⟨_, _, _, rfl⟩
  rw [repairWithCycles, Attempt.result_eq_ok_iff, attempt, hcycles]
  constructor
  · rintro ⟨rfl, rfl⟩
    exact ⟨rfl, rfl, rfl⟩
  · rintro ⟨rfl, hfailures, heq⟩
    obtain ⟨rfl, rfl, rfl⟩ : _ ∧ _ ∧ _ := by simpa only [Prod.mk.injEq] using heq
    exact ⟨rfl, by rw [← hfailures]⟩

/-- What an attempt says of itself is what its cycles were. -/
theorem alternates_attempt (rules : List Rule) (lint : Text → Except ε LintRun) (limit : Nat)
    (source : Text) (report : LintReport AdapterError) :
    let made := (attempt rules lint limit source report).made
    Alternates rules lint source report.hints made.first made.further made.lastPass := by
  intro made
  obtain ⟨last, halternates, -⟩ : ∃ last,
      Alternates rules lint source report.hints made.first made.further last ∧ _ :=
    alternates_of_cyclesFrom rfl
  rwa [show made.lastPass = last from halternates.lastPass_eq]

/-- What a repair says of itself is what its cycles were, within the limit. -/
theorem alternates_of_repairWithCycles
    (h : repairWithCycles rules lint limit source report = .ok r) :
    Alternates rules lint source report.hints r.first r.further r.lastPass ∧
      r.further.length ≤ limit - 1 ∧ (r.further.length = limit - 1 ∨ ¬ r.lastPass.isChanged) := by
  obtain ⟨-, -, hcycles⟩ := repairWithCycles_eq_ok_iff.mp h
  obtain ⟨last, halternates, hle, hend⟩ := alternates_of_cyclesFrom hcycles
  obtain rfl : r.lastPass = last := halternates.lastPass_eq
  cases hend with
  | done hend => exact ⟨halternates, hle, hend⟩

theorem Pass.isChanged_iff {pass : Pass} : pass.isChanged ↔ pass.applied ≠ [] := by
  simp [isChanged]

/-- What fails is the lint of a text that the cycles come to. -/
theorem repairWithCycles_eq_error_iff : repairWithCycles rules lint limit source report = .error e ↔
    ∃ first further last, Alternates rules lint source report.hints first further last ∧
      (first :: further).length < limit ∧ last.applied ≠ [] ∧ lint last.text = .error e := by
  have hresult : repairWithCycles rules lint limit source report = .error e ↔
      ∃ first further, cyclesFrom rules lint (limit - 1) source report.hints =
        (first, further, some e) := by
    rw [repairWithCycles, Attempt.result_eq_error_iff, attempt]
    constructor
    · intro herror
      exact ⟨_, _, Prod.ext rfl (Prod.ext rfl herror)⟩
    · rintro ⟨first, further, hcycles⟩
      rw [hcycles]
  simp only [hresult, ← Pass.isChanged_iff, List.length_cons, ← Nat.lt_sub_iff_add_lt]
  constructor
  · rintro ⟨first, further, hcycles⟩
    obtain ⟨last, halternates, -, hend⟩ := alternates_of_cyclesFrom hcycles
    cases hend with
    | failed within changed herror =>
      exact ⟨first, further, last, halternates, within, changed, herror⟩
  · rintro ⟨first, further, last, halternates, within, changed, herror⟩
    exact ⟨first, further,
      halternates.cyclesFrom_eq (Nat.le_of_lt within) (.failed within changed herror)⟩

/-- A repair that has come to its end is the same for every limit that lets it come so far. -/
theorem repairWithCycles_eq_of_not_isChanged
    (h : repairWithCycles rules lint limit source report = .ok r) (hend : ¬ r.lastPass.isChanged)
    {other : Nat} (hle : r.cycles.length ≤ other) :
    repairWithCycles rules lint other source report = .ok r := by
  obtain ⟨hsource, hfailures, -⟩ := repairWithCycles_eq_ok_iff.mp h
  have hmore : r.further.length ≤ other - 1 := by
    rw [Repaired.cycles, List.length_cons] at hle
    omega
  have hcycles := (alternates_of_repairWithCycles h).1.cyclesFrom_eq hmore (.done (.inr hend))
  exact repairWithCycles_eq_ok_iff.mpr ⟨hsource, hfailures, hcycles⟩

/-- With a larger limit the passes of a smaller one are made, and then further ones. -/
theorem passes_le_of_le {other : Nat} (hle : limit ≤ other)
    (ha : repairWithCycles rules lint limit source report = .ok a)
    (hb : repairWithCycles rules lint other source report = .ok b) :
    a.cycles.map (·.pass) <+: b.cycles.map (·.pass) := by
  obtain ⟨hasteps, halimit, -⟩ := alternates_of_repairWithCycles ha
  obtain ⟨hbsteps, -, hbend⟩ := alternates_of_repairWithCycles hb
  by_cases hlength : a.further.length ≤ b.further.length
  · exact hasteps.passes_le hbsteps hlength
  · -- the repair that is allowed more has come to its end earlier, so it is the other one
    have hend : ¬ b.lastPass.isChanged := hbend.resolve_left (by omega)
    have hcycles : b.cycles.length ≤ limit := by
      rw [Repaired.cycles, List.length_cons]
      omega
    have hsame := repairWithCycles_eq_of_not_isChanged hb hend hcycles
    obtain rfl := Except.ok.inj (ha.symm.trans hsame)
    exact List.prefix_rfl

theorem applied_le_of_le {other : Nat} (hle : limit ≤ other)
    (ha : repairWithCycles rules lint limit source report = .ok a)
    (hb : repairWithCycles rules lint other source report = .ok b) : a.applied <+: b.applied := by
  obtain ⟨rest, hrest⟩ := passes_le_of_le hle ha hb
  have happlied (r : Repaired) : r.applied = (r.cycles.map (·.pass)).flatMap (·.applied) := by
    rw [Repaired.applied, List.flatMap_map]
  rw [happlied, happlied, ← hrest, List.flatMap_append]
  exact List.prefix_append _ _

/-- The first pass is made in any case, and no lint before it can fail. -/
theorem exists_of_limit_le_one (rules : List Rule) (lint : Text → Except ε LintRun) (source : Text)
    (report : LintReport AdapterError) (hle : limit ≤ 1) :
    ∃ r, repairWithCycles rules lint limit source report = .ok r ∧
      r.cycles = [⟨repair rules source report.hints, none⟩] := by
  refine ⟨⟨source, report.failures, ⟨repair rules source report.hints, none⟩, []⟩, ?_, rfl⟩
  apply repairWithCycles_eq_ok_iff.mpr
  rw [Nat.sub_eq_zero_of_le hle]
  exact ⟨rfl, rfl, rfl⟩

/-- A repair goes through at most as many passes as its limit says, and one in any case, with a lint
of the repaired text between two passes; it ends at the limit or with a pass that applies nothing,
and it fails exactly where it comes to a text whose lint fails. A larger limit continues a repair
that a smaller one has cut off, and changes nothing of one that has come to its end. The repairs of
a manager are such repairs. -/
theorem repairWithCycles_alternates_up_to_limit (rules : List Rule)
    (lint : Text → Except ε LintRun) (source : Text) (report : LintReport AdapterError) :
    let repaired := fun limit ↦ repairWithCycles rules lint limit source report
    (repaired 0 = repaired 1 ∧
      ∃ r, repaired 0 = .ok r ∧ r.cycles.length = 1 ∧ r.lints = []) ∧
    (∀ limit r, repaired limit = .ok r → r.source = source ∧
      Alternates rules lint source report.hints r.first r.further r.lastPass ∧
      r.cycles.length ≤ max limit 1 ∧ r.lints.length ≤ limit - 1 ∧
      (r.cycles.length = max limit 1 ∨ r.lastPass.applied = [])) ∧
    (∀ limit e, repaired limit = .error e ↔ ∃ first further last,
      Alternates rules lint source report.hints first further last ∧
      (first :: further).length < limit ∧ last.applied ≠ [] ∧ lint last.text = .error e) ∧
    (∀ n m a b, n ≤ m → repaired n = .ok a → repaired m = .ok b → a.applied <+: b.applied) ∧
    (∀ n m r, repaired n = .ok r → r.lastPass.applied = [] → r.cycles.length ≤ m →
      repaired m = .ok r) ∧
    ∀ (manager : Manager) (world : World) (path : String) (limit : Nat),
      manager.repairText world rules path limit source report =
        repairWithCycles rules (manager.lintTextFor world path) limit source report := by
  intro repaired
  have hchanged (pass : Pass) : ¬ pass.isChanged ↔ pass.applied = [] := by
    rw [Pass.isChanged_iff, not_not]
  refine ⟨⟨rfl, ?_⟩, ?_, fun limit e ↦ repairWithCycles_eq_error_iff,
    fun n m a b ↦ applied_le_of_le, ?_, fun _ _ _ _ ↦ rfl⟩
  · obtain ⟨r, hr, hcycles⟩ := exists_of_limit_le_one rules lint source report (Nat.zero_le 1)
    exact ⟨r, hr, by rw [hcycles]; rfl, by rw [Repaired.lints, hcycles]; rfl⟩
  · intro limit r hr
    obtain ⟨hsource, -, -⟩ := repairWithCycles_eq_ok_iff.mp hr
    obtain ⟨halternates, hle, hend⟩ := alternates_of_repairWithCycles hr
    have hcycles : r.cycles.length = r.further.length + 1 := rfl
    have hlints : r.lints.length = r.further.length := halternates.length_lints
    rw [hchanged] at hend
    exact ⟨hsource, halternates, by omega, by omega, hend.imp_left (by omega)⟩
  · intro n m r hr hend hle
    exact repairWithCycles_eq_of_not_isChanged hr ((hchanged _).mpr hend) hle

/-- The repaired text has blanks at the end of another line, which the second pass takes away, and
the third one has nothing to do. -/
theorem repairWithCycles_ends_in_third_pass :
    let reportOf (errors : String) : Text :=
      "<phpcs><file>".toList ++ errors.toList ++ "</file></phpcs>".toList
    let world : World :=
      { files := ⟨"/data", [(["phpcs"], .directory),
          (["phpcs", "rulesets.csv"], .file (.text "/srv,PSR2\n".toList))]⟩
        isProgram := fun program ↦ program == "phpcs"
        launch := fun _ _ content ↦
          if content = .text "<?php\necho 1; \n".toList then
            .ok ⟨.text (reportOf
              "<error line='2' column='9'>Whitespace found at end of line</error>"), .text [],
              .ofExitCode 1⟩
          else .ok ⟨.text (reportOf ""), .text [], .ofExitCode 0⟩
        scratch := "/tmp/scan"
        copyFault := fun _ _ ↦ none
        xmlFault := fun _ _ ↦ "" }
    let manager : Manager := ⟨⟨Adapter.all.map (·.name), ["phpcs"]⟩, .standard, "/data"⟩
    let source := "<?php \necho 1; \n".toList
    let hint : Hint := ⟨0, 0, 5, 6, "Whitespace found at end of line", default, 100, "phpcs"⟩
    let report : LintReport AdapterError := ⟨[hint], []⟩
    let repaired (limit : Nat) : Except RepairError Repaired :=
      repairWithCycles [.trailingWhitespace] (manager.lintTextFor world "/srv/A.php") limit source
        report
    ∃ a b, repaired 1 = .ok a ∧ repaired 3 = .ok b ∧
      a.applied.map (·.line) = [0] ∧ b.applied.map (·.line) = [0, 1] ∧
      a.applied <+: b.applied ∧ b.result = "<?php\necho 1;\n".toList ∧
      b.lastPass.applied = [] ∧ b.cycles.length = 3 ∧ repaired 9 = .ok b := by
  intro reportOf world manager source hint report repaired
  obtain ⟨-, -, -, hle, hend, hmanager⟩ :=
    repairWithCycles_alternates_up_to_limit [.trailingWhitespace]
      (manager.lintTextFor world "/srv/A.php") source report
  let attempted (limit : Nat) : Attempt RepairError :=
    manager.attemptText world [.trailingWhitespace] "/srv/A.php" limit source report
  let a := (attempted 1).made
  let b := (attempted 3).made
  obtain ⟨hanone, hafirst⟩ : (attempted 1).error = none ∧ a.applied.map (·.line) = [0] := by
    decide +kernel
  obtain ⟨hbnone, hboth, hresult, hlast, hcycles⟩ : (attempted 3).error = none ∧
      b.applied.map (·.line) = [0, 1] ∧ b.result = "<?php\necho 1;\n".toList ∧
      b.lastPass.applied = [] ∧ b.cycles.length = 3 := by
    decide +kernel
  have ha : repaired 1 = .ok a :=
    (hmanager manager world "/srv/A.php" 1).symm.trans (Attempt.result_eq_ok_iff.mpr ⟨hanone, rfl⟩)
  have hb : repaired 3 = .ok b :=
    (hmanager manager world "/srv/A.php" 3).symm.trans (Attempt.result_eq_ok_iff.mpr ⟨hbnone, rfl⟩)
  exact ⟨a, b, ha, hb, hafirst, hboth, hle 1 3 a b (by decide) ha hb, hresult, hlast, hcycles,
    hend 3 9 b hb hlast (by rw [hcycles]; decide)⟩

end LintMend.Repair
