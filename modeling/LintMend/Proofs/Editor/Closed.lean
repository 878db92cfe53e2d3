import LintMend.Proofs.Editor.Hints

/-!
# Documents that were closed

A session forgets a document that is closed, but not the lints of it that are underway. Each of them
that is completed later stores the document again and publishes its hints. While the editor makes no
use of the document, nothing else does either, so a closed document stays forgotten exactly where
no lint of it was underway at the close or none of these comes to its end.
-/

namespace LintMend.EditorSession

variable {s : EditorSession} {uri other : Uri} {text : Text} {events later : List Event} {e : Event}
  {lint : DocumentLint} {hints : List Hint}

/-! ## One event -/

/-- Without a use of a document, what stores it is the end of a lint of it. -/
theorem isSome_get?_after_iff (h : ¬ e.isUseOf uri) : ((s.after e).get? uri).isSome ↔
    (∃ lint hints, e = .completed lint hints ∧ lint ∈ s.underway ∧ lint.uri = uri) ∨
      e ≠ .notice (.closed uri) ∧ (s.get? uri).isSome := by
  cases becomes uri s e with
  | linted lint hints event underway about stored =>
    rw [stored]
    exact iff_of_true rfl (.inl ⟨lint, hints, event, underway, about⟩)
  | changed text event stored =>
    subst event
    simp [Event.isUseOf, Notice.isUseOf] at h
  | closed event stored =>
    subst event
    simp [stored]
  | same stored isOpen unlinted =>
    rw [stored]
    constructor
    · exact fun hstored ↦ .inr ⟨isOpen, hstored⟩
    · rintro (⟨lint, hints, event, underway, about⟩ | ⟨-, hstored⟩)
      · exact absurd about (unlinted lint hints event underway)
      · exact hstored

theorem published?_eq_some_iff (hhints : hints ≠ []) : s.published? e = some (uri, hints) ↔
    ∃ lint, e = .completed lint hints ∧ lint ∈ s.underway ∧ lint.uri = uri := by
  cases e with
  | completed lint found =>
    by_cases hunderway : lint ∈ s.underway
    · simp only [published?, if_pos hunderway, Option.some.injEq, Prod.mk.injEq]
      constructor
      · rintro ⟨rfl, rfl⟩
        exact ⟨lint, rfl, hunderway, rfl⟩
      · rintro ⟨lint', heq, -, rfl⟩
        cases heq
        exact ⟨rfl, rfl⟩
    · simp only [published?, if_neg hunderway]
      constructor
      · intro h
        cases h
      · rintro ⟨lint', heq, hunderway', -⟩
        cases heq
        exact absurd hunderway' hunderway
  | notice n =>
    constructor
    · intro h
      cases n <;> simp only [published?, Option.some.injEq, Prod.mk.injEq, reduceCtorEq] at h
      exact absurd h.2.symm hhints
    · rintro ⟨lint, heq, -⟩
      cases heq

/-! ## Any run without a use -/

/-- The lints of a document that are underway behind a run that makes no use of it were underway
before. -/
theorem mem_underway_of_afterAll (hquiet : ∀ e ∈ later, ¬ e.isUseOf uri)
    (h : lint ∈ (s.afterAll later).underway) (habout : lint.uri = uri) : lint ∈ s.underway := by
  induction later using List.reverseRecOn with
  | nil => exact h
  | append_singleton later e ih =>
    rw [afterAll_concat] at h
    have hquiet' : ∀ e ∈ later, ¬ e.isUseOf uri := fun e he ↦
      hquiet e (List.mem_append_left _ he)
    rcases mem_underway_of_after h with h | ⟨-, huse⟩
    · exact ih hquiet' h
    · exact absurd (habout ▸ huse) (hquiet e (by simp))

/-- A lint of a document is completed in a run, and the document is not closed behind it. -/
def CompletesLint (uri : Uri) (s : EditorSession) (later : List Event) : Prop :=
  ∃ mid lint hints rest, later = mid ++ .completed lint hints :: rest ∧
    lint ∈ (s.afterAll mid).underway ∧ lint.uri = uri ∧ .notice (.closed uri) ∉ rest

theorem completesLint_concat_iff : CompletesLint uri s (later ++ [e]) ↔
    (∃ lint hints, e = .completed lint hints ∧ lint ∈ (s.afterAll later).underway ∧
      lint.uri = uri) ∨ e ≠ .notice (.closed uri) ∧ CompletesLint uri s later := by
  constructor
  · rintro ⟨mid, lint, hints, rest, heq, hunderway, habout, hopen⟩
    rcases List.eq_nil_or_concat' rest with rfl | ⟨rest, last, rfl⟩
    · obtain ⟨rfl, hlast⟩ := List.append_inj' heq rfl
      exact .inl ⟨lint, hints, List.singleton_inj.mp hlast, hunderway, habout⟩
    · have hparts : later ++ [e] = (mid ++ .completed lint hints :: rest) ++ [last] := by
        simpa using heq
      obtain ⟨rfl, hlast⟩ := List.append_inj' hparts rfl
      obtain rfl := List.singleton_inj.mp hlast
      have hne : e ≠ .notice (.closed uri) := by
        rintro rfl
        exact hopen (by simp)
      exact .inr ⟨hne, mid, lint, hints, rest, rfl, hunderway, habout,
        fun h ↦ hopen (List.mem_append_left _ h)⟩
  · rintro (⟨lint, hints, rfl, hunderway, habout⟩ |
      ⟨hne, mid, lint, hints, rest, rfl, hunderway, habout, hopen⟩)
    · exact ⟨later, lint, hints, [], rfl, hunderway, habout, by simp⟩
    · refine ⟨mid, lint, hints, rest ++ [e], by simp, hunderway, habout, ?_⟩
      simp [hopen, Ne.symm hne]

theorem isSome_get?_afterAll_iff (hforgotten : s.get? uri = none)
    (hquiet : ∀ e ∈ later, ¬ e.isUseOf uri) :
    ((s.afterAll later).get? uri).isSome ↔ CompletesLint uri s later := by
  induction later using List.reverseRecOn with
  | nil => simp [afterAll, hforgotten, CompletesLint]
  | append_singleton later e ih =>
    have hquiet' : ∀ e ∈ later, ¬ e.isUseOf uri := fun e he ↦
      hquiet e (List.mem_append_left _ he)
    rw [afterAll_concat, isSome_get?_after_iff (hquiet e (by simp)), ih hquiet',
      completesLint_concat_iff]

/-- While the editor makes no use of a document that was closed, what stores it and publishes hints
for it are the lints of it that were underway at the close: each of these does when it is completed,
and without them the document stays forgotten. -/
theorem stored_after_close_iff_completesLint (uri : Uri) (before later : List Event)
    (hquiet : ∀ e ∈ later, ¬ e.isUseOf uri) :
    let closed := (empty.afterAll before).after (.notice (.closed uri))
    (((closed.afterAll later).get? uri).isSome ↔ CompletesLint uri closed later) ∧
    (∀ e hints, hints ≠ [] → ((closed.afterAll later).published? e = some (uri, hints) ↔
      ∃ lint, e = .completed lint hints ∧ lint ∈ (closed.afterAll later).underway ∧
        lint.uri = uri)) ∧
    (∀ lint ∈ (closed.afterAll later).underway, lint.uri = uri →
      lint ∈ (empty.afterAll before).underway) ∧
    ((∀ lint ∈ (empty.afterAll before).underway, lint.uri ≠ uri) →
      (closed.afterAll later).get? uri = none ∧
        ∀ e hints, (closed.afterAll later).published? e = some (uri, hints) → hints = []) := by
  intro closed
  have hforgotten : closed.get? uri = none := get?_remove_self _ _
  have hunderway : ∀ mid ⊆ later, ∀ lint ∈ (closed.afterAll mid).underway, lint.uri = uri →
      lint ∈ (empty.afterAll before).underway := fun mid hmid lint hlint habout ↦
    mem_underway_of_afterAll (s := closed) (fun e he ↦ hquiet e (hmid he)) hlint habout
  refine ⟨isSome_get?_afterAll_iff hforgotten hquiet, fun e hints ↦ published?_eq_some_iff,
    hunderway later (List.Subset.refl later), ?_⟩
  intro hnone
  constructor
  · rw [← Option.not_isSome_iff_eq_none, isSome_get?_afterAll_iff hforgotten hquiet]
    rintro ⟨mid, lint, hints, rest, rfl, hlint, habout, -⟩
    exact hnone lint (hunderway mid (List.subset_append_left _ _) lint hlint habout) habout
  · intro e hints hpublished
    by_contra hhints
    obtain ⟨lint, -, hlint, habout⟩ := (published?_eq_some_iff hhints).mp hpublished
    exact hnone lint (hunderway later (List.Subset.refl later) lint hlint habout) habout

/-- The lint that an opened document began is completed when the document has been closed. -/
theorem stored_after_close_of_late_lint :
    let uri : Uri := ⟨"file".toList, some [], none, "/srv/A.php".toList, none, none⟩
    let text := "<?php \n".toList
    let hint : Hint := ⟨0, 0, 5, 6, "Whitespace found at end of line", default, 100, "phpcs"⟩
    let lint : DocumentLint := ⟨uri, "/srv/A.php", text⟩
    let before : List Event := [.notice (.opened uri text)]
    let closed := (empty.afterAll before).after (.notice (.closed uri))
    let later : List Event := [.completed lint [hint]]
    (∀ e ∈ later, ¬ e.isUseOf uri) ∧ closed.get? uri = none ∧
      closed.published? (.completed lint [hint]) = some (uri, [hint]) ∧
      ((closed.afterAll later).get? uri).isSome ∧ CompletesLint uri closed later := by
  intro uri text hint lint before closed later
  have hquiet : ∀ e ∈ later, ¬ e.isUseOf uri := by decide +kernel
  have hunderway : lint ∈ closed.underway := by decide +kernel
  obtain ⟨hstored, -, -, -⟩ := stored_after_close_iff_completesLint uri before later hquiet
  obtain ⟨-, hpublished, -, -⟩ := stored_after_close_iff_completesLint uri before [] (by simp)
  have hcompletes : CompletesLint uri closed later :=
    ⟨[], lint, [hint], [], rfl, hunderway, rfl, by simp⟩
  exact ⟨hquiet, by decide +kernel,
    (hpublished _ [hint] (List.cons_ne_nil _ _)).mpr ⟨lint, rfl, hunderway, rfl⟩,
    hstored.mpr hcompletes, hcompletes⟩

end LintMend.EditorSession
