import LintMend.Editor.Document
import Mathlib.Data.List.Induction

/-!
# The texts a session stores

An editor sends the texts of its documents while lints are underway. A change stores its text at
once; the text of an opened or a saved document is stored when its lint is completed, and then it
takes the place of whatever has been sent meanwhile. So a stored text is the latest one unless a
lint has overtaken it, or the lint of a later text is still awaited.
-/

namespace LintMend

namespace EditorSession

variable {s : EditorSession} {uri other : Uri} {d : Document} {path : String} {text : Text}
  {events : List Event} {e : Event} {lint : DocumentLint}

/-! ## Documents -/

@[simp] theorem get?_put_self (s : EditorSession) (uri : Uri) (d : Document) :
    (s.put uri d).get? uri = some d := by
  simp [get?, put]

/-- Entries of one document are no entries of another. -/
theorem find?_filter_of_ne (h : other ≠ uri) (documents : List (Uri × Document)) :
    (documents.filter (·.1 ≠ other)).find? (·.1 = uri) = documents.find? (·.1 = uri) := by
  rw [List.find?_filter]
  congr 1
  funext entry
  by_cases hentry : entry.1 = uri
  · simp [hentry, Ne.symm h]
  · simp [hentry]

theorem get?_put_of_ne (h : other ≠ uri) : (s.put other d).get? uri = s.get? uri := by
  rw [get?, put, List.find?_cons_of_neg (by simpa using h), find?_filter_of_ne h, get?]

@[simp] theorem get?_remove_self (s : EditorSession) (uri : Uri) : (s.remove uri).get? uri = none := by
  simp [get?, remove]

theorem get?_remove_of_ne (h : other ≠ uri) : (s.remove other).get? uri = s.get? uri := by
  rw [get?, remove, find?_filter_of_ne h, get?]

@[simp] theorem get?_beginLint (s : EditorSession) (other : Uri) (text : Text) (uri : Uri) :
    (s.beginLint other text).get? uri = s.get? uri := by
  rw [beginLint]
  split <;> rfl

theorem mem_underway_beginLint (h : lint ∈ s.underway) :
    lint ∈ (s.beginLint other text).underway := by
  rw [beginLint]
  split
  · exact List.mem_append_left _ h
  · exact h

theorem begun_mem_underway (h : uri.lintPath? = some path) :
    ⟨uri, path, text⟩ ∈ (s.beginLint uri text).underway := by
  rw [beginLint, h]
  exact List.mem_append_right _ List.mem_cons_self

/-! ## What an editor has sent -/

end EditorSession

/-- The text that a notice brings for a document. -/
def Notice.textFor? (uri : Uri) : Notice → Option Text
  | .opened about text | .changed about text => if about = uri then some text else none
  | .saved about text => if about = uri then text else none
  | .closed _ => none

namespace EditorSession

def Event.textFor? (uri : Uri) : Event → Option Text
  | .notice n => n.textFor? uri
  | .completed _ _ => none

/-- The last text that an editor has sent for a document. -/
def latestText? (uri : Uri) (events : List Event) : Option Text :=
  (events.filterMap (·.textFor? uri)).getLast?

theorem latestText?_append_of_none {later : List Event} (h : ∀ e ∈ later, e.textFor? uri = none) :
    latestText? uri (events ++ later) = latestText? uri events := by
  have hlater : later.filterMap (·.textFor? uri) = [] := List.filterMap_eq_nil_iff.mpr h
  rw [latestText?, List.filterMap_append, hlater, List.append_nil, latestText?]

theorem latestText?_concat_of_some (h : e.textFor? uri = some text) :
    latestText? uri (events ++ [e]) = some text := by
  simp [latestText?, h]

theorem afterAll_concat (s : EditorSession) (events : List Event) (e : Event) :
    s.afterAll (events ++ [e]) = (s.afterAll events).after e := by
  simp [afterAll]

/-! ## One event -/

/-- What an event can mean for a document that is stored behind it: nothing; a text that is stored
at once; a text whose lint is begun; or the end of a lint. -/
inductive Means (uri : Uri) (s : EditorSession) (d : Document) (e : Event) : Prop
  | nothing (text : e.textFor? uri = none) (stored : s.get? uri = some d)
      (underway : ∀ lint ∈ s.underway, lint.uri = uri → lint ∈ (s.after e).underway)
  | change (text : e.textFor? uri = some d.text)
  | start (lint : DocumentLint) (text : e.textFor? uri = some lint.text) (about : lint.uri = uri)
      (stored : s.get? uri = some d) (underway : lint ∈ (s.after e).underway)
  | finish (lint : DocumentLint) (hints : List Hint) (event : e = .completed lint hints)
      (underway : lint ∈ s.underway) (about : lint.uri = uri)
      (stored : d = Document.ofLint lint.text hints)

/-- Where a lint is begun for some document, the stored documents are as they were. -/
theorem means_of_beginLint (hpath : uri.lintPath? = some path) (hd : s.get? uri = some d)
    (he : s.after e = s.beginLint other text)
    (htext : e.textFor? uri = none ∨ other = uri ∧ e.textFor? uri = some text) :
    Means uri s d e := by
  rcases htext with htext | ⟨rfl, htext⟩
  · exact .nothing htext hd fun lint hlint _ ↦ he ▸ mem_underway_beginLint hlint
  · exact .start ⟨other, path, text⟩ htext rfl hd (he ▸ begun_mem_underway hpath)

theorem means_of_receive (hpath : uri.lintPath? = some path) {n : Notice}
    (hd : (s.receive n).get? uri = some d) : Means uri s d (.notice n) := by
  cases n with
  | opened other text =>
    have hstored : s.get? uri = some d := by simpa [receive] using hd
    apply means_of_beginLint hpath hstored rfl
    by_cases hsame : other = uri <;> simp [Event.textFor?, Notice.textFor?, hsame]
  | changed other text =>
    by_cases hsame : other = uri
    · subst hsame
      rw [receive, get?_put_self, Option.some.injEq] at hd
      apply Means.change
      rw [← hd, Event.textFor?, Notice.textFor?, if_pos rfl]
      cases s.get? other <;> rfl
    · rw [receive, get?_put_of_ne hsame] at hd
      exact .nothing (by simp [Event.textFor?, Notice.textFor?, hsame]) hd
        fun lint hlint _ ↦ hlint
  | saved other text =>
    rw [receive] at hd
    -- without a text in the notice the stored one is linted again, and nothing new is sent
    cases hsent : text.or ((s.get? other).map (·.text)) with
    | none =>
      rw [hsent] at hd
      have hnone : text = none := (Option.or_eq_none_iff.mp hsent).1
      refine .nothing ?_ hd ?_
      · simp [Event.textFor?, Notice.textFor?, hnone]
      · intro lint hlint _
        simpa [after, receive, hsent] using hlint
    | some sent =>
      rw [hsent, get?_beginLint] at hd
      have hafter : s.after (.notice (.saved other text)) = s.beginLint other sent := by
        simp only [after, receive, hsent]
      apply means_of_beginLint hpath hd hafter
      cases text with
      | none => simp [Event.textFor?, Notice.textFor?]
      | some text =>
        obtain rfl : text = sent := by simpa using hsent
        by_cases hsame : other = uri <;> simp [Event.textFor?, Notice.textFor?, hsame]
  | closed other =>
    have hne : other ≠ uri := by
      rintro rfl
      simp [receive] at hd
    rw [receive, get?_remove_of_ne hne] at hd
    exact .nothing rfl hd fun lint hlint _ ↦ hlint

theorem means_of_complete {hints : List Hint} (hunderway : lint ∈ s.underway)
    (hd : (s.complete lint hints).get? uri = some d) : Means uri s d (.completed lint hints) := by
  by_cases hsame : lint.uri = uri
  · subst hsame
    have hput : (s.complete lint hints).get? lint.uri = some (Document.ofLint lint.text hints) :=
      get?_put_self s _ _
    rw [hput, Option.some.injEq] at hd
    exact .finish lint hints rfl hunderway rfl hd.symm
  · have hput : (s.complete lint hints).get? uri = s.get? uri := get?_put_of_ne hsame
    rw [hput] at hd
    refine .nothing rfl hd ?_
    intro begun hbegun habout
    -- the lint that is done is one of another document
    have hne : begun ≠ lint := by
      rintro rfl
      exact hsame habout
    rw [after, if_pos hunderway]
    exact (List.mem_erase_of_ne hne).mpr hbegun

theorem means_of_get?_after (hpath : uri.lintPath? = some path)
    (hd : (s.after e).get? uri = some d) : Means uri s d e := by
  cases e with
  | notice n => exact means_of_receive hpath hd
  | completed lint hints =>
    by_cases hunderway : lint ∈ s.underway
    · rw [after, if_pos hunderway] at hd
      exact means_of_complete hunderway hd
    · rw [after, if_neg hunderway] at hd
      refine .nothing rfl hd ?_
      intro begun hbegun _
      rwa [after, if_neg hunderway]

/-! ## Any run -/

/-- The lint of a text was completed when that text was the latest no more, and nothing has been
sent since. -/
def Overtaken (uri : Uri) (text : Text) (events : List Event) : Prop :=
  ∃ before lint hints later, events = before ++ .completed lint hints :: later ∧
    lint ∈ (empty.afterAll before).underway ∧ lint.uri = uri ∧ lint.text = text ∧
    latestText? uri before ≠ some text ∧ ∀ e ∈ later, e.textFor? uri = none

/-- The lint of another text, which is the latest, is underway. -/
def Awaited (uri : Uri) (text : Text) (events : List Event) : Prop :=
  ∃ lint ∈ (empty.afterAll events).underway, lint.uri = uri ∧ lint.text ≠ text ∧
    latestText? uri events = some lint.text

theorem Overtaken.ne (h : Overtaken uri text events) : latestText? uri events ≠ some text := by
  obtain ⟨before, lint, hints, later, rfl, -, -, -, hne, hlater⟩ := h
  rwa [latestText?_append_of_none]
  intro e he
  rcases List.mem_cons.mp he with rfl | he
  · rfl
  · exact hlater e he

theorem Awaited.ne (h : Awaited uri text events) : latestText? uri events ≠ some text := by
  obtain ⟨lint, -, -, hne, hlatest⟩ := h
  rw [hlatest]
  simpa using hne

theorem Overtaken.concat (h : Overtaken uri text events) (he : e.textFor? uri = none) :
    Overtaken uri text (events ++ [e]) := by
  obtain ⟨before, lint, hints, later, rfl, hlint, habout, htext, hne, hlater⟩ := h
  refine ⟨before, lint, hints, later ++ [e], by simp, hlint, habout, htext, hne, ?_⟩
  intro e' he'
  rcases List.mem_append.mp he' with he' | he'
  · exact hlater e' he'
  · rw [List.mem_singleton.mp he', he]

theorem Awaited.concat (h : Awaited uri text events) (he : e.textFor? uri = none)
    (hunderway : ∀ lint ∈ (empty.afterAll events).underway, lint.uri = uri →
      lint ∈ ((empty.afterAll events).after e).underway) : Awaited uri text (events ++ [e]) := by
  obtain ⟨lint, hlint, habout, hne, hlatest⟩ := h
  refine ⟨lint, ?_, habout, hne, ?_⟩
  · rw [afterAll_concat]
    exact hunderway lint hlint habout
  · rw [latestText?_append_of_none (by simpa using he), hlatest]

/-- Behind any run, a stored text is the latest one, or overtaken, or the lint of the latest one is
awaited. -/
theorem latest_or_overtaken_or_awaited (hpath : uri.lintPath? = some path)
    (hd : (empty.afterAll events).get? uri = some d) :
    latestText? uri events = some d.text ∨ Overtaken uri d.text events ∨
      Awaited uri d.text events := by
  -- by the last event, since what it means depends on the session before it
  induction events using List.reverseRecOn generalizing d with
  | nil => simp [afterAll, empty, get?] at hd
  | append_singleton events e ih =>
    rw [afterAll_concat] at hd
    cases means_of_get?_after hpath hd with
    | nothing htext hstored hunderway =>
      have hlatest : latestText? uri (events ++ [e]) = latestText? uri events :=
        latestText?_append_of_none (by simpa using htext)
      rcases ih hstored with hfresh | hovertaken | hawaited
      · exact .inl (hlatest.trans hfresh)
      · exact .inr (.inl (hovertaken.concat htext))
      · exact .inr (.inr (hawaited.concat htext hunderway))
    | change htext => exact .inl (latestText?_concat_of_some htext)
    | start lint htext habout hstored hunderway =>
      have hlatest : latestText? uri (events ++ [e]) = some lint.text :=
        latestText?_concat_of_some htext
      by_cases hsame : lint.text = d.text
      · exact .inl (hsame ▸ hlatest)
      · refine .inr (.inr ⟨lint, ?_, habout, hsame, hlatest⟩)
        rwa [afterAll_concat]
    | finish lint hints hevent hunderway habout hstored =>
      subst hevent hstored
      have hlatest : latestText? uri (events ++ [.completed lint hints]) = latestText? uri events :=
        latestText?_append_of_none (by simp [Event.textFor?])
      by_cases hfresh : latestText? uri events = some lint.text
      · exact .inl (hlatest.trans hfresh)
      · exact .inr (.inl ⟨events, lint, hints, [], rfl, hunderway, habout, rfl, hfresh, by simp⟩)

theorem latestText?_eq_iff (hpath : uri.lintPath? = some path)
    (hd : (empty.afterAll events).get? uri = some d) :
    latestText? uri events = some d.text ↔
      ¬ Overtaken uri d.text events ∧ ¬ Awaited uri d.text events := by
  constructor
  · intro hlatest
    exact ⟨fun h ↦ h.ne hlatest, fun h ↦ h.ne hlatest⟩
  · rintro ⟨hovertaken, hawaited⟩
    rcases latest_or_overtaken_or_awaited hpath hd with h | h | h
    · exact h
    · exact absurd h hovertaken
    · exact absurd h hawaited

end EditorSession

end LintMend
