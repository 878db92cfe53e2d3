import LintMend.Proofs.Editor.Action
import LintMend.Proofs.Repair.Cycles

/-!
# Where the hints of a document come from

In any order of notices and completed lints, the hints that a session stores for a document are
those that a lint of its linted text was completed with. A repair is offered only while this is the
text of the document still, so it starts from a text and what a lint has found in it; the further
passes of a repair have their hints from a lint of the text they start from as well.
-/

namespace LintMend

/-- Whether a notice opens a document, changes or saves it. -/
def Notice.isUseOf (uri : Uri) : Notice → Bool
  | .opened about _ | .changed about _ | .saved about _ => about = uri
  | .closed _ => false

namespace EditorSession

variable {s : EditorSession} {uri other : Uri} {d : Document} {path : String} {text : Text}
  {events : List Event} {e : Event} {lint : DocumentLint} {hints : List Hint}

def Event.isUseOf (uri : Uri) : Event → Bool
  | .notice n => n.isUseOf uri
  | .completed _ _ => false

/-! ## One document and one event -/

/-- What becomes of a document in an event: a lint of it is completed, its text is changed, it is
closed, or it stays as it was. -/
inductive Becomes (uri : Uri) (s : EditorSession) (e : Event) : Prop
  | linted (lint : DocumentLint) (hints : List Hint) (event : e = .completed lint hints)
      (underway : lint ∈ s.underway) (about : lint.uri = uri)
      (stored : (s.after e).get? uri = some (.ofLint lint.text hints))
  | changed (text : Text) (event : e = .notice (.changed uri text))
      (stored : (s.after e).get? uri =
        some ((s.get? uri).elim (.unlinted text) fun d ↦ { d with text }))
  | closed (event : e = .notice (.closed uri)) (stored : (s.after e).get? uri = none)
  | same (stored : (s.after e).get? uri = s.get? uri) (isOpen : e ≠ .notice (.closed uri))
      (unlinted : ∀ lint hints, e = .completed lint hints → lint ∈ s.underway → lint.uri ≠ uri)

theorem becomes_of_completed (uri : Uri) (s : EditorSession) (lint : DocumentLint)
    (hints : List Hint) : Becomes uri s (.completed lint hints) := by
  by_cases hlinted : lint ∈ s.underway ∧ lint.uri = uri
  · obtain ⟨hunderway, rfl⟩ := hlinted
    refine .linted lint hints rfl hunderway rfl ?_
    rw [after, if_pos hunderway]
    exact get?_put_self s _ _
  · refine .same ?_ (by simp) ?_
    · by_cases hunderway : lint ∈ s.underway
      · rw [after, if_pos hunderway]
        exact get?_put_of_ne fun hsame ↦ hlinted ⟨hunderway, hsame⟩
      · rw [after, if_neg hunderway]
    · intro lint' hints' heq hunderway habout
      cases heq
      exact hlinted ⟨hunderway, habout⟩

theorem becomes_of_notice (uri : Uri) (s : EditorSession) (n : Notice) :
    Becomes uri s (.notice n) := by
  cases n with
  | opened other text => exact .same (get?_beginLint s other text uri) (by simp) (by simp)
  | changed other text =>
    by_cases hsame : other = uri
    · subst hsame
      exact .changed text rfl (get?_put_self s _ _)
    · exact .same (get?_put_of_ne hsame) (by simp) (by simp)
  | saved other text =>
    refine .same ?_ (by simp) (by simp)
    rw [after, receive]
    split
    · exact get?_beginLint s other _ uri
    · rfl
  | closed other =>
    by_cases hsame : other = uri
    · subst hsame
      exact .closed rfl (get?_remove_self s _)
    · exact .same (get?_remove_of_ne hsame) (by simpa using hsame) (by simp)

theorem becomes (uri : Uri) (s : EditorSession) (e : Event) : Becomes uri s e := by
  cases e with
  | notice n => exact becomes_of_notice uri s n
  | completed lint hints => exact becomes_of_completed uri s lint hints

/-! ## Lints underway -/

theorem mem_underway_of_beginLint (h : lint ∈ (s.beginLint other text).underway) :
    lint ∈ s.underway ∨ other.lintPath? = some lint.path ∧ lint.uri = other := by
  rw [beginLint] at h
  cases hpath : other.lintPath? with
  | none => exact .inl (by simpa [hpath] using h)
  | some path =>
    simp only [hpath, List.mem_append, List.mem_singleton] at h
    rcases h with h | rfl
    · exact .inl h
    · exact .inr ⟨rfl, rfl⟩

/-- A lint is begun by a notice that opens or saves its document. -/
theorem mem_underway_of_after (h : lint ∈ (s.after e).underway) :
    lint ∈ s.underway ∨ lint.uri.lintPath? = some lint.path ∧ e.isUseOf lint.uri := by
  cases e with
  | completed done hints =>
    rw [after] at h
    split at h
    · exact .inl (List.mem_of_mem_erase h)
    · exact .inl h
  | notice n =>
    cases n with
    | opened other text =>
      refine (mem_underway_of_beginLint h).imp_right ?_
      rintro ⟨hpath, rfl⟩
      exact ⟨hpath, by simp [Event.isUseOf, Notice.isUseOf]⟩
    | changed other text => exact .inl h
    | saved other text =>
      rw [after, receive] at h
      split at h
      · refine (mem_underway_of_beginLint h).imp_right ?_
        rintro ⟨hpath, rfl⟩
        exact ⟨hpath, by simp [Event.isUseOf, Notice.isUseOf]⟩
      · exact .inl h
    | closed other => exact .inl h

theorem lintPath?_of_underway (h : lint ∈ (empty.afterAll events).underway) :
    lint.uri.lintPath? = some lint.path := by
  induction events using List.reverseRecOn with
  | nil => cases h
  | append_singleton events e ih =>
    rw [afterAll_concat] at h
    rcases mem_underway_of_after h with h | ⟨hpath, -⟩
    · exact ih h
    · exact hpath

/-- Lints that are completed in the order in which they were begun. -/
theorem foldl_complete_eq_afterAll (found : DocumentLint → List Hint)
    (documents : List (Uri × Document)) (lints : List DocumentLint) :
    lints.foldl (fun s lint ↦ s.complete lint (found lint)) ⟨documents, lints⟩ =
      afterAll ⟨documents, lints⟩ (lints.map fun lint ↦ .completed lint (found lint)) := by
  induction lints generalizing documents with
  | nil => rfl
  | cons lint rest ih =>
    have hafter : after ⟨documents, lint :: rest⟩ (.completed lint (found lint)) =
        complete ⟨documents, lint :: rest⟩ lint (found lint) := if_pos List.mem_cons_self
    have hrest : (complete ⟨documents, lint :: rest⟩ lint (found lint)).underway = rest :=
      List.erase_cons_head lint rest
    have hstate : complete ⟨documents, lint :: rest⟩ lint (found lint) =
        ⟨(complete ⟨documents, lint :: rest⟩ lint (found lint)).documents, rest⟩ :=
      congrArg (EditorSession.mk _) hrest
    rw [List.map_cons, afterAll, List.foldl_cons, List.foldl_cons, hafter, hstate]
    exact ih _

/-! ## Hints -/

/-- The hints of a document behind an event: there are none, or they are as they were, or a lint is
completed with them. -/
theorem hints_of_after (hd : (s.after e).get? uri = some d) :
    (∃ text, d = .unlinted text) ∨ (∃ text, s.get? uri = some { d with text }) ∨
      ∃ lint hints, e = .completed lint hints ∧ lint ∈ s.underway ∧ lint.uri = uri ∧
        d = .ofLint lint.text hints := by
  cases becomes uri s e with
  | linted lint hints event underway about stored =>
    exact .inr (.inr ⟨lint, hints, event, underway, about, Option.some.inj (hd.symm.trans stored)⟩)
  | changed text event stored =>
    obtain rfl := Option.some.inj (hd.symm.trans stored)
    cases hbefore : s.get? uri with
    | none => exact .inl ⟨text, rfl⟩
    | some before => exact .inr (.inl ⟨before.text, rfl⟩)
  | closed event stored => simp [stored] at hd
  | same stored => exact .inr (.inl ⟨d.text, stored.symm.trans hd⟩)

/-- A lint that was underway was completed with these hints. -/
def WasCompleted (lint : DocumentLint) (hints : List Hint) (events : List Event) : Prop :=
  ∃ before later, events = before ++ .completed lint hints :: later ∧
    lint ∈ (empty.afterAll before).underway

theorem WasCompleted.concat (h : WasCompleted lint hints events) :
    WasCompleted lint hints (events ++ [e]) := by
  obtain ⟨before, later, rfl, hunderway⟩ := h
  exact ⟨before, later ++ [e], by simp, hunderway⟩

theorem WasCompleted.lintPath?_eq (h : WasCompleted lint hints events) :
    lint.uri.lintPath? = some lint.path := by
  obtain ⟨before, later, -, hunderway⟩ := h
  exact lintPath?_of_underway hunderway

theorem wasCompleted_of_get? (hd : (empty.afterAll events).get? uri = some d)
    (hhints : d.hints ≠ []) :
    ∃ path, WasCompleted ⟨uri, path, d.lintedText⟩ d.hints events := by
  -- a change of the text leaves the hints and the text they were found in
  induction events using List.reverseRecOn generalizing d with
  | nil => simp [afterAll, empty, get?] at hd
  | append_singleton events e ih =>
    rw [afterAll_concat] at hd
    rcases hints_of_after hd with ⟨text, rfl⟩ | ⟨text, hbefore⟩ |
      ⟨lint, hints, rfl, hunderway, rfl, rfl⟩
    · exact absurd rfl hhints
    · obtain ⟨path, hcompleted⟩ := ih hbefore hhints
      exact ⟨path, hcompleted.concat⟩
    · exact ⟨lint.path, events, [], rfl, hunderway⟩

end EditorSession

namespace Server

open EditorSession

variable {bench : Workbench} {session : EditorSession} {params : Json} {uri : Uri} {path : String}
  {d : Document} {server server' : Server} {reply : Reply}

/-! ## One message after the other -/

theorem finish_eq_afterAll (bench : Workbench) (session : EditorSession) :
    (finish bench session).1 = session.afterAll
      (session.underway.map fun lint ↦ .completed lint (FinishedLint.of bench lint).hints) := by
  rw [finish, List.foldl_map]
  exact foldl_complete_eq_afterAll (fun lint ↦ (FinishedLint.of bench lint).hints) _ _

/-- Lints are completed with what the tools of a server find. -/
def LintedWith (bench : Workbench) (events : List Event) : Prop :=
  ∀ lint hints, .completed lint hints ∈ events → hints = (FinishedLint.of bench lint).hints

theorem lintedWith_nil (bench : Workbench) : LintedWith bench [] := by simp [LintedWith]

theorem LintedWith.append {events later : List Event} (h : LintedWith bench events)
    (hlater : LintedWith bench later) : LintedWith bench (events ++ later) := by
  intro lint hints hmem
  rcases List.mem_append.mp hmem with hmem | hmem
  · exact h lint hints hmem
  · exact hlater lint hints hmem

theorem lintedWith_take (bench : Workbench) (notice : Notice) (lints : List DocumentLint) :
    LintedWith bench (.notice notice ::
      lints.map fun lint ↦ .completed lint (FinishedLint.of bench lint).hints) := by
  intro lint hints hmem
  simp only [List.mem_cons, List.mem_map, reduceCtorEq, false_or] at hmem
  obtain ⟨lint', -, heq⟩ := hmem
  cases heq
  rfl

theorem session_closesAnyway (server : Server) (reaction : Reaction) :
    (closesAnyway server reaction).session = server.session := by
  rw [closesAnyway]
  split <;> rfl

theorem exists_events_of_react (bench : Workbench) (server : Server) (reaction : Reaction)
    (params : Json) : ∃ events, LintedWith bench events ∧
      (react bench server reaction params).1.session = server.session.afterAll events := by
  have htake (notice : Notice) : ∃ events, LintedWith bench events ∧
      (take bench server.session notice).1 = server.session.afterAll events :=
    ⟨_, lintedWith_take bench notice _, finish_eq_afterAll bench (server.session.receive notice)⟩
  cases reaction
  case opened | changed | saved | closed =>
    rw [react]
    split
    · next notice _ => exact htake notice
    · exact ⟨[], lintedWith_nil bench, rfl⟩
  all_goals exact ⟨[], lintedWith_nil bench, rfl⟩

theorem exists_events_of_handleKnown (bench : Workbench) (server : Server) (method : Method)
    (message : Message) : ∃ events, LintedWith bench events ∧
      (handleKnown bench server method message).1.session = server.session.afterAll events := by
  rw [handleKnown]
  split
  · exact ⟨[], lintedWith_nil bench, rfl⟩
  · split
    · exact ⟨[], lintedWith_nil bench, session_closesAnyway server _⟩
    · split
      · next params _ => exact exists_events_of_react bench server method.reaction params
      · exact ⟨[], lintedWith_nil bench, session_closesAnyway server _⟩

/-- A server that completes its lints with each message goes through one of all possible runs. -/
theorem exists_events_of_handle? {message : Message}
    (h : server.handle? bench message = some (server', reply)) :
    ∃ events, LintedWith bench events ∧ server'.session = server.session.afterAll events := by
  rw [handle?] at h
  split at h
  · cases h
  · split at h
    · cases h
      exact ⟨[], lintedWith_nil bench, rfl⟩
    · next method _ =>
      split at h
      · cases h
        exact ⟨[], lintedWith_nil bench, rfl⟩
      · have hknown := exists_events_of_handleKnown bench server method message
        rwa [Option.some.inj h] at hknown

/-- The servers that an editor can come to deal with. -/
inductive Reached (bench : Workbench) : Server → Prop
  | start : Reached bench start
  | next {server server' : Server} {message : Message} {reply : Reply}
      (before : Reached bench server)
      (handled : server.handle? bench message = some (server', reply)) : Reached bench server'

theorem Reached.exists_events (h : Reached bench server) :
    ∃ events, LintedWith bench events ∧ server.session = empty.afterAll events := by
  induction h with
  | start => exact ⟨[], lintedWith_nil bench, rfl⟩
  | next before handled ih =>
    obtain ⟨events, hevents, hsession⟩ := ih
    obtain ⟨later, hlater, hsession'⟩ := exists_events_of_handle? handled
    refine ⟨events ++ later, hevents.append hlater, ?_⟩
    rw [hsession', hsession, afterAll, afterAll, afterAll, List.foldl_append]

/-! ## Repairs -/

/-- A document that has been linted with hints, and not been changed since, can be repaired. -/
theorem repairable?_of_completed {events : List Event} {lint : DocumentLint} {hints : List Hint}
    (hunderway : lint ∈ (empty.afterAll events).underway) (hhints : hints ≠ []) :
    ((empty.afterAll events).after (.completed lint hints)).repairable? lint.uri =
      some (lint.path, .ofLint lint.text hints) := by
  refine repairable?_eq_some_iff.mpr ⟨lintPath?_of_underway hunderway, ?_, ?_⟩
  · rw [after, if_pos hunderway]
    exact get?_put_self _ _ _
  · simpa [Document.isRepairable, Document.ofLint] using hhints

/-- In any order of notices and completed lints, the hints of a stored document are those that a
lint of its linted text was completed with. The repair of a document starts from its text and from
hints that a lint of this very text, and for the same path, was completed with; and each further
pass starts from the text of the pass before and the hints of its lint. There is a repair as soon as
a lint has found something, and what a server goes through is such a run, with its own lints. -/
theorem repair_starts_from_completed_lint (bench : Workbench) (events : List Event) :
    (∀ uri d, (empty.afterAll events).get? uri = some d → d.hints ≠ [] →
      ∃ path, WasCompleted ⟨uri, path, d.lintedText⟩ d.hints events) ∧
    (∀ params path d attempt,
      attempt? bench (empty.afterAll events) params = some (path, d, attempt) →
      ∃ uri, uriIn? params = some uri ∧ WasCompleted ⟨uri, path, d.text⟩ d.hints events ∧
        Repair.Alternates bench.rules (bench.manager.lintTextFor bench.world path) d.text d.hints
          attempt.made.first attempt.made.further attempt.made.lastPass) ∧
    (∀ lint ∈ (empty.afterAll events).underway, ∀ hints ≠ [],
      ((empty.afterAll events).after (.completed lint hints)).repairable? lint.uri =
        some (lint.path, .ofLint lint.text hints)) ∧
    ∀ server, Reached bench server →
      ∃ events', LintedWith bench events' ∧ server.session = empty.afterAll events' := by
  refine ⟨fun uri d hd hhints ↦ wasCompleted_of_get? hd hhints, ?_,
    fun lint hunderway hints hhints ↦ repairable?_of_completed hunderway hhints,
    fun server hserver ↦ hserver.exists_events⟩
  intro params path d attempt hattempt
  obtain ⟨uri, huri, hrepairable, rfl⟩ := attempt?_eq_some_iff.mp hattempt
  obtain ⟨hpath, hd, hready⟩ := repairable?_eq_some_iff.mp hrepairable
  obtain ⟨hhints, htext⟩ : d.hints ≠ [] ∧ d.text = d.lintedText := by
    simpa [Document.isRepairable] using hready
  obtain ⟨path', hcompleted⟩ := wasCompleted_of_get? hd hhints
  have hsame : path' = path := by
    have hpath' : uri.lintPath? = some path' := hcompleted.lintPath?_eq
    simpa [hpath] using hpath'.symm
  refine ⟨uri, huri, ?_, Repair.alternates_attempt bench.rules
    (bench.manager.lintTextFor bench.world path) bench.cycles d.text ⟨d.hints, []⟩⟩
  rw [htext, ← hsame]
  exact hcompleted

/-- A change is sent while the text that was opened is linted, and taken back when the hints are
there. -/
theorem repair_starts_from_completed_lint_of_restored_text :
    let uri : Uri := ⟨"file".toList, some [], none, "/srv/A.php".toList, none, none⟩
    let opened := "<?php \n".toList
    let changed := "<?php\n\necho 1;\n".toList
    let hint : Hint := ⟨0, 0, 5, 6, "Whitespace found at end of line", default, 100, "phpcs"⟩
    let lint : DocumentLint := ⟨uri, "/srv/A.php", opened⟩
    let events : List Event :=
      [.notice (.opened uri opened), .notice (.changed uri changed), .completed lint [hint],
       .notice (.changed uri changed), .notice (.changed uri opened)]
    let bench : Workbench :=
      ⟨⟨⟨"/work", []⟩, fun _ ↦ false, fun _ _ _ ↦ .error .notFound, "/tmp/scan", fun _ _ ↦ none,
          fun _ _ ↦ ""⟩,
        ⟨Roster.ofNames (Adapter.all.map (·.name)), ToolPaths.standard, "data"⟩,
        [.trailingWhitespace], 1⟩
    let params := Json.obj [("textDocument", .obj [("uri", .str "file:///srv/A.php")])]
    let d := Document.ofLint opened [hint]
    (empty.afterAll events).get? uri = some d ∧ d.hints ≠ [] ∧
      attempt? bench (empty.afterAll events) params =
        some ("/srv/A.php", d, attemptOf bench "/srv/A.php" d) ∧
      (∃ path, WasCompleted ⟨uri, path, d.lintedText⟩ d.hints events) ∧
      WasCompleted lint [hint] events ∧
      (attemptOf bench "/srv/A.php" d).made.result = "<?php\n".toList ∧
      lint ∈ (empty.afterAll (events.take 2)).underway ∧
      ((empty.afterAll (events.take 2)).after (.completed lint [hint])).repairable? uri =
        some ("/srv/A.php", d) ∧
      ∃ events', LintedWith bench events' ∧ Server.start.session = empty.afterAll events' := by
  intro uri opened changed hint lint events bench params d
  obtain ⟨hstored, hrepair, -, hserver⟩ := repair_starts_from_completed_lint bench events
  obtain ⟨-, -, hready, -⟩ := repair_starts_from_completed_lint bench (events.take 2)
  have hd : (empty.afterAll events).get? uri = some d := by decide +kernel
  have huri : uriIn? params = some uri := by decide +kernel
  have hattempt : attempt? bench (empty.afterAll events) params =
      some ("/srv/A.php", d, attemptOf bench "/srv/A.php" d) :=
    attempt?_eq_some_iff.mpr ⟨uri, huri, by decide +kernel, rfl⟩
  obtain ⟨uri', huri', hcompleted, -⟩ := hrepair params "/srv/A.php" d _ hattempt
  obtain rfl : uri = uri' := by simpa [huri] using huri'
  have hunderway : lint ∈ (empty.afterAll (events.take 2)).underway := by decide +kernel
  exact ⟨hd, List.cons_ne_nil _ _, hattempt, hstored uri d hd (List.cons_ne_nil _ _), hcompleted,
    by decide +kernel, hunderway, hready lint hunderway [hint] (List.cons_ne_nil _ _),
    hserver _ .start⟩

end Server

end LintMend
