import LintMend.Editor.Server
import LintMend.Proofs.Editor.Place
import LintMend.Proofs.Editor.Session

/-!
# Offered repairs

An action replaces a stored text by its repair. The stored text need not be the one the editor has
sent last, and the range of the edit need not cover all of it: here is when it is, and does.
-/

namespace LintMend.Server

open EditorSession Text

variable {bench : Workbench} {session : EditorSession} {params : Json} {uri : Uri} {path : String}
  {d : Document}

theorem repairable?_eq_some_iff : session.repairable? uri = some (path, d) ↔
    uri.lintPath? = some path ∧ session.get? uri = some d ∧ d.isRepairable := by
  rw [repairable?]
  cases hpath : uri.lintPath? with
  | none => simp
  | some path' =>
    cases hd : session.get? uri with
    | none => simp
    | some d' =>
      by_cases hrepairable : d'.isRepairable
      · simp only [Option.filter_some, hrepairable, if_true, Option.some.injEq, Prod.mk.injEq]
        constructor
        · rintro ⟨rfl, rfl⟩
          exact ⟨rfl, rfl, hrepairable⟩
        · rintro ⟨rfl, rfl, -⟩
          exact ⟨rfl, rfl⟩
      · simp only [Option.filter_some, hrepairable, Option.some.injEq]
        constructor
        · simp
        · rintro ⟨-, rfl, h⟩
          exact absurd h hrepairable

/-- The repair of a document in the cycles of a server, as far as it comes. -/
def attemptOf (bench : Workbench) (path : String) (d : Document) : Repair.Attempt RepairError :=
  bench.manager.attemptText bench.world bench.rules path bench.cycles d.text ⟨d.hints, []⟩

/-- The diagnostics that a request for actions is about. -/
def diagnosticsIn (params : Json) : Json :=
  ((params.get? "context").bind (·.get? "diagnostics")).getD (.arr [])

theorem attempt?_eq_some_iff {attempt : Repair.Attempt RepairError} :
    attempt? bench session params = some (path, d, attempt) ↔
      ∃ uri, uriIn? params = some uri ∧ session.repairable? uri = some (path, d) ∧
        attempt = attemptOf bench path d := by
  cases huri : uriIn? params with
  | none => simp [attempt?, huri]
  | some uri =>
    cases hd : session.repairable? uri with
    | none => simp [attempt?, huri, hd]
    | some found =>
      obtain ⟨path', d'⟩ := found
      simp only [attempt?, huri, attemptOf]
      grind

/-- An action is offered where the repair succeeds with another text. -/
theorem answer_codeActions_of_repairable? {repaired : Repair.Repaired}
    (huri : uriIn? params = some uri) (hd : session.repairable? uri = some (path, d))
    (hrepaired : (attemptOf bench path d).result = .ok repaired) :
    (codeActions bench session params).answer = some (.ok
      (if repaired.isChanged then .arr [repairAction uri d repaired.result (diagnosticsIn params)]
      else .null)) := by
  have hattempt : attempt? bench session params = some (path, d, attemptOf bench path d) :=
    attempt?_eq_some_iff.mpr ⟨uri, huri, hd, rfl⟩
  simp only [codeActions, huri, hattempt, hrepaired, Reply.result, diagnosticsIn]

/-- Actions are offered for a document that can be repaired, and for nothing else. -/
theorem exists_of_answer_codeActions {actions : List Json}
    (h : (codeActions bench session params).answer = some (.ok (.arr actions))) :
    ∃ uri path d repaired, uriIn? params = some uri ∧
      session.repairable? uri = some (path, d) ∧
      (attemptOf bench path d).result = .ok repaired ∧
      actions = [repairAction uri d repaired.result (diagnosticsIn params)] := by
  cases huri : uriIn? params with
  | none => simp [codeActions, huri, Reply.result] at h
  | some uri =>
    cases hattempt : attempt? bench session params with
    | none => simp [codeActions, huri, hattempt, Reply.result] at h
    | some found =>
      obtain ⟨path, d, attempt⟩ := found
      obtain ⟨uri', huri', hd, rfl⟩ := attempt?_eq_some_iff.mp hattempt
      obtain rfl : uri = uri' := Option.some.inj (huri.symm.trans huri')
      cases hresult : (attemptOf bench path d).result with
      | error e => simp [codeActions, huri, hattempt, hresult, Reply.result] at h
      | ok repaired =>
        refine ⟨uri, path, d, repaired, rfl, hd, hresult, ?_⟩
        rw [answer_codeActions_of_repairable? huri hd hresult] at h
        split at h
        · simpa using h.symm
        · simp at h

/-- In any order of notices and completed lints, an offered action repairs the text that the editor
has sent last exactly when no lint of another text has overtaken it and its own lint is not awaited.
The range of the action ends behind all of the repaired text exactly when that does not end with a
carriage return, and so does the range that is sent if moreover the end can be sent. -/
theorem offered_repair_replaces_latest_text_iff (bench : Workbench) (events : List Event)
    (params : Json) {actions : List Json}
    (h : (codeActions bench (empty.afterAll events) params).answer = some (.ok (.arr actions))) :
    ∃ uri path d repaired, uriIn? params = some uri ∧
      (empty.afterAll events).repairable? uri = some (path, d) ∧
      (attemptOf bench path d).result = .ok repaired ∧
      actions = [repairAction uri d repaired.result (diagnosticsIn params)] ∧
      (latestText? uri events = some d.text ↔
        ¬ Overtaken uri d.text events ∧ ¬ Awaited uri d.text events) ∧
      (d.text.offset16? d.text.endPosition16 = some (size d.text) ↔
        d.text.getLast? ≠ some '\r') ∧
      (d.text.offset16? d.text.endPosition16.sent = some (size d.text) ↔
        d.text.getLast? ≠ some '\r' ∧ d.text.counted16.sent = d.text.counted16) := by
  obtain ⟨uri, path, d, repaired, huri, hd, hrepaired, hactions⟩ := exists_of_answer_codeActions h
  obtain ⟨hpath, hstored, -⟩ := repairable?_eq_some_iff.mp hd
  exact ⟨uri, path, d, repaired, huri, hd, hrepaired, hactions, latestText?_eq_iff hpath hstored,
    offset16?_endPosition16_eq_size_iff, offset16?_sent_endPosition16_eq_size_iff⟩

/-- The lint of the text that was opened is completed behind a change, and its repair is offered in
place of the changed text. -/
theorem offered_repair_of_overtaken_text :
    let uri : Uri := ⟨"file".toList, some [], none, "/srv/A.php".toList, none, none⟩
    let opened := "<?php \n".toList
    let changed := "<?php\n\necho 1;\n".toList
    let hint : Hint := ⟨0, 0, 5, 6, "Whitespace found at end of line", default, 100, "phpcs"⟩
    let events : List Event :=
      [.notice (.opened uri opened), .notice (.changed uri changed),
       .completed ⟨uri, "/srv/A.php", opened⟩ [hint]]
    let bench : Workbench :=
      ⟨⟨⟨"/work", []⟩, fun _ ↦ false, fun _ _ _ ↦ .error .notFound, "/tmp/scan", fun _ _ ↦ none,
          fun _ _ ↦ ""⟩,
        ⟨Roster.ofNames (Adapter.all.map (·.name)), ToolPaths.standard, "data"⟩,
        [.trailingWhitespace], 1⟩
    let params := Json.obj [("textDocument", .obj [("uri", .str "file:///srv/A.php")])]
    let d := Document.ofLint opened [hint]
    (codeActions bench (empty.afterAll events) params).answer =
      some (.ok (.arr [repairAction uri d "<?php\n".toList (.arr [])])) ∧
    latestText? uri events = some changed ∧ Overtaken uri opened events ∧
    ∃ uri' path d' repaired, uriIn? params = some uri' ∧
      (empty.afterAll events).repairable? uri' = some (path, d') ∧
      (attemptOf bench path d').result = .ok repaired ∧
      [repairAction uri d "<?php\n".toList (.arr [])] =
        [repairAction uri' d' repaired.result (diagnosticsIn params)] ∧
      (latestText? uri' events = some d'.text ↔
        ¬ Overtaken uri' d'.text events ∧ ¬ Awaited uri' d'.text events) ∧
      (d'.text.offset16? d'.text.endPosition16 = some (size d'.text) ↔
        d'.text.getLast? ≠ some '\r') ∧
      (d'.text.offset16? d'.text.endPosition16.sent = some (size d'.text) ↔
        d'.text.getLast? ≠ some '\r' ∧ d'.text.counted16.sent = d'.text.counted16) := by
  intro uri opened changed hint events bench params d
  have huri : uriIn? params = some uri := by decide +kernel
  have hd : (empty.afterAll events).repairable? uri = some ("/srv/A.php", d) := by decide +kernel
  let repaired := (attemptOf bench "/srv/A.php" d).made
  have hrepaired : (attemptOf bench "/srv/A.php" d).result = .ok repaired := rfl
  have hresult : repaired.result = "<?php\n".toList := by decide +kernel
  have hchanged : repaired.isChanged := by
    rw [Repair.Repaired.isChanged, hresult]
    decide
  have hanswer : (codeActions bench (empty.afterAll events) params).answer =
      some (.ok (.arr [repairAction uri d "<?php\n".toList (.arr [])])) := by
    rw [answer_codeActions_of_repairable? huri hd hrepaired, if_pos hchanged, hresult]
    rfl
  refine ⟨hanswer, by decide +kernel, ?_, ?_⟩
  · exact ⟨[.notice (.opened uri opened), .notice (.changed uri changed)],
      ⟨uri, "/srv/A.php", opened⟩, [hint], [], rfl, by decide +kernel, rfl, rfl,
      by decide +kernel, by simp⟩
  · exact offered_repair_replaces_latest_text_iff bench events params hanswer

end LintMend.Server
