import LintMend.Proofs.Lint.Source
import LintMend.Proofs.Report.Phpcs

/-!
# The order of the code sniffer's hints

A report of the code sniffer on one file becomes hints in the order of their positions. Where
several rulesets cover a file there is a report for each of them, and their hints follow each other
report by report. They are in order together only if no report begins before an earlier one ends.
-/

namespace LintMend

/-- By lines, and in one line by both columns. -/
def Hint.AtOrBefore (a b : Hint) : Prop :=
  a.lineBegin < b.lineBegin ∨
    a.lineBegin = b.lineBegin ∧ a.columnBegin ≤ b.columnBegin ∧ a.columnEnd ≤ b.columnEnd

instance (a b : Hint) : Decidable (a.AtOrBefore b) := by
  unfold Hint.AtOrBefore
  infer_instance

/-! ## One report -/

namespace Report.Phpcs

/-- A report on one file at most, which counts lines from one. -/
structure IsOnFile (report : Files) : Prop where
  single : report.length ≤ 1
  lines : ∀ entries ∈ report, ∀ message ∈ entries.filterMap Entry.message?, 1 ≤ message.line

instance (report : Files) : Decidable (IsOnFile report) :=
  decidable_of_iff (report.length ≤ 1 ∧ ∀ entries ∈ report,
    ∀ message ∈ entries.filterMap Entry.message?, 1 ≤ message.line)
    ⟨fun h ↦ ⟨h.1, h.2⟩, fun h ↦ ⟨h.single, h.lines⟩⟩

/-- Counting from zero keeps the order of two lines unless one of them is numbered zero. -/
theorem atOrBefore_hint {a b : Message} (h : a.place ≤ b.place) (ha : 1 ≤ a.line) :
    a.hint.AtOrBefore b.hint := by
  rw [Message.place, Message.place, Prod.Lex.toLex_le_toLex] at h
  rw [Hint.AtOrBefore]
  simp only [Message.hint, Adapter.hint]
  omega

theorem pairwise_hints {report : Files} (h : IsOnFile report) :
    (hints report).Pairwise Hint.AtOrBefore := by
  match report, h with
  | [], _ => exact .nil
  | [entries], h =>
    simp only [hints, List.flatMap_cons, List.flatMap_nil, List.append_nil, List.pairwise_map]
    refine (pairwise_messages entries).imp_of_mem fun {a b} ha _ hle ↦ atOrBefore_hint hle ?_
    exact h.lines entries List.mem_cons_self a (List.mem_mergeSort.mp ha)
  | _ :: _ :: _, h => simpa using h.single

/-- The hints of an output are in order if it is blank or a report on one file. -/
theorem pairwise_hints? {output : Text} {found : List Hint}
    (h : ∀ report ∈ (Xml.parse? output).bind ofNode?, IsOnFile report)
    (hfound : hints? output = some found) : found.Pairwise Hint.AtOrBefore := by
  rw [hints?] at hfound
  split at hfound
  · obtain rfl : [] = found := by simpa using hfound
    exact .nil
  · obtain ⟨report, hreport, rfl⟩ := Option.map_eq_some_iff.mp hfound
    exact pairwise_hints (h report hreport)

end Report.Phpcs

/-! ## Several reports -/

open Report.Phpcs

variable {manager : Manager} {world : World} {tools : ToolPaths} {dataDir path : String}
  {content : Content}

namespace AdapterRun

theorem pairwise_found_launch {ruleset : Option String}
    (h : ∀ output ∈ (launch world tools .phpcs path content ruleset).output.toOption,
      ∀ report ∈ (Xml.parse? output.stdout.lossy).bind ofNode?, IsOnFile report) :
    (launch world tools .phpcs path content ruleset).hints.found.Pairwise Hint.AtOrBefore := by
  simp only [launch] at h ⊢
  cases houtput : world.launch (Adapter.phpcs.program tools)
      (Adapter.phpcs.args tools (scanPath world path) (ruleset.getD "")) content with
  | error => exact .nil
  | ok output =>
    rw [houtput] at h
    cases hfound : hints? output.stdout.lossy with
    | none => simp [Adapter.hints?, hfound]
    | some found => simpa [Adapter.hints?, hfound] using pairwise_hints? (h output rfl) hfound

end AdapterRun

/-- The hints of the code sniffer in a report are those of its runs for each ruleset, one run after
the other. Every run gives them in order; all of them are in order exactly if no run gives a hint
that belongs before one of an earlier run. -/
theorem pairwise_phpcs_hints_iff (manager : Manager) (world : World) (path : String)
    (content : Content) (hnames : manager.roster.names.Nodup)
    (hactive : Adapter.phpcs.name ∈ manager.roster.running)
    (houtput : ∀ run ∈ (AdapterRun.of world manager.tools manager.dataDir path content .phpcs).runs,
      ∀ output ∈ run.output.toOption,
      ∀ report ∈ (Xml.parse? output.stdout.lossy).bind ofNode?, IsOnFile report) :
    let sniffer := AdapterRun.of world manager.tools manager.dataDir path content .phpcs
    let runs := sniffer.runs.map (·.hints.found)
    let reported := (manager.lintContent world path content).report.hints.filter
      (·.source = Adapter.phpcs.name)
    reported = sniffer.hints.found ∧ sniffer.hints.found = runs.flatten ∧
    (∀ run ∈ runs, run.Pairwise Hint.AtOrBefore) ∧
    (reported.Pairwise Hint.AtOrBefore ↔
      runs.Pairwise fun earlier later ↦ ∀ a ∈ earlier, ∀ b ∈ later, a.AtOrBefore b) := by
  intro sniffer runs reported
  have hreported : reported = sniffer.hints.found :=
    Manager.filter_source_lintContent hnames hactive
  have hfound : sniffer.hints.found = runs.flatten := AdapterRun.found_of
  have hruns : ∀ run ∈ runs, run.Pairwise Hint.AtOrBefore := by
    intro hints hhints
    obtain ⟨run, hrun, rfl⟩ := List.mem_map.mp hhints
    have hone := houtput run hrun
    obtain ⟨ruleset, rfl⟩ := AdapterRun.exists_ruleset_of_mem_runs hrun
    exact AdapterRun.pairwise_found_launch hone
  refine ⟨hreported, hfound, hruns, ?_⟩
  rw [hreported, hfound, List.pairwise_flatten]
  exact and_iff_right hruns

/-- Two rulesets cover the file, and the first one finds something below what the second one
finds. -/
theorem pairwise_phpcs_hints_of_two_rulesets :
    let reportOf (line message : String) : Text :=
      "<phpcs><file><error line='".toList ++ line.toList ++ "' column='9'>".toList ++
        message.toList ++ "</error></file></phpcs>".toList
    let world : World :=
      { files := ⟨"/data", [(["phpcs"], .directory),
          (["phpcs", "rulesets.csv"], .file (.text "/srv,PSR1\n/srv,PSR2\n".toList))]⟩
        isProgram := fun program ↦ program == "phpcs"
        launch := fun _ args _ ↦
          if args.contains "--standard=PSR1" then
            .ok ⟨.text (reportOf "4" "Whitespace found at end of line"), .text [], .ofExitCode 2⟩
          else
            .ok ⟨.text (reportOf "2"
              "Opening brace of a class must be on the line after the definition"), .text [],
              .ofExitCode 2⟩
        scratch := "/tmp/scan"
        copyFault := fun _ _ ↦ none
        xmlFault := fun _ _ ↦ "" }
    let manager : Manager := ⟨⟨Adapter.all.map (·.name), ["phpcs"]⟩, .standard, "/data"⟩
    let content : Content := .text "<?php\nclass A \x7b\n\n    f();  \n\x7d\n".toList
    let sniffer := AdapterRun.of world manager.tools manager.dataDir "/srv/A.php" content .phpcs
    let reported := (manager.lintContent world "/srv/A.php" content).report.hints.filter
      (·.source = Adapter.phpcs.name)
    manager.roster.names.Nodup ∧ Adapter.phpcs.name ∈ manager.roster.running ∧
    (∀ run ∈ sniffer.runs, ∀ output ∈ run.output.toOption,
      ∀ report ∈ (Xml.parse? output.stdout.lossy).bind ofNode?, IsOnFile report) ∧
    reported = sniffer.hints.found ∧ reported.map (·.lineBegin) = [3, 1] ∧
    ¬ reported.Pairwise Hint.AtOrBefore := by
  intro reportOf world manager content sniffer reported
  have hnames : manager.roster.names.Nodup := by decide +kernel
  have hactive : Adapter.phpcs.name ∈ manager.roster.running := by decide +kernel
  have houtput : ∀ run ∈ sniffer.runs, ∀ output ∈ run.output.toOption,
      ∀ report ∈ (Xml.parse? output.stdout.lossy).bind ofNode?, IsOnFile report := by
    decide +kernel
  obtain ⟨hsame, -, -, hiff⟩ :
      reported = sniffer.hints.found ∧ _ ∧ _ ∧ (reported.Pairwise Hint.AtOrBefore ↔ _) :=
    pairwise_phpcs_hints_iff manager world "/srv/A.php" content hnames hactive houtput
  have hlines : reported.map (·.lineBegin) = [3, 1] := by
    rw [hsame]
    decide +kernel
  have hruns : ¬ (sniffer.runs.map (·.hints.found)).Pairwise fun earlier later ↦
      ∀ a ∈ earlier, ∀ b ∈ later, a.AtOrBefore b := by
    decide +kernel
  exact ⟨hnames, hactive, houtput, hsame, hlines, fun h ↦ hruns (hiff.mp h)⟩

end LintMend
