import LintMend.Proofs.Cli.Repair
import LintMend.Proofs.Report.Places
import Mathlib.Data.List.Forall2

/-!
# What a lint reports

A lint makes an entry of each of its files, in their order, and prints them with a summary. An entry
holds every hint of its file with the places counted from one. So there is none where a tool has
named the last column that there is a number for, and the run ends there, with what it has printed
but without a summary. Nothing else that a tool can write has this effect.
-/

namespace LintMend

variable {path : String} {report : LintReport AdapterError} {entry : Entry}

/-! ## Entries -/

/-- An entry shows all hints of a report, in their order. -/
theorem Entry.linted?_eq_some_iff : linted? path report = some entry ↔
    ∃ infos, List.Forall₂ (fun hint info ↦ HintInfo.ofHint? hint = some info) report.hints infos ∧
      linted path infos report.failures = entry := by
  simp only [linted?, Option.map_eq_some_iff, mapM_eq_some_iff]

theorem mapM_ofHint?_eq_none_iff {hints : List Hint} :
    hints.mapM HintInfo.ofHint? = none ↔ ∃ hint ∈ hints, HintInfo.ofHint? hint = none := by
  induction hints with
  | nil => simp
  | cons hint hints ih =>
    rw [List.mapM_cons, List.exists_mem_cons_iff, ← ih]
    cases HintInfo.ofHint? hint <;> cases hints.mapM HintInfo.ofHint? <;> simp

/-- A report has an entry unless one of its hints is none for a reader. -/
theorem Entry.linted?_eq_none_iff : linted? path report = none ↔
    ∃ hint ∈ report.hints, HintInfo.ofHint? hint = none := by
  rw [linted?, Option.map_eq_none_iff, mapM_ofHint?_eq_none_iff]

/-! ## Printing -/

namespace Printed

theorem append_assoc (a b c : Printed) : (a.append b).append c = a.append (b.append c) := by
  simp [append, String.append_assoc]

theorem none_append (a : Printed) : Printed.none.append a = a := by
  simp [append, none]

theorem append_none (a : Printed) : a.append .none = a := by
  simp [append, none]

theorem all_cons (a : Printed) (parts : List Printed) : all (a :: parts) = a.append (all parts) := by
  have hfold : ∀ first : Printed, parts.foldl append first = first.append (all parts) := by
    unfold all
    induction parts with
    | nil => exact fun first ↦ (append_none first).symm
    | cons b parts ih =>
      intro first
      rw [List.foldl_cons, List.foldl_cons, ih, ih (Printed.none.append b), none_append,
        append_assoc]
  rw [all, List.foldl_cons, hfold, none_append]

end Printed

namespace Cli

variable {s : Setting} {settings : ProjectSettings} {d : Display} {manager : Manager}
  {paths : List String} {p q : Progress} {result : Except RepairError LintRun}
  {results : List (String × Except RepairError LintRun)} {entries : List Entry}

theorem Job.bind_of_ok {α β : Type} {job : Job α} {next : α → Job β} {a : α}
    (h : job p = (.ok a, q)) : (job >>= next) p = next a q := by
  change Job.bind job next p = _
  rw [Job.bind, h]

theorem Job.bind_of_error {α β : Type} {job : Job α} {next : α → Job β} {reason : Halt}
    (h : job p = (.error reason, q)) : (job >>= next) p = (.error reason, q) := by
  change Job.bind job next p = _
  rw [Job.bind, h]

/-- A run that has printed something more. -/
def Progress.with (p : Progress) (printed : Printed) : Progress :=
  { p with printed := p.printed.append printed }

theorem Progress.with_with (p : Progress) (a b : Printed) :
    (p.with a).with b = p.with (a.append b) := by
  simp only [Progress.with, Printed.append_assoc]

/-! ## One after the other -/

/-- The entry of a lint. -/
def lintEntry? (path : String) : Except RepairError LintRun → Option Entry
  | .ok run => Entry.linted? path run.report
  | .error e => some (.failed path (joinChain e.chain))

theorem reportLint_of_some (h : lintEntry? path result = some entry) :
    reportLint d path result p = (.ok entry, p.with (d.entry .lint entry)) := by
  cases result with
  | error e =>
    obtain rfl := Option.some.inj h
    rfl
  | ok run =>
    have hlinted : Entry.linted? path run.report = some entry := h
    simp only [reportLint, hlinted]
    rfl

theorem reportLint_of_none (h : lintEntry? path result = none) :
    ∃ printed, reportLint d path result p = (.error .overflow, p.with printed) := by
  cases result with
  | error e => cases h
  | ok run =>
    have hlinted : Entry.linted? path run.report = none := h
    refine ⟨d.cutOff path run.report, ?_⟩
    simp only [reportLint, hlinted]
    rfl

/-- The entries of some lints, in their order. -/
abbrev Entries (results : List (String × Except RepairError LintRun)) (entries : List Entry) :
    Prop :=
  List.Forall₂ (fun result entry ↦ lintEntry? result.1 result.2 = some entry) results entries

/-- Lints are reported up to the first that has no entry. -/
theorem reportLints_cases (d : Display) (results : List (String × Except RepairError LintRun))
    (p : Progress) :
    (∃ entries, Entries results entries ∧ reportLints d results p =
      (.ok entries, p.with (Printed.all (entries.map (d.entry .lint))))) ∨
    (∃ result ∈ results, lintEntry? result.1 result.2 = none) ∧
      ∃ printed, reportLints d results p = (.error .overflow, p.with printed) := by
  induction results generalizing p with
  | nil =>
    have hnothing : p.with (Printed.all []) = p := by
      rw [Progress.with, show Printed.all [] = .none from rfl, Printed.append_none]
    exact .inl ⟨[], .nil, by rw [List.map_nil, hnothing]; rfl⟩
  | cons result results ih =>
    obtain ⟨path, result⟩ := result
    cases hentry : lintEntry? path result with
    | none =>
      obtain ⟨printed, hreport⟩ := reportLint_of_none (d := d) (p := p) hentry
      exact .inr ⟨⟨_, List.mem_cons_self, hentry⟩, printed, Job.bind_of_error hreport⟩
    | some entry =>
      have hfirst : reportLints d ((path, result) :: results) p = _ :=
        Job.bind_of_ok (reportLint_of_some hentry)
      rw [hfirst]
      rcases ih (p.with (d.entry .lint entry)) with ⟨entries, hentries, hreports⟩ |
        ⟨⟨other, hother, hnone⟩, printed, hreports⟩
      · refine .inl ⟨entry :: entries, .cons hentry hentries, ?_⟩
        rw [Job.bind_of_ok hreports, Progress.with_with, List.map_cons, Printed.all_cons]
        rfl
      · refine .inr ⟨⟨other, List.mem_cons_of_mem _ hother, hnone⟩,
          (d.entry .lint entry).append printed, ?_⟩
        rw [Job.bind_of_error hreports, Progress.with_with]

/-! ## The command -/

/-- The lints that a run makes: of the text that it is given, or of the files that it finds. -/
inductive Lints (s : Setting) (settings : ProjectSettings) (manager : Manager)
    (paths : List String) (p : Progress) :
    Option String → List (String × Except RepairError LintRun) → Prop
  | input {path : String} {text : Text} (h : s.stdin.text? = some text) :
      Lints s settings manager paths p (some path)
        [(path, manager.lintTextFor { s.world with files := p.files } path text)]
  | found : Lints s settings manager paths p none
      ((Collected.ofPaths p.files settings paths).files.map fun path ↦
        (path, manager.lintFor { s.world with files := p.files } path))

/-- The files after some lints, which are in the log. -/
def filesLinted (s : Setting) (p : Progress) (results : List (String × Except RepairError LintRun)) :
    FileTree :=
  filesLogged s.stamp (results.flatMap fun result ↦ lintLog result.2) p.files p.logPath

theorem log_eq (stamp : String) (entries : Log) (p : Progress) : Job.log stamp entries p =
    (.ok (), { p with files := filesLogged stamp entries p.files p.logPath }) := by
  obtain ⟨printed, files, logPath⟩ := p
  cases logPath <;> rfl

theorem currentWorld_eq (s : Setting) (p : Progress) :
    currentWorld s p = (.ok { s.world with files := p.files }, p) := rfl

theorem lintInput_eq {path : String} {text : Text} (h : s.stdin.text? = some text) :
    let results := [(path, manager.lintTextFor { s.world with files := p.files } path text)]
    lintInput s manager path p =
      (.ok results, ⟨p.printed, filesLinted s p results, p.logPath⟩) := by
  intro results
  have hlogged : filesLinted s p results = filesLogged s.stamp
      (lintLog (manager.lintTextFor { s.world with files := p.files } path text)) p.files
      p.logPath := by
    simp [filesLinted, results]
  rw [hlogged, lintInput, h]
  exact (Job.bind_of_ok (currentWorld_eq s p)).trans (Job.bind_of_ok (log_eq ..))

theorem lintFiles_eq (s : Setting) (settings : ProjectSettings) (d : Display) (manager : Manager)
    (paths : List String) (p : Progress) :
    let collected := Collected.ofPaths p.files settings paths
    let results := collected.files.map fun path ↦
      (path, manager.lintFor { s.world with files := p.files } path)
    lintFiles s settings d manager paths p = (.ok results,
      ⟨p.printed.append (missingLines d collected.missing), filesLinted s p results,
        p.logPath⟩) := by
  intro collected results
  refine (Job.bind_of_ok (currentWorld_eq s p)).trans ?_
  refine (Job.bind_of_ok (q := p.with (missingLines d collected.missing)) rfl).trans ?_
  exact Job.bind_of_ok (log_eq ..)

variable {stdinPath : Option String}

/-- A lint adds to the log, and makes and prints a result or ends before. -/
theorem runLint_cases (h : Lints s settings manager paths p stdinPath results) (d : Display) :
    ∃ earlier : Printed,
    (∃ entries, Entries results entries ∧ runLint s settings d manager paths stdinPath p =
      (.ok (lintStatus (Summary.ofEntries entries)),
        ⟨earlier.append (d.results .lint entries), filesLinted s p results, p.logPath⟩)) ∨
    (∃ result ∈ results, lintEntry? result.1 result.2 = none) ∧
      ∃ printed, runLint s settings d manager paths stdinPath p =
        (.error .overflow, ⟨earlier.append printed, filesLinted s p results, p.logPath⟩) := by
  obtain ⟨earlier, hlinted⟩ : ∃ earlier : Printed,
      runLint s settings d manager paths stdinPath p =
        (do
          let entries ← reportLints d results
          Job.print (d.finish .lint entries)
          return lintStatus (Summary.ofEntries entries) : Job UInt8)
        ⟨earlier, filesLinted s p results, p.logPath⟩ := by
    cases h with
    | input h => exact ⟨p.printed, Job.bind_of_ok (lintInput_eq h)⟩
    | found => exact ⟨_, Job.bind_of_ok (lintFiles_eq s settings d manager paths p)⟩
  refine ⟨earlier, ?_⟩
  rw [hlinted]
  rcases reportLints_cases d results ⟨earlier, filesLinted s p results, p.logPath⟩ with
    ⟨entries, hentries, hreports⟩ | ⟨hnone, printed, hreports⟩
  · refine .inl ⟨entries, hentries, ?_⟩
    rw [Job.bind_of_ok hreports, Display.results, ← Printed.append_assoc]
    rfl
  · exact .inr ⟨hnone, printed, Job.bind_of_error hreports⟩

/-! ## Where a lint ends -/

theorem mapError_eq_ok_iff {ε ε' α : Type} {f : ε → ε'} {checked : Except ε α} {a : α} :
    checked.mapError f = .ok a ↔ checked = .ok a := by
  cases checked <;> simp [Except.mapError]

theorem exists_of_lintFor {path : String} {world : World} {run : LintRun}
    (h : manager.lintFor world path = .ok run) :
    ∃ content, manager.lintCopy world path content = .ok run := by
  have hfile : manager.lintFile world path = .ok run := mapError_eq_ok_iff.mp h
  rw [Manager.lintFile] at hfile
  split at hfile
  · next content _ => exact ⟨content, hfile⟩
  · cases hfile

/-- The places of the hints of a run are words of 64 bits. -/
theorem Lints.isPlaced (h : Lints s settings manager paths p stdinPath results) {path : String}
    {run : LintRun} (hmem : (path, .ok run) ∈ results) :
    ∀ hint ∈ run.report.hints, hint.IsPlaced := by
  cases h with
  | @input _ text h =>
    obtain ⟨rfl, hlint⟩ := Prod.mk.inj (List.mem_singleton.mp hmem)
    have hcopy : manager.lintCopy _ path (.text text) = .ok run :=
      mapError_eq_ok_iff.mp hlint.symm
    exact fun hint ↦ Manager.isPlaced_of_lintCopy hcopy
  | found =>
    obtain ⟨other, -, heq⟩ := List.mem_map.mp hmem
    obtain ⟨rfl, hlint⟩ := Prod.mk.inj heq
    obtain ⟨content, hcopy⟩ := exists_of_lintFor hlint
    exact fun hint ↦ Manager.isPlaced_of_lintCopy hcopy

/-- There is no entry of a lint exactly if some hint of it ends at the last number. -/
theorem Lints.exists_lintEntry?_eq_none_iff
    (h : Lints s settings manager paths p stdinPath results) :
    (∃ result ∈ results, lintEntry? result.1 result.2 = none) ↔
      ∃ path run, (path, .ok run) ∈ results ∧
        ∃ hint ∈ run.report.hints, hint.columnEnd = words64 - 1 := by
  constructor
  · rintro ⟨⟨path, result⟩, hmem, hnone⟩
    cases result with
    | error e => cases hnone
    | ok run =>
      obtain ⟨hint, hhint, hlast⟩ := Entry.linted?_eq_none_iff.mp hnone
      exact ⟨path, run, hmem, hint, hhint,
        (HintInfo.ofHint?_eq_none_iff (h.isPlaced hmem hint hhint)).mp hlast⟩
  · rintro ⟨path, run, hmem, hint, hhint, hlast⟩
    exact ⟨_, hmem, Entry.linted?_eq_none_iff.mpr ⟨hint, hhint,
      (HintInfo.ofHint?_eq_none_iff (h.isPlaced hmem hint hhint)).mpr hlast⟩⟩

theorem exists_entry_of_mem {result : String × Except RepairError LintRun}
    (h : Entries results entries) (hmem : result ∈ results) :
    ∃ entry, lintEntry? result.1 result.2 = some entry := by
  induction h with
  | nil => cases hmem
  | cons hentry _ ih =>
    rcases List.mem_cons.mp hmem with rfl | hmem
    · exact ⟨_, hentry⟩
    · exact ih hmem

/-- What each entry says of its lint, some entry says of some lint. -/
theorem exists_entry_iff_of_entries {P : Entry → Prop} {Q : Except RepairError LintRun → Prop}
    (hiff : ∀ path result entry, lintEntry? path result = some entry → (P entry ↔ Q result))
    (h : Entries results entries) :
    (∃ entry ∈ entries, P entry) ↔ ∃ path result, (path, result) ∈ results ∧ Q result := by
  induction h with
  | nil => simp
  | @cons result entry results entries hentry _ ih =>
    obtain ⟨path, result⟩ := result
    rw [List.exists_mem_cons_iff, ih, hiff path result entry hentry]
    constructor
    · rintro (hQ | ⟨path', result', hmem, hQ⟩)
      · exact ⟨path, result, List.mem_cons_self, hQ⟩
      · exact ⟨path', result', List.mem_cons_of_mem _ hmem, hQ⟩
    · rintro ⟨path', result', hmem, hQ⟩
      rcases List.mem_cons.mp hmem with heq | hmem
      · exact .inl ((Prod.mk.inj heq).2 ▸ hQ)
      · exact .inr ⟨path', result', hmem, hQ⟩

theorem isSome_error?_iff (h : lintEntry? path result = some entry) :
    entry.error?.isSome ↔ ∃ e, result = .error e := by
  cases result with
  | error e =>
    obtain rfl := Option.some.inj h
    simp [Entry.error?]
  | ok run =>
    obtain ⟨infos, -, rfl⟩ := Entry.linted?_eq_some_iff.mp h
    simp [Entry.error?]

theorem hints_ne_nil_iff (h : lintEntry? path result = some entry) :
    entry.hints ≠ [] ↔ ∃ run, result = .ok run ∧ run.report.hints ≠ [] := by
  cases result with
  | error e =>
    obtain rfl := Option.some.inj h
    simp [Entry.hints]
  | ok run =>
    obtain ⟨infos, hinfos, rfl⟩ := Entry.linted?_eq_some_iff.mp h
    simp only [Except.ok.injEq, exists_eq_left', ne_eq, ← List.length_eq_zero_iff,
      hinfos.length_eq, Entry.hints]

/-- Errors come first, and then hints. -/
structure HasLintStatus (results : List (String × Except RepairError LintRun)) (status : UInt8) :
    Prop where
  failed : status = 1 ↔ ∃ path e, (path, .error e) ∈ results
  found : status = 2 ↔ (∀ path e, (path, .error e) ∉ results) ∧
    ∃ path run, (path, .ok run) ∈ results ∧ run.report.hints ≠ []
  clean : status = 0 ↔ (∀ path e, (path, .error e) ∉ results) ∧
    ∀ path run, (path, .ok run) ∈ results → run.report.hints = []

theorem hasLintStatus_lintStatus (h : Entries results entries) :
    HasLintStatus results (lintStatus (Summary.ofEntries entries)) := by
  have herrors : 0 < (Summary.ofEntries entries).errors ↔ ∃ path e, (path, .error e) ∈ results := by
    rw [Summary.errors_pos_iff, exists_entry_iff_of_entries (fun _ _ _ ↦ isSome_error?_iff) h]
    grind
  have hhints : 0 < (Summary.ofEntries entries).totalHints ↔
      ∃ path run, (path, .ok run) ∈ results ∧ run.report.hints ≠ [] := by
    rw [Summary.totalHints_pos_iff, exists_entry_iff_of_entries (fun _ _ _ ↦ hints_ne_nil_iff) h]
    grind
  have hsucceeds : ¬ 0 < (Summary.ofEntries entries).errors ↔
      ∀ path e, (path, .error e) ∉ results := by
    rw [herrors]
    push Not
    rfl
  have hsilent : ¬ 0 < (Summary.ofEntries entries).totalHints ↔
      ∀ path run, (path, .ok run) ∈ results → run.report.hints = [] := by
    rw [hhints]
    push Not
    rfl
  obtain ⟨hfailed, hfound, hclean⟩ := status_iff (0 < (Summary.ofEntries entries).errors)
    (0 < (Summary.ofEntries entries).totalHints)
  constructor
  case failed => exact hfailed.trans herrors
  case found => exact hfound.trans (and_congr hsucceeds hhints)
  case clean => exact hclean.trans (and_congr hsucceeds hsilent)

/-- A lint ends before its time exactly if some hint ends in the last column that there is a number
for. Otherwise it prints the entries of all its lints at the end, and its status says whether there
was an error and whether there are hints. In either case nothing is changed but the log. -/
theorem runLint_ends (h : Lints s settings manager paths p stdinPath results) (d : Display) :
    let ran := runLint s settings d manager paths stdinPath p
    let halts := ∃ path run, (path, .ok run) ∈ results ∧
      ∃ hint ∈ run.report.hints, hint.columnEnd = words64 - 1
    (ran.1 = .error .overflow ↔ halts) ∧
    (¬ halts → ∃ entries earlier status, Entries results entries ∧ ran.1 = .ok status ∧
      ran.2.printed = Printed.append earlier (d.results .lint entries) ∧
      HasLintStatus results status) ∧
    FileTree.KeepsBut (LogAt p.logPath p.files) p.files ran.2.files := by
  intro ran halts
  have hfiles := keepsBut_filesLogged s.stamp (results.flatMap fun result ↦ lintLog result.2)
    p.files p.logPath
  obtain ⟨earlier, ⟨entries, hentries, hran⟩ | ⟨hnone, printed, hran⟩⟩ := runLint_cases h d
  · have hmade : ¬ halts := by
      intro hhalts
      obtain ⟨result, hmem, hnone⟩ := h.exists_lintEntry?_eq_none_iff.mpr hhalts
      obtain ⟨entry, hentry⟩ := exists_entry_of_mem hentries hmem
      simp [hnone] at hentry
    have hran : ran = _ := hran
    rw [hran]
    exact ⟨by simpa using hmade,
      fun _ ↦ ⟨entries, earlier, _, hentries, rfl, rfl, hasLintStatus_lintStatus hentries⟩, hfiles⟩
  · have hhalts : halts := h.exists_lintEntry?_eq_none_iff.mp hnone
    have hran : ran = _ := hran
    rw [hran]
    exact ⟨iff_of_true rfl hhalts, fun hnot ↦ absurd hhalts hnot, hfiles⟩

end Cli

end LintMend
