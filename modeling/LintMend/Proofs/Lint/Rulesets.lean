import LintMend.Proofs.Lint.Source
import LintMend.Proofs.Registry.File

/-!
# Adapters that run once for each ruleset

The mess detector and the code sniffer launch their program once for each row of their registry that
covers the file. Of these runs some may fail. A failure counts only where no run succeeds, and then
it is the first one that is reported; so whatever is reported is decided by two questions, whether
there was a run at all and whether one of them succeeded.
-/

namespace LintMend

variable {world : World} {tools : ToolPaths} {dataDir path : String} {content : Content}
  {adapter : Adapter} {error : AdapterError} {hints : List Hint} {results : List Hints}

namespace AdapterRun

/-! ## The registry -/

/-- The rulesets of the rows whose directory the path of a file begins with, one for each such row.
The mess detector leaves out those that are not there. -/
def rulesetsOfRows (world : World) (adapter : Adapter) (path : String) (rows : List Ruleset) :
    List String :=
  ((rows.filter fun row ↦ row.directory.toList <+: path.toList).map (·.ruleset)).filter
    fun ruleset ↦ adapter = .phpmd → world.files.has ruleset

theorem rulesets_eq : rulesets world dataDir adapter path =
    (Registry.allAt world.files (Registry.pathFor dataDir adapter.name)).map
      (rulesetsOfRows world adapter path) := by
  have hcovers (row : Ruleset) :
      row.appliesTo path = decide (row.directory.toList <+: path.toList) := by
    rw [Ruleset.appliesTo, Bool.eq_iff_iff, List.isPrefixOf_iff_prefix, decide_eq_true_iff]
  have hthere (ruleset : String) : (adapter ≠ .phpmd || world.files.has ruleset) =
      decide (adapter = .phpmd → world.files.has ruleset) := by
    by_cases hadapter : adapter = .phpmd <;> simp [hadapter]
  rw [rulesets, Registry.matchingAt_eq]
  cases Registry.allAt world.files (Registry.pathFor dataDir adapter.name) with
  | error e => rfl
  | ok rows => simp only [Except.map, rulesetsOfRows, hcovers, hthere]

/-! ## One run -/

/-- A run without hints: its program was not launched, or what it wrote cannot be read. -/
def FailsWith (world : World) (adapter : Adapter) (run : ToolRun) (error : AdapterError) : Prop :=
  match run.output with
  | .error fault => error = .launch run.program fault
  | .ok output => adapter.hints? output.stdout.lossy = none ∧
      error = .parse adapter (world.xmlFault adapter output.stdout.lossy)

theorem hints_launch_eq_error_iff {ruleset : Option String} :
    (launch world tools adapter path content ruleset).hints = .error error ↔
      FailsWith world adapter (launch world tools adapter path content ruleset) error := by
  simp only [launch, FailsWith, Adapter.parseOutput]
  generalize world.launch _ _ _ = output
  cases output with
  | ok output =>
    cases hfound : adapter.hints? output.stdout.lossy with
    | none => simp [hfound, eq_comm]
    | some hints => simp [hfound]
  | error fault => rw [Except.error.injEq, eq_comm]

/-- The hints that the output of a run is read as; none of a run that fails. -/
def given (adapter : Adapter) (run : ToolRun) : List Hint :=
  match run.output with
  | .error _ => []
  | .ok output => (adapter.hints? output.stdout.lossy).getD []

theorem found_launch {ruleset : Option String} :
    (launch world tools adapter path content ruleset).hints.found =
      given adapter (launch world tools adapter path content ruleset) := by
  simp only [launch, given]
  generalize world.launch _ _ _ = output
  cases output with
  | ok output => exact Adapter.found_parseOutput _
  | error fault => rfl

/-! ## Several runs -/

theorem isOk_eq_false_iff {result : Hints} : result.isOk = false ↔ ∃ e, result = .error e := by
  cases result <;> simp [Except.isOk, Except.toBool]

/-- The first failure is reported where there are runs and all of them fail. -/
theorem combine_eq_error_iff : combine results = .error error ↔
    results.head? = some (.error error) ∧ ∀ result ∈ results, ∃ e, result = .error e := by
  simp only [← isOk_eq_false_iff]
  constructor
  · intro h
    rw [combine] at h
    split at h
    · next e hfind =>
      split at h
      · cases h
      · next hnone =>
        obtain rfl : e = error := Except.error.inj h
        have hall : ∀ result ∈ results, result.isOk = false := by simpa using hnone
        refine ⟨?_, hall⟩
        cases results with
        | nil => simp at hfind
        | cons result rest => simpa [hall result List.mem_cons_self] using hfind
    · cases h
  · rintro ⟨hhead, hall⟩
    obtain ⟨rest, rfl⟩ : ∃ rest, results = .error error :: rest := by
      cases results with
      | nil => cases hhead
      | cons result rest => exact ⟨rest, by rw [Option.some.inj hhead]⟩
    have hnone : (Except.error error :: rest).any (·.isOk) = false := by
      simpa only [List.any_eq_false, Bool.not_eq_true] using hall
    rw [combine, List.find?_cons_of_pos rfl]
    simp only [hnone, Bool.false_eq_true, if_false]

theorem combine_eq_ok_iff : combine results = .ok hints ↔
    (results = [] ∨ ∃ result ∈ results, result.isOk) ∧ hints = results.flatMap Hints.found := by
  rw [← found_combine]
  cases hcombine : combine results with
  | error e =>
    obtain ⟨hhead, hall⟩ := combine_eq_error_iff.mp hcombine
    refine iff_of_false nofun ?_
    rintro ⟨rfl | ⟨result, hresult, hok⟩, -⟩
    · cases hhead
    · obtain ⟨e, rfl⟩ := hall result hresult
      cases hok
  | ok found =>
    have hruns : results = [] ∨ ∃ result ∈ results, result.isOk := by
      by_contra hfails
      obtain ⟨hne, hall⟩ := not_or.mp hfails
      have herror : ∀ result ∈ results, ∃ e, result = .error e :=
        fun result hresult ↦ isOk_eq_false_iff.mp
          (Bool.eq_false_iff.mpr fun hok ↦ hall ⟨result, hresult, hok⟩)
      obtain ⟨first, rest, rfl⟩ := List.exists_cons_of_ne_nil hne
      obtain ⟨e, rfl⟩ := herror first List.mem_cons_self
      cases hcombine.symm.trans (combine_eq_error_iff.mpr ⟨rfl, herror⟩)
    rw [Except.ok.injEq, Hints.found_ok, eq_comm]
    exact (and_iff_right hruns).symm

/-! ## The adapter -/

theorem of_of_isPhp (hadapter : adapter ≠ .phplint) (hphp : isPhp path) :
    of world tools dataDir path content adapter =
      match rulesets world dataDir adapter path with
      | .error e => ⟨adapter, [], .error (.registry e)⟩
      | .ok rulesets =>
        let runs := rulesets.map fun ruleset ↦
          launch world tools adapter path content (some ruleset)
        ⟨adapter, runs, combine (runs.map (·.hints))⟩ := by
  unfold of
  rw [if_neg (not_not.mpr hphp)]
  cases adapter with
  | phplint => exact absurd rfl hadapter
  | phpmd => rfl
  | phpcs => rfl

/-- Launches are reported by whether there are some and whether one of them succeeds. -/
theorem combine_of_launches (rulesets : List String) :
    let runs := rulesets.map fun ruleset ↦
      launch world tools adapter path content (some ruleset)
    (∀ error, combine (runs.map (·.hints)) = .error error ↔
      (∃ first ∈ runs.head?, FailsWith world adapter first error) ∧
        ∀ run ∈ runs, ∃ e, FailsWith world adapter run e) ∧
    ((runs = [] ∨ ∃ run ∈ runs, ∀ e, ¬ FailsWith world adapter run e) →
      combine (runs.map (·.hints)) = .ok (runs.flatMap (given adapter))) := by
  intro runs
  have hfails : ∀ run ∈ runs, ∀ e, run.hints = .error e ↔ FailsWith world adapter run e :=
    List.forall_mem_map.mpr fun ruleset _ e ↦ hints_launch_eq_error_iff
  have hgiven : (runs.map (·.hints)).flatMap Hints.found = runs.flatMap (given adapter) := by
    rw [List.flatMap_map ToolRun.hints]
    exact List.flatMap_congr (List.forall_mem_map.mpr fun ruleset _ ↦ found_launch)
  constructor
  · intro error
    rw [combine_eq_error_iff, List.head?_map, Option.map_eq_some_iff, List.forall_mem_map]
    refine and_congr (exists_congr fun first ↦ and_congr_right fun hfirst ↦ ?_)
      (forall₂_congr fun run hrun ↦ exists_congr (hfails run hrun))
    exact hfails first (List.mem_of_mem_head? hfirst) error
  · intro hsome
    rw [combine_eq_ok_iff, List.map_eq_nil_iff]
    refine ⟨hsome.imp_right ?_, hgiven.symm⟩
    rintro ⟨run, hrun, hnot⟩
    refine ⟨run.hints, List.mem_map_of_mem hrun, ?_⟩
    by_contra hnone
    obtain ⟨e, he⟩ := isOk_eq_false_iff.mp (Bool.eq_false_iff.mpr hnone)
    exact hnot e ((hfails run hrun e).mp he)

/-- Files of other names are not linted, whatever the registry holds, and a registry that cannot be
read is reported without a run. Otherwise there is one run for each row that covers the file, and
an error, that of the first run, exactly where there were runs and none of them succeeded. -/
theorem hints_per_ruleset (world : World) (tools : ToolPaths) (dataDir path : String)
    (content : Content) (hadapter : adapter ≠ .phplint) :
    let run := of world tools dataDir path content adapter
    let registry := Registry.allAt world.files (Registry.pathFor dataDir adapter.name)
    (¬ ".php".toList <:+ path.toList → run.runs = [] ∧ run.hints = .ok []) ∧
    (".php".toList <:+ path.toList →
      (∀ e, registry = .error e → run.runs = [] ∧ run.hints = .error (.registry e)) ∧
      ∀ rows, registry = .ok rows →
        (run.runs = (rulesetsOfRows world adapter path rows).map fun ruleset ↦
          launch world tools adapter path content (some ruleset)) ∧
        (∀ error, run.hints = .error error ↔
          (∃ first ∈ run.runs.head?, FailsWith world adapter first error) ∧
            ∀ single ∈ run.runs, ∃ e, FailsWith world adapter single e) ∧
        ((run.runs = [] ∨ ∃ single ∈ run.runs, ∀ e, ¬ FailsWith world adapter single e) →
          run.hints = .ok (run.runs.flatMap (given adapter)))) := by
  intro run registry
  have hphp : isPhp path ↔ ".php".toList <:+ path.toList := List.isSuffixOf_iff_suffix
  rw [← hphp]
  constructor
  · intro hother
    have hrun : run = ⟨adapter, [], .ok []⟩ := if_pos hother
    rw [hrun]
    exact ⟨rfl, rfl⟩
  · intro hlinted
    have hrun : run = _ := of_of_isPhp hadapter hlinted
    rw [rulesets_eq] at hrun
    refine ⟨fun e herror ↦ ?_, fun rows hrows ↦ ?_⟩
    · rw [show Registry.allAt _ _ = _ from herror] at hrun
      rw [hrun]
      exact ⟨rfl, rfl⟩
    · rw [show Registry.allAt _ _ = _ from hrows] at hrun
      rw [hrun]
      exact ⟨rfl, combine_of_launches _⟩

/-- Of the three rows for the sniffer one can be checked; of the two for the detector one is there. -/
theorem hints_per_ruleset_of_failing_runs :
    let report : Text :=
      "<phpcs><file><error line='2' column='9'>m</error></file></phpcs>".toList
    let world : World :=
      { files := ⟨"/data", [(["phpcs"], .directory), (["phpmd"], .directory),
          (["phpcs", "rulesets.csv"],
            .file (.text "/srv,Broken\n/opt,PSR1\n/srv,PSR2\n/srv,Broken\n".toList)),
          (["phpmd", "rulesets.csv"], .file (.text "/srv,gone\n/srv,naming\n".toList)),
          (["naming"], .file (.text []))]⟩
        isProgram := fun _ ↦ true
        launch := fun _ args _ ↦
          if args.contains "--standard=PSR2" then .ok ⟨.text report, .text [], .ofExitCode 2⟩
          else .error .notFound
        scratch := "/tmp/scan"
        copyFault := fun _ _ ↦ none
        xmlFault := fun _ _ ↦ "" }
    let content : Content := .text "<?php\n".toList
    let run := of world .standard "/data" "/srv/A.php" content
    ((run .phpcs).runs.map (·.ruleset) = [some "Broken", some "PSR2", some "Broken"] ∧
      (run .phpcs).hints = .ok [Adapter.phpcs.hint 1 1 8 9 "m".toList]) ∧
    ((run .phpmd).runs.map (·.ruleset) = [some "naming"] ∧
      (run .phpmd).hints = .error (.launch "phpmd" .notFound)) ∧
    (of world .standard "/data" "/srv/A.txt" content .phpcs).hints = .ok [] := by
  intro report world content run
  have hlinted : ".php".toList <:+ "/srv/A.php".toList := by decide
  obtain ⟨-, hsniffer⟩ := hints_per_ruleset world .standard "/data" "/srv/A.php" content
    (show Adapter.phpcs ≠ .phplint by decide)
  obtain ⟨-, hdetector⟩ := hints_per_ruleset world .standard "/data" "/srv/A.php" content
    (show Adapter.phpmd ≠ .phplint by decide)
  obtain ⟨hother, -⟩ := hints_per_ruleset world .standard "/data" "/srv/A.txt" content
    (show Adapter.phpcs ≠ .phplint by decide)
  obtain ⟨hruns, -, hok⟩ := (hsniffer hlinted).2
    [⟨"/srv", "Broken"⟩, ⟨"/opt", "PSR1"⟩, ⟨"/srv", "PSR2"⟩, ⟨"/srv", "Broken"⟩] (by decide +kernel)
  obtain ⟨hruns', herror, -⟩ := (hdetector hlinted).2
    [⟨"/srv", "gone"⟩, ⟨"/srv", "naming"⟩] (by decide +kernel)
  refine ⟨⟨by rw [hruns]; decide +kernel, ?_⟩, ⟨by rw [hruns']; decide +kernel, ?_⟩,
    (hother (by decide)).2⟩
  · rw [hok, hruns]
    · decide +kernel
    · refine .inr ⟨launch world .standard .phpcs "/srv/A.php" content (some "PSR2"), ?_, ?_⟩
      · rw [hruns]
        exact List.mem_map_of_mem (by decide +kernel)
      · have hread : Adapter.phpcs.hints? (Content.text report).lossy =
            some [Adapter.phpcs.hint 1 1 8 9 "m".toList] := by decide +kernel
        rintro e ⟨hunread, -⟩
        cases hread.symm.trans hunread
  · have hthere : rulesetsOfRows world .phpmd "/srv/A.php"
        [⟨"/srv", "gone"⟩, ⟨"/srv", "naming"⟩] = ["naming"] := by decide +kernel
    have hfails : FailsWith world .phpmd (launch world .standard .phpmd "/srv/A.php" content
        (some "naming")) (.launch "phpmd" .notFound) := rfl
    rw [herror, hruns', hthere]
    exact ⟨⟨_, rfl, hfails⟩, List.forall_mem_singleton.mpr ⟨_, hfails⟩⟩

end AdapterRun

end LintMend
