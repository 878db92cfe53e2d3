import LintMend.Output.Printed
import LintMend.Proofs.Output.Summary
import LintMend.Proofs.Repair.Cycles

/-!
# A summary beside its files

Results that are printed as JSON hold a list of the files and a summary, so what the summary says
can be counted in the list beside it. An empty list of a file is not printed, and it counts like one
that is. All numbers that are about hints, failures and errors are those of the list. Repairs are
listed for every file, but summed up only for the files that they change, and later cycles can undo
what earlier ones did: a file that is itself again keeps its repairs in the list alone.
-/

namespace LintMend

open Repair

/-! ## Reading members -/

namespace Json

variable {name other : String} {value : Json}

theorem get?_obj_append (a b : List (String × Json)) (name : String) :
    (obj (a ++ b)).get? name = ((obj b).get? name).or ((obj a).get? name) := by
  simp only [get?, List.reverse_append, List.find?_append, Option.map_or]

theorem get?_obj_cons (member : String × Json) (members : List (String × Json)) (name : String) :
    (obj (member :: members)).get? name =
      ((obj members).get? name).or ((obj [member]).get? name) :=
  get?_obj_append [member] members name

@[simp] theorem get?_obj_nil (name : String) : (obj []).get? name = none := rfl

@[simp] theorem get?_obj_singleton : (obj [(name, value)]).get? name = some value := by
  simp [get?]

@[simp] theorem get?_obj_singleton_of_ne (h : other ≠ name) :
    (obj [(other, value)]).get? name = none := by
  simp [get?, h]

/-- The items of a list; a member that is not there has none. -/
def items (json : Json) (name : String) : List Json := ((json.get? name).bind arr?).getD []

/-- A number in the summary of some results. -/
def summed? (results : Json) (name : String) : Option Int :=
  ((results.get? "summary").bind (·.get? name)).bind int?

end Json

namespace Entry

open Json

variable {α : Type} {name other : String} {write : α → Json} {l : List α}

@[simp] theorem get?_listMember_of_ne (h : other ≠ name) :
    (obj (listMember other write l)).get? name = none := by
  rw [listMember]
  split
  · rfl
  · exact get?_obj_singleton_of_ne h

/-- Where a list is the one that a value holds under its name, its items are read. -/
theorem items_eq_map {json : Json}
    (h : json.get? name = (obj (listMember name write l)).get? name) :
    json.items name = l.map write := by
  rw [items, h]
  cases l with
  | nil => rfl
  | cons a l =>
    rw [listMember, List.isEmpty_cons, if_neg Bool.false_ne_true, get?_obj_singleton]
    rfl

@[simp] theorem get?_error_of_ne (e : Entry) (h : "error" ≠ name) :
    (obj (e.error?.map fun error ↦ ("error", Json.str error)).toList).get? name = none := by
  cases e.error? with
  | none => rfl
  | some error => exact get?_obj_singleton_of_ne h

theorem get?_toJson (e : Entry) (name : String) : e.toJson.get? name =
    ((obj (e.error?.map fun error ↦ ("error", Json.str error)).toList).get? name).or
      (((obj (listMember "failures" failureJson e.failures)).get? name).or
      (((obj (listMember "skipped" skippedJson e.skipped)).get? name).or
      (((obj (listMember "applied" appliedJson e.applied)).get? name).or
      (((obj (listMember "hints" HintInfo.toJson e.hints)).get? name).or
      ((obj [("path", .str e.path)]).get? name))))) := by
  rw [toJson, get?_obj_append, get?_obj_append, get?_obj_append, get?_obj_append, get?_obj_cons]

theorem items_hints (e : Entry) : e.toJson.items "hints" = e.hints.map HintInfo.toJson := by
  apply items_eq_map
  simp [get?_toJson]

theorem items_applied (e : Entry) : e.toJson.items "applied" = e.applied.map appliedJson := by
  apply items_eq_map
  simp [get?_toJson]

theorem items_failures (e : Entry) : e.toJson.items "failures" = e.failures.map failureJson := by
  apply items_eq_map
  simp [get?_toJson]

theorem isSome_error (e : Entry) : (e.toJson.get? "error").isSome = e.error?.isSome := by
  rw [get?_toJson]
  cases e.error? <;> simp

end Entry

/-! ## What is printed -/

namespace Display

variable {d : Display}

theorem entry_json (h : d.format = .json) (mode : RunMode) (e : Entry) :
    d.entry mode e = .none := by
  cases e <;> simp [entry, failures, hints, unchanged, check, fix, h, Printed.append, Printed.none]

theorem results_json (h : d.format = .json) (mode : RunMode) (entries : List Entry) :
    d.results mode entries = .outLines [(resultsJson entries).pretty] := by
  have hall : Printed.all (entries.map (d.entry mode)) = .none := by
    rw [Printed.all]
    induction entries with
    | nil => rfl
    | cons e entries ih =>
      rw [List.map_cons, List.foldl_cons, entry_json h]
      exact ih
  rw [results, hall, finish, h]
  simp [Printed.append, Printed.none]

end Display

/-! ## Counting in the list -/

variable {entries : List Entry}

/-- The numbers of a summary that are about hints, failures and errors, counted in the list of
files beside it. -/
structure CountsFindings (results : Json) : Prop where
  filesProcessed : results.summed? "files_processed" = some ↑(results.items "files").length
  filesWithHints : results.summed? "files_with_hints" =
    some ↑((results.items "files").countP fun file ↦ !(file.items "hints").isEmpty)
  totalHints : results.summed? "total_hints" =
    some ↑((results.items "files").flatMap (·.items "hints")).length
  adapterFailures : results.summed? "adapter_failures" =
    some ↑((results.items "files").flatMap (·.items "failures")).length
  errors : results.summed? "errors" =
    some ↑((results.items "files").countP fun file ↦ (file.get? "error").isSome)

/-- The repairs of a summary are those in the list of files beside it. -/
def CountsRepairs (results : Json) : Prop :=
  results.summed? "total_repairs" =
    some ↑((results.items "files").flatMap (·.items "applied")).length

theorem items_files (entries : List Entry) :
    (resultsJson entries).items "files" = entries.map Entry.toJson := rfl

/-- As many items are printed in all as the entries have. -/
theorem length_flatMap_items {α : Type} {name : String} {read : Entry → List α} {write : α → Json}
    (h : ∀ e : Entry, e.toJson.items name = (read e).map write) (entries : List Entry) :
    (((resultsJson entries).items "files").flatMap (·.items name)).length =
      (entries.flatMap read).length := by
  rw [items_files, List.flatMap_map]
  simp only [h, List.length_flatMap, List.length_map]

theorem countsFindings_resultsJson (entries : List Entry) :
    CountsFindings (resultsJson entries) := by
  have hsummary := Summary.ofEntries_eq entries
  constructor
  · change some ((Summary.ofEntries entries).filesProcessed : Int) = _
    rw [hsummary, items_files, List.length_map]
  · change some ((Summary.ofEntries entries).filesWithHints : Int) = _
    rw [hsummary, items_files, List.countP_map]
    simp only [Function.comp_def, Entry.items_hints, List.isEmpty_map]
  · change some ((Summary.ofEntries entries).totalHints : Int) = _
    rw [hsummary, length_flatMap_items Entry.items_hints]
  · change some ((Summary.ofEntries entries).adapterFailures : Int) = _
    rw [hsummary, length_flatMap_items Entry.items_failures]
  · change some ((Summary.ofEntries entries).errors : Int) = _
    rw [hsummary, items_files, List.countP_map]
    simp only [Function.comp_def, Entry.isSome_error]

/-! ## Repairs -/

theorem summed?_totalRepairs (entries : List Entry) :
    (resultsJson entries).summed? "total_repairs" =
      some ↑((entries.filter (·.isChanged)).flatMap (·.applied)).length := by
  change some ((Summary.ofEntries entries).totalRepairs : Int) = _
  rw [Summary.ofEntries_eq]

/-- What passes a test has all there is exactly if what does not pass has nothing. -/
theorem length_flatMap_filter_eq_iff {α β : Type} {p : α → Bool} {f : α → List β} {l : List α} :
    ((l.filter p).flatMap f).length = (l.flatMap f).length ↔ ∀ a ∈ l, ¬ p a → f a = [] := by
  have hsplit : (l.flatMap f).length =
      ((l.filter p).flatMap f).length + ((l.filter (!p ·)).flatMap f).length := by
    rw [← List.length_append, ← List.flatMap_append]
    exact ((List.filter_append_perm p l).symm.flatMap_right f).length_eq
  rw [hsplit, Nat.left_eq_add, List.length_eq_zero_iff, List.flatMap_eq_nil_iff]
  simp

theorem countsRepairs_resultsJson_iff : CountsRepairs (resultsJson entries) ↔
    ∀ path r, .repaired path r ∈ entries → r.result = r.source → r.applied = [] := by
  have hkept (path : String) (r : Repaired) :
      ¬ (Entry.repaired path r).isChanged ↔ r.result = r.source := by
    simp only [Entry.isChanged, Repaired.isChanged, decide_eq_true_eq, not_not]
    exact eq_comm
  rw [CountsRepairs, summed?_totalRepairs, length_flatMap_items Entry.items_applied,
    Option.some_inj, Int.ofNat_inj, length_flatMap_filter_eq_iff]
  constructor
  · intro h path r hr hsame
    exact h _ hr ((hkept path r).mpr hsame)
  · intro h e he hunchanged
    cases e with
    | linted => rfl
    | failed => rfl
    | repaired path r => exact h path r he ((hkept path r).mp hunchanged)

/-- In the format for other programs a run prints its files and its summary and nothing else. What
the summary says of hints, failures and errors is what the files show. Its repairs are those of the
files that are changed, so they are all that the files show unless repairs of some file have left
it as it was. -/
theorem summary_counts_printed_files (verbose colors : Bool) (mode : RunMode)
    (entries : List Entry) :
    let results := resultsJson entries
    Display.results ⟨.json, verbose, colors⟩ mode entries = .outLines [results.pretty] ∧
    CountsFindings results ∧
    results.summed? "total_repairs" =
      some ↑((entries.filter (·.isChanged)).flatMap (·.applied)).length ∧
    (CountsRepairs results ↔
      ∀ path r, .repaired path r ∈ entries → r.result = r.source → r.applied = []) :=
  ⟨Display.results_json rfl mode entries, countsFindings_resultsJson entries,
    summed?_totalRepairs entries, countsRepairs_resultsJson_iff⟩

/-- Two rulesets that want no space and one space behind a keyword: the second cycle puts back what
the first one took away. -/
theorem summary_counts_printed_files_of_opposite_rulesets :
    let reportOf (message : String) : Text :=
      "<phpcs><file><error line='2' column='1'>".toList ++ message.toList ++
        "</error></file></phpcs>".toList
    let source := "<?php\nif ($a) \x7b\x7d\n".toList
    let world : World :=
      { files := ⟨"/data", [(["phpcs"], .directory),
          (["phpcs", "rulesets.csv"], .file (.text "/srv,Compact\n/srv,PSR2\n".toList))]⟩
        isProgram := fun program ↦ program == "phpcs"
        launch := fun _ args content ↦
          if content = .text source ∧ args.contains "--standard=Compact" then
            .ok ⟨.text (reportOf "Expected 0 spaces after IF keyword; 1 found"), .text [],
              .ofExitCode 2⟩
          else if content ≠ .text source ∧ args.contains "--standard=PSR2" then
            .ok ⟨.text (reportOf "Expected 1 space after IF keyword; 0 found"), .text [],
              .ofExitCode 2⟩
          else .ok ⟨.text [], .text [], .ofExitCode 0⟩
        scratch := "/tmp/scan"
        copyFault := fun _ _ ↦ none
        xmlFault := fun _ _ ↦ "" }
    let manager : Manager := ⟨⟨Adapter.all.map (·.name), ["phpcs"]⟩, .standard, "/data"⟩
    let report := (manager.lintContent world "/srv/A.php" (.text source)).report
    let r := (manager.attemptText world Rule.all "/srv/A.php" 2 source report).made
    let results := resultsJson [.repaired "/srv/A.php" r]
    repairWithCycles Rule.all (manager.lintTextFor world "/srv/A.php") 2 source report = .ok r ∧
    r.result = r.source ∧ r.applied.map (·.message) =
      ["Expected 0 spaces after IF keyword; 1 found",
       "Expected 1 space after IF keyword; 0 found"] ∧
    results.summed? "total_repairs" = some 0 ∧ ¬ CountsRepairs results := by
  intro reportOf source world manager report r results
  let attempted := manager.attemptText world Rule.all "/srv/A.php" 2 source report
  obtain ⟨hnone, hsame, happlied⟩ : attempted.error = none ∧ r.result = r.source ∧
      r.applied.map (·.message) = ["Expected 0 spaces after IF keyword; 1 found",
        "Expected 1 space after IF keyword; 0 found"] := by
    decide +kernel
  have hr : repairWithCycles Rule.all (manager.lintTextFor world "/srv/A.php") 2 source report =
      .ok r := Attempt.result_eq_ok_iff.mpr ⟨hnone, rfl⟩
  obtain ⟨-, -, htotal, hiff⟩ :=
    summary_counts_printed_files false false .check [.repaired "/srv/A.php" r]
  refine ⟨hr, hsame, happlied, ?_, fun hcounts ↦ ?_⟩
  · rw [htotal]
    simp [Entry.isChanged, Repaired.isChanged, hsame]
  · have hnil := hiff.mp hcounts "/srv/A.php" r List.mem_cons_self hsame
    rw [hnil] at happlied
    exact List.cons_ne_nil _ _ happlied.symm

end LintMend
