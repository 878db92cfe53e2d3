import LintMend.Lint.Manager
import LintMend.Proofs.Sort
import Mathlib.Data.List.Nodup

/-!
# What a report holds of each adapter

A hint names the adapter that gave it and has the priority of that adapter. Hints of one adapter
thus have one priority, and the stable sort of a report moves none of them past another: the report
holds of each adapter that ran what the adapter gave, in the order in which it gave it.
-/

namespace LintMend

variable {adapter : Adapter} {hints : List Hint} {world : World} {tools : ToolPaths}
  {manager : Manager} {dataDir path : String} {content : Content}

/-- The hints there are; none where an adapter failed. -/
def Hints.found (hints : Hints) : List Hint := hints.toOption.getD []

@[simp] theorem Hints.found_ok (hints : List Hint) : Hints.found (.ok hints) = hints := rfl

@[simp] theorem Hints.found_error (error : AdapterError) : Hints.found (.error error) = [] := rfl

/-! ## Adapters -/

namespace Adapter

theorem name_injective : Function.Injective name := by
  intro a b h
  cases a <;> cases b <;> first | rfl | simp [name] at h

theorem named?_eq_some_iff {name : String} : named? name = some adapter ↔ adapter.name = name := by
  constructor
  · intro h
    simpa using List.find?_some h
  · rintro rfl
    cases adapter <;> decide

/-- Hints that name an adapter and have its priority. -/
structure Gives (adapter : Adapter) (hint : Hint) : Prop where
  source : hint.source = adapter.name
  priority : hint.priority = adapter.priority

theorem gives_hint (adapter : Adapter) (lineBegin lineEnd columnBegin columnEnd : Nat)
    (message : Text) :
    adapter.Gives (adapter.hint lineBegin lineEnd columnBegin columnEnd message) := ⟨rfl, rfl⟩

theorem parseOutput_eq_ok_iff {output : Text} :
    adapter.parseOutput world output = .ok hints ↔ adapter.hints? output = some hints := by
  rw [parseOutput]
  cases adapter.hints? output <;> simp

@[simp] theorem found_parseOutput (output : Text) :
    (adapter.parseOutput world output).found = (adapter.hints? output).getD [] := by
  rw [parseOutput]
  cases adapter.hints? output <;> rfl

theorem gives_of_hints? {output : Text} (h : adapter.hints? output = some hints) :
    ∀ hint ∈ hints, adapter.Gives hint := by
  intro hint hhint
  cases adapter with
  | phplint =>
    obtain rfl : Report.Phplint.hints output = hints := Option.some.inj h
    obtain ⟨line, -, hline⟩ := List.mem_filterMap.mp hhint
    simp only [Report.Phplint.hint?, Option.bind_eq_bind, Option.bind_eq_some_iff] at hline
    obtain ⟨_, -, _, -, _, -, _, -, _, -, hline⟩ := hline
    rw [← Option.some.inj hline]
    exact gives_hint ..
  | phpmd =>
    rw [hints?, Report.Phpmd.hints?] at h
    split at h
    · obtain rfl := Option.some.inj h
      cases hhint
    · obtain ⟨report, -, rfl⟩ := Option.map_eq_some_iff.mp h
      obtain ⟨violation, -, rfl⟩ := List.mem_map.mp hhint
      exact gives_hint ..
  | phpcs =>
    rw [hints?, Report.Phpcs.hints?] at h
    split at h
    · obtain rfl := Option.some.inj h
      cases hhint
    · obtain ⟨report, -, rfl⟩ := Option.map_eq_some_iff.mp h
      obtain ⟨entries, -, hhint⟩ := List.mem_flatMap.mp hhint
      obtain ⟨message, -, rfl⟩ := List.mem_map.mp hhint
      exact gives_hint ..

end Adapter

/-! ## Runs -/

namespace AdapterRun

/-- Runs that fail take nothing away from the others. -/
theorem found_combine (results : List Hints) :
    (combine results).found = results.flatMap Hints.found := by
  rw [combine]
  split
  · split
    · rfl
    · next hnone =>
      symm
      rw [Hints.found_error, List.flatMap_eq_nil_iff]
      intro result hresult
      cases result with
      | error => rfl
      | ok hints => exact absurd (List.any_eq_true.mpr ⟨_, hresult, rfl⟩) hnone
  · rfl

/-- Every run of an adapter is a launch of its program for some ruleset or none. -/
theorem exists_ruleset_of_mem_runs {run : ToolRun}
    (h : run ∈ (of world tools dataDir path content adapter).runs) :
    ∃ ruleset, run = launch world tools adapter path content ruleset := by
  unfold of at h
  split at h
  · simp at h
  · split at h
    · exact ⟨none, by simpa using h⟩
    · split at h
      · simp at h
      · obtain ⟨ruleset, -, rfl⟩ := List.mem_map.mp h
        exact ⟨some ruleset, rfl⟩

/-- The hints of an adapter are those of its runs, one after the other. -/
theorem found_of : (of world tools dataDir path content adapter).hints.found =
    (of world tools dataDir path content adapter).runs.flatMap (·.hints.found) := by
  unfold of
  split
  · rfl
  · split
    · simp
    · split
      · rfl
      · rw [found_combine, List.flatMap_map]

theorem exists_output_of_mem_found_launch {ruleset : Option String} {hint : Hint}
    (h : hint ∈ (launch world tools adapter path content ruleset).hints.found) :
    ∃ output hints, adapter.hints? output = some hints ∧ hint ∈ hints := by
  rw [launch] at h
  split at h
  · next output _ =>
    rw [Adapter.found_parseOutput] at h
    cases hfound : adapter.hints? output.stdout.lossy with
    | none => simp [hfound] at h
    | some hints => exact ⟨output.stdout.lossy, hints, hfound, by simpa [hfound] using h⟩
  · simp at h

/-- Every hint of an adapter was read in an output of its tool. -/
theorem exists_output_of_mem_found {hint : Hint}
    (h : hint ∈ (of world tools dataDir path content adapter).hints.found) :
    ∃ output hints, adapter.hints? output = some hints ∧ hint ∈ hints := by
  rw [found_of] at h
  obtain ⟨run, hrun, h⟩ := List.mem_flatMap.mp h
  obtain ⟨ruleset, rfl⟩ := exists_ruleset_of_mem_runs hrun
  exact exists_output_of_mem_found_launch h

theorem gives_of_mem_found :
    ∀ hint ∈ (of world tools dataDir path content adapter).hints.found, adapter.Gives hint := by
  intro hint hhint
  obtain ⟨output, hints, hfound, hmem⟩ := exists_output_of_mem_found hhint
  exact Adapter.gives_of_hints? hfound hint hmem

end AdapterRun

/-! ## Reports -/

/-- Of all that some adapters give, an adapter that is one of them gives what names it. -/
theorem filter_source_flatMap {adapters : List Adapter} {given : Adapter → List Hint}
    (hnodup : adapters.Nodup) (hmem : adapter ∈ adapters)
    (hgiven : ∀ a, ∀ hint ∈ given a, a.Gives hint) :
    (adapters.flatMap given).filter (·.source = adapter.name) = given adapter := by
  have hown : (given adapter).filter (·.source = adapter.name) = given adapter := by
    rw [List.filter_eq_self]
    intro hint hhint
    simpa using (hgiven adapter hint hhint).source
  have hother : ∀ others : List Adapter, adapter ∉ others →
      (others.flatMap given).filter (·.source = adapter.name) = [] := by
    intro others hothers
    rw [List.filter_eq_nil_iff]
    intro hint hhint
    obtain ⟨a, ha, hhint⟩ := List.mem_flatMap.mp hhint
    have hne : a ≠ adapter := ne_of_mem_of_not_mem ha hothers
    simpa [(hgiven a hint hhint).source] using Adapter.name_injective.ne hne
  obtain ⟨earlier, later, rfl⟩ := List.append_of_mem hmem
  rw [List.nodup_append, List.nodup_cons] at hnodup
  have hearlier : adapter ∉ earlier := fun h ↦ hnodup.2.2 adapter h adapter List.mem_cons_self rfl
  rw [List.flatMap_append, List.flatMap_cons, List.filter_append, List.filter_append,
    hother earlier hearlier, hother later hnodup.2.1.1, hown, List.nil_append, List.append_nil]

/-- Sorting by priority keeps the hints of an adapter in their order. -/
theorem filter_source_sortByPriority
    (h : ∀ hint ∈ hints, ∃ adapter : Adapter, adapter.Gives hint) :
    (Hint.sortByPriority hints).filter (·.source = adapter.name) =
      hints.filter (·.source = adapter.name) := by
  have hpriority : ∀ hint ∈ hints, hint.source = adapter.name →
      hint.priority = adapter.priority := by
    intro hint hhint hsource
    obtain ⟨giver, hgiver⟩ := h hint hhint
    rw [hgiver.priority, Adapter.name_injective (hgiver.source.symm.trans hsource)]
  apply Sort.filter_mergeSort (fun a b : Hint ↦ a.priority ≤ b.priority)
    (fun _ _ _ ↦ Int.le_trans) (fun _ _ ↦ Int.le_total ..)
  simp only [decide_eq_true_eq]
  intro a ha b hb hsourceA hsourceB
  exact Int.le_of_eq ((hpriority a ha hsourceA).trans (hpriority b hb hsourceB).symm)

namespace Manager

/-- The adapters that run, in their order. -/
def adapters (manager : Manager) : List Adapter := manager.roster.running.filterMap Adapter.named?

theorem nodup_adapters (h : manager.roster.names.Nodup) : manager.adapters.Nodup := by
  apply (h.filter _).filterMap
  intro a b adapter ha hb
  rw [← Adapter.named?_eq_some_iff.mp ha, Adapter.named?_eq_some_iff.mp hb]

theorem mem_adapters (h : adapter.name ∈ manager.roster.running) : adapter ∈ manager.adapters :=
  List.mem_filterMap.mpr ⟨adapter.name, h, Adapter.named?_eq_some_iff.mpr rfl⟩

theorem hints_lintContent : (manager.lintContent world path content).report.hints =
    Hint.sortByPriority (manager.adapters.flatMap fun adapter ↦
      (AdapterRun.of world manager.tools manager.dataDir path content adapter).hints.found) := by
  simp only [lintContent, LintRun.report, LintReport.ofResults, List.map_map, List.flatMap_map]
  rfl

/-- Every hint of a report was read in an output of some adapter's tool. -/
theorem exists_output_of_mem_report {hint : Hint}
    (h : hint ∈ (manager.lintContent world path content).report.hints) :
    ∃ adapter output hints, Adapter.hints? output adapter = some hints ∧ hint ∈ hints := by
  rw [hints_lintContent, Hint.sortByPriority, List.mem_mergeSort] at h
  obtain ⟨adapter, -, h⟩ := List.mem_flatMap.mp h
  exact ⟨adapter, AdapterRun.exists_output_of_mem_found h⟩

/-- A report holds of an adapter that runs what the adapter gave. -/
theorem filter_source_lintContent (hnames : manager.roster.names.Nodup)
    (hactive : adapter.name ∈ manager.roster.running) :
    (manager.lintContent world path content).report.hints.filter (·.source = adapter.name) =
      (AdapterRun.of world manager.tools manager.dataDir path content adapter).hints.found := by
  rw [hints_lintContent, filter_source_sortByPriority]
  · exact filter_source_flatMap (nodup_adapters hnames) (mem_adapters hactive)
      fun a ↦ AdapterRun.gives_of_mem_found
  · intro hint hhint
    obtain ⟨giver, -, hhint⟩ := List.mem_flatMap.mp hhint
    exact ⟨giver, AdapterRun.gives_of_mem_found hint hhint⟩

end Manager

end LintMend
