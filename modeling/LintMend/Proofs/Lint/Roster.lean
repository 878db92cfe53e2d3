import LintMend.Proofs.Lint.Source
import Mathlib.Data.List.Induction

/-!
# Rosters after requests

A request switches one adapter and leaves the others as they are; one for a name that the roster
does not have fails. After any requests an adapter is therefore active as the last request for it
said, although the list of active names depends on the order in which they came. A report does not:
the adapters run in the order of the roster, and of each that succeeded it holds what it gave.
-/

namespace LintMend

variable {roster roster' : Roster} {names : List String} {name other : String} {state : Bool}
  {requests : List (String × Bool)}

namespace Roster

theorem isActive_iff : roster.isActive name ↔ name ∈ roster.active := by simp [isActive]

/-! ## One request -/

theorem set?_eq_none_iff : roster.set? name state = none ↔ name ∉ roster.names := by
  rw [set?]
  split
  · next h => simpa using h
  · next h =>
    have hmem : name ∈ roster.names := by simpa using h
    split
    · simp [hmem]
    · split <;> simp [hmem]

/-- What a request can do: add an active name, drop one, or find it as it should be. -/
theorem set?_cases (h : roster.set? name state = some roster') :
    (state = true ∧ name ∉ roster.active ∧
      roster' = { roster with active := roster.active ++ [name] }) ∨
    (state = false ∧ roster' = { roster with active := roster.active.filter (· ≠ name) }) ∨
    (roster.isActive name = state ∧ roster' = roster) := by
  rw [set?] at h
  split at h
  · simp at h
  · split at h
    · next hadd =>
      have hnew : name ∉ roster.active := fun hmem ↦ hadd.2 (isActive_iff.mpr hmem)
      exact .inl ⟨hadd.1, hnew, (Option.some.inj h).symm⟩
    · next hadd =>
      split at h
      · next hdrop =>
        have hstate : state = false := by simpa using hdrop.1
        exact .inr (.inl ⟨hstate, (Option.some.inj h).symm⟩)
      · next hdrop =>
        have hsame : roster.isActive name = state := by
          cases state <;> simp_all
        exact .inr (.inr ⟨hsame, (Option.some.inj h).symm⟩)

theorem isActive_of_set? (h : roster.set? name state = some roster') (other : String) :
    roster'.isActive other = if other = name then state else roster.isActive other := by
  rw [Bool.eq_iff_iff, isActive_iff]
  obtain ⟨rfl, -, rfl⟩ | ⟨rfl, rfl⟩ | ⟨hsame, rfl⟩ := set?_cases h
  · by_cases hother : other = name <;> simp [hother, isActive_iff]
  · by_cases hother : other = name <;> simp [hother, isActive_iff]
  · by_cases hother : other = name
    · rw [if_pos hother, hother, ← hsame, isActive_iff]
    · rw [if_neg hother, isActive_iff]

theorem names_of_set? (h : roster.set? name state = some roster') :
    roster'.names = roster.names := by
  obtain ⟨-, -, rfl⟩ | ⟨-, rfl⟩ | ⟨-, rfl⟩ := set?_cases h <;> rfl

theorem nodup_active_of_set? (h : roster.set? name state = some roster')
    (hnodup : roster.active.Nodup) : roster'.active.Nodup := by
  obtain ⟨-, hnew, rfl⟩ | ⟨-, rfl⟩ | ⟨-, rfl⟩ := set?_cases h
  · exact List.nodup_append.mpr ⟨hnodup, List.nodup_singleton name,
      fun a ha b hb ↦ ne_of_mem_of_not_mem ha (List.mem_singleton.mp hb ▸ hnew)⟩
  · exact hnodup.filter _
  · exact hnodup

/-! ## Requests one after the other -/

/-- Carries out a request to switch an adapter; one that fails changes nothing. -/
def request (roster : Roster) (request : String × Bool) : Roster :=
  (roster.set? request.1 request.2).getD roster

def after (roster : Roster) (requests : List (String × Bool)) : Roster :=
  requests.foldl request roster

/-- What the last of some requests for an adapter said. -/
def lastState? (requests : List (String × Bool)) (name : String) : Option Bool :=
  requests.reverse.lookup name

theorem request_of_notMem (h : name ∉ roster.names) : roster.request (name, state) = roster := by
  rw [request, set?_eq_none_iff.mpr h, Option.getD_none]

theorem names_request (roster : Roster) (r : String × Bool) :
    (roster.request r).names = roster.names := by
  cases h : roster.set? r.1 r.2 with
  | none => rw [request, h, Option.getD_none]
  | some roster' => rw [request, h, Option.getD_some, names_of_set? h]

theorem isActive_request (hname : name ∈ roster.names) (r : String × Bool) :
    (roster.request r).isActive name = if name = r.1 then r.2 else roster.isActive name := by
  cases h : roster.set? r.1 r.2 with
  | none =>
    have hne : name ≠ r.1 := ne_of_mem_of_not_mem hname (set?_eq_none_iff.mp h)
    rw [request, h, Option.getD_none, if_neg hne]
  | some roster' => rw [request, h, Option.getD_some, isActive_of_set? h]

theorem nodup_active_request (hnodup : roster.active.Nodup) (r : String × Bool) :
    (roster.request r).active.Nodup := by
  cases h : roster.set? r.1 r.2 with
  | none => rwa [request, h, Option.getD_none]
  | some roster' =>
    rw [request, h, Option.getD_some]
    exact nodup_active_of_set? h hnodup

theorem after_append_singleton (roster : Roster) (requests : List (String × Bool))
    (r : String × Bool) : roster.after (requests ++ [r]) = (roster.after requests).request r := by
  rw [after, List.foldl_append, List.foldl_cons, List.foldl_nil, ← after]

theorem names_after (roster : Roster) (requests : List (String × Bool)) :
    (roster.after requests).names = roster.names := by
  induction requests using List.reverseRecOn with
  | nil => rfl
  | append_singleton requests r ih => rw [after_append_singleton, names_request, ih]

theorem isActive_after (hname : name ∈ roster.names) (requests : List (String × Bool)) :
    (roster.after requests).isActive name =
      (lastState? requests name).getD (roster.isActive name) := by
  induction requests using List.reverseRecOn with
  | nil => rfl
  | append_singleton requests r ih =>
    have hname' : name ∈ (roster.after requests).names := by rwa [names_after]
    rw [after_append_singleton, isActive_request hname', ih, lastState?, lastState?,
      List.reverse_concat, List.lookup_cons]
    by_cases h : name = r.1
    · simp [h]
    · have hbeq : (name == r.1) = false := beq_false_of_ne h
      rw [if_neg h, hbeq]

theorem nodup_active_after (hnodup : roster.active.Nodup) (requests : List (String × Bool)) :
    (roster.after requests).active.Nodup := by
  induction requests using List.reverseRecOn with
  | nil => exact hnodup
  | append_singleton requests r ih =>
    rw [after_append_singleton]
    exact nodup_active_request ih r

theorem running_congr (hnames : roster.names = roster'.names)
    (h : ∀ name, roster.isActive name = roster'.isActive name) :
    roster.running = roster'.running := by
  rw [running, running, hnames]
  exact List.filter_congr fun name _ ↦ h name

theorem running_request_false (roster : Roster) (name : String) :
    (roster.request (name, false)).running = roster.running.filter (· ≠ name) := by
  rw [running, running, names_request, List.filter_filter]
  apply List.filter_congr
  intro other hother
  rw [isActive_request hother]
  by_cases h : other = name <;> simp [h]

end Roster

/-! ## Reports -/

namespace LintReport

variable {ε : Type} {run : String → Except ε (List Hint)}

/-- A report of some adapters that ran, in this order. -/
structure Collects (report : LintReport ε) (ran : List String)
    (run : String → Except ε (List Hint)) : Prop where
  sorted : report.hints.Pairwise fun a b ↦ a.priority ≤ b.priority
  stable : ∀ priority, report.hints.filter (·.priority = priority) =
    (ran.flatMap fun name ↦ (run name).toOption.getD []).filter (·.priority = priority)
  failed : report.failures.map (·.adapter) = ran.filter fun name ↦ ¬ (run name).isOk
  error : ∀ failure ∈ report.failures, run failure.adapter = .error failure.error

theorem hints_ofRoster : (ofRoster roster run).hints =
    Hint.sortByPriority (roster.running.flatMap fun name ↦ (run name).toOption.getD []) := by
  rw [ofRoster, ofResults, List.flatMap_map]

/-- The failure of an adapter, where it failed. -/
def failure? (run : String → Except ε (List Hint)) (name : String) : Option (Failure ε) :=
  match run name with
  | .ok _ => none
  | .error error => some ⟨name, error⟩

theorem failures_ofRoster :
    (ofRoster roster run).failures = roster.running.filterMap (failure? run) := by
  rw [ofRoster, ofResults, List.filterMap_map]
  rfl

theorem failure?_eq_some {failure : Failure ε} (h : failure? run name = some failure) :
    failure.adapter = name ∧ run name = .error failure.error := by
  rw [failure?] at h
  split at h
  · simp at h
  · next error herror =>
    obtain rfl := Option.some.inj h
    exact ⟨rfl, herror⟩

theorem collects_ofRoster (roster : Roster) (run : String → Except ε (List Hint)) :
    Collects (ofRoster roster run) roster.running run where
  sorted := by
    rw [hints_ofRoster]
    exact Sort.pairwise_mergeSort (fun a b : Hint ↦ a.priority ≤ b.priority)
      (fun _ _ _ ↦ Int.le_trans) (fun _ _ ↦ Int.le_total ..) _
  stable := by
    intro priority
    rw [hints_ofRoster]
    apply Sort.filter_mergeSort (fun a b : Hint ↦ a.priority ≤ b.priority)
      (fun _ _ _ ↦ Int.le_trans) (fun _ _ ↦ Int.le_total ..)
    simp only [decide_eq_true_eq]
    intro a _ b _ ha hb
    exact Int.le_of_eq (ha.trans hb.symm)
  failed := by
    rw [failures_ofRoster]
    induction roster.running with
    | nil => rfl
    | cons name ran ih =>
      cases h : run name with
      | ok hints =>
        have hok : (run name).isOk := by rw [h]; rfl
        rw [List.filterMap_cons_none (by rw [failure?, h]), List.filter_cons_of_neg (by simp [hok]),
          ih]
      | error error =>
        have hfails : (run name).isOk = false := by rw [h]; rfl
        rw [List.filterMap_cons_some (by rw [failure?, h]),
          List.filter_cons_of_pos (by simp [hfails]), List.map_cons, ih]
  error := by
    intro failure hfailure
    rw [failures_ofRoster] at hfailure
    obtain ⟨name, -, hname⟩ := List.mem_filterMap.mp hfailure
    obtain ⟨hadapter, herror⟩ := failure?_eq_some hname
    rwa [hadapter]

/-- Without an adapter that fails, a report says the same of all others. -/
theorem hints_ofRoster_request_of_fails (roster : Roster) (h : (run name).isOk = false) :
    (ofRoster (roster.request (name, false)) run).hints = (ofRoster roster run).hints := by
  have hnone : (run name).toOption.getD [] = [] := by
    cases hrun : run name with
    | ok hints => rw [hrun] at h; simp [Except.isOk, Except.toBool] at h
    | error error => rfl
  rw [hints_ofRoster, hints_ofRoster, Roster.running_request_false]
  congr 1
  induction roster.running with
  | nil => rfl
  | cons other ran ih =>
    by_cases hother : other = name
    · rw [List.filter_cons_of_neg (by simp [hother]), ih, List.flatMap_cons, hother, hnone,
        List.nil_append]
    · rw [List.filter_cons_of_pos (by simp [hother]), List.flatMap_cons, List.flatMap_cons, ih]

theorem failures_ofRoster_request (roster : Roster) (name : String) :
    (ofRoster (roster.request (name, false)) run).failures =
      (ofRoster roster run).failures.filter (·.adapter ≠ name) := by
  rw [failures_ofRoster, failures_ofRoster, Roster.running_request_false, List.filter_filterMap,
    List.filterMap_filter]
  apply List.filterMap_congr
  intro other _
  cases h : failure? run other with
  | none => simp
  | some failure =>
    by_cases hother : other = name
    · simp [Option.filter, (failure?_eq_some h).1, hother]
    · simp [Option.filter, (failure?_eq_some h).1, hother]

end LintReport

/-! ## The manager -/

namespace Manager

variable {manager : Manager} {world : World} {path : String} {content : Content}

theorem setActive_eq_error_iff {error : LintError} : manager.setActive name state = .error error ↔
    name ∉ manager.roster.names ∧ error = .unknownAdapter name := by
  rw [setActive, ← @Roster.set?_eq_none_iff manager.roster name state]
  cases manager.roster.set? name state with
  | none => simp [eq_comm]
  | some roster => simp

/-- Carries out a request to switch an adapter; one that fails changes nothing. -/
def request (manager : Manager) (request : String × Bool) : Manager :=
  (manager.setActive request.1 request.2).toOption.getD manager

def after (manager : Manager) (requests : List (String × Bool)) : Manager :=
  requests.foldl request manager

theorem request_eq (manager : Manager) (r : String × Bool) :
    manager.request r = { manager with roster := manager.roster.request r } := by
  rw [request, setActive, Roster.request]
  cases manager.roster.set? r.1 r.2 <;> rfl

theorem after_eq (manager : Manager) (requests : List (String × Bool)) :
    manager.after requests = { manager with roster := manager.roster.after requests } := by
  induction requests generalizing manager with
  | nil => rfl
  | cons r requests ih =>
    calc manager.after (r :: requests) = (manager.request r).after requests := rfl
      _ = { manager with roster := (manager.roster.request r).after requests } := by
        rw [ih, request_eq]
      _ = { manager with roster := manager.roster.after (r :: requests) } := rfl

/-- What the adapter of a name gives for a content. -/
def answer (manager : Manager) (world : World) (path : String) (content : Content)
    (name : String) : Hints :=
  match Adapter.named? name with
  | some adapter =>
    (AdapterRun.of world manager.tools manager.dataDir path content adapter).hints
  | none => .ok []

theorem adapter_of (world : World) (tools : ToolPaths) (dataDir path : String) (content : Content)
    (adapter : Adapter) :
    (AdapterRun.of world tools dataDir path content adapter).adapter = adapter := by
  unfold AdapterRun.of
  split
  · rfl
  · split
    · rfl
    · split <;> rfl

/-- Where all names are those of adapters, each that is active runs, in the order of the roster. -/
theorem runs_lintContent
    (h : ∀ name ∈ manager.roster.names, ∃ adapter : Adapter, adapter.name = name) :
    (manager.lintContent world path content).runs.map (fun run ↦ (run.adapter.name, run.hints)) =
      manager.roster.running.map fun name ↦
        (name, manager.answer world path content name) := by
  have hrunning : ∀ name ∈ manager.roster.running, ∃ adapter : Adapter, adapter.name = name :=
    fun name hname ↦ h name (List.mem_of_mem_filter hname)
  rw [lintContent, List.map_map]
  generalize manager.roster.running = running at hrunning
  induction running with
  | nil => rfl
  | cons name running ih =>
    obtain ⟨adapter, hadapter⟩ := hrunning name List.mem_cons_self
    have hnamed : Adapter.named? name = some adapter := Adapter.named?_eq_some_iff.mpr hadapter
    rw [List.filterMap_cons_some hnamed, List.map_cons, List.map_cons,
      ih fun other hother ↦ hrunning other (List.mem_cons_of_mem name hother)]
    simp only [Function.comp_apply, adapter_of, hadapter, answer, hnamed]

theorem report_lintContent
    (h : ∀ name ∈ manager.roster.names, ∃ adapter : Adapter, adapter.name = name) :
    (manager.lintContent world path content).report =
      .ofRoster manager.roster (manager.answer world path content) := by
  rw [LintRun.report, runs_lintContent h, LintReport.ofRoster]

theorem ran_lintContent
    (h : ∀ name ∈ manager.roster.names, ∃ adapter : Adapter, adapter.name = name) :
    (manager.lintContent world path content).runs.map (·.adapter.name) =
      manager.roster.running := by
  calc (manager.lintContent world path content).runs.map (·.adapter.name)
      = ((manager.lintContent world path content).runs.map
          fun run ↦ (run.adapter.name, run.hints)).map Prod.fst := by
        rw [List.map_map]
        rfl
    _ = manager.roster.running.map id := by
      rw [runs_lintContent h, List.map_map]
      rfl
    _ = manager.roster.running := List.map_id _

end Manager

/-! ## After any requests -/

/-- What can be relied on after any requests to a roster of different adapters, all of them active
at first, whatever the adapters do. -/
theorem Roster.report_depends_on_last_states (names : List String) (hnodup : names.Nodup)
    (requests : List (String × Bool)) {roster : Roster}
    (hroster : roster = (ofNames names).after requests) :
    (∀ name ∈ names, roster.isActive name = (lastState? requests name).getD true) ∧
    (∀ name state, roster.set? name state = none ↔ name ∉ names) ∧
    (∀ name, name ∉ names → ∀ state, roster.request (name, state) = roster) ∧
    roster.active.Nodup ∧
    roster.running = names.filter roster.isActive ∧
    (∀ (ε : Type) (run : String → Except ε (List Hint)),
      (LintReport.ofRoster roster run).Collects roster.running run ∧
      (∀ name, (run name).isOk = false →
        (LintReport.ofRoster (roster.request (name, false)) run).hints =
          (LintReport.ofRoster roster run).hints ∧
        (LintReport.ofRoster (roster.request (name, false)) run).failures =
          (LintReport.ofRoster roster run).failures.filter (·.adapter ≠ name)) ∧
      ∀ requests',
        (∀ name, ((ofNames names).after requests').isActive name = roster.isActive name) →
        LintReport.ofRoster ((ofNames names).after requests') run =
          LintReport.ofRoster roster run) ∧
    ∀ manager : Manager, manager.roster = ofNames names →
      (∀ name ∈ names, ∃ adapter : Adapter, adapter.name = name) →
      (manager.after requests).roster = roster ∧
      (∀ name, name ∉ names → ∀ state,
        (manager.after requests).setActive name state = .error (.unknownAdapter name)) ∧
      ∀ world path content,
        ((manager.after requests).lintContent world path content).runs.map (·.adapter.name) =
          roster.running ∧
        ((manager.after requests).lintContent world path content).report =
          .ofRoster roster (manager.answer world path content) := by
  have hnames : roster.names = names := by rw [hroster, names_after]; rfl
  refine ⟨?states, ?fails, ?unchanged, ?nodup, ?order, ?report, ?manager⟩
  case states =>
    intro name hname
    have hactive : (ofNames names).isActive name = true := isActive_iff.mpr hname
    calc roster.isActive name
        = (lastState? requests name).getD ((ofNames names).isActive name) := by
          rw [hroster, isActive_after hname requests]
      _ = (lastState? requests name).getD true := by rw [hactive]
  case fails =>
    intro name state
    rw [set?_eq_none_iff, hnames]
  case unchanged =>
    intro name hname state
    rw [← hnames] at hname
    exact request_of_notMem hname
  case nodup =>
    rw [hroster]
    exact nodup_active_after hnodup requests
  case order => rw [running, hnames]
  case report =>
    intro ε run
    refine ⟨LintReport.collects_ofRoster roster run, fun name hfails ↦ ?_, fun requests' h ↦ ?_⟩
    · exact ⟨LintReport.hints_ofRoster_request_of_fails roster hfails,
        LintReport.failures_ofRoster_request roster name⟩
    · have hrunning : ((ofNames names).after requests').running = roster.running :=
        running_congr ((names_after (ofNames names) requests').trans hnames.symm) h
      rw [LintReport.ofRoster, LintReport.ofRoster, hrunning]
  case manager =>
    intro manager hmanager hadapters
    have hreached : (manager.after requests).roster = roster := by
      rw [Manager.after_eq, hmanager, hroster]
    have hafter : ∀ name ∈ (manager.after requests).roster.names,
        ∃ adapter : Adapter, adapter.name = name := by
      rwa [hreached, hnames]
    have hanswer : (manager.after requests).answer = manager.answer := by
      rw [Manager.after_eq]
      rfl
    refine ⟨hreached, fun name hname state ↦ ?_, fun world path content ↦ ⟨?_, ?_⟩⟩
    · rw [Manager.setActive_eq_error_iff, hreached, hnames]
      exact ⟨hname, rfl⟩
    · rw [Manager.ran_lintContent hafter, hreached]
    · rw [Manager.report_lintContent hafter, hreached, hanswer]

theorem Roster.report_depends_on_last_states_reactivated :
    let names := ["phplint", "phpmd", "phpcs"]
    let requests := [("phplint", false), ("phpcs", false), ("eslint", true), ("phplint", true)]
    let roster := (ofNames names).after requests
    let run (name : String) : Except String (List Hint) :=
      if name = "phpmd" then .error name else .ok [Adapter.phplint.hint 0 0 0 1 []]
    let manager : Manager := ⟨ofNames names, .standard, "data"⟩
    names.Nodup ∧ roster.active = ["phpmd", "phplint"] ∧ roster.isActive "phplint" = true ∧
    (LintReport.ofRoster roster run).Collects ["phplint", "phpmd"] run ∧
    (LintReport.ofRoster (roster.request ("phpmd", false)) run).hints =
      (LintReport.ofRoster roster run).hints ∧
    LintReport.ofRoster ((ofNames names).after [("phpcs", false)]) run =
      LintReport.ofRoster roster run ∧
    (manager.after requests).roster.request ("eslint", true) = roster ∧
    (manager.after requests).setActive "eslint" true = .error (.unknownAdapter "eslint") := by
  intro names requests roster run manager
  have hnodup : names.Nodup := by decide
  have hactive : roster.active = ["phpmd", "phplint"] := by decide
  have hstranger : "eslint" ∉ names := by decide
  obtain ⟨hstates, -, hunchanged, -, horder, hreport, hmanager⟩ :=
    report_depends_on_last_states names hnodup requests rfl
  obtain ⟨hcollects, hfails, hsame⟩ := hreport String run
  have hadapters : ∀ name ∈ names, ∃ adapter : Adapter, adapter.name = name := by
    intro name hname
    exact ⟨(Adapter.named? name).getD .phplint, by revert name; decide⟩
  obtain ⟨hroster, herror, -⟩ := hmanager manager rfl hadapters
  refine ⟨hnodup, hactive, (hstates "phplint" (by decide)).trans (by decide), ?_, ?_, ?_, ?_, ?_⟩
  · have hrunning : roster.running = ["phplint", "phpmd"] := horder.trans (by decide)
    rw [← hrunning]
    exact hcollects
  · exact (hfails "phpmd" rfl).1
  · apply hsame
    intro name
    have hfewer : ((ofNames names).after [("phpcs", false)]).active = ["phplint", "phpmd"] := by
      decide
    rw [Bool.eq_iff_iff, isActive_iff, isActive_iff, hactive, hfewer]
    simp [or_comm]
  · rw [hroster]
    exact hunchanged "eslint" hstranger true
  · exact herror "eslint" hstranger true

end LintMend
