import LintMend.Proofs.Files.Fork
import LintMend.Proofs.Lint.Source
import LintMend.Proofs.Registry.File

/-!
# A registry is a list

What a registry answers, one request after another, is what a list of registrations answers, though
it keeps nothing but a file that it adds rows to, reads and writes anew. The file may be deleted
between the requests, which empties the list. No other file of the tree is touched, and so not the
registry of another tool.
-/

namespace LintMend.Registry

open FileTree

variable {tree tree' ready opened : FileTree} {path : String} {place : Place}
  {entry : Ruleset} {entries : List Ruleset}

/-! ## Requests -/

inductive Request where
  | add (entry : Ruleset)
  | remove (entry : Ruleset)
  | reset
  | all
  | matching (file : String)
  /-- The file is deleted by someone else. -/
  | delete
deriving DecidableEq, Repr

inductive Answer where
  | done
  | removed (count : Nat)
  | rulesets (entries : List Ruleset)
deriving DecidableEq, Repr

/-- What is answered, and what is left: where a request fails, all as it was. -/
def settle {σ : Type} (before : σ) : Except Error (σ × Answer) → σ × Except Error Answer
  | .ok (after, answer) => (after, .ok answer)
  | .error e => (before, .error e)

/-- A request to the registry in a file. -/
def Request.onFile (path : String) (tree : FileTree) (request : Request) :
    FileTree × Except Error Answer :=
  settle tree <|
    match request with
    | add entry => (addAt tree path entry).map fun tree ↦ (tree, .done)
    | remove entry => (removeAt tree path entry).map fun (count, tree) ↦ (tree, .removed count)
    | reset => (resetAt tree path).map fun tree ↦ (tree, .done)
    | all => (allAt tree path).map fun entries ↦ (tree, .rulesets entries)
    | matching file => (matchingAt tree path file).map fun entries ↦ (tree, .rulesets entries)
    | delete => .ok (tree.without path, .done)

/-- The same request to a list. -/
def Request.onList (path : String) (entries : List Ruleset) (request : Request) :
    List Ruleset × Except Error Answer :=
  settle entries <|
    match request with
    | add entry =>
      if entry.directory = "" ∨ entry.ruleset = "" then .error ⟨path, .emptyField⟩
      else .ok (entries ++ [entry], .done)
    | remove entry => .ok (entries.filter (· ≠ entry), .removed (entries.count entry))
    | reset => .ok ([], .done)
    | all => .ok (entries, .rulesets entries)
    | matching file =>
      .ok (entries, .rulesets (entries.filter fun entry ↦ entry.directory.toList <+: file.toList))
    | delete => .ok ([], .done)

/-- Requests in turn, with all answers. -/
def run {σ : Type} (step : σ → Request → σ × Except Error Answer) :
    σ → List Request → σ × List (Except Error Answer)
  | s, [] => (s, [])
  | s, request :: requests =>
    let (s, answer) := step s request
    let (s, answers) := run step s requests
    (s, answer :: answers)

/-! ## One request -/

/-- The file at a place holds the rows of a list; it may be missing where there are none. -/
structure Holds (tree : FileTree) (path : String) (place : Place) (entries : List Ruleset) : Prop
    extends tree.HasSlot path place where
  content : tree.content? place = some (.text (render entries)) ∨
    tree.content? place = none ∧ entries = []

namespace Holds

theorem all (h : Holds tree path place entries) :
    Registry.all (tree.content? place) = .ok entries := by
  rcases h.content with hrows | ⟨hnone, rfl⟩
  · rw [hrows]
    exact rulesetsOfText_render entries
  · rw [hnone]
    rfl

theorem put (h : Holds tree path place entries) (entries' : List Ruleset) :
    Holds (tree.put place (.file (.text (render entries')))) path place entries' :=
  ⟨h.toHasSlot.put _, .inl (content?_put_self h.ne_nil)⟩

theorem without (h : Holds tree path place entries) : Holds (tree.without path) path place [] := by
  obtain ⟨hslot, hnone, -⟩ := h.toHasSlot.without
  exact ⟨hslot, .inr ⟨hnone, rfl⟩⟩

theorem allAt (h : Holds tree path place entries) : allAt tree path = .ok entries := by
  rw [allAt_of_load (load_of_leads h.toLeads), h.all]
  rfl

theorem matchingAt (h : Holds tree path place entries) (file : String) :
    matchingAt tree path file = .ok (entries.filter (·.appliesTo file)) := by
  rw [matchingAt_eq, h.allAt]
  rfl

theorem addAt (h : Holds tree path place entries) (hcheck : check entry = .ok ()) :
    addAt tree path entry = .ok (tree.put place (.file (.text (render (entries ++ [entry]))))) := by
  have hcontent : (tree.content? place).getD (.text []) = .text (render entries) := by
    rcases h.content with hrows | ⟨hnone, rfl⟩
    · rw [hrows]
      rfl
    · rw [hnone]
      rfl
  simp only [Registry.addAt, hcheck, append_of_filePlace h.filePlace, hcontent, render_concat]
  rfl

theorem resetAt (h : Holds tree path place entries) :
    resetAt tree path = .ok (tree.put place (.file (.text (render [])))) := by
  simp only [Registry.resetAt, h.write]
  rfl

theorem removeAt (h : Holds tree path place entries) (entry : Ruleset) :
    removeAt tree path entry = .ok (entries.count entry,
      if entries.count entry = 0 then tree
      else tree.put place (.file (.text (render (entries.filter (· ≠ entry)))))) := by
  rw [removeAt_of_load (load_of_leads h.toLeads) h.all, h.write]
  split
  · next hcount => rw [hcount]
  · rfl

end Holds

/-- A request to the file is the same request to its list. -/
theorem onFile_of_holds (h : Holds tree path place entries) (request : Request) :
    (request.onFile path tree).2 = (request.onList path entries).2 ∧
      Holds (request.onFile path tree).1 path place (request.onList path entries).1 ∧
      SameBut place tree (request.onFile path tree).1 := by
  cases request with
  | add entry =>
    by_cases hfields : entry.directory = "" ∨ entry.ruleset = ""
    · have hcheck : check entry = .error .emptyField := by
        rw [check, if_pos]
        simpa only [String.isEmpty_iff] using hfields
      simp only [Request.onFile, Request.onList, addAt, hcheck, if_pos hfields]
      exact ⟨rfl, h, SameBut.refl ..⟩
    · have hadd := h.addAt (check_eq_ok_iff.mpr (not_or.mp hfields))
      simp only [Request.onFile, Request.onList, hadd, if_neg hfields]
      exact ⟨rfl, h.put _, sameBut_put ..⟩
  | remove entry =>
    simp only [Request.onFile, Request.onList, h.removeAt, Except.map, settle]
    refine ⟨trivial, ?_⟩
    split
    · next hcount =>
      rw [filter_ne_of_count_eq_zero hcount]
      exact ⟨h, SameBut.refl ..⟩
    · exact ⟨h.put _, sameBut_put ..⟩
  | reset =>
    simp only [Request.onFile, Request.onList, h.resetAt]
    exact ⟨rfl, h.put _, sameBut_put ..⟩
  | all =>
    simp only [Request.onFile, Request.onList, h.allAt]
    exact ⟨rfl, h, SameBut.refl ..⟩
  | matching file =>
    have happlies : (fun entry : Ruleset ↦ decide (entry.directory.toList <+: file.toList)) =
        (·.appliesTo file) := by
      funext entry
      rw [Bool.eq_iff_iff, decide_eq_true_iff, Ruleset.appliesTo, List.isPrefixOf_iff_prefix]
    simp only [Request.onFile, Request.onList, h.matchingAt, happlies]
    exact ⟨rfl, h, SameBut.refl ..⟩
  | delete =>
    obtain ⟨-, -, hsame⟩ := h.toHasSlot.without
    exact ⟨rfl, h.without, hsame⟩

/-! ## Requests in turn -/

theorem run_of_holds (h : Holds tree path place entries) (requests : List Request) :
    (run (Request.onFile path) tree requests).2 = (run (Request.onList path) entries requests).2 ∧
      Holds (run (Request.onFile path) tree requests).1 path place
        (run (Request.onList path) entries requests).1 ∧
      SameBut place tree (run (Request.onFile path) tree requests).1 := by
  induction requests generalizing tree entries with
  | nil => exact ⟨rfl, h, SameBut.refl ..⟩
  | cons request requests ih =>
    obtain ⟨hanswer, hholds, hsame⟩ := onFile_of_holds h request
    obtain ⟨hanswers, hholds', hsame'⟩ := ih hholds
    exact ⟨congrArg₂ List.cons hanswer hanswers, hholds', hsame.trans hsame'⟩

/-- A registry that is opened where there is no file holds the empty list. -/
theorem exists_holds_of_openAt (hready : tree.makeDirectoriesAbove path = .ok ready)
    (hmissing : ready.has path = false) (hopen : openAt tree path = .ok opened) :
    ∃ place, Holds opened path place [] ∧ opened.content? place = some (.text []) := by
  have hwrite : ready.write path (.text []) = .ok opened := by
    simpa [hready, hmissing, bind, Except.bind] using fileFault_eq_ok_iff.mp hopen
  obtain ⟨place, hplace, rfl⟩ := exists_of_write hwrite
  obtain ⟨hleads, hup⟩ := filePlace_eq_ok_iff.mp hplace
  have hnone : ready.entry? place = none := by
    simpa [has, hleads.look] using hmissing
  have hcontent : (ready.put place (.file (.text []))).content? place = some (.text []) :=
    content?_put_self hleads.ne_nil
  have hslot : ready.HasSlot path place :=
    ⟨hleads, hup.resolve_left (by simp [content?_eq_none hnone])⟩
  exact ⟨place, ⟨hslot.put _, .inl hcontent⟩, hcontent⟩

/-! ## The registry of another tool -/

theorem isName_name (tool : Adapter) : Path.IsName tool.name := by
  cases tool <;> decide +kernel

theorem isName_registry : Path.IsName "rulesets.csv" := by
  decide +kernel

theorem pathFor_eq (dataDir : String) (tool : Adapter) :
    pathFor dataDir tool.name =
      Path.inFolder (Path.folderText dataDir) tool.name "rulesets.csv" :=
  Path.join_join (isName_name tool) isName_registry dataDir

theorem load_pathFor_of_sameBut {dataDir : String} {tool other : Adapter}
    (h : tree.Leads (pathFor dataDir tool.name) place) (hbase : Path.isAbsolute tree.base = true)
    (hne : other ≠ tool) (hsame : SameBut place tree tree') :
    load tree' (pathFor dataDir other.name) = load tree (pathFor dataDir other.name) := by
  rw [pathFor_eq] at h ⊢
  have hlook := look_fork hbase (Path.isLead_folderText dataDir) (isName_name tool)
    (isName_name other) isName_registry (Adapter.name_injective.ne hne) h hsame
  simp only [load, FileTree.read, hlook]

/-! ## A registry and its list -/

/-- What requests to the registry in a file make of its tree and answer is what they make of a list
and answer. -/
structure Agree (path : String) (opened : FileTree) (file : FileTree × List (Except Error Answer))
    (list : List Ruleset × List (Except Error Answer)) : Prop where
  answers : file.2 = list.2
  content : load file.1 path = .ok (some (.text (render list.1))) ∨
    load file.1 path = .ok none ∧ list.1 = []
  beside : ∃ place, opened.look path = .ok (place, some (.file (.text []))) ∧
    SameBut place opened file.1
  otherTool : ∀ dataDir (tool other : Adapter), path = pathFor dataDir tool.name → other ≠ tool →
    Path.isAbsolute opened.base = true →
    load file.1 (pathFor dataDir other.name) = load opened (pathFor dataDir other.name)

/-- A registry that is opened where there is no file is a list that begins empty. -/
theorem agree_run_of_openAt (hready : tree.makeDirectoriesAbove path = .ok ready)
    (hmissing : ready.has path = false) (hopen : openAt tree path = .ok opened)
    (requests : List Request) :
    Agree path opened (run (Request.onFile path) opened requests)
      (run (Request.onList path) [] requests) := by
  obtain ⟨place, hholds, hempty⟩ := exists_holds_of_openAt hready hmissing hopen
  obtain ⟨hanswers, hfile, hsame⟩ := run_of_holds hholds requests
  constructor
  · exact hanswers
  · rw [load_of_leads hfile.toLeads]
    rcases hfile.content with hrows | ⟨hnone, hnil⟩
    · exact .inl (by rw [hrows])
    · exact .inr ⟨by rw [hnone], hnil⟩
  · refine ⟨place, ?_, hsame⟩
    rw [hholds.look, content?_eq_some_iff.mp hempty]
  · rintro dataDir tool other rfl hne hbase
    exact load_pathFor_of_sameBut hholds.toLeads hbase hne hsame

theorem answers_run_of_openAt_of_quotes_and_deletion : ∃ tree opened : FileTree,
    openAt tree "data/phpcs/rulesets.csv" = .ok opened ∧
    (run (Request.onFile "data/phpcs/rulesets.csv") opened
      [.add ⟨"/srv/a,b", "\"P\"\r\n"⟩, .add ⟨"", "PSR2"⟩, .matching "/srv/a,b/C.php", .delete,
        .all]).2 =
      [.ok .done, .error ⟨"data/phpcs/rulesets.csv", .emptyField⟩,
        .ok (.rulesets [⟨"/srv/a,b", "\"P\"\r\n"⟩]), .ok .done, .ok (.rulesets [])] := by
  let tree : FileTree := ⟨"/w", []⟩
  let ready : FileTree := ⟨"/w", [(["data"], .directory), (["data", "phpcs"], .directory)]⟩
  let opened : FileTree := ready.put ["data", "phpcs", "rulesets.csv"] (.file (.text []))
  have hready : tree.makeDirectoriesAbove "data/phpcs/rulesets.csv" = .ok ready := by
    decide +kernel
  have hmissing : ready.has "data/phpcs/rulesets.csv" = false := by decide +kernel
  have hopen : openAt tree "data/phpcs/rulesets.csv" = .ok opened := by decide +kernel
  refine ⟨tree, opened, hopen, ?_⟩
  rw [(agree_run_of_openAt hready hmissing hopen _).answers]
  decide +kernel

end LintMend.Registry
