import LintMend.Hint.Info
import LintMend.Proofs.Lint.Source
import LintMend.Proofs.Text.Ascii

/-!
# Places of hints in words of 64 bits

A tool may write any number of 64 bits as a line or a column. The lines of a hint and its first
column are counted from zero, which leaves room for the one that is added for a reader. The last
column is taken as the syntax check and the code sniffer write it. Where that is the last number
there is, the hint is none for a reader, and the run that was to report it ends.
-/

namespace LintMend

/-! ## Numbers -/

theorem next64?_eq_some_iff {n m : Nat} : next64? n = some m ↔ m = n + 1 ∧ m < words64 := by
  rw [next64?]
  split <;> simp <;> omega

theorem next64?_eq_some {n : Nat} (h : n + 1 < words64) : next64? n = some (n + 1) :=
  next64?_eq_some_iff.mpr ⟨rfl, h⟩

/-- Counting from one fails at the last number only. -/
theorem next64?_eq_none_iff {n : Nat} (h : n < words64) : next64? n = none ↔ n = words64 - 1 := by
  rw [next64?]
  split <;> simp <;> omega

/-- The number before one that is written leaves room for the next. -/
theorem pred_succ_lt_words64 {n : Nat} (h : n < words64) : n - 1 + 1 < words64 := by
  have hwords : 1 < words64 := by decide
  omega

/-! ## Elements -/

section Elements

open Xml

variable {α : Type} {name : Text} {read : Text → List Node → Option α} {p : α → Prop}
  {nodes left : List Node} {items : List α}

/-- All of a list can be read exactly if each of its members can. -/
theorem mapM_eq_some_iff {β : Type} {f : β → Option α} {l : List β} :
    l.mapM f = some items ↔ List.Forall₂ (fun b item ↦ f b = some item) l items := by
  induction l generalizing items with
  | nil => cases items <;> simp
  | cons b l ih =>
    rw [List.mapM_cons]
    cases items with
    | nil => cases f b <;> cases l.mapM f <;> simp
    | cons item items =>
      rw [List.forall₂_cons, ← ih]
      cases f b <;> cases l.mapM f <;> simp

theorem forall_mem_of_mapM {β : Type} {f : β → Option α} {l : List β}
    (hf : ∀ b item, f b = some item → p item) (h : l.mapM f = some items) :
    ∀ item ∈ items, p item := by
  rw [mapM_eq_some_iff] at h
  induction h with
  | nil => exact List.forall_mem_nil _
  | cons hitem _ ih => exact List.forall_mem_cons.mpr ⟨hf _ _ hitem, ih⟩

/-- What holds of every item that can be read holds of all that are read in a row. -/
theorem Xml.Node.forall_mem_of_runOf?
    (hread : ∀ tag children item, read tag children = some item → p item)
    (h : Node.runOf? name read nodes = some (items, left)) : ∀ item ∈ items, p item := by
  induction nodes generalizing items left with
  | nil =>
    obtain ⟨rfl, -⟩ := Prod.mk.inj (Option.some.inj h)
    exact List.forall_mem_nil _
  | cons node rest ih =>
    cases node with
    | text run =>
      obtain ⟨value, -, h⟩ := Option.bind_eq_some_iff.mp h
      split at h
      · exact ih h
      · cases h
    | element tag children =>
      unfold Node.runOf? at h
      split at h
      · obtain ⟨item, hitem, h⟩ := Option.bind_eq_some_iff.mp h
        obtain ⟨⟨later, _⟩, hlater, h⟩ := Option.bind_eq_some_iff.mp h
        obtain ⟨rfl, -⟩ := Prod.mk.inj (Option.some.inj h)
        exact List.forall_mem_cons.mpr ⟨hread tag children item hitem, ih hlater⟩
      · obtain ⟨rfl, -⟩ := Prod.mk.inj (Option.some.inj h)
        exact List.forall_mem_nil _

theorem Xml.Node.forall_mem_of_group?
    (hread : ∀ tag children item, read tag children = some item → p item)
    (h : Node.group? name read nodes = some items) : ∀ item ∈ items, p item := by
  induction nodes with
  | nil =>
    obtain rfl := Option.some.inj h
    exact List.forall_mem_nil _
  | cons node rest ih =>
    cases node with
    | text run =>
      obtain ⟨value, -, h⟩ := Option.bind_eq_some_iff.mp h
      exact ih h
    | element tag children =>
      unfold Node.group? at h
      split at h
      · obtain ⟨⟨found, left⟩, hfound, h⟩ := Option.bind_eq_some_iff.mp h
        obtain ⟨-, -, h⟩ := Option.bind_eq_some_iff.mp h
        obtain rfl := Option.some.inj h
        exact Node.forall_mem_of_runOf? hread hfound
      · split at h
        · exact ih h
        · cases h

end Elements

/-! ## Hints -/

/-- A hint whose places can be counted from one, apart perhaps from its last column. -/
structure Hint.IsPlaced (hint : Hint) : Prop where
  lineBegin : hint.lineBegin + 1 < words64
  lineEnd : hint.lineEnd + 1 < words64
  columnBegin : hint.columnBegin + 1 < words64
  columnEnd : hint.columnEnd < words64

namespace Report

theorem Phplint.isPlaced_of_hint? {line : Text} {hint : Hint} (h : hint? line = some hint) :
    hint.IsPlaced := by
  obtain ⟨⟨message, range⟩, -, h⟩ := Option.bind_eq_some_iff.mp h
  obtain ⟨beginLine, hbeginLine, h⟩ := Option.bind_eq_some_iff.mp h
  obtain ⟨beginColumn, hbeginColumn, h⟩ := Option.bind_eq_some_iff.mp h
  obtain ⟨endLine, hendLine, h⟩ := Option.bind_eq_some_iff.mp h
  obtain ⟨endColumn, hendColumn, h⟩ := Option.bind_eq_some_iff.mp h
  obtain rfl := Option.some.inj h
  exact {
    lineBegin := pred_succ_lt_words64 (Text.lt_words64_of_readDigits? hbeginLine)
    lineEnd := pred_succ_lt_words64 (Text.lt_words64_of_readDigits? hendLine)
    columnBegin := pred_succ_lt_words64 (Text.lt_words64_of_readDigits? hbeginColumn)
    columnEnd := Text.lt_words64_of_readDigits? hendColumn }

theorem Phplint.isPlaced_of_mem_hints {output : Text} {hint : Hint} (h : hint ∈ hints output) :
    hint.IsPlaced := by
  obtain ⟨line, -, hline⟩ := List.mem_filterMap.mp h
  exact isPlaced_of_hint? hline

/-! ### The mess detector -/

namespace Phpmd

variable {tag : Text} {children : List Xml.Node}

theorem line_lt_of_violation? {violation : Violation}
    (h : violation? tag children = some violation) : violation.line < words64 := by
  obtain ⟨attributes, -, h⟩ := Option.bind_eq_some_iff.mp h
  split at h
  · obtain ⟨line, hline, h⟩ := Option.bind_eq_some_iff.mp h
    obtain ⟨text, -, h⟩ := Option.bind_eq_some_iff.mp h
    obtain rfl := Option.some.inj h
    exact Text.lt_words64_of_readWord? hline
  · cases h

theorem line_lt_of_file? {violations : List Violation}
    (h : file? tag children = some violations) : ∀ violation ∈ violations,
      violation.line < words64 := by
  obtain ⟨attributes, -, h⟩ := Option.bind_eq_some_iff.mp h
  exact Xml.Node.forall_mem_of_group? (fun _ _ _ ↦ line_lt_of_violation?) h

theorem line_lt_of_ofNode? {node : Xml.Node} {report : Files} (h : ofNode? node = some report) :
    ∀ violations ∈ report, ∀ violation ∈ violations, violation.line < words64 := by
  cases node with
  | text run => cases h
  | element tag children =>
    obtain ⟨attributes, -, h⟩ := Option.bind_eq_some_iff.mp h
    exact Xml.Node.forall_mem_of_group? (fun _ _ _ ↦ line_lt_of_file?) h

/-- The hint of a violation ends in a column that no report names. -/
theorem isPlaced_hint {violation : Violation} (h : violation.line < words64) :
    violation.hint.IsPlaced where
  lineBegin := pred_succ_lt_words64 h
  lineEnd := pred_succ_lt_words64 h
  columnBegin := show 0 + 1 < words64 by decide
  columnEnd := show lastColumn < words64 by decide

theorem isPlaced_of_hints? {output : Text} {found : List Hint} (h : hints? output = some found) :
    ∀ hint ∈ found, hint.IsPlaced ∧ hint.columnEnd = lastColumn := by
  unfold hints? at h
  split at h
  · obtain rfl := Option.some.inj h
    exact List.forall_mem_nil _
  · obtain ⟨report, hreport, rfl⟩ := Option.map_eq_some_iff.mp h
    obtain ⟨node, -, hnode⟩ := Option.bind_eq_some_iff.mp hreport
    intro hint hmem
    obtain ⟨violation, hviolation, rfl⟩ := List.mem_map.mp hmem
    obtain ⟨violations, hviolations, hviolation⟩ := List.mem_flatten.mp hviolation
    exact ⟨isPlaced_hint (line_lt_of_ofNode? hnode violations hviolations violation hviolation), rfl⟩

end Phpmd

/-! ### The code sniffer -/

namespace Phpcs

variable {tag : Text} {children : List Xml.Node}

/-- A message whose place is written in words of 64 bits. -/
structure Message.IsPlaced (message : Message) : Prop where
  line : message.line < words64
  column : message.column < words64

theorem isPlaced_of_message? {message : Message} (h : message? tag children = some message) :
    message.IsPlaced := by
  obtain ⟨attributes, -, h⟩ := Option.bind_eq_some_iff.mp h
  split at h
  · obtain ⟨line, hline, h⟩ := Option.bind_eq_some_iff.mp h
    obtain ⟨column, hcolumn, h⟩ := Option.bind_eq_some_iff.mp h
    obtain ⟨text, -, h⟩ := Option.bind_eq_some_iff.mp h
    obtain rfl := Option.some.inj h
    exact ⟨Text.lt_words64_of_readWord? hline, Text.lt_words64_of_readWord? hcolumn⟩
  · cases h

theorem isPlaced_of_entry? {node : Xml.Node} {entry : Entry} {message : Message}
    (h : entry? node = some entry) (hmessage : entry.message? = some message) :
    message.IsPlaced := by
  unfold entry? at h
  split at h
  · obtain ⟨value, -, rfl⟩ := Option.map_eq_some_iff.mp h
    cases hmessage
  · split at h
    · obtain ⟨found, hfound, rfl⟩ := Option.map_eq_some_iff.mp h
      obtain rfl := Option.some.inj hmessage
      exact isPlaced_of_message? hfound
    · split at h
      · obtain ⟨found, hfound, rfl⟩ := Option.map_eq_some_iff.mp h
        obtain rfl := Option.some.inj hmessage
        exact isPlaced_of_message? hfound
      · split at h
        · obtain rfl := Option.some.inj h
          cases hmessage
        · cases h

/-- Every message of a file is placed. -/
theorem isPlaced_of_file? {entries : List Entry} (h : file? tag children = some entries) :
    ∀ entry ∈ entries, ∀ message, entry.message? = some message → message.IsPlaced := by
  obtain ⟨attributes, -, h⟩ := Option.bind_eq_some_iff.mp h
  exact forall_mem_of_mapM (fun _ _ hentry _ ↦ isPlaced_of_entry? hentry) h

theorem isPlaced_of_ofNode? {node : Xml.Node} {report : Files} (h : ofNode? node = some report) :
    ∀ entries ∈ report, ∀ entry ∈ entries, ∀ message, entry.message? = some message →
      message.IsPlaced := by
  cases node with
  | text run => cases h
  | element tag children =>
    obtain ⟨attributes, -, h⟩ := Option.bind_eq_some_iff.mp h
    exact Xml.Node.forall_mem_of_group? (fun _ _ _ ↦ isPlaced_of_file?) h

/-- The hint of a message never begins in the first column, and ends in the column as written. -/
theorem isPlaced_hint {message : Message} (h : message.IsPlaced) : message.hint.IsPlaced where
  lineBegin := pred_succ_lt_words64 h.line
  lineEnd := pred_succ_lt_words64 h.line
  columnBegin := by
    have hcolumn := pred_succ_lt_words64 h.column
    have hsecond : 1 + 1 < words64 := by decide
    change max (message.column - 1) 1 + 1 < words64
    omega
  columnEnd := h.column

theorem isPlaced_of_hints? {output : Text} {found : List Hint} (h : hints? output = some found) :
    ∀ hint ∈ found, hint.IsPlaced := by
  unfold hints? at h
  split at h
  · obtain rfl := Option.some.inj h
    exact List.forall_mem_nil _
  · obtain ⟨report, hreport, rfl⟩ := Option.map_eq_some_iff.mp h
    obtain ⟨node, -, hnode⟩ := Option.bind_eq_some_iff.mp hreport
    intro hint hmem
    obtain ⟨entries, hentries, hmem⟩ := List.mem_flatMap.mp hmem
    obtain ⟨message, hmessage, rfl⟩ := List.mem_map.mp hmem
    obtain ⟨entry, hentry, hmessage⟩ := List.mem_filterMap.mp (List.mem_mergeSort.mp hmessage)
    exact isPlaced_hint (isPlaced_of_ofNode? hnode entries hentries entry hentry message hmessage)

end Phpcs

end Report

/-! ## Outputs -/

section Outputs

variable {adapter : Adapter} {output : Text} {found : List Hint} {hint : Hint}

/-- Whatever a tool writes, the places of the hints are words of 64 bits, and only the last column
of a hint of the syntax check or of the code sniffer can be the last of them. -/
theorem Adapter.isPlaced_of_hints? (h : adapter.hints? output = some found) (hmem : hint ∈ found) :
    hint.IsPlaced ∧ (adapter = .phpmd → hint.columnEnd = Report.Phpmd.lastColumn) := by
  cases adapter with
  | phplint =>
    obtain rfl : Report.Phplint.hints output = found := Option.some.inj h
    exact ⟨Report.Phplint.isPlaced_of_mem_hints hmem, nofun⟩
  | phpmd =>
    obtain ⟨hplaced, hlast⟩ := Report.Phpmd.isPlaced_of_hints? h hint hmem
    exact ⟨hplaced, fun _ ↦ hlast⟩
  | phpcs => exact ⟨Report.Phpcs.isPlaced_of_hints? h hint hmem, nofun⟩

/-- So are the places of the hints of a report. -/
theorem Manager.isPlaced_of_lintCopy {manager : Manager} {world : World} {path : String}
    {content : Content} {run : LintRun} (h : manager.lintCopy world path content = .ok run)
    (hmem : hint ∈ run.report.hints) : hint.IsPlaced := by
  rw [lintCopy] at h
  split at h
  · obtain rfl := Except.ok.inj h
    obtain ⟨adapter, output, found, hfound, hmem⟩ := exists_output_of_mem_report hmem
    exact (Adapter.isPlaced_of_hints? hfound hmem).1
  · cases h

/-! ## Hints for a reader -/

/-- A hint for a reader differs from the hint by counting from one, in words of 64 bits. -/
structure HintInfo.Counts (info : HintInfo) (hint : Hint) : Prop where
  line : info.line = hint.lineBegin + 1
  column : info.column = hint.columnBegin + 1
  endLine : info.endLine = hint.lineEnd + 1
  endColumn : info.endColumn = hint.columnEnd + 1
  line_lt : info.line < words64
  column_lt : info.column < words64
  endLine_lt : info.endLine < words64
  endColumn_lt : info.endColumn < words64

theorem HintInfo.counts_of_ofHint? {info : HintInfo} (h : ofHint? hint = some info) :
    info.Counts hint := by
  obtain ⟨line, hline, h⟩ := Option.bind_eq_some_iff.mp h
  obtain ⟨column, hcolumn, h⟩ := Option.bind_eq_some_iff.mp h
  obtain ⟨endLine, hendLine, h⟩ := Option.bind_eq_some_iff.mp h
  obtain ⟨endColumn, hendColumn, h⟩ := Option.bind_eq_some_iff.mp h
  obtain rfl := Option.some.inj h
  rw [next64?_eq_some_iff] at hline hcolumn hendLine hendColumn
  exact ⟨hline.1, hcolumn.1, hendLine.1, hendColumn.1, hline.2, hcolumn.2, hendLine.2,
    hendColumn.2⟩

/-- Of a hint that a tool gave only the last column can stand in the way. -/
theorem HintInfo.ofHint?_eq_none_iff (h : hint.IsPlaced) :
    ofHint? hint = none ↔ hint.columnEnd = words64 - 1 := by
  rw [← next64?_eq_none_iff h.columnEnd]
  simp only [ofHint?, next64?_eq_some h.lineBegin, next64?_eq_some h.columnBegin,
    next64?_eq_some h.lineEnd]
  cases next64? hint.columnEnd <;> simp

/-- A hint that a tool gave is one for a reader, with each of its places one more than the hint has,
exactly if its last column is not the last number of 64 bits. The mess detector never gives that
column. -/
theorem HintInfo.ofHint?_eq_none_iff_of_output {world : World}
    (h : adapter.parseOutput world output = .ok found) (hmem : hint ∈ found) :
    (HintInfo.ofHint? hint = none ↔ hint.columnEnd = words64 - 1) ∧
    (∀ info, HintInfo.ofHint? hint = some info → info.Counts hint) ∧
    (adapter = .phpmd → hint.columnEnd ≠ words64 - 1) := by
  obtain ⟨hplaced, hdetector⟩ :=
    Adapter.isPlaced_of_hints? (Adapter.parseOutput_eq_ok_iff.mp h) hmem
  refine ⟨ofHint?_eq_none_iff hplaced, fun info ↦ counts_of_ofHint?, fun hadapter ↦ ?_⟩
  rw [hdetector hadapter]
  decide

/-- The syntax check and the code sniffer write the last number as a column. -/
theorem HintInfo.ofHint?_eq_none_of_last_column :
    let world : World :=
      { files := ⟨"/work", []⟩
        isProgram := fun _ ↦ false
        launch := fun _ _ _ ↦ .error .notFound
        scratch := "/tmp/scan"
        copyFault := fun _ _ ↦ none
        xmlFault := fun _ _ ↦ "" }
    let lines : Text := "x from 1:2 to 3:18446744073709551615\ny from 1:2 to 3:4".toList
    let report : Text := "<phpcs><file><error line='3' column='18446744073709551615'>".toList ++
      "x</error></file></phpcs>".toList
    let checked := Adapter.phplint.hint 0 2 1 (words64 - 1) ['x']
    let other := Adapter.phplint.hint 0 2 1 4 ['y']
    let sniffed := Adapter.phpcs.hint 2 2 (words64 - 2) (words64 - 1) ['x']
    (Adapter.phplint.parseOutput world lines = .ok [checked, other] ∧
      HintInfo.ofHint? checked = none ∧
      ∃ info, HintInfo.ofHint? other = some info ∧ info.Counts other ∧ info.endColumn = 5) ∧
    Adapter.phpcs.parseOutput world report = .ok [sniffed] ∧ HintInfo.ofHint? sniffed = none := by
  intro world lines report checked other sniffed
  have hlines : Adapter.phplint.parseOutput world lines = .ok [checked, other] :=
    Adapter.parseOutput_eq_ok_iff.mpr (by decide +kernel)
  have hreport : Adapter.phpcs.parseOutput world report = .ok [sniffed] :=
    Adapter.parseOutput_eq_ok_iff.mpr (by decide +kernel)
  obtain ⟨hchecked, -, -⟩ :=
    HintInfo.ofHint?_eq_none_iff_of_output hlines (List.mem_cons_self (a := checked))
  obtain ⟨hother, hcounts, -⟩ := HintInfo.ofHint?_eq_none_iff_of_output hlines
    (List.mem_cons_of_mem checked (List.mem_singleton_self other))
  obtain ⟨hsniffed, -, -⟩ :=
    HintInfo.ofHint?_eq_none_iff_of_output hreport (List.mem_singleton_self sniffed)
  obtain ⟨info, hinfo⟩ := Option.ne_none_iff_exists'.mp (mt hother.mp (by decide))
  exact ⟨⟨hlines, hchecked.mpr rfl, info, hinfo, hcounts info hinfo,
    (hcounts info hinfo).endColumn⟩, hreport, hsniffed.mpr rfl⟩

end Outputs

end LintMend
