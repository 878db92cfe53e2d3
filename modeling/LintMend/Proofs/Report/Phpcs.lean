import LintMend.Proofs.Sort
import LintMend.Report.Phpcs
import Mathlib.Data.List.Forall2
import Mathlib.Data.List.TakeWhile
import Mathlib.Data.Prod.Lex

/-!
# How the entries of a report become hints

A report of the code sniffer lists the entries of each file as they come. Its hints are the errors
and warnings of one file after the other, in each file in the order of their places. The messages
of one place keep the order they have in the file, whatever their kinds are and whatever stands
between them, so there is only one way to arrange a file.
-/

namespace LintMend

open Text in
theorem Xml.parse?_of_isAllBlank {s : Text} (h : s.isAllBlank) : Xml.parse? s = none := by
  have hblank : ∀ c ∈ s, isBlank c := List.all_eq_true.mp h
  have hmark : ('<' : Char) ∉ s := fun hmem ↦ absurd (hblank '<' hmem) (by decide)
  have horder : s.head? ≠ some '\ufeff' := fun hhead ↦
    absurd (hblank _ (List.mem_of_head? hhead)) (by decide)
  have htokens : tokens s = [] ∨ tokens s = [.text s] := by
    rw [tokens, if_neg horder]
    cases s with
    | nil => exact .inl rfl
    | cons c s =>
      have hc : c ≠ '<' := fun hc ↦ hmark (hc ▸ List.mem_cons_self)
      have hall : ∀ d ∈ c :: s, decide (d ≠ '<') = true := fun d hd ↦
        decide_eq_true (fun heq ↦ hmark (heq ▸ hd))
      have htake : (c :: s).takeWhile (fun d ↦ decide (d ≠ '<')) = c :: s :=
        List.takeWhile_eq_self_iff.mpr hall
      have hdrop : (c :: s).dropWhile (fun d ↦ decide (d ≠ '<')) = [] :=
        List.dropWhile_eq_nil_iff.mpr hall
      rw [tokensFrom, htake, hdrop, List.length_cons, tokensFrom]
      · exact .inr rfl
      all_goals simp [hc]
  rcases htokens with hnil | htext
  · rw [parse?, hnil, root?]
    all_goals simp
  · rw [parse?, htext, root?, root?]
    all_goals simp

namespace Report.Phpcs

variable {entries : List Entry} {arranged other : List Message} {message : Message}
  {report : Files} {found : List Hint}

/-- By lines, and on one line by columns. -/
def Message.place (message : Message) : Nat ×ₗ Nat := toLex (message.line, message.column)

theorem Message.le_iff {a b : Message} : a.le b ↔ a.place ≤ b.place := by
  simp [Message.le, Message.place, Prod.Lex.toLex_le_toLex]

/-! ## One file -/

/-- The errors and warnings of a file, by their places; those of one place as they come. -/
structure Arranges (entries : List Entry) (arranged : List Message) : Prop where
  perm : arranged.Perm (entries.filterMap Entry.message?)
  sorted : arranged.Pairwise fun a b ↦ a.place ≤ b.place
  stable : ∀ place, arranged.filter (·.place = place) =
    (entries.filterMap Entry.message?).filter (·.place = place)

theorem messages_eq (entries : List Entry) : messages entries =
    (entries.filterMap Entry.message?).mergeSort fun a b ↦ a.place ≤ b.place := by
  have hle : Message.le = fun a b ↦ decide (a.place ≤ b.place) := by
    funext a b
    rw [Bool.eq_iff_iff, Message.le_iff, decide_eq_true_eq]
  rw [messages, hle]

theorem pairwise_messages (entries : List Entry) :
    (messages entries).Pairwise fun a b ↦ a.place ≤ b.place := by
  rw [messages_eq]
  exact Sort.pairwise_mergeSort (fun a b : Message ↦ a.place ≤ b.place)
    (fun _ _ _ ↦ le_trans) (fun _ _ ↦ le_total _ _) _

theorem arranges_messages (entries : List Entry) : Arranges entries (messages entries) where
  perm := List.mergeSort_perm _ _
  sorted := pairwise_messages entries
  stable place := by
    rw [messages_eq]
    apply Sort.filter_mergeSort (fun a b : Message ↦ a.place ≤ b.place)
      (fun _ _ _ ↦ le_trans) (fun _ _ ↦ le_total _ _)
    intro a _ b _ ha hb
    rw [decide_eq_true_eq] at ha hb
    rw [ha, hb]

theorem Arranges.unique (h : Arranges entries arranged) (hother : Arranges entries other) :
    arranged = other :=
  Sort.eq_of_filter_key_eq h.sorted hother.sorted fun place ↦
    (h.stable place).trans (hother.stable place).symm

theorem arranges_iff : Arranges entries arranged ↔ arranged = messages entries :=
  ⟨fun h ↦ h.unique (arranges_messages entries), fun h ↦ h ▸ arranges_messages entries⟩

/-! ## Hints -/

/-- A hint on the line of a message and from the column before its own, though never from the first
column of the line. Lines and columns that are numbered zero count as those numbered one. -/
structure Shows (message : Message) (hint : Hint) : Prop where
  lineBegin : hint.lineBegin = max message.line 1 - 1
  lineEnd : hint.lineEnd = max message.line 1 - 1
  columnBegin : hint.columnBegin = max (message.column - 1) 1
  columnEnd : hint.columnEnd = message.column
  message : hint.message = String.ofList message.text.trim
  color : hint.color = Adapter.phpcs.color
  priority : hint.priority = Adapter.phpcs.priority
  source : hint.source = Adapter.phpcs.name

theorem shows_iff {hint : Hint} : Shows message hint ↔ hint = message.hint := by
  have hline : max message.line 1 - 1 = message.line - 1 := by omega
  constructor
  · rintro ⟨hlineBegin, hlineEnd, hcolumnBegin, hcolumnEnd, hmessage, hcolor, hpriority, hsource⟩
    rw [hline] at hlineBegin hlineEnd
    obtain ⟨lineBegin, lineEnd, columnBegin, columnEnd, text, color, priority, source⟩ := hint
    subst hlineBegin hlineEnd hcolumnBegin hcolumnEnd hmessage hcolor hpriority hsource
    rfl
  · rintro rfl
    exact ⟨hline.symm, hline.symm, rfl, rfl, rfl, rfl, rfl, rfl⟩

/-! ## Reports -/

/-- A relation that gives one item for each is a function along lists. -/
theorem forall₂_iff_eq_map {α β : Type} {r : α → β → Prop} {f : α → β}
    (h : ∀ a b, r a b ↔ b = f a) {l : List α} {l' : List β} :
    List.Forall₂ r l l' ↔ l' = l.map f := by
  have hr : r = fun a b ↦ f a = b := by
    funext a b
    exact propext ((h a b).trans eq_comm)
  rw [hr, ← List.forall₂_map_left_iff, List.forall₂_eq_eq_eq, eq_comm]

/-- Some hints for the messages of a report, file by file. -/
def Gives (report : Files) (found : List Hint) : Prop :=
  ∃ arranged, List.Forall₂ Arranges report arranged ∧ List.Forall₂ Shows arranged.flatten found

theorem gives_iff_eq_hints : Gives report found ↔ found = hints report := by
  have harranged {arranged : List (List Message)} :
      List.Forall₂ Arranges report arranged ↔ arranged = report.map messages :=
    forall₂_iff_eq_map (f := messages) fun _ _ ↦ arranges_iff
  have hshown {messages : List Message} :
      List.Forall₂ Shows messages found ↔ found = messages.map Message.hint :=
    forall₂_iff_eq_map (f := Message.hint) fun _ _ ↦ shows_iff
  have hhints : hints report = (report.map messages).flatten.map Message.hint := by
    rw [hints, ← List.flatMap_def, List.map_flatMap]
  simp only [Gives, harranged, hshown, exists_eq_left, hhints]

/-! ## Outputs -/

theorem not_isAllBlank_of_report {output : Text}
    (h : (Xml.parse? output).bind ofNode? = some report) : ¬ output.isAllBlank := by
  intro hblank
  rw [Xml.parse?_of_isAllBlank hblank] at h
  simp at h

theorem hints?_eq_some {output : Text} (h : (Xml.parse? output).bind ofNode? = some report) :
    hints? output = some (hints report) := by
  rw [hints?, if_neg (not_isAllBlank_of_report h), h, Option.map_some]

/-- A report gives a hint for each of its errors and warnings and for nothing else, file by file and
in each file by their places, and the hints of an output are those that its report gives. -/
theorem hints_by_place (report : Files) :
    (∀ found, Gives report found ↔ found = hints report) ∧
    ∀ output, (Xml.parse? output).bind ofNode? = some report →
      hints? output = some (hints report) :=
  ⟨fun _ ↦ gives_iff_eq_hints, fun _ h ↦ hints?_eq_some h⟩

/-- A later file begins above an earlier one, an error and a warning share a place in the order in
which they come, and two entries have no line or no column. -/
theorem hints_by_place_of_two_files :
    let output : Text := "<phpcs><file>".toList ++
      "<error line='3' column='5'><![CDATA[ late ]]></error><metric/>".toList ++
      "<warning line='3' column='4'>early</warning>".toList ++
      "<warning line='3' column='5'>later</warning>".toList ++
      "<error line='2' column='0'>no column</error>".toList ++
      "<warning line='0' column='9'>no line</warning></file>".toList ++
      "<file><error line='1' column='1'>other file</error></file></phpcs>".toList
    let report : Files :=
      [[.error ⟨3, 5, " late ".toList⟩, .other, .warning ⟨3, 4, "early".toList⟩,
        .warning ⟨3, 5, "later".toList⟩, .error ⟨2, 0, "no column".toList⟩,
        .warning ⟨0, 9, "no line".toList⟩],
       [.error ⟨1, 1, "other file".toList⟩]]
    (Xml.parse? output).bind ofNode? = some report ∧
    hints? output = some (hints report) ∧ Gives report (hints report) ∧
    (hints report).map (fun hint ↦
        (hint.message, hint.lineBegin, hint.lineEnd, hint.columnBegin, hint.columnEnd)) =
      [("no line", 0, 0, 8, 9), ("no column", 1, 1, 1, 0), ("early", 2, 2, 3, 4),
       ("late", 2, 2, 4, 5), ("later", 2, 2, 4, 5), ("other file", 0, 0, 1, 1)] := by
  intro output report
  have hreport : (Xml.parse? output).bind ofNode? = some report := by decide +kernel
  obtain ⟨hgives, houtput⟩ := hints_by_place report
  refine ⟨hreport, houtput output hreport, (hgives _).mpr rfl, ?_⟩
  have hfirst : messages report[0] = [⟨0, 9, "no line".toList⟩, ⟨2, 0, "no column".toList⟩,
      ⟨3, 4, "early".toList⟩, ⟨3, 5, " late ".toList⟩, ⟨3, 5, "later".toList⟩] := by
    simp [messages, report, List.filterMap_cons, Entry.message?, List.mergeSort,
      List.MergeSort.Internal.splitInTwo, Message.le]
  have hsecond : messages report[1] = [⟨1, 1, "other file".toList⟩] := by
    simp [messages, report, Entry.message?]
  have hhints : hints report =
      (messages report[0]).map Message.hint ++ (messages report[1]).map Message.hint := by
    rw [hints, List.flatMap_cons, List.flatMap_cons, List.flatMap_nil, List.append_nil]
    rfl
  rw [hhints, hfirst, hsecond]
  decide +kernel

end Report.Phpcs

end LintMend
