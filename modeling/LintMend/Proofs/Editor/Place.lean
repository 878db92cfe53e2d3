import LintMend.Editor.Server
import LintMend.Proofs.Edit
import LintMend.Proofs.Text.Position
import LintMend.Proofs.Text.Search

/-!
# Places that an editor is sent

An editor counts lines at line feeds and columns in units of UTF-16, so a position is the place of a
text whose beginning counts it; between the two units of a character there is none. Counting never
comes back to a position it has left, and a position has at most one place. The position that is
sent for the end of a text has the place before the carriage returns at the end of it, and an edit
of all up to that position leaves them behind the new text.
-/

namespace LintMend.Text

variable {s before after new t left : Text} {earlier : List Text} {here p : Position} {o : Nat}

/-! ## Counting -/

theorem units16_pos (c : Char) : 0 < units16 c := by
  unfold units16
  split <;> decide

@[simp] theorem size16_cons (c : Char) (s : Text) : size16 (c :: s) = units16 c + size16 s := rfl

/-- The position behind a text, counted from a given one. -/
def countFrom16 (here : Position) (s : Text) : Position := s.foldl (stepBy units16) here

/-- The position behind a text. -/
def counted16 (s : Text) : Position := countFrom16 ⟨0, 0⟩ s

theorem widthOf_units16 (s : Text) : widthOf units16 s = size16 s := rfl

theorem length_le_size16 (s : Text) : s.length ≤ size16 s := by
  induction s with
  | nil => exact Nat.le_refl 0
  | cons c s ih =>
    have hpos := units16_pos c
    rw [List.length_cons, size16_cons]
    omega

theorem size16_eq_length_iff : size16 s = s.length ↔ ∀ c ∈ s, units16 c = 1 := by
  induction s with
  | nil => simp [size16]
  | cons c s ih =>
    have hpos := units16_pos c
    have hle := length_le_size16 s
    rw [size16_cons, List.length_cons, List.forall_mem_cons, ← ih]
    omega

theorem counted16_ended_append (hearlier : ∀ line ∈ earlier, '\n' ∉ line) (hleft : '\n' ∉ left) :
    (ended earlier ++ left).counted16 = ⟨earlier.length, size16 left⟩ := by
  rw [counted16, countFrom16, List.foldl_append, foldl_stepBy_ended hearlier,
    foldl_stepBy_of_notMem hleft, widthOf_units16, Nat.zero_add, Nat.zero_add]

/-- Counting goes on to later lines, or on the same line by a unit at least for a character. -/
theorem countFrom16_cases (here : Position) (s : Text) :
    here.line < (countFrom16 here s).line ∨
      (countFrom16 here s).line = here.line ∧
        here.column + s.length ≤ (countFrom16 here s).column := by
  induction s generalizing here with
  | nil => exact .inr ⟨rfl, Nat.le_refl _⟩
  | cons c s ih =>
    have hrest : countFrom16 here (c :: s) = countFrom16 (stepBy units16 here c) s := rfl
    have hnext := ih (stepBy units16 here c)
    rw [hrest, List.length_cons]
    by_cases hc : c = '\n'
    · rw [stepBy, if_pos hc] at hnext ⊢
      dsimp only at hnext
      omega
    · have hpos := units16_pos c
      rw [stepBy, if_neg hc] at hnext ⊢
      dsimp only at hnext
      omega

theorem countFrom16_eq_self_iff : countFrom16 here s = here ↔ s = [] := by
  constructor
  · intro h
    have hcases := countFrom16_cases here s
    rw [h] at hcases
    have hlength : s.length = 0 := by omega
    exact List.length_eq_zero_iff.mp hlength
  · rintro rfl
    rfl

/-! ## Reading -/

/-- Offset of a position behind one that stands where the text begins. -/
def offsetFrom16? (p : Position) : Position → Text → Option Nat
  | here, [] => if here = p then some 0 else none
  | here, c :: s =>
    if here = p then some 0
    else (offsetFrom16? p (stepBy units16 here c) s).map (c.utf8Size + ·)

/-- Offset of a position that an editor is sent, if it is one of the text. -/
def offset16? (s : Text) (p : Position) : Option Nat := offsetFrom16? p ⟨0, 0⟩ s

theorem offsetFrom16?_eq_some_iff : offsetFrom16? p here s = some o ↔
    ∃ before after, s = before ++ after ∧ countFrom16 here before = p ∧ o = size before := by
  induction s generalizing here o with
  | nil =>
    simp only [offsetFrom16?, List.nil_eq_append_iff]
    constructor
    · intro h
      obtain ⟨hp, ho⟩ : here = p ∧ 0 = o := by simpa using h
      exact ⟨[], [], ⟨rfl, rfl⟩, hp, ho.symm⟩
    · rintro ⟨before, after, ⟨rfl, rfl⟩, hp, rfl⟩
      exact if_pos hp
  | cons c s ih =>
    rw [offsetFrom16?]
    by_cases hp : here = p
    · rw [if_pos hp, Option.some.injEq]
      constructor
      · intro ho
        exact ⟨[], c :: s, rfl, hp, ho.symm⟩
      · rintro ⟨before, after, -, hcount, rfl⟩
        -- only the empty beginning counts no further than where it begins
        rw [countFrom16_eq_self_iff.mp (hcount.trans hp.symm), size_nil]
    · rw [if_neg hp, Option.map_eq_some_iff]
      constructor
      · rintro ⟨o, hrest, rfl⟩
        obtain ⟨before, after, rfl, hcount, rfl⟩ := ih.mp hrest
        exact ⟨c :: before, after, rfl, hcount, rfl⟩
      · rintro ⟨before, after, hs, hcount, rfl⟩
        cases before with
        | nil => exact absurd hcount hp
        | cons d before =>
          obtain ⟨rfl, rfl⟩ := List.cons.inj hs
          exact ⟨size before, ih.mpr ⟨before, after, rfl, hcount, rfl⟩, rfl⟩

theorem offset16?_eq_some_iff : s.offset16? p = some o ↔
    ∃ before after, s = before ++ after ∧ before.counted16 = p ∧ o = size before :=
  offsetFrom16?_eq_some_iff

theorem offset16?_eq_some_size_iff (h : s = before ++ after) :
    s.offset16? p = some (size before) ↔ before.counted16 = p := by
  rw [offset16?_eq_some_iff]
  constructor
  · rintro ⟨before', after', hs, hcount, hsize⟩
    have hcut := splitAt?_eq_some_iff.mpr ⟨h, rfl⟩
    rw [splitAt?_eq_some_iff.mpr ⟨hs, hsize⟩] at hcut
    obtain ⟨rfl, -⟩ : before' = before ∧ after' = after := by simpa using hcut
    exact hcount
  · intro hcount
    exact ⟨before, after, h, hcount, rfl⟩

/-! ## Replacing -/

/-- What an editor makes of a text when it is told to replace a range of it. -/
def replace16? (s : Text) (start stop : Position) (new : Text) : Option Text := do
  let start ← s.offset16? start
  let stop ← s.offset16? stop
  return s.splice ⟨start, stop, new⟩

/-- A range from the start of a text is a beginning of it. -/
theorem replace16?_start_eq_some_iff : s.replace16? ⟨0, 0⟩ p new = some t ↔
    ∃ before after, s = before ++ after ∧ before.counted16 = p ∧ t = new ++ after := by
  have hstart : s.offset16? ⟨0, 0⟩ = some 0 :=
    offset16?_eq_some_iff.mpr ⟨[], s, rfl, rfl, rfl⟩
  have hsplice {before after : Text} (hs : s = before ++ after) :
      s.splice ⟨0, size before, new⟩ = new ++ after := by
    have hcuts : (Edit.span ⟨0, size before, new⟩).Cuts s [] before after :=
      ⟨by simpa using hs, rfl, rfl⟩
    exact splice_of_cuts hcuts
  rw [replace16?, hstart]
  constructor
  · intro h
    obtain ⟨o, hstop, ht⟩ : ∃ o, s.offset16? p = some o ∧ s.splice ⟨0, o, new⟩ = t := by
      simpa [Option.bind_eq_some_iff] using h
    obtain ⟨before, after, hs, hcount, rfl⟩ := offset16?_eq_some_iff.mp hstop
    exact ⟨before, after, hs, hcount, ht ▸ hsplice hs⟩
  · rintro ⟨before, after, hs, hcount, rfl⟩
    have hstop := (offset16?_eq_some_size_iff hs).mpr hcount
    simp [hstop, hsplice hs]

theorem replace16?_start_eq_new_iff :
    s.replace16? ⟨0, 0⟩ p new = some new ↔ s.counted16 = p := by
  rw [replace16?_start_eq_some_iff]
  constructor
  · rintro ⟨before, after, hs, hcount, hnew⟩
    have hafter : after = [] := List.self_eq_append_right.mp hnew
    rw [hs, hafter, List.append_nil]
    exact hcount
  · intro hcount
    exact ⟨s, [], by simp, hcount, by simp⟩

/-! ## The end of a text -/

theorem length_lineLengths16 (s : Text) : s.lineLengths16.length = s.lineCount := by
  simp [lineLengths16, lineCount]

theorem lineLengths16_ne_nil (s : Text) : s.lineLengths16 ≠ [] := by
  simpa [lineLengths16] using lines_ne_nil s

theorem endPosition16_of_lines {last : Text} (h : s.lines = earlier ++ [last]) :
    s.endPosition16 = ⟨earlier.length, size16 (last.dropEndWhile (· = '\r'))⟩ := by
  simp [endPosition16, lineLengths16, h]

/-- A text ends with the carriage returns that its last line ends with. -/
theorem takeEndWhile_ended_append (earlier : List Text) (last : Text) :
    takeEndWhile (· = '\r') (ended earlier ++ last) = last.takeEndWhile (· = '\r') := by
  rcases List.eq_nil_or_concat earlier with rfl | ⟨earlier, line, rfl⟩
  · rfl
  · have hfeed : ended (earlier.concat line) ++ last = ended earlier ++ line ++ '\n' :: last := by
      simp
    rw [hfeed, takeEndWhile_append_cons (by decide)]

theorem takeEndWhile_eq_nil_iff {c : Char} :
    s.takeEndWhile (· = c) = [] ↔ s.getLast? ≠ some c := by
  rw [takeEndWhile, List.reverse_eq_nil_iff, List.getLast?_eq_head?_reverse]
  cases s.reverse with
  | nil => simp
  | cons d rest => by_cases hd : d = c <;> simp [hd]

/-- The end that a text is said to have is the place before the carriage returns it ends with. -/
theorem counted16_dropEndWhile (s : Text) :
    (s.dropEndWhile (· = '\r')).counted16 = s.endPosition16 := by
  obtain ⟨earlier, last, hs, hlines, hearlier, hlast⟩ := exists_ended_append s
  have hreturns : s.takeEndWhile (· = '\r') = last.takeEndWhile (· = '\r') := by
    rw [hs, takeEndWhile_ended_append]
  have hcut : s.dropEndWhile (· = '\r') ++ s.takeEndWhile (· = '\r') =
      ended earlier ++ last.dropEndWhile (· = '\r') ++ s.takeEndWhile (· = '\r') := by
    rw [takeEndWhile_append_dropEndWhile, hreturns, List.append_assoc,
      takeEndWhile_append_dropEndWhile, hs]
  have hends : s.dropEndWhile (· = '\r') = ended earlier ++ last.dropEndWhile (· = '\r') :=
    List.append_cancel_right hcut
  have hleft : '\n' ∉ last.dropEndWhile (· = '\r') := by
    intro h
    apply hlast
    rw [← takeEndWhile_append_dropEndWhile (· = '\r') last]
    exact List.mem_append_left _ h
  rw [hends, counted16_ended_append hearlier hleft, endPosition16_of_lines hlines]

/-- To the end that a text is said to have, its true end adds a unit for each carriage return. -/
theorem counted16_eq_endPosition16_add (s : Text) :
    s.counted16 = ⟨s.endPosition16.line,
      s.endPosition16.column + (s.takeEndWhile (· = '\r')).length⟩ := by
  have hreturns : ∀ c ∈ s.takeEndWhile (· = '\r'), c = '\r' := by
    have hall := all_takeEndWhile (· = '\r') s
    simpa using hall
  have hfeed : '\n' ∉ s.takeEndWhile (· = '\r') := fun h ↦ absurd (hreturns _ h) (by decide)
  have hwidths : widthOf units16 (s.takeEndWhile (· = '\r')) =
      (s.takeEndWhile (· = '\r')).length := by
    rw [widthOf_units16, size16_eq_length_iff]
    intro c hc
    rw [hreturns c hc]
    decide
  calc s.counted16
      = (s.dropEndWhile (· = '\r') ++ s.takeEndWhile (· = '\r')).counted16 := by
        rw [takeEndWhile_append_dropEndWhile]
    _ = (s.takeEndWhile (· = '\r')).foldl (stepBy units16) s.endPosition16 := by
        rw [counted16, countFrom16, List.foldl_append, ← counted16_dropEndWhile]
        rfl
    _ = ⟨s.endPosition16.line, s.endPosition16.column + (s.takeEndWhile (· = '\r')).length⟩ := by
        rw [foldl_stepBy_of_notMem hfeed, hwidths]

theorem sent_endPosition16_eq_counted16_iff : s.endPosition16.sent = s.counted16 ↔
    s.getLast? ≠ some '\r' ∧ s.counted16.sent = s.counted16 := by
  rw [← takeEndWhile_eq_nil_iff, counted16_eq_endPosition16_add]
  constructor
  · intro h
    obtain ⟨hline, hcolumn⟩ := Position.mk.inj h
    have hle : wrap32 s.endPosition16.column ≤ s.endPosition16.column := Nat.mod_le _ _
    have hlength : (s.takeEndWhile (· = '\r')).length = 0 := by omega
    refine ⟨List.length_eq_zero_iff.mp hlength, ?_⟩
    rw [hlength, Nat.add_zero] at hcolumn ⊢
    rw [Position.sent, hline, hcolumn]
  · rintro ⟨hnil, hsent⟩
    rw [hnil] at hsent ⊢
    exact hsent

/-- A position is that of the end where a text counts it. -/
theorem offset16?_eq_size_iff : s.offset16? p = some (size s) ↔ s.counted16 = p :=
  offset16?_eq_some_size_iff (List.append_nil s).symm

/-- The end that a text is said to have is its end unless it ends with a carriage return. -/
theorem offset16?_endPosition16_eq_size_iff :
    s.offset16? s.endPosition16 = some (size s) ↔ s.getLast? ≠ some '\r' := by
  rw [offset16?_eq_size_iff, ← takeEndWhile_eq_nil_iff, ← List.length_eq_zero_iff,
    counted16_eq_endPosition16_add]
  constructor
  · intro h
    have hcolumn := congrArg Position.column h
    dsimp only at hcolumn
    omega
  · intro h
    rw [h, Nat.add_zero]

theorem offset16?_sent_endPosition16_eq_size_iff :
    s.offset16? s.endPosition16.sent = some (size s) ↔
      s.getLast? ≠ some '\r' ∧ s.counted16.sent = s.counted16 := by
  rw [offset16?_eq_size_iff, eq_comm, sent_endPosition16_eq_counted16_iff]

end LintMend.Text

namespace LintMend

open Text

/-! ## Edits of an action -/

/-- A position as it is read from a message. -/
def Position.ofJson? (json : Json) : Option Position := do
  let line ← (json.get? "line").bind Json.word?
  let column ← (json.get? "character").bind Json.word?
  return ⟨line, column⟩

theorem word?_nat_wrap32 (n : Nat) : (Json.nat (wrap32 n)).word? = some (wrap32 n) := by
  have hlt : wrap32 n < words64 :=
    Nat.lt_trans (Nat.mod_lt n (by decide)) (by decide)
  have hword : isWord64 (wrap32 n) = true := by
    rw [isWord64, Bool.and_eq_true, decide_eq_true_eq, decide_eq_true_eq]
    exact ⟨Int.natCast_nonneg _, Int.ofNat_lt.mpr hlt⟩
  rw [Json.nat, Json.word?, if_pos hword, Int.toNat_natCast]

theorem Position.ofJson?_positionJson (p : Position) :
    Position.ofJson? (Diagnostic.positionJson p) = some p.sent := by
  have hline : (Diagnostic.positionJson p).get? "line" = some (Json.nat (wrap32 p.line)) := rfl
  have hcolumn : (Diagnostic.positionJson p).get? "character" =
      some (Json.nat (wrap32 p.column)) := rfl
  rw [Position.ofJson?, hline, hcolumn, Option.bind_some, Option.bind_some, word?_nat_wrap32,
    word?_nat_wrap32]
  rfl

namespace Server

/-- What an editor makes of a text by an edit that it is sent. -/
def edited? (s : Text) (edit : Json) : Option Text := do
  let range ← edit.get? "range"
  let start ← (range.get? "start").bind Position.ofJson?
  let stop ← (range.get? "end").bind Position.ofJson?
  let new ← (edit.get? "newText").bind Json.str?
  s.replace16? start stop new.toList

/-- The edits of a document that an action proposes. -/
def editsOf? (uri : Uri) (action : Json) : Option (List Json) := do
  let edit ← action.get? "edit"
  let changes ← edit.get? "changes"
  let edits ← changes.get? uri.render
  edits.arr?

theorem edited?_rangeJson (s : Text) (start stop : Position) (new : Text) :
    edited? s (.obj [("newText", .str (String.ofList new)),
        ("range", Diagnostic.rangeJson start stop)]) =
      s.replace16? start.sent stop.sent new := by
  let range := Diagnostic.rangeJson start stop
  let edit := Json.obj [("newText", .str (String.ofList new)), ("range", range)]
  have hrange : edit.get? "range" = some range := rfl
  have hstart : range.get? "start" = some (Diagnostic.positionJson start) := rfl
  have hstop : range.get? "end" = some (Diagnostic.positionJson stop) := rfl
  have hnew : edit.get? "newText" = some (.str (String.ofList new)) := rfl
  rw [edited?, hrange, Option.bind_eq_bind, Option.bind_some, hstart, hstop, hnew,
    Option.bind_some, Option.bind_some, Option.bind_some, Position.ofJson?_positionJson,
    Position.ofJson?_positionJson, Json.str?, Option.bind_eq_bind, Option.bind_some,
    Option.bind_eq_bind, Option.bind_some, Option.bind_some, String.toList_ofList]

theorem editsOf?_repairAction (uri : Uri) (d : Document) (new : Text) (diagnostics : Json) :
    editsOf? uri (repairAction uri d new diagnostics) =
      some [.obj [("newText", .str (String.ofList new)),
        ("range", Diagnostic.rangeJson ⟨0, 0⟩ d.text.endPosition16)]] := by
  simp [editsOf?, repairAction, Json.get?, Json.arr?]

/-- What an editor makes of the text of a document by an action with one edit of it. -/
def applied? (uri : Uri) (action : Json) (s : Text) : Option Text :=
  match editsOf? uri action with
  | some [edit] => edited? s edit
  | _ => none

/-- The end of a document is sent as its true end, and an offered action makes exactly its new text
of the document, if and only if the document does not end with a carriage return and its end can be
sent. The carriage returns at the end of a document are left behind the new text. -/
theorem applied_repairAction_eq_new_iff (uri : Uri) (d : Document) (new : Text)
    (diagnostics : Json) :
    (d.text.endPosition16.sent = d.text.counted16 ↔
      d.text.getLast? ≠ some '\r' ∧ d.text.counted16.sent = d.text.counted16) ∧
    (applied? uri (repairAction uri d new diagnostics) d.text = some new ↔
      d.text.getLast? ≠ some '\r' ∧ d.text.counted16.sent = d.text.counted16) ∧
    d.text.replace16? ⟨0, 0⟩ d.text.endPosition16 new =
      some (new ++ d.text.takeEndWhile (· = '\r')) := by
  have hzero : Position.sent ⟨0, 0⟩ = ⟨0, 0⟩ := rfl
  have happlied : applied? uri (repairAction uri d new diagnostics) d.text =
      d.text.replace16? ⟨0, 0⟩ d.text.endPosition16.sent new := by
    rw [applied?, editsOf?_repairAction]
    exact (edited?_rangeJson _ _ _ _).trans (by rw [hzero])
  refine ⟨sent_endPosition16_eq_counted16_iff, ?_, ?_⟩
  · rw [happlied, replace16?_start_eq_new_iff, ← sent_endPosition16_eq_counted16_iff, eq_comm]
  · exact replace16?_start_eq_some_iff.mpr ⟨_, _,
      (takeEndWhile_append_dropEndWhile _ _).symm, counted16_dropEndWhile _, rfl⟩

/-- A lone carriage return stays behind the text that was to take the place of the document. -/
theorem applied_repairAction_of_carriageReturn :
    let uri : Uri := ⟨"file".toList, some [], none, "/srv/A.php".toList, none, none⟩
    let d := Document.ofLint "<?php \n\r".toList []
    let new := "<?php\n\r".toList
    let action := repairAction uri d new (.arr [])
    d.text.endPosition16.sent = ⟨1, 0⟩ ∧ d.text.counted16 = ⟨1, 1⟩ ∧
      d.text.replace16? ⟨0, 0⟩ d.text.endPosition16 new = some (new ++ ['\r']) ∧
      applied? uri action d.text ≠ some new := by
  intro uri d new action
  obtain ⟨-, happlied, hleft⟩ := applied_repairAction_eq_new_iff uri d new (.arr [])
  refine ⟨by decide, by decide, hleft.trans (by decide), ?_⟩
  exact fun h ↦ (happlied.mp h).1 (by decide)

end Server

end LintMend
