import LintMend.Edit
import LintMend.Proofs.Text.Cut

/-!
# Batches that a text accepts

An edit is checked against the text and against the start of the edit checked before it. What
passes the checks cuts the text at its own places, and since a batch is made from its end, each
edit still finds the beginning of the text as it was. One edit replaces what its span holds; two
edits, of which the first starts before the second, replace what their spans hold each on its own.
-/

namespace LintMend

/-- The range of an edit. -/
def Edit.span (edit : Edit) : Span := ⟨edit.start, edit.stop⟩

namespace Text

variable {s before held after : Text} {edit : Edit} {edits : List Edit} {limit : Option Nat}

/-! ## Checks -/

theorem editFault?_eq_none_iff : s.editFault? limit edit = none ↔
    edit.start ≤ edit.stop ∧ s.isBoundary edit.start ∧ s.isBoundary edit.stop ∧
      ∀ l ∈ limit, edit.stop ≤ l := by
  have hsize (h : s.isBoundary edit.stop) : edit.stop ≤ s.size := le_size_of_isBoundary h
  rw [editFault?]
  constructor
  · intro h
    split at h
    · simp at h
    · split at h
      · simp at h
      · split at h
        · simp at h
        · next hrange hplace hlimit =>
          have hplace := Classical.not_not.mp hplace
          refine ⟨by omega, hplace.1, hplace.2, fun l hl ↦ ?_⟩
          subst hl
          simpa using hlimit
  · rintro ⟨hle, hstart, hstop, hlimit⟩
    have hsize := hsize hstop
    rw [if_neg (by omega), if_neg (by simp [hstart, hstop])]
    cases limit with
    | none => rfl
    | some l =>
      have hl := hlimit l rfl
      rw [if_neg (by simpa using hl)]

theorem editsFault?_cons_eq_none_iff : s.editsFault? limit (edit :: edits) = none ↔
    s.editFault? limit edit = none ∧ s.editsFault? (some edit.start) edits = none := by
  rw [editsFault?]
  cases s.editFault? limit edit <;> simp

/-- An edit that passes its checks has a span of the text. -/
theorem exists_cuts_of_editFault? (h : s.editFault? limit edit = none) :
    ∃ before held after, edit.span.Cuts s before held after := by
  obtain ⟨hle, hstart, hstop, -⟩ := editFault?_eq_none_iff.mp h
  exact Span.exists_cuts hstart hstop hle

theorem editFault?_eq_none_of_cuts (h : edit.span.Cuts s before held after)
    (hlimit : ∀ l ∈ limit, edit.stop ≤ l) : s.editFault? limit edit = none :=
  editFault?_eq_none_iff.mpr ⟨h.start_le_stop, h.isBoundary_start, h.isBoundary_stop, hlimit⟩

/-! ## Making the edits -/

theorem splice_of_cuts (h : edit.span.Cuts s before held after) :
    s.splice edit = before ++ edit.replacement ++ after := by
  have hbefore : s.before? edit.start = some before := h.before?_start
  have hafter : s.after? edit.stop = some after := h.after?_stop
  rw [splice, hbefore, hafter]

theorem applyEdits_nil (s : Text) : s.applyEdits [] = .ok s := by
  simp [applyEdits, fromTheEnd, editsFault?]

theorem applyEdits_single (h : edit.span.Cuts s before held after) :
    s.applyEdits [edit] = .ok (before ++ edit.replacement ++ after) := by
  have hfault : s.editsFault? none [edit] = none :=
    editsFault?_cons_eq_none_iff.mpr ⟨editFault?_eq_none_of_cuts h (by simp), rfl⟩
  have horder : fromTheEnd [edit] = [edit] := by simp [fromTheEnd]
  rw [applyEdits, horder, hfault, List.foldl_cons, List.foldl_nil, splice_of_cuts h]

theorem fromTheEnd_pair {first second : Edit} (h : first.start < second.start) :
    fromTheEnd [first, second] = [second, first] := by
  rw [fromTheEnd]
  exact List.mergeSort_of_pairwise (by simp; omega)

/-- Two edits with disjoint spans: what the second one does stands behind the first. -/
theorem applyEdits_pair {first second : Edit} {held' middle : Text}
    (hlt : first.start < second.start)
    (hfirst : first.span.Cuts s before held (middle ++ held' ++ after))
    (hsecond : second.span.Cuts s (before ++ held ++ middle) held' after) :
    s.applyEdits [first, second] =
      .ok (before ++ first.replacement ++ (middle ++ second.replacement ++ after)) := by
  have hlimit : first.stop ≤ second.start :=
    calc first.stop = size (before ++ held) := hfirst.stop
      _ ≤ size (before ++ held) + size middle := Nat.le_add_right _ _
      _ = size (before ++ held ++ middle) := (size_append _ _).symm
      _ = second.start := hsecond.start.symm
  have hfault : s.editsFault? none [second, first] = none :=
    editsFault?_cons_eq_none_iff.mpr ⟨editFault?_eq_none_of_cuts hsecond (by simp),
      editsFault?_cons_eq_none_iff.mpr
        ⟨editFault?_eq_none_of_cuts hfirst (by simpa using hlimit), rfl⟩⟩
  have hrest : first.span.Cuts (before ++ held ++ middle ++ second.replacement ++ after) before held
      (middle ++ second.replacement ++ after) :=
    ⟨by simp, hfirst.start, hfirst.stop⟩
  rw [applyEdits, fromTheEnd_pair hlt, hfault]
  simp only [List.foldl_cons, List.foldl_nil, splice_of_cuts hsecond, splice_of_cuts hrest]

/-- What passes the checks keeps its span when all behind its end has been changed. -/
theorem cuts_append_of_le {held' rest : Text} (tail : Text)
    (h : edit.span.Cuts (before ++ after) held' held rest)
    (hle : edit.stop ≤ size before) :
    ∃ rest', before = held' ++ held ++ rest' ∧
      edit.span.Cuts (before ++ tail) held' held (rest' ++ tail) := by
  have hstop : edit.stop = size (held' ++ held) := h.stop
  obtain ⟨rest', hbefore, -⟩ := exists_append_of_size_le h.text.symm (hstop ▸ hle)
  exact ⟨rest', hbefore, by rw [hbefore]; simp, h.start, h.stop⟩

end Text

end LintMend
