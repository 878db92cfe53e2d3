import LintMend.Text.Search

/-!
# Cutting a text at an offset

The offset of a place is the size of what stands before it. Every character has a size, so no two
places of a text share an offset, and cutting a text at an offset is the same as writing it as two
pieces of which the first has that size. Slices are the pieces between two offsets.
-/

namespace LintMend.Text

variable {s a b : Text} {offset : Nat}

/-! ## Sizes -/

@[simp] theorem size_nil : size [] = 0 := rfl

@[simp] theorem size_cons (c : Char) (s : Text) : size (c :: s) = c.utf8Size + size s := rfl

@[simp] theorem size_append (a b : Text) : size (a ++ b) = size a + size b := by
  induction a with
  | nil => simp
  | cons c a ih => simp only [List.cons_append, size_cons, ih]; omega

theorem size_eq_zero_iff : size s = 0 ↔ s = [] := by
  cases s with
  | nil => simp
  | cons c s =>
    have hc := c.utf8Size_pos
    simp only [size_cons, reduceCtorEq, iff_false]
    omega

theorem size_pos_iff : 0 < size s ↔ s ≠ [] := by
  rw [Nat.pos_iff_ne_zero, ne_eq, size_eq_zero_iff]

theorem size_le_of_prefix (h : a <+: b) : size a ≤ size b := by
  obtain ⟨rest, rfl⟩ := h
  rw [size_append]
  exact Nat.le_add_right _ _

/-- Of two beginnings of one text the shorter one begins the longer one. -/
theorem exists_append_of_size_le {a' b' : Text} (hs : a ++ b = a' ++ b')
    (hsize : size a ≤ size a') : ∃ h, a' = a ++ h ∧ b = h ++ b' := by
  rcases List.append_eq_append_iff.mp hs with ⟨c, rfl, rfl⟩ | ⟨c, rfl, rfl⟩
  · exact ⟨c, rfl, rfl⟩
  · have hc : c = [] := size_eq_zero_iff.mp (by simp only [size_append] at hsize; omega)
    exact ⟨[], by simp [hc]⟩

/-! ## Cuts -/

@[simp] theorem splitAt?_zero (s : Text) : splitAt? s 0 = some ([], s) := by
  cases s <;> rfl

theorem splitAt?_size_append (a b : Text) : splitAt? (a ++ b) (size a) = some (a, b) := by
  induction a with
  | nil => exact splitAt?_zero b
  | cons c a ih =>
    obtain ⟨n, hn⟩ : ∃ n, c.utf8Size + size a = n + 1 :=
      ⟨c.utf8Size + size a - 1, by have := c.utf8Size_pos; omega⟩
    have hrest : n + 1 - c.utf8Size = size a := by omega
    rw [List.cons_append, size_cons, hn, splitAt?, if_pos (by omega), hrest, ih]
    rfl

theorem splitAt?_eq_some_iff : splitAt? s offset = some (a, b) ↔ s = a ++ b ∧ offset = size a := by
  constructor
  · intro hcut
    fun_induction splitAt? s offset generalizing a with
    | case1 s =>
      obtain ⟨rfl, rfl⟩ : [] = a ∧ s = b := by simpa using hcut
      simp
    | case2 => simp at hcut
    | case3 c s n hle ih =>
      obtain ⟨⟨a', b'⟩, hrest, heq⟩ := Option.map_eq_some_iff.mp hcut
      obtain ⟨rfl, rfl⟩ : c :: a' = a ∧ b' = b := by simpa using heq
      obtain ⟨rfl, hsize⟩ := ih hrest
      refine ⟨rfl, ?_⟩
      rw [size_cons]
      omega
    | case4 => simp at hcut
  · rintro ⟨rfl, rfl⟩
    exact splitAt?_size_append a b

theorem before?_eq_some_iff : before? s offset = some a ↔ ∃ b, s = a ++ b ∧ offset = size a := by
  simp [before?, splitAt?_eq_some_iff]

theorem after?_eq_some_iff : after? s offset = some b ↔ ∃ a, s = a ++ b ∧ offset = size a := by
  simp [after?, splitAt?_eq_some_iff]

@[simp] theorem before?_size_append (a b : Text) : before? (a ++ b) (size a) = some a :=
  before?_eq_some_iff.mpr ⟨b, rfl, rfl⟩

@[simp] theorem after?_size_append (a b : Text) : after? (a ++ b) (size a) = some b :=
  after?_eq_some_iff.mpr ⟨a, rfl, rfl⟩

theorem isBoundary_iff : isBoundary s offset ↔ ∃ a b, s = a ++ b ∧ offset = size a := by
  rw [isBoundary, Option.isSome_iff_exists]
  constructor
  · rintro ⟨⟨a, b⟩, hcut⟩
    exact ⟨a, b, splitAt?_eq_some_iff.mp hcut⟩
  · rintro ⟨a, b, hcut⟩
    exact ⟨(a, b), splitAt?_eq_some_iff.mpr hcut⟩

theorem isBoundary_size_append (a b : Text) : isBoundary (a ++ b) (size a) :=
  isBoundary_iff.mpr ⟨a, b, rfl, rfl⟩

theorem isBoundary_size (s : Text) : isBoundary s (size s) :=
  isBoundary_iff.mpr ⟨s, [], by simp, rfl⟩

theorem le_size_of_isBoundary (h : isBoundary s offset) : offset ≤ size s := by
  obtain ⟨a, b, rfl, rfl⟩ := isBoundary_iff.mp h
  simp

end LintMend.Text

namespace LintMend.Span

open Text

/-! ## Spans as slices -/

/-- A span of a text that holds `held`, with what stands before and behind it. -/
structure Cuts (span : Span) (s before held after : Text) : Prop where
  text : s = before ++ held ++ after
  start : span.start = size before
  stop : span.stop = size (before ++ held)

namespace Cuts

variable {span : Span} {s before held after : Text}

theorem start_le_stop (h : span.Cuts s before held after) : span.start ≤ span.stop := by
  rw [h.start, h.stop, size_append]
  omega

theorem isBoundary_start (h : span.Cuts s before held after) : isBoundary s span.start := by
  rw [h.text, h.start, List.append_assoc]
  exact isBoundary_size_append _ _

theorem isBoundary_stop (h : span.Cuts s before held after) : isBoundary s span.stop := by
  rw [h.text, h.stop]
  exact isBoundary_size_append _ _

theorem before?_start (h : span.Cuts s before held after) : before? s span.start = some before := by
  rw [h.text, h.start, List.append_assoc, before?_size_append]

theorem after?_start (h : span.Cuts s before held after) :
    after? s span.start = some (held ++ after) := by
  rw [h.text, h.start, List.append_assoc, after?_size_append]

theorem before?_stop (h : span.Cuts s before held after) :
    before? s span.stop = some (before ++ held) := by
  rw [h.text, h.stop, before?_size_append]

theorem after?_stop (h : span.Cuts s before held after) : after? s span.stop = some after := by
  rw [h.text, h.stop, after?_size_append]

/-- What a span holds is read by a cut at its start and one at its length. -/
theorem before?_held (h : span.Cuts s before held after) :
    before? (held ++ after) (span.stop - span.start) = some held := by
  rw [h.stop, h.start, size_append, Nat.add_sub_cancel_left, before?_size_append]

theorem start_lt_stop_iff (h : span.Cuts s before held after) :
    span.start < span.stop ↔ held ≠ [] := by
  rw [h.start, h.stop, size_append, ← size_pos_iff]
  omega

end Cuts

/-- Two offsets in their order are a span of a text. -/
theorem exists_cuts {s : Text} {start stop : Nat} (hstart : isBoundary s start)
    (hstop : isBoundary s stop) (hle : start ≤ stop) :
    ∃ before held after, Cuts ⟨start, stop⟩ s before held after := by
  obtain ⟨a, b', hs, rfl⟩ := isBoundary_iff.mp hstart
  obtain ⟨a', b, hs', rfl⟩ := isBoundary_iff.mp hstop
  obtain ⟨h, rfl, rfl⟩ := exists_append_of_size_le (hs ▸ hs') hle
  exact ⟨a, h, b, hs', rfl, rfl⟩

end LintMend.Span
