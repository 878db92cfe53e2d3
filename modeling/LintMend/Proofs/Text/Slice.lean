import LintMend.Proofs.Text.Lines
import LintMend.Proofs.Text.Variable
import LintMend.Text.Slice

/-!
# Slices that are checked

The operations of texts once more, with every slice they take as a step that fails where its range
is no range of the text: behind the end, inside a character, or with its ends in the wrong order.
At a place of the text each operation succeeds, and what it gives is what the operation without
checks gives. Lines are sliced at offsets that are always places, so they never fail.
-/

namespace LintMend

namespace Sliced

open Text

variable {s held name : Text} {start stop offset line : Nat}

@[simp] theorem ok_bind {α β : Type} (a : α) (f : α → Slicing β) :
    ((.ok a : Slicing α) >>= f) = f a := rfl

@[simp] theorem pure_eq_ok {α : Type} (a : α) : (pure a : Slicing α) = .ok a := rfl

theorem slice_eq_ok_iff : slice s start stop = .ok held ↔
    ∃ before after, Span.Cuts ⟨start, stop⟩ s before held after := by
  rw [slice]
  constructor
  · intro h
    split at h
    · next found hfound =>
      obtain rfl : found = held := by simpa using h
      obtain ⟨upTo, hbefore, hafter⟩ := Option.bind_eq_some_iff.mp hfound
      obtain ⟨after, rfl, hstop⟩ := before?_eq_some_iff.mp hbefore
      obtain ⟨before, rfl, hstart⟩ := after?_eq_some_iff.mp hafter
      exact ⟨before, after, rfl, hstart, hstop⟩
    · simp at h
  · rintro ⟨before, after, h⟩
    have hbefore : s.before? stop = some (before ++ held) := h.before?_stop
    have hstart : start = size before := h.start
    rw [hbefore, hstart]
    simp

theorem slice_of_cuts {span : Span} {before after : Text} (h : span.Cuts s before held after) :
    slice s span.start span.stop = .ok held :=
  slice_eq_ok_iff.mpr ⟨before, after, h⟩

def head (s : Text) (stop : Nat) : Slicing Text := slice s 0 stop

def tail (s : Text) (start : Nat) : Slicing Text := slice s start s.size

theorem head_size_append (a b : Text) : head (a ++ b) (size a) = .ok a :=
  have hcuts : Span.Cuts ⟨0, size a⟩ (a ++ b) [] a b := ⟨by simp, rfl, by simp⟩
  slice_of_cuts hcuts

theorem tail_size_append (a b : Text) : tail (a ++ b) (size a) = .ok b :=
  have hcuts : Span.Cuts ⟨size a, size (a ++ b)⟩ (a ++ b) a b [] := ⟨by simp, rfl, rfl⟩
  slice_of_cuts hcuts

theorem tail_of_after? (h : s.after? offset = some held) : tail s offset = .ok held := by
  obtain ⟨before, rfl, rfl⟩ := after?_eq_some_iff.mp h
  exact tail_size_append before held

/-! ## Lines -/

def lineText (s : Text) (line : Nat) : Slicing Text := slice s (s.lineStart line) (s.lineEnd line)

@[simp] theorem lineText_eq (s : Text) (line : Nat) : lineText s line = .ok (s.lineText line) := by
  obtain ⟨before, after, h⟩ := cuts_line s line
  exact slice_of_cuts h

def lineLength (s : Text) (line : Nat) : Slicing Nat := return (← lineText s line).length

@[simp] theorem lineLength_eq (s : Text) (line : Nat) :
    lineLength s line = .ok (s.lineLength line) := by
  simp [lineLength, Text.lineLength]

def isBlankLine (s : Text) (line : Nat) : Slicing Bool := return (← lineText s line).isAllBlank

@[simp] theorem isBlankLine_eq (s : Text) (line : Nat) :
    isBlankLine s line = .ok (s.isBlankLine line) := by
  simp [isBlankLine, Text.isBlankLine]

def indentation (s : Text) (line : Nat) : Slicing Nat :=
  return ((← lineText s line).takeWhile isBlank).length

@[simp] theorem indentation_eq (s : Text) (line : Nat) :
    indentation s line = .ok (s.indentation line) := by
  simp [indentation, Text.indentation]

/-! ## Searches -/

def advance (s : Text) (offset count : Nat) : Slicing Nat := do
  let rest ← tail s offset
  return offset + size (rest.take count)

theorem exists_advance_eq (h : isBoundary s offset) (count : Nat) :
    ∃ stop, advance s offset count = .ok stop ∧ s.advance? offset count = some stop := by
  obtain ⟨a, b, rfl, rfl⟩ := isBoundary_iff.mp h
  refine ⟨size a + size (b.take count), ?_, ?_⟩
  · rw [advance, tail_size_append]
    rfl
  · rw [advance?_size_append, size_append]

def wordStart (s : Text) (offset : Nat) : Slicing Nat := do
  let rest ← tail s offset
  if rest.head?.any isWord then
    let before ← head s offset
    return offset - size (before.takeEndWhile isWord)
  else return offset

theorem exists_wordStart_eq (h : isBoundary s offset) :
    ∃ word, wordStart s offset = .ok word ∧ s.wordStart? offset = some word := by
  obtain ⟨a, b, rfl, rfl⟩ := isBoundary_iff.mp h
  rw [wordStart, tail_size_append, head_size_append, ok_bind, wordStart?, splitAt?_size_append]
  simp only [Option.bind_eq_bind, Option.bind_some]
  split
  · exact ⟨_, rfl, rfl⟩
  · exact ⟨_, rfl, rfl⟩

def gapAfter (s : Text) (offset : Nat) : Slicing Nat := do
  let rest ← tail s offset
  return size (rest.takeWhile isSpaceOrTab)

theorem exists_gapAfter_eq (h : isBoundary s offset) :
    ∃ gap, gapAfter s offset = .ok gap ∧ s.gapAfter? offset = some gap := by
  obtain ⟨a, b, rfl, rfl⟩ := isBoundary_iff.mp h
  rw [gapAfter, tail_size_append, gapAfter?, after?_size_append]
  exact ⟨_, rfl, rfl⟩

def gapBefore (s : Text) (offset : Nat) : Slicing Nat := do
  let before ← head s offset
  return size (before.takeEndWhile isSpaceOrTab)

theorem exists_gapBefore_eq (h : isBoundary s offset) :
    ∃ gap, gapBefore s offset = .ok gap ∧ s.gapBefore? offset = some gap := by
  obtain ⟨a, b, rfl, rfl⟩ := isBoundary_iff.mp h
  rw [gapBefore, head_size_append, gapBefore?, before?_size_append]
  exact ⟨_, rfl, rfl⟩

/-! ## Variables -/

/-- The first occurrence of a name that ends at or before `stop` and that no longer name continues,
by searches one behind the other. -/
def variableFrom (s : Text) (stop : Nat) (name : Text) (start : Nat) : Slicing (Option Span) :=
  match s.searchFrom? start name with
  | none => return none
  | some found =>
    if _h : found.stop ≤ stop ∧ start < found.stop then do
      let rest ← tail s found.stop
      if rest.head?.any isWord then variableFrom s stop name found.stop else return some found
    else return none
termination_by stop - start

def variableOnLine (s : Text) (line : Nat) (name : Text) : Slicing (Option Span) :=
  variableFrom s (s.lineEnd line) name (s.lineStart line)

/-- What a search from the place behind `before` finds in the rest. -/
theorem searchFrom?_size_append (before rest needle : Text) :
    searchFrom? (before ++ rest) (size before) needle = (find? needle rest).map fun found ↦
      ⟨size before + found, size before + found + size needle⟩ := by
  rw [searchFrom?, after?_size_append, Option.bind_eq_bind, Option.bind_some]
  cases find? needle rest <;> rfl

/-- The searches for a variable come to its first whole occurrence among the characters up to their
limit, if what stands there ends a word. -/
theorem variableFrom_eq (hname : IsVariable name) (before line behind : Text)
    (hbehind : ¬ behind.head?.any isWord) :
    variableFrom (before ++ line ++ behind) (size (before ++ line)) name (size before) =
      .ok ((findWhole? name line).map fun found ↦
        ⟨size before + found, size before + found + size name⟩) := by
  have hpos : 0 < size name := by
    obtain ⟨identifier, rfl, -⟩ := hname
    exact size_pos_iff.mpr (by simp)
  -- the rest of the line gets shorter with every search
  induction hlength : line.length using Nat.strongRecOn generalizing before line with
  | ind length ih =>
    subst hlength
    rw [variableFrom, List.append_assoc before line behind, searchFrom?_size_append]
    cases hfind : find? name (line ++ behind) with
    | none => simp [findWhole?_of_find?_eq_none hfind]
    | some found =>
      simp only [Option.map_some]
      by_cases hlt : size line < found + size name
      · rw [dif_neg (by simp only [size_append]; omega), findWhole?_of_lt hfind hlt]
        rfl
      · obtain ⟨a, b', hs, rfl, hfirst⟩ := exists_leftmost_of_find? hfind
        obtain ⟨b, rfl, rfl⟩ := exists_append_of_size_le hs.symm
          (by simp only [size_append]; omega)
        have hstop : size before + size a + size name = size (before ++ (a ++ name)) := by
          simp only [size_append]
          omega
        have htext : before ++ (a ++ name ++ b ++ behind) =
            before ++ (a ++ name) ++ (b ++ behind) := by
          simp only [List.append_assoc]
        rw [dif_pos (by simp only [size_append]; omega), findWhole?_of_find? hname hfirst, hstop,
          htext, tail_size_append, ok_bind]
        rw [head?_append_any hbehind]
        split
        · have hrest := ih b.length (by
            have := List.length_pos_iff.mpr (size_pos_iff.mp hpos)
            simp only [List.length_append]
            omega) (before ++ (a ++ name)) b rfl
          have hlimit : before ++ (a ++ name ++ b) = before ++ (a ++ name) ++ b := by
            simp only [List.append_assoc]
          rw [hlimit, ← List.append_assoc (before ++ (a ++ name)), hrest, Option.map_map]
          congr 1
          congr 1
          funext n
          simp [Nat.add_assoc]
        · simp only [pure_eq_ok, Option.map_some, ← hstop]

/-- The search on a line comes to the occurrence that a test of every place comes to. -/
theorem variableOnLine_eq (hname : IsVariable name) (s : Text) (line : Nat) :
    variableOnLine s line name = .ok (s.variableOnLine? line name) := by
  obtain ⟨before, behind, hcuts, hbehind⟩ := cuts_line_not_isWord s line
  have hstart : s.lineStart line = size before := hcuts.start
  have hstop : s.lineEnd line = size (before ++ s.lineText line) := hcuts.stop
  have heq := variableFrom_eq hname before (s.lineText line) behind hbehind
  rw [← hcuts.text, ← hstart, ← hstop] at heq
  exact heq

end Sliced

end LintMend
