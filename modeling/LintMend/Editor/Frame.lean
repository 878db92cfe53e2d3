import LintMend.Editor.Message
import LintMend.Files.Content
import LintMend.Json.Reader
import LintMend.Json.Writer
import LintMend.Text.Number

/-!
# Frames

On a stream a message stands behind a header that tells its length in bytes. The header has a field
a line and ends with an empty line.
-/

namespace LintMend.Frame

def headerEnd : List UInt8 := [13, 10, 13, 10]

def lengthField : Text := "content-length".toList

def ofText (body : Text) : Text :=
  let length := toString body.encode.length
  s!"Content-Length: {length}".toList ++ "\r\n\r\n".toList ++ body

/-- The bytes before the first occurrence of some, and the bytes behind it. -/
def cut? (mark : List UInt8) : List UInt8 → Option (List UInt8 × List UInt8)
  | [] => none
  | b :: s =>
    if mark.isPrefixOf (b :: s) then some ([], (b :: s).drop mark.length)
    else (cut? mark s).map fun (before, rest) ↦ (b :: before, rest)

theorem length_lt_of_cut? {mark : List UInt8} (hmark : mark ≠ []) {s before rest : List UInt8}
    (h : cut? mark s = some (before, rest)) : rest.length < s.length := by
  have hpos : 0 < mark.length := List.length_pos_iff.2 hmark
  induction s generalizing before with
  | nil => simp [cut?] at h
  | cons b s ih =>
    unfold cut? at h
    split at h
    · simp only [Option.some.injEq, Prod.mk.injEq] at h
      rw [← h.2, List.length_drop, List.length_cons]
      omega
    · obtain ⟨⟨before', rest'⟩, hcut, heq⟩ := Option.map_eq_some_iff.1 h
      simp only [Prod.mk.injEq] at heq
      have := ih (heq.2 ▸ hcut)
      rw [List.length_cons]
      omega

/-- The length that a header tells. -/
def length? (header : Text) : Option Nat :=
  header.lines.findSome? fun line ↦
    let (name, value) := line.span (· ≠ ':')
    if Text.asciiLower name = lengthField then Text.readDigits? (Text.trim (value.drop 1)) else none

/-- The messages of a stream, as far as it has frames; `none` stands for one that is no JSON. -/
def readAll (bytes : List UInt8) : List (Option Json) :=
  match h : cut? headerEnd bytes with
  | none => []
  | some (header, rest) =>
    have : rest.length < bytes.length := length_lt_of_cut? (by simp [headerEnd]) h
    match length? (Text.decodeLossy header) with
    | none => readAll rest
    | some length =>
      if rest.length < length then []
      else Json.parse? (Text.decodeLossy (rest.take length)) :: readAll (rest.drop length)
termination_by bytes.length
decreasing_by all_goals grind

end LintMend.Frame
