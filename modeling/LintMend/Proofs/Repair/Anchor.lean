import LintMend.Proofs.Repair.Slice
import LintMend.Proofs.Text.RoundTrip

/-!
# Places of anchors

A text may have changed since a hint was reported, so the two positions of the hint are moved onto
the lines and columns that the text has, each by itself. A position that the text has is not moved,
and the moved ones are positions that it has. So the offsets of an anchor lead back to its lines and
columns, and an anchor is found again from nothing but these.
-/

namespace LintMend

variable {s : Text} {p : Position} {line column : Nat}

/-! ## Positions of a text -/

/-- A line of the text, and a column of that line or the one at its end. -/
structure Position.IsIn (p : Position) (s : Text) : Prop where
  line : p.line < s.lineCount
  column : p.column ≤ s.lineLength p.line

/-- A position that a text has, and the place of the text that bears it. -/
structure Text.Locates (s : Text) (p : Position) (offset : Nat) : Prop where
  isIn : p.IsIn s
  boundary : s.isBoundary offset
  inside : offset ≤ s.size
  position : s.positionOf offset = p
  offset : s.offsetOf p.line p.column = offset

theorem Position.IsIn.locates (h : p.IsIn s) : s.Locates p (s.offsetOf p.line p.column) where
  isIn := h
  boundary := Text.isBoundary_offsetOf s p.line p.column
  inside := Text.le_size_of_isBoundary (Text.isBoundary_offsetOf s p.line p.column)
  position := by rw [Text.positionOf_offsetOf h.line, Nat.min_eq_left h.column]
  offset := rfl

namespace Hint

def start (hint : Hint) : Position := ⟨hint.lineBegin, hint.columnBegin⟩

def stop (hint : Hint) : Position := ⟨hint.lineEnd, hint.columnEnd⟩

/-- The hint that has the lines and columns of an anchor. -/
def movedTo (hint : Hint) (anchor : Anchor) : Hint :=
  { hint with
    lineBegin := anchor.lineBegin, lineEnd := anchor.lineEnd
    columnBegin := anchor.columnBegin, columnEnd := anchor.columnEnd }

end Hint

/-! ## Moving a position -/

namespace Anchor

variable {hint other : Hint}

def clampPosition (s : Text) (p : Position) : Position :=
  let line := min p.line (s.lineCount - 1)
  ⟨line, clampColumn s line p.column⟩

theorem clampColumn_le (s : Text) (line column : Nat) :
    clampColumn s line column ≤ s.lineLength line := by
  rw [clampColumn]
  split <;> omega

theorem clampColumn_eq_self_iff : clampColumn s line column = column ↔
    column ≤ s.lineLength line := by
  rw [clampColumn]
  split <;> omega

theorem isIn_clampPosition (s : Text) (p : Position) :
    (clampPosition s p).IsIn s where
  line := by
    have hpos := Text.lineCount_pos s
    change min p.line (s.lineCount - 1) < s.lineCount
    omega
  column := clampColumn_le s _ p.column

/-- Exactly the positions that a text has stay where they are. -/
theorem clampPosition_eq_self_iff : clampPosition s p = p ↔ p.IsIn s := by
  constructor
  · intro h
    rw [← h]
    exact isIn_clampPosition s p
  · rintro ⟨hline, hcolumn⟩
    have hline' : min p.line (s.lineCount - 1) = p.line := by omega
    rw [clampPosition, hline', clampColumn_eq_self_iff.mpr hcolumn]

/-! ## The two positions of an anchor -/

def first (anchor : Anchor) : Position := ⟨anchor.lineBegin, anchor.columnBegin⟩

def last (anchor : Anchor) : Position := ⟨anchor.lineEnd, anchor.columnEnd⟩

theorem first_clamp (s : Text) (hint : Hint) :
    (clamp s hint).first = clampPosition s hint.start := rfl

theorem last_clamp (s : Text) (hint : Hint) :
    (clamp s hint).last = clampPosition s hint.stop := rfl

theorem locates_first_clamp (s : Text) (hint : Hint) :
    s.Locates (clamp s hint).first (clamp s hint).start :=
  (isIn_clampPosition s hint.start).locates

theorem locates_last_clamp (s : Text) (hint : Hint) :
    s.Locates (clamp s hint).last (clamp s hint).stop :=
  (isIn_clampPosition s hint.stop).locates

theorem first_clamp_eq_iff : (clamp s hint).first = hint.start ↔ hint.start.IsIn s := by
  rw [first_clamp, clampPosition_eq_self_iff]

theorem last_clamp_eq_iff : (clamp s hint).last = hint.stop ↔ hint.stop.IsIn s := by
  rw [last_clamp, clampPosition_eq_self_iff]

theorem start_clamp_of_isIn (h : hint.start.IsIn s) :
    (clamp s hint).start = s.offsetOf hint.lineBegin hint.columnBegin := by
  rw [← (locates_first_clamp s hint).offset, first_clamp_eq_iff.mpr h]
  rfl

theorem stop_clamp_of_isIn (h : hint.stop.IsIn s) :
    (clamp s hint).stop = s.offsetOf hint.lineEnd hint.columnEnd := by
  rw [← (locates_last_clamp s hint).offset, last_clamp_eq_iff.mpr h]
  rfl

/-- An anchor depends on the two positions of a hint, and only by where they are moved. -/
theorem clamp_congr_positions (hfirst : (clamp s other).first = (clamp s hint).first)
    (hlast : (clamp s other).last = (clamp s hint).last) : clamp s other = clamp s hint := by
  obtain ⟨hlineBegin, hcolumnBegin⟩ := Position.mk.inj hfirst
  obtain ⟨hlineEnd, hcolumnEnd⟩ := Position.mk.inj hlast
  simp only [clamp] at hlineBegin hcolumnBegin hlineEnd hcolumnEnd ⊢
  rw [hcolumnBegin, hcolumnEnd, hlineBegin, hlineEnd]

theorem clamp_movedTo (s : Text) (hint other : Hint) :
    clamp s (other.movedTo (clamp s hint)) = clamp s hint := by
  have hfirst : (clamp s (other.movedTo (clamp s hint))).first = (clamp s hint).first :=
    first_clamp_eq_iff.mpr (locates_first_clamp s hint).isIn
  have hlast : (clamp s (other.movedTo (clamp s hint))).last = (clamp s hint).last :=
    last_clamp_eq_iff.mpr (locates_last_clamp s hint).isIn
  exact clamp_congr_positions hfirst hlast

/-- Moving a hint onto a text never fails and gives two positions that the text has, with the places
that bear them. Each of the two is that of the hint exactly if the text has that, and any hint with
the lines and columns of the anchor is moved onto the same anchor. -/
theorem clamp_locates (s : Text) (hint : Hint) :
    let anchor := clamp s hint
    Sliced.clamp s hint = .ok anchor ∧
    s.Locates anchor.first anchor.start ∧ s.Locates anchor.last anchor.stop ∧
    (anchor.first = hint.start ↔ hint.start.IsIn s) ∧
    (anchor.last = hint.stop ↔ hint.stop.IsIn s) ∧
    ∀ other : Hint, clamp s (other.movedTo anchor) = anchor :=
  ⟨Sliced.clamp_eq s hint, locates_first_clamp s hint, locates_last_clamp s hint,
    first_clamp_eq_iff, last_clamp_eq_iff, clamp_movedTo s hint⟩

end Anchor

end LintMend
