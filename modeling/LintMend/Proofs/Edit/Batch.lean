import LintMend.Proofs.Edit
import LintMend.Proofs.Sort
import Mathlib.Data.Nat.Basic

/-!
# What a batch does to its text

A batch is checked and made from the end of the text to its start, each edit against the one before
it, on a text that has changed already behind it. Seen from the start of the text nothing of this
is left: the batch is accepted when its ranges lie in the text and keep clear of one another, and
the result is the gaps between the ranges with the replacements between the gaps.
-/

namespace LintMend

open Text

/-- An edit whose range is a range of the text. -/
structure Edit.Within (edit : Edit) (s : Text) : Prop where
  ordered : edit.start ≤ edit.stop
  inside : edit.stop ≤ s.size
  start : s.isBoundary edit.start
  stop : s.isBoundary edit.stop

namespace Text

variable {s t before held after : Text} {edit : Edit} {edits : List Edit} {limit : Option Nat}
  {start stop : Nat}

/-! ## Batches with room for every edit -/

/-- A batch whose ranges lie in the text and do not overlap. Of edits with one start all but the
last listed one are insertions. -/
structure HasRoom (s : Text) (edits : List Edit) : Prop where
  within : ∀ edit ∈ edits, edit.Within s
  apart : ∀ a ∈ edits, ∀ b ∈ edits, a.start < b.start → a.stop ≤ b.start
  ties : edits.Pairwise fun a b ↦ a.start = b.start → a.stop = a.start

/-- The edits of a batch by their starts; those of one start in the order in which they are
listed. -/
def byPosition (edits : List Edit) : List Edit := edits.mergeSort fun a b ↦ a.start ≤ b.start

theorem mem_byPosition : edit ∈ byPosition edits ↔ edit ∈ edits :=
  List.mem_mergeSort

theorem pairwise_start_byPosition (edits : List Edit) :
    (byPosition edits).Pairwise fun a b ↦ a.start ≤ b.start :=
  Sort.pairwise_mergeSort (fun a b ↦ a.start ≤ b.start) (fun _ _ _ ↦ Nat.le_trans)
    (fun _ _ ↦ Nat.le_total ..) edits

/-- Edits of one start keep the order in which they are listed. -/
theorem filter_byPosition (edits : List Edit) (n : Nat) :
    (byPosition edits).filter (·.start = n) = edits.filter (·.start = n) := by
  apply Sort.filter_mergeSort (fun a b : Edit ↦ a.start ≤ b.start) (fun _ _ _ ↦ Nat.le_trans)
    (fun _ _ ↦ Nat.le_total ..)
  simp only [decide_eq_true_eq]
  intro a _ b _ ha hb
  exact Nat.le_of_eq (ha.trans hb.symm)

/-- A batch is taken from the end in the opposite of its order from the start. -/
theorem fromTheEnd_eq (edits : List Edit) : fromTheEnd edits = (byPosition edits).reverse := by
  have hsorted : (fromTheEnd edits).Pairwise fun a b ↦ b.start ≤ a.start :=
    Sort.pairwise_mergeSort (fun a b ↦ b.start ≤ a.start) (fun _ _ _ h h' ↦ Nat.le_trans h' h)
      (fun _ _ ↦ Nat.le_total ..) edits.reverse
  have hfilter (n : Nat) :
      (fromTheEnd edits).filter (·.start = n) = (edits.filter (·.start = n)).reverse := by
    rw [← List.filter_reverse]
    apply Sort.filter_mergeSort (fun a b : Edit ↦ b.start ≤ a.start)
      (fun _ _ _ h h' ↦ Nat.le_trans h' h) (fun _ _ ↦ Nat.le_total ..)
    simp only [decide_eq_true_eq]
    intro a _ b _ ha hb
    exact Nat.le_of_eq (hb.trans ha.symm)
  rw [← List.reverse_eq_iff]
  apply Sort.eq_of_filter_key_eq (List.pairwise_reverse.mpr hsorted)
    (pairwise_start_byPosition edits)
  intro n
  rw [List.filter_reverse, hfilter, List.reverse_reverse, filter_byPosition]

/-- Between neighbours in this order it shows whether a batch has room. -/
theorem hasRoom_iff : s.HasRoom edits ↔
    (∀ edit ∈ edits, edit.Within s) ∧ (byPosition edits).Pairwise fun a b ↦ a.stop ≤ b.start := by
  have hsorted := pairwise_start_byPosition edits
  have hties : (edits.Pairwise fun a b ↦ a.start = b.start → a.stop = a.start) ↔
      (byPosition edits).Pairwise fun a b ↦ a.start = b.start → a.stop = a.start := by
    simp only [Sort.pairwise_of_key_iff, filter_byPosition]
  constructor
  · intro h
    refine ⟨h.within, ?_⟩
    refine (hsorted.and (hties.mp h.ties)).imp_of_mem fun {a b} ha hb ⟨hle, htie⟩ ↦ ?_
    rcases Nat.lt_or_eq_of_le hle with hlt | heq
    · exact h.apart a (mem_byPosition.mp ha) b (mem_byPosition.mp hb) hlt
    · exact Nat.le_of_eq ((htie heq).trans heq)
  · rintro ⟨hwithin, hchain⟩
    refine ⟨hwithin, fun a ha b hb hlt ↦ ?_, hties.mpr ?_⟩
    · -- of the two `a` comes first, because starts only go up
      obtain ⟨earlier, later, heq⟩ := List.append_of_mem (mem_byPosition.mpr ha)
      have hmem : b ∈ earlier ∨ b = a ∨ b ∈ later := by
        simpa [heq] using mem_byPosition.mpr hb
      rw [heq, List.pairwise_append, List.pairwise_cons] at hsorted hchain
      rcases hmem with hb | rfl | hb
      · have hle := hsorted.2.2 b hb a List.mem_cons_self
        omega
      · omega
      · exact hchain.2.1.1 b hb
    · refine hchain.imp_of_mem fun {a b} ha _ h heq ↦ ?_
      have hle := (hwithin a (mem_byPosition.mp ha)).ordered
      omega

/-! ## The checks -/

theorem editFault?_eq_none_iff_within : s.editFault? limit edit = none ↔
    edit.Within s ∧ ∀ l ∈ limit, edit.stop ≤ l := by
  rw [editFault?_eq_none_iff]
  constructor
  · rintro ⟨hle, hstart, hstop, hlimit⟩
    exact ⟨⟨hle, le_size_of_isBoundary hstop, hstart, hstop⟩, hlimit⟩
  · rintro ⟨h, hlimit⟩
    exact ⟨h.ordered, h.start, h.stop, hlimit⟩

/-- Each edit is checked only against the one before it, but starts only go down. -/
theorem editsFault?_eq_none_iff : s.editsFault? limit edits = none ↔
    (∀ edit ∈ edits, edit.Within s ∧ ∀ l ∈ limit, edit.stop ≤ l) ∧
      edits.Pairwise fun a b ↦ b.stop ≤ a.start := by
  induction edits generalizing limit with
  | nil => simp [editsFault?]
  | cons edit edits ih =>
    rw [editsFault?_cons_eq_none_iff, editFault?_eq_none_iff_within, ih, List.pairwise_cons,
      List.forall_mem_cons]
    constructor
    · rintro ⟨⟨hedit, hlimit⟩, hrest, hchain⟩
      refine ⟨⟨⟨hedit, hlimit⟩, fun next hnext ↦ ⟨(hrest next hnext).1, fun l hl ↦ ?_⟩⟩,
        fun next hnext ↦ (hrest next hnext).2 _ rfl, hchain⟩
      calc next.stop ≤ edit.start := (hrest next hnext).2 _ rfl
        _ ≤ edit.stop := hedit.ordered
        _ ≤ l := hlimit l hl
    · rintro ⟨⟨hedit, hrest⟩, hhead, hchain⟩
      refine ⟨hedit, fun next hnext ↦ ⟨(hrest next hnext).1, fun l hl ↦ ?_⟩, hchain⟩
      obtain rfl : edit.start = l := by simpa using hl
      exact hhead next hnext

theorem editsFault?_fromTheEnd_eq_none_iff :
    s.editsFault? none (fromTheEnd edits) = none ↔ s.HasRoom edits := by
  rw [editsFault?_eq_none_iff, fromTheEnd_eq, List.pairwise_reverse, hasRoom_iff]
  simp [mem_byPosition]

/-! ## The result -/

/-- The piece of a text between two offsets. -/
def between (s : Text) (start stop : Nat) : Text :=
  ((s.after? start).bind (before? · (stop - start))).getD []

theorem between_of_cuts (h : Span.Cuts ⟨start, stop⟩ s before held after) :
    s.between start stop = held := by
  have hstart : s.after? start = some (held ++ after) := h.after?_start
  have hheld : before? (held ++ after) (stop - start) = some held := h.before?_held
  rw [between, hstart, Option.bind_some, hheld, Option.getD_some]

/-- What becomes of a text from an offset on when edits in their order from the start are made:
the gap up to the next edit, its replacement, and so on to the last gap. -/
def patchFrom (s : Text) : Nat → List Edit → Text
  | offset, [] => s.between offset s.size
  | offset, edit :: edits =>
    s.between offset edit.start ++ edit.replacement ++ patchFrom s edit.stop edits

def patch (s : Text) (edits : List Edit) : Text := s.patchFrom 0 (byPosition edits)

/-- Edits made from the last to the first, none of which reaches before a place, leave what stands
before it and patch the rest. -/
theorem foldr_splice_eq (hs : s = before ++ after) (hwithin : ∀ edit ∈ edits, edit.Within s)
    (hchain : edits.Pairwise fun a b ↦ a.stop ≤ b.start)
    (hfrom : ∀ edit ∈ edits, before.size ≤ edit.start) :
    edits.foldr (fun edit t ↦ t.splice edit) s = before ++ s.patchFrom before.size edits := by
  induction edits generalizing before after with
  | nil =>
    have hcuts : Span.Cuts ⟨before.size, s.size⟩ s before after [] :=
      ⟨by rw [List.append_nil, hs], rfl, by rw [hs]⟩
    rw [List.foldr_nil, patchFrom, between_of_cuts hcuts, ← hs]
  | cons edit edits ih =>
    rw [List.pairwise_cons] at hchain
    have hedit := hwithin edit List.mem_cons_self
    obtain ⟨ahead, held, behind, hcuts⟩ := Span.exists_cuts hedit.start hedit.stop hedit.ordered
    -- the gap between the place and the edit
    obtain ⟨gap, rfl, -⟩ : ∃ gap, ahead = before ++ gap ∧ after = gap ++ (held ++ behind) := by
      apply exists_append_of_size_le
      · rw [← hs, hcuts.text, List.append_assoc]
      · exact hcuts.start ▸ hfrom edit List.mem_cons_self
    have hgap : s.between before.size edit.start = gap :=
      between_of_cuts ⟨by rw [hcuts.text, List.append_assoc], rfl, hcuts.start⟩
    have hrest := ih hcuts.text (fun next h ↦ hwithin next (List.mem_cons_of_mem _ h)) hchain.2
      (fun next h ↦ hcuts.stop ▸ hchain.1 next h)
    have hstop : edit.stop = (before ++ gap ++ held).size := hcuts.stop
    rw [List.foldr_cons, hrest, ← hstop, splice_of_cuts ⟨rfl, hcuts.start, hcuts.stop⟩, patchFrom,
      hgap]
    simp only [List.append_assoc]

theorem foldl_splice_fromTheEnd (hroom : s.HasRoom edits) (hs : s = before ++ after)
    (hfrom : ∀ edit ∈ edits, before.size ≤ edit.start) :
    (fromTheEnd edits).foldl splice s = before ++ s.patchFrom before.size (byPosition edits) := by
  rw [fromTheEnd_eq, List.foldl_reverse]
  exact foldr_splice_eq hs (fun edit h ↦ hroom.within edit (mem_byPosition.mp h))
    (hasRoom_iff.mp hroom).2 (fun edit h ↦ hfrom edit (mem_byPosition.mp h))

theorem applyEdits_eq_ok_iff : s.applyEdits edits = .ok t ↔
    s.HasRoom edits ∧ t = (fromTheEnd edits).foldl splice s := by
  rw [← editsFault?_fromTheEnd_eq_none_iff, applyEdits]
  cases s.editsFault? none (fromTheEnd edits) with
  | some fault => simp
  | none => simp [eq_comm]

/-- What stands before every edit of a batch is left as it is. -/
theorem exists_of_applyEdits_append (h : (before ++ after).applyEdits edits = .ok t)
    (hfrom : ∀ edit ∈ edits, before.size ≤ edit.start) : ∃ after', t = before ++ after' := by
  obtain ⟨hroom, rfl⟩ := applyEdits_eq_ok_iff.mp h
  exact ⟨_, foldl_splice_fromTheEnd hroom rfl hfrom⟩

/-- A text accepts exactly the batches it has room for, and gives the gaps between their ranges
with the replacements between the gaps; of every other batch it reports a fault. -/
theorem applyEdits_eq_patch_iff_hasRoom (s : Text) (edits : List Edit) :
    (∀ t, s.applyEdits edits = .ok t ↔ s.HasRoom edits ∧ t = s.patch edits) ∧
    ((∃ fault, s.applyEdits edits = .error fault) ↔ ¬ s.HasRoom edits) := by
  constructor
  · intro t
    rw [applyEdits_eq_ok_iff]
    apply and_congr_right
    intro hroom
    have hpatch : (fromTheEnd edits).foldl splice s = [] ++ s.patch edits :=
      foldl_splice_fromTheEnd hroom rfl (by simp)
    rw [hpatch, List.nil_append]
  · constructor
    · rintro ⟨fault, hfault⟩ hroom
      have hok := applyEdits_eq_ok_iff.mpr ⟨hroom, rfl⟩
      rw [hfault] at hok
      simp at hok
    · intro hroom
      cases h : s.applyEdits edits with
      | error fault => exact ⟨fault, rfl⟩
      | ok t => exact absurd (applyEdits_eq_ok_iff.mp h).1 hroom

end Text

end LintMend
