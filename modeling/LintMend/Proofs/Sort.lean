import Mathlib.Data.List.Basic
import Mathlib.Order.Defs.PartialOrder

/-!
# Ties of a stable sort

A stable sort moves no item past another one that may stand where it stands. Items that are in
order already are therefore left in their order, and a list that is sorted by a key is determined
by what it holds of each key.
-/

namespace LintMend.Sort

variable {α β : Type} [DecidableEq β] {key : α → β} {p : α → Bool} {l a b : List α}

section Total

variable (r : α → α → Prop) [DecidableRel r] (htrans : ∀ x y z, r x y → r y z → r x z)
  (htotal : ∀ x y, r x y ∨ r y x)

include htrans htotal

theorem pairwise_mergeSort (l : List α) : (l.mergeSort fun x y ↦ r x y).Pairwise r := by
  have hsorted : (l.mergeSort fun x y ↦ r x y).Pairwise fun x y ↦ decide (r x y) := by
    apply List.pairwise_mergeSort
    · simpa only [decide_eq_true_eq] using htrans
    · simpa only [Bool.or_eq_true, decide_eq_true_eq] using htotal
  simpa only [decide_eq_true_eq] using hsorted

/-- Items that may stand in any order stay in the order they have. -/
theorem filter_mergeSort (hties : ∀ x ∈ l, ∀ y ∈ l, p x → p y → r x y) :
    (l.mergeSort fun x y ↦ r x y).filter p = l.filter p := by
  have hordered : (l.filter p).Pairwise fun x y ↦ decide (r x y) := by
    apply List.pairwise_of_forall_mem_list
    intro x hx y hy
    rw [List.mem_filter] at hx hy
    simpa only [decide_eq_true_eq] using hties x hx.1 y hy.1 hx.2 hy.2
  have hsorted : (l.filter p).Sublist (l.mergeSort fun x y ↦ r x y) := by
    apply List.sublist_mergeSort _ _ hordered List.filter_sublist
    · simpa only [decide_eq_true_eq] using htrans
    · simpa only [Bool.or_eq_true, decide_eq_true_eq] using htotal
  have hkept : (l.filter p).filter p = l.filter p := by simp
  have hfilter : (l.filter p).Sublist ((l.mergeSort fun x y ↦ r x y).filter p) := by
    rw [← hkept]
    exact hsorted.filter p
  have hlength : (l.filter p).length = ((l.mergeSort fun x y ↦ r x y).filter p).length :=
    ((List.mergeSort_perm l _).filter p).length_eq.symm
  exact (hfilter.eq_of_length hlength).symm

end Total

/-- The first items of two sorted lists have one key if the lists hold the same of each key. -/
theorem key_head_le [PartialOrder β] {x y : α} (hb : (y :: b).Pairwise fun u v ↦ key u ≤ key v)
    (h : ∀ n, (x :: a).filter (key · = n) = (y :: b).filter (key · = n)) : key y ≤ key x := by
  have hmem : x ∈ (y :: b).filter (key · = key x) := by
    rw [← h]
    simp
  rcases List.mem_cons.mp (List.mem_of_mem_filter hmem) with rfl | hmem
  · exact le_refl _
  · exact (List.pairwise_cons.mp hb).1 x hmem

/-- A list that is sorted by a key is determined by what it holds of each key. -/
theorem eq_of_filter_key_eq [PartialOrder β] (ha : a.Pairwise fun u v ↦ key u ≤ key v)
    (hb : b.Pairwise fun u v ↦ key u ≤ key v)
    (h : ∀ n, a.filter (key · = n) = b.filter (key · = n)) : a = b := by
  induction a generalizing b with
  | nil =>
    cases b with
    | nil => rfl
    | cons y b => simpa using h (key y)
  | cons x a ih =>
    cases b with
    | nil => simpa using h (key x)
    | cons y b =>
      have hkey : key x = key y :=
        le_antisymm (key_head_le ha fun n ↦ (h n).symm) (key_head_le hb h)
      have hcons := h (key x)
      rw [List.filter_cons_of_pos (by simp), List.filter_cons_of_pos (by simp [hkey])] at hcons
      obtain ⟨rfl, -⟩ := List.cons.inj hcons
      have hrest (n : β) : a.filter (key · = n) = b.filter (key · = n) := by
        have hn := h n
        rw [List.filter_cons, List.filter_cons] at hn
        split at hn
        · exact (List.cons.inj hn).2
        · exact hn
      rw [ih ha.of_cons hb.of_cons hrest]

/-- A relation of items of one key holds throughout a list if it does among the items of each. -/
theorem pairwise_of_key_iff {R : α → α → Prop} :
    (l.Pairwise fun u v ↦ key u = key v → R u v) ↔ ∀ n, (l.filter (key · = n)).Pairwise R := by
  constructor
  · intro h n
    rw [List.pairwise_filter]
    refine h.imp fun huv hu hv ↦ huv ?_
    simp only [decide_eq_true_eq] at hu hv
    exact hu.trans hv.symm
  · intro h
    rw [List.pairwise_iff_forall_sublist]
    intro u v huv hkey
    have hn := List.pairwise_iff_forall_sublist.mp (List.pairwise_filter.mp (h (key v))) huv
    exact hn (by simpa using hkey) (by simp)

end LintMend.Sort
