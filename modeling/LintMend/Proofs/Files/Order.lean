import LintMend.Files.Path
import Mathlib.Data.List.Lex
import Mathlib.Data.List.Sort
import Mathlib.Data.Prod.Lex
import Mathlib.Data.String.Basic

/-!
# The order of paths

Paths are compared by their components, the first that differ deciding. A component has a key, its
kind and its name, and keys are ordered linearly. So paths are, up to what means nothing in a path:
two paths that are in order both ways have the same components.
-/

namespace LintMend.Path

variable {a b c : String}

/-! ## Components -/

/-- The kind of a component, and the name of one that has a name. -/
def Component.key : Component → ℕ ×ₗ String
  | .normal name => toLex ((Component.normal name).rank, name)
  | component => toLex (component.rank, "")

theorem Component.key_injective : Function.Injective Component.key := by
  intro a b h
  have hkey := Prod.mk.inj (toLex.injective h)
  cases a <;> cases b <;> simp_all [Component.key, Component.rank]

theorem Component.le_iff {a b : Component} : a.le b ↔ a.key ≤ b.key := by
  cases a <;> cases b <;>
    simp [Component.le, Component.key, Component.rank, Prod.Lex.toLex_le_toLex]

/-! ## Paths -/

/-- What paths are compared by. -/
def key (path : String) : List (ℕ ×ₗ String) := (components path).map Component.key

theorem key_eq_iff : key a = key b ↔ components a = components b :=
  (List.map_injective_iff.mpr Component.key_injective).eq_iff

theorem cons_le_cons_iff {α : Type} [LinearOrder α] {x y : α} {l l' : List α} :
    x :: l ≤ y :: l' ↔ x < y ∨ x = y ∧ l ≤ l' := by
  rw [le_iff_lt_or_eq, le_iff_lt_or_eq, List.cons_lt_cons_iff, List.cons.injEq, or_assoc, and_or_left]

theorem lexLe_iff {as bs : List Component} :
    lexLe as bs ↔ as.map Component.key ≤ bs.map Component.key := by
  induction as generalizing bs with
  | nil =>
    cases bs with
    | nil => simp [lexLe]
    | cons b bs => simpa [lexLe] using (List.nil_lt_cons b.key (bs.map Component.key)).le
  | cons a as ih =>
    cases bs with
    | nil => simp [lexLe]
    | cons b bs =>
      rw [lexLe, List.map_cons, List.map_cons, cons_le_cons_iff]
      split
      · next h => simp [h, ih]
      · next h =>
        have hkey : a.key ≠ b.key := Component.key_injective.ne h
        rw [Component.le_iff, le_iff_lt_or_eq]
        simp [hkey]

theorem le_iff : le a b ↔ key a ≤ key b := lexLe_iff

/-- One path comes before another one, and they are not equal as paths. -/
def Lt (a b : String) : Prop := le a b ∧ components a ≠ components b

instance (a b : String) : Decidable (Lt a b) :=
  inferInstanceAs (Decidable (_ ∧ _))

theorem lt_iff : Lt a b ↔ key a < key b := by
  rw [Lt, le_iff, Ne, ← key_eq_iff, lt_iff_le_and_ne]

/-- The order is not that of the texts, in which a hyphen comes before a slash. -/
example : Lt "src/b" "src-a" ∧ ¬ Lt "src//b" "src/b" ∧ "src-a" < "src/b" := by
  decide +kernel

/-! ## Sorted lists -/

theorem pairwise_mergeSort (paths : List String) :
    (paths.mergeSort le).Pairwise fun a b ↦ key a ≤ key b := by
  have hsorted : (paths.mergeSort le).Pairwise fun a b ↦ le a b := by
    apply List.pairwise_mergeSort
    · intro a b c hab hbc
      exact le_iff.mpr ((le_iff.mp hab).trans (le_iff.mp hbc))
    · intro a b
      rw [Bool.or_eq_true, le_iff, le_iff]
      exact le_total (key a) (key b)
  exact hsorted.imp le_iff.mp

/-- What a strictly ascending list is, up to what means nothing in its paths, is determined by what
it holds. -/
theorem map_components_eq {paths paths' : List String} (h : paths.Pairwise Lt)
    (h' : paths'.Pairwise Lt)
    (hmem : ∀ k, k ∈ paths.map components ↔ k ∈ paths'.map components) :
    paths.map components = paths'.map components := by
  have hkeys (l : List String) : l.map key = (l.map components).map (·.map Component.key) := by
    rw [List.map_map]
    rfl
  have hsorted {l : List String} (h : l.Pairwise Lt) : (l.map key).Pairwise (· < ·) :=
    List.pairwise_map.mpr (h.imp lt_iff.mp)
  have hinjective : Function.Injective (List.map Component.key) :=
    List.map_injective_iff.mpr Component.key_injective
  apply List.map_injective_iff.mpr hinjective
  rw [← hkeys, ← hkeys]
  apply (hsorted h).eq_of_mem_iff (hsorted h')
  intro k
  rw [hkeys, hkeys, List.mem_map, List.mem_map]
  exact exists_congr fun k ↦ and_congr_left' (hmem k)

end LintMend.Path
