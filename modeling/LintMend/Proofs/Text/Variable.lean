import LintMend.Proofs.Text.Lines
import LintMend.Proofs.Text.Search
import LintMend.Repair.Pattern

/-!
# Occurrences of a variable

The name of a variable begins with a dollar sign and has none behind it, so two occurrences of a
name never overlap. Searching for the name, and on behind each occurrence that a longer name
continues, therefore comes to the same occurrence as a test at every place of the line.
-/

namespace LintMend.Text

variable {name line a b behind : Text} {found : Nat}

/-- A dollar sign and an identifier of ASCII. -/
def IsVariable (name : Text) : Prop :=
  ∃ identifier, name = '$' :: identifier ∧ identifier.all Repair.Pattern.isNamePart

theorem IsVariable.dollar_notMem_tail {identifier : Text} (h : IsVariable ('$' :: identifier)) :
    '$' ∉ identifier := by
  obtain ⟨_, heq, hall⟩ := h
  obtain rfl : identifier = _ := by simpa using heq
  intro hmem
  exact absurd (List.all_eq_true.mp hall _ hmem) (by decide)

theorem isVariable_of_readName? {s rest : Text}
    (h : Repair.Pattern.readName? s = some (name, rest)) : IsVariable name := by
  unfold Repair.Pattern.readName? at h
  split at h
  · next c t =>
    split at h
    · next hc =>
      obtain ⟨rfl, -⟩ : _ = name ∧ _ := by simpa using h
      refine ⟨_, rfl, ?_⟩
      have hpart : Repair.Pattern.isNamePart c := by
        simp only [Repair.Pattern.isNameStart, Repair.Pattern.isNamePart, Char.isAlphanum] at hc ⊢
        cases hc' : c.isAlpha <;> simp_all
      rw [List.all_cons, hpart, List.all_takeWhile]
      rfl
    · simp at h
  · simp at h

/-- Whether a text begins with a name that no further identifier character follows. -/
def StartsWhole (name s : Text) : Prop :=
  name <+: s ∧ ¬ (s.drop name.length).head?.any isWord

theorem startsWhole_append_iff : StartsWhole name (name ++ b) ↔ ¬ b.head?.any isWord := by
  rw [StartsWhole, List.drop_left]
  simp

theorem findWhole?_cons (c : Char) (s : Text) [Decidable (StartsWhole name (c :: s))] :
    findWhole? name (c :: s) =
      if StartsWhole name (c :: s) then some 0
      else (findWhole? name s).map (c.utf8Size + ·) := by
  rw [findWhole?]
  congr 1
  rw [StartsWhole, List.isPrefixOf_iff_prefix]

theorem exists_of_findWhole?_eq_some (h : findWhole? name line = some found) :
    ∃ a b, line = a ++ name ++ b ∧ found = size a := by
  induction line generalizing found with
  | nil => simp [findWhole?] at h
  | cons c line ih =>
    rw [findWhole?] at h
    split at h
    · next hstart =>
      obtain ⟨b, hb⟩ := List.isPrefixOf_iff_prefix.mp hstart.1
      exact ⟨[], b, by simpa using hb.symm, by simpa using h.symm⟩
    · obtain ⟨n, hn, rfl⟩ := Option.map_eq_some_iff.mp h
      obtain ⟨a, b, rfl, rfl⟩ := ih hn
      exact ⟨c :: a, b, rfl, rfl⟩

/-- A line with what stands before and behind it. No word goes on behind a line. -/
theorem cuts_line_not_isWord (s : Text) (n : Nat) : ∃ before behind,
    Span.Cuts ⟨s.lineStart n, s.lineEnd n⟩ s before (s.lineText n) behind ∧
      ¬ behind.head?.any isWord := by
  by_cases h : n < s.lineCount
  · obtain ⟨cr, rest, hcr, -, hrest, hs⟩ := exists_behind_line h
    refine ⟨s.linesBefore n, cr ++ rest, ⟨hs, lineStart_of_lt h, lineEnd_of_lt h⟩, ?_⟩
    have hreturn : isWord '\r' = false := by decide
    have hfeed : isWord '\n' = false := by decide
    rcases hcr with rfl | rfl <;> rcases hrest with rfl | ⟨_, rfl⟩ <;> simp [hreturn, hfeed]
  · exact ⟨s, [], cuts_line_of_le (Nat.not_lt.mp h), by simp⟩

theorem exists_cuts_of_variableOnLine? {s : Text} {n : Nat} {span : Span}
    (h : variableOnLine? s n name = some span) : ∃ before after, span.Cuts s before name after := by
  obtain ⟨found, hfound, rfl⟩ := Option.map_eq_some_iff.mp h
  obtain ⟨a, b, hline, rfl⟩ := exists_of_findWhole?_eq_some hfound
  obtain ⟨before, after, hcuts⟩ := cuts_line s n
  have hstart : s.lineStart n = size before := hcuts.start
  refine ⟨before ++ a, b ++ after, ?_, ?_, ?_⟩
  · rw [hcuts.text, hline]
    simp
  · simp [hstart]
  · simp [hstart, Nat.add_assoc]

/-- Places at which no whole name begins are passed over. -/
theorem findWhole?_append
    (h : ∀ a₁ c a₂, a = a₁ ++ c :: a₂ → ¬ StartsWhole name (c :: (a₂ ++ b))) :
    findWhole? name (a ++ b) = (findWhole? name b).map (size a + ·) := by
  classical
  induction a with
  | nil => simp
  | cons c a ih =>
    rw [List.cons_append, findWhole?_cons, if_neg (h [] c a rfl),
      ih (fun a₁ d a₂ ha ↦ h (c :: a₁) d a₂ (by rw [ha]; rfl)), Option.map_map]
    congr 1
    funext n
    simp [Nat.add_assoc]

theorem findWhole?_eq_none (h : ∀ a₁ c a₂, a = a₁ ++ c :: a₂ → ¬ StartsWhole name (c :: a₂)) :
    findWhole? name a = none := by
  have happend := findWhole?_append (b := []) (by simpa using h)
  rwa [List.append_nil, findWhole?, Option.map_none] at happend

theorem not_startsWhole_of_findWhole?_eq_none {c : Char} (h : findWhole? name line = none)
    (hline : line = a ++ c :: b) : ¬ StartsWhole name (c :: b) := by
  classical
  subst hline
  induction a with
  | nil =>
    rw [List.nil_append, findWhole?_cons] at h
    split at h
    · simp at h
    · assumption
  | cons d a ih =>
    rw [List.cons_append, findWhole?_cons] at h
    split at h
    · simp at h
    · exact ih (Option.map_eq_none_iff.mp h)

/-! ## One search after the other -/

/-- A name that is not found in a longer text is not on the line. -/
theorem findWhole?_of_find?_eq_none (h : find? name (line ++ behind) = none) :
    findWhole? name line = none :=
  findWhole?_eq_none fun a₁ c a₂ ha hwhole ↦
    not_prefix_of_find?_eq_none (a := a₁) h (by rw [ha]; simp)
      (hwhole.1.trans (List.prefix_append (c :: a₂) behind))

/-- A name whose first occurrence ends behind the line is not on the line. -/
theorem findWhole?_of_lt (h : find? name (line ++ behind) = some found)
    (hlt : size line < found + size name) : findWhole? name line = none := by
  obtain ⟨a, b, hs, rfl, hfirst⟩ := exists_leftmost_of_find? h
  refine findWhole?_eq_none fun a₁ c a₂ hline hwhole ↦ ?_
  obtain ⟨rest, hrest⟩ := hwhole.1
  -- the occurrence on the line ends on the line, so it begins before the first one
  have hsize : size line = size a₁ + (size name + size rest) := by
    rw [hline, ← hrest, size_append, size_append]
  have hsame : a₁ ++ (c :: a₂ ++ behind) = a ++ (name ++ b) := by
    rw [← List.append_assoc, ← hline, hs, List.append_assoc]
  obtain ⟨skipped, rfl, hskipped⟩ := exists_append_of_size_le hsame (by omega)
  cases skipped with
  | nil =>
    rw [List.append_nil] at hlt
    omega
  | cons d skipped =>
    refine hfirst a₁ d skipped rfl ?_
    rw [List.append_assoc, ← List.cons_append, ← hskipped, ← hrest]
    exact ⟨rest ++ behind, by simp⟩

/-- The first occurrence on the line counts unless a longer name continues it, and then the search
goes on behind it. -/
theorem findWhole?_of_find? (hname : IsVariable name)
    (hfirst : ∀ a₁ c a₂, a = a₁ ++ c :: a₂ → ¬ name <+: c :: (a₂ ++ name ++ (b ++ behind))) :
    findWhole? name (a ++ name ++ b) =
      if b.head?.any isWord then (findWhole? name b).map (size (a ++ name) + ·)
      else some (size a) := by
  classical
  obtain ⟨identifier, rfl, hidentifier⟩ := hname
  have hbefore : ∀ a₁ c a₂, a = a₁ ++ c :: a₂ →
      ¬ StartsWhole ('$' :: identifier) (c :: (a₂ ++ ('$' :: identifier ++ b))) := by
    intro a₁ c a₂ ha hwhole
    obtain ⟨rest, hrest⟩ := hwhole.1
    exact hfirst a₁ c a₂ ha ⟨rest ++ behind, by
      rw [← List.append_assoc, hrest]
      simp⟩
  rw [List.append_assoc, findWhole?_append hbefore]
  have hhere : StartsWhole ('$' :: identifier) ('$' :: identifier ++ b) ↔ ¬ b.head?.any isWord :=
    startsWhole_append_iff
  split
  · next hword =>
    have hinside : ∀ a₁ c a₂, '$' :: identifier = a₁ ++ c :: a₂ →
        ¬ StartsWhole ('$' :: identifier) (c :: (a₂ ++ b)) := by
      intro a₁ c a₂ hsplit hwhole
      cases a₁ with
      | nil =>
        obtain ⟨rfl, rfl⟩ : '$' = c ∧ identifier = a₂ := by simpa using hsplit
        exact hhere.mp hwhole hword
      | cons d a₁ =>
        obtain ⟨-, rfl⟩ : '$' = d ∧ identifier = a₁ ++ c :: a₂ := by simpa using hsplit
        obtain rfl : '$' = c := (List.cons_prefix_cons.mp hwhole.1).1
        exact IsVariable.dollar_notMem_tail ⟨_, rfl, hidentifier⟩ (by simp)
    rw [findWhole?_append hinside, Option.map_map]
    congr 1
    funext n
    simp [Nat.add_assoc]
  · next hword =>
    have hstarts : StartsWhole ('$' :: identifier) ('$' :: (identifier ++ b)) := hhere.mpr hword
    rw [List.cons_append, findWhole?_cons, if_pos hstarts, Option.map_some, Nat.add_zero]

/-! ## The first whole occurrence -/

theorem IsVariable.ne_nil (h : IsVariable name) : name ≠ [] := by
  obtain ⟨identifier, rfl, -⟩ := h
  exact List.cons_ne_nil _ _

/-- Between `a` and `b` a name stands whole, and nowhere before. -/
structure FirstWhole (name a b : Text) : Prop where
  whole : ¬ b.head?.any isWord
  first : ∀ a₁ c a₂, a = a₁ ++ c :: a₂ → ¬ StartsWhole name (c :: (a₂ ++ (name ++ b)))

theorem findWhole?_eq_some_iff (hname : name ≠ []) : findWhole? name line = some found ↔
    ∃ a b, line = a ++ (name ++ b) ∧ found = size a ∧ FirstWhole name a b := by
  classical
  constructor
  · intro h
    induction line generalizing found with
    | nil => simp [findWhole?] at h
    | cons c line ih =>
      rw [findWhole?_cons] at h
      split at h
      · next hstarts =>
        obtain ⟨b, hb⟩ := hstarts.1
        rw [← hb, startsWhole_append_iff] at hstarts
        exact ⟨[], b, hb.symm, by simpa using h.symm, hstarts, by simp⟩
      · next hstarts =>
        obtain ⟨n, hn, rfl⟩ := Option.map_eq_some_iff.mp h
        obtain ⟨a, b, rfl, rfl, hwhole, hfirst⟩ := ih hn
        refine ⟨c :: a, b, rfl, rfl, hwhole, fun a₁ d a₂ ha ↦ ?_⟩
        cases a₁ with
        | nil =>
          obtain ⟨rfl, rfl⟩ : c = d ∧ a = a₂ := by simpa using ha
          exact hstarts
        | cons e a₁ =>
          obtain ⟨rfl, rfl⟩ : c = e ∧ a = a₁ ++ d :: a₂ := by simpa using ha
          exact hfirst a₁ d a₂ rfl
  · rintro ⟨a, b, rfl, rfl, hwhole, hfirst⟩
    obtain ⟨d, rest, rfl⟩ := List.exists_cons_of_ne_nil hname
    have hstarts : StartsWhole (d :: rest) (d :: (rest ++ b)) := startsWhole_append_iff.mpr hwhole
    rw [findWhole?_append hfirst, List.cons_append, findWhole?_cons, if_pos hstarts,
      Option.map_some, Nat.add_zero]

/-- An occurrence of a variable ends before the next one begins, so which one is the first is not
changed by what stands behind it. -/
theorem FirstWhole.congr (hname : IsVariable name) (h : FirstWhole name a b)
    (hbehind : ¬ behind.head?.any isWord) : FirstWhole name a behind := by
  refine ⟨hbehind, fun a₁ c a₂ ha hstarts ↦ h.first a₁ c a₂ ha ?_⟩
  obtain ⟨rest, hrest⟩ : ∃ rest, c :: a₂ = name ++ rest := by
    obtain ⟨tail, htail⟩ := hstarts.1
    rw [← List.cons_append] at htail
    rcases List.append_eq_append_iff.mp htail with ⟨rest, hrest, -⟩ | ⟨more, hmore, hnext⟩
    · exact ⟨rest, hrest⟩
    · obtain ⟨identifier, rfl, hidentifier⟩ := hname
      cases more with
      | nil => exact ⟨[], by rw [hmore]; simp⟩
      | cons d more =>
        -- the name would hold the dollar sign of the next occurrence
        obtain ⟨rfl, -⟩ := List.cons.inj hnext
        obtain ⟨-, hidentifier'⟩ := List.cons.inj hmore
        exact absurd (by rw [hidentifier']; simp)
          (IsVariable.dollar_notMem_tail ⟨_, rfl, hidentifier⟩)
  have hne : rest ++ name ≠ [] := by simp [hname.ne_nil]
  have hhead (x : Text) : (rest ++ (name ++ x)).head? = (rest ++ name).head? := by
    rw [← List.append_assoc, List.head?_append, List.head?_eq_some_head hne, Option.some_or]
  have hsplit (x : Text) : c :: (a₂ ++ (name ++ x)) = name ++ (rest ++ (name ++ x)) := by
    rw [← List.cons_append, hrest, List.append_assoc]
  rw [hsplit, startsWhole_append_iff, hhead] at hstarts
  rwa [hsplit, startsWhole_append_iff, hhead]

end LintMend.Text
