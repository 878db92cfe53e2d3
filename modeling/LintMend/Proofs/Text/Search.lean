import LintMend.Proofs.Text.Cut

/-!
# What a search finds

A search gives a span only where the text holds the needle, so the ends of the span are places of
the text. Lower case keeps the size of a character, so this is also true of the search that ignores
the case of letters. Runs of spaces and tabs and the starts of words are places in the same way.
-/

namespace LintMend.Text

variable {s needle a b b' : Text} {offset start : Nat} {span : Span}

/-! ## Needles -/

/-- A search finds the first occurrence: no needle begins before the one it finds. -/
theorem exists_leftmost_of_find? (hf : find? needle s = some offset) :
    ∃ a b, s = a ++ needle ++ b ∧ offset = size a ∧
      ∀ a₁ c a₂, a = a₁ ++ c :: a₂ → ¬ needle <+: c :: (a₂ ++ needle ++ b) := by
  induction s generalizing offset with
  | nil =>
    obtain ⟨hn, rfl⟩ : needle = [] ∧ 0 = offset := by simpa [find?] using hf
    exact ⟨[], [], by simp [hn], rfl, by simp⟩
  | cons c s ih =>
    rw [find?] at hf
    split at hf
    · obtain ⟨b, hb⟩ := List.isPrefixOf_iff_prefix.mp ‹_›
      obtain rfl : 0 = offset := by simpa using hf
      exact ⟨[], b, by simp [hb], rfl, by simp⟩
    · next hprefix =>
      obtain ⟨n, hn, rfl⟩ := Option.map_eq_some_iff.mp hf
      obtain ⟨a, b, rfl, rfl, hfirst⟩ := ih hn
      refine ⟨c :: a, b, by simp, rfl, fun a₁ d a₂ ha ↦ ?_⟩
      cases a₁ with
      | nil =>
        obtain ⟨rfl, rfl⟩ : c = d ∧ a = a₂ := by simpa using ha
        rwa [← List.isPrefixOf_iff_prefix]
      | cons e a₁ =>
        obtain ⟨rfl, rfl⟩ : c = e ∧ a = a₁ ++ d :: a₂ := by simpa using ha
        exact hfirst a₁ d a₂ rfl

theorem exists_of_find?_eq_some (hf : find? needle s = some offset) :
    ∃ a b, s = a ++ needle ++ b ∧ offset = size a := by
  obtain ⟨a, b, hs, ho, -⟩ := exists_leftmost_of_find? hf
  exact ⟨a, b, hs, ho⟩

/-- A search fails only where no needle begins. -/
theorem not_prefix_of_find?_eq_none {c : Char} (hf : find? needle s = none)
    (hs : s = a ++ c :: b) : ¬ needle <+: c :: b := by
  subst hs
  induction a with
  | nil =>
    rw [List.nil_append, find?] at hf
    split at hf
    · simp at hf
    · rwa [← List.isPrefixOf_iff_prefix]
  | cons d a ih =>
    rw [List.cons_append, find?] at hf
    split at hf
    · simp at hf
    · exact ih (Option.map_eq_none_iff.mp hf)

theorem contains_iff_infix : s.contains needle ↔ needle <:+: s := by
  rw [contains, Option.isSome_iff_exists]
  constructor
  · rintro ⟨offset, hfind⟩
    obtain ⟨a, b, rfl, -⟩ := exists_of_find?_eq_some hfind
    exact ⟨a, b, rfl⟩
  · rintro ⟨a, b, hs⟩
    cases hfind : find? needle s with
    | some offset => exact ⟨offset, rfl⟩
    | none =>
      cases hrest : needle ++ b with
      | nil =>
        obtain ⟨rfl, rfl⟩ := List.append_eq_nil_iff.mp hrest
        cases s <;> simp [find?] at hfind
      | cons c rest =>
        have hplace : s = a ++ c :: rest := by rw [← hs, List.append_assoc, hrest]
        exact absurd ⟨b, hrest⟩ (not_prefix_of_find?_eq_none hfind hplace)

/-- The first place of a character, if the text has it. -/
theorem exists_of_find?_singleton {c : Char} (hf : find? [c] s = some offset) :
    ∃ a b, s = a ++ c :: b ∧ offset = size a ∧ c ∉ a := by
  obtain ⟨a, b, hs, ho, hfirst⟩ := exists_leftmost_of_find? hf
  refine ⟨a, b, by simpa using hs, ho, fun hc ↦ ?_⟩
  obtain ⟨a₁, a₂, ha⟩ := List.append_of_mem hc
  exact hfirst a₁ c a₂ ha ⟨_, rfl⟩

theorem find?_singleton_append {c : Char} (h : c ∉ a) (b : Text) :
    find? [c] (a ++ c :: b) = some (size a) := by
  induction a with
  | nil => simp [find?]
  | cons d a ih =>
    rw [List.mem_cons, not_or] at h
    have hne : ¬ [c].isPrefixOf (d :: (a ++ c :: b)) := by simpa using h.1
    rw [List.cons_append, find?, if_neg hne, ih h.2, Option.map_some, size_cons]

theorem notMem_of_find?_singleton_eq_none {c : Char} (hf : find? [c] s = none) : c ∉ s := by
  intro hc
  obtain ⟨a, b, hs⟩ := List.append_of_mem hc
  exact not_prefix_of_find?_eq_none hf hs ⟨b, rfl⟩

theorem find?_singleton_of_notMem {c : Char} (h : c ∉ s) : find? [c] s = none := by
  cases hfind : find? [c] s with
  | none => rfl
  | some n =>
    obtain ⟨a, b, rfl, -, -⟩ := exists_of_find?_singleton hfind
    exact absurd (by simp) h

/-- The last place of a character is the one behind which the text does not have it. -/
theorem findLast?_singleton_append {c : Char} (h : c ∉ b) (a : Text) :
    findLast? [c] (a ++ c :: b) = some (size a) := by
  have hnone : findLast? [c] b = none := by
    clear a
    induction b with
    | nil => simp [findLast?]
    | cons d b ih =>
      rw [List.mem_cons, not_or] at h
      have hne : ¬ [c].isPrefixOf (d :: b) := by simpa using h.1
      rw [findLast?, ih h.2]
      exact if_neg hne
  induction a with
  | nil => simp [findLast?, hnone]
  | cons d a ih => rw [List.cons_append, findLast?, ih, size_cons]

theorem exists_of_findLast?_eq_some (hf : findLast? needle s = some offset) :
    ∃ a b, s = a ++ needle ++ b ∧ offset = size a := by
  induction s generalizing offset with
  | nil =>
    obtain ⟨hn, rfl⟩ : needle = [] ∧ 0 = offset := by simpa [findLast?] using hf
    exact ⟨[], [], by simp [hn], rfl⟩
  | cons c s ih =>
    rw [findLast?] at hf
    split at hf
    · next n hn =>
      obtain rfl : c.utf8Size + n = offset := by simpa using hf
      obtain ⟨a, b, rfl, rfl⟩ := ih hn
      exact ⟨c :: a, b, by simp, rfl⟩
    · split at hf
      · obtain ⟨b, hb⟩ := List.isPrefixOf_iff_prefix.mp ‹_›
        obtain rfl : 0 = offset := by simpa using hf
        exact ⟨[], b, by simp [hb], rfl⟩
      · simp at hf

theorem exists_cuts_of_searchFrom? (hf : searchFrom? s start needle = some span) :
    ∃ a b, span.Cuts s a needle b ∧ start ≤ span.start := by
  obtain ⟨rest, hrest, n, hn, rfl⟩ : ∃ rest, after? s start = some rest ∧
      ∃ n, find? needle rest = some n ∧
        (⟨start + n, start + n + size needle⟩ : Span) = span := by
    simpa [searchFrom?, Option.bind_eq_some_iff] using hf
  obtain ⟨p, rfl, rfl⟩ := after?_eq_some_iff.mp hrest
  obtain ⟨a, b, rfl, rfl⟩ := exists_of_find?_eq_some hn
  exact ⟨p ++ a, b, ⟨by simp, by simp, by simp [Nat.add_assoc]⟩, by simp⟩

theorem searchBefore?_singleton {c : Char} (hs : s = a ++ c :: b) (hstart : start = size (a ++ c :: b'))
    (hbegins : b' <+: b) (h : c ∉ b') :
    ∃ span, searchBefore? s start [c] = some span ∧ span.Cuts s a [c] b := by
  obtain ⟨rest, rfl⟩ := hbegins
  have hsplit : s = a ++ c :: b' ++ rest := by simp [hs]
  refine ⟨⟨size a, size a + size [c]⟩, ?_, ⟨by simp [hs], rfl, by simp⟩⟩
  rw [searchBefore?, hsplit, hstart, before?_size_append]
  simp only [Option.bind_eq_bind, Option.bind_some, findLast?_singleton_append h, Option.pure_def]

theorem exists_cuts_of_searchBefore? (hf : searchBefore? s start needle = some span) :
    ∃ a b, span.Cuts s a needle b ∧ span.stop ≤ start := by
  obtain ⟨before, hbefore, n, hn, rfl⟩ : ∃ before, before? s start = some before ∧
      ∃ n, findLast? needle before = some n ∧ (⟨n, n + size needle⟩ : Span) = span := by
    simpa [searchBefore?, Option.bind_eq_some_iff] using hf
  obtain ⟨b, rfl, rfl⟩ := before?_eq_some_iff.mp hbefore
  obtain ⟨a, c, rfl, rfl⟩ := exists_of_findLast?_eq_some hn
  exact ⟨a, c ++ b, ⟨by simp, by simp, by simp⟩, by simp only [size_append]; omega⟩

/-! ## Needles in either case -/

/-- Lower case leaves a character, or moves a letter of ASCII by the distance of the two cases. -/
theorem toLower_cases (c : Char) : c.toLower = c ∨
    65 ≤ c.val.toNat ∧ c.val.toNat ≤ 90 ∧ c.toLower.val.toNat = c.val.toNat + 32 := by
  unfold Char.toLower
  split
  · next h =>
    have hupper : 65 ≤ c.val.toNat ∧ c.val.toNat ≤ 90 := by
      simpa [UInt32.le_iff_toNat_le] using h
    refine .inr ⟨hupper.1, hupper.2, ?_⟩
    change (c.val + ('a'.val - 'A'.val)).toNat = c.val.toNat + 32
    rw [UInt32.toNat_add, show ('a'.val - 'A'.val).toNat = 32 from rfl]
    omega
  · exact .inl rfl

theorem utf8Size_toLower (c : Char) : c.toLower.utf8Size = c.utf8Size := by
  rcases toLower_cases c with h | ⟨-, hle, hsum⟩
  · rw [h]
  · simp only [Char.utf8Size, UInt32.le_iff_toNat_le, hsum]
    rw [if_pos, if_pos]
    · exact Nat.le_trans hle (by decide)
    · exact Nat.le_trans (Nat.add_le_add_right hle 32) (by decide)

theorem toLower_eq_space_iff {c : Char} : c.toLower = ' ' ↔ c = ' ' := by
  rcases toLower_cases c with h | ⟨hle, -, hsum⟩
  · rw [h]
  · constructor
    · intro hc
      have hspace : c.toLower.val.toNat = 32 := congrArg (·.val.toNat) hc
      omega
    · rintro rfl
      exact absurd hle (by decide)

@[simp] theorem size_asciiLower (s : Text) : size s.asciiLower = size s := by
  induction s with
  | nil => rfl
  | cons c s ih =>
    change c.toLower.utf8Size + size (asciiLower s) = _
    rw [ih, utf8Size_toLower, size_cons]

theorem exists_cuts_of_searchFromIgnoringCase?
    (hf : searchFromIgnoringCase? s start needle = some span) :
    ∃ a held b, span.Cuts s a held b ∧ held.asciiLower = needle.asciiLower ∧
      start ≤ span.start := by
  obtain ⟨rest, hrest, n, hn, rfl⟩ : ∃ rest, after? s start = some rest ∧
      ∃ n, find? needle.asciiLower rest.asciiLower = some n ∧
        (⟨start + n, start + n + size needle⟩ : Span) = span := by
    simpa [searchFromIgnoringCase?, Option.bind_eq_some_iff] using hf
  obtain ⟨p, rfl, rfl⟩ := after?_eq_some_iff.mp hrest
  obtain ⟨a', b', hlower, rfl⟩ := exists_of_find?_eq_some hn
  obtain ⟨ah, b, rfl, hah, hb⟩ := List.map_eq_append_iff.mp hlower
  obtain ⟨a, held, rfl, rfl, hheld⟩ := List.map_eq_append_iff.mp hah
  have ha : size (a.map Char.toLower) = size a := size_asciiLower a
  have hh : size held = size needle := by
    rw [← size_asciiLower held, ← size_asciiLower needle]
    exact congrArg size hheld
  refine ⟨p ++ a, held, b, ⟨by simp, by simp [ha], by simp [ha, hh, Nat.add_assoc]⟩, hheld, by simp⟩

/-! ## Runs -/

theorem takeEndWhile_append_dropEndWhile (p : Char → Bool) (s : Text) :
    dropEndWhile p s ++ takeEndWhile p s = s := by
  rw [dropEndWhile, takeEndWhile, ← List.reverse_append, List.takeWhile_append_dropWhile,
    List.reverse_reverse]

theorem dropEndWhile_append_of_all {p : Char → Bool} (hb : b.all p) (a : Text) :
    dropEndWhile p (a ++ b) = a.dropEndWhile p := by
  have hreverse : b.reverse.all p := by rwa [List.all_reverse]
  rw [dropEndWhile, List.reverse_append,
    List.dropWhile_append_of_pos (List.all_eq_true.mp hreverse), dropEndWhile]

theorem dropEndWhile_of_getLast? {p : Char → Bool} (h : ¬ s.getLast?.any p) :
    s.dropEndWhile p = s := by
  rcases List.eq_nil_or_concat s with rfl | ⟨init, c, rfl⟩
  · rfl
  · have hc : ¬ p c := by simpa using h
    rw [List.concat_eq_append, dropEndWhile, List.reverse_append, List.reverse_singleton,
      List.singleton_append, List.dropWhile_cons_of_neg hc, List.reverse_cons, List.reverse_reverse]

theorem getLast?_dropEndWhile_any (p : Char → Bool) (s : Text) :
    ¬ (s.dropEndWhile p).getLast?.any p := by
  have hhead := List.head?_dropWhile_not p s.reverse
  rw [dropEndWhile, List.getLast?_reverse]
  cases hd : (s.reverse.dropWhile p).head? <;> simp_all

theorem all_takeEndWhile (p : Char → Bool) (s : Text) : (takeEndWhile p s).all p := by
  rw [takeEndWhile, List.all_reverse]
  exact List.all_takeWhile

theorem takeEndWhile_append_cons {p : Char → Bool} {c : Char} (hc : ¬ p c) (a b : Text) :
    takeEndWhile p (a ++ c :: b) = takeEndWhile p b := by
  have hstop : (c :: a.reverse).takeWhile p = [] := List.takeWhile_cons_of_neg hc
  have hreverse : (a ++ c :: b).reverse = b.reverse ++ c :: a.reverse := by simp
  rw [takeEndWhile, hreverse, List.takeWhile_append, hstop, List.append_nil]
  split
  · next hall =>
    have hprefix := List.takeWhile_prefix p (l := b.reverse)
    rw [takeEndWhile, hprefix.eq_of_length hall]
  · rfl

/-- Whether a text begins with a certain character is not changed by what does not. -/
theorem head?_append_any {p : Char → Bool} (hb : ¬ b.head?.any p) (a : Text) :
    (a ++ b).head?.any p = a.head?.any p := by
  cases a with
  | nil => simpa using hb
  | cons c a => rfl

theorem exists_gap (s : Text) : ∃ gap back, s = gap ++ back ∧ gap.all isSpaceOrTab ∧
    ¬ back.head?.any isSpaceOrTab := by
  refine ⟨s.takeWhile isSpaceOrTab, s.dropWhile isSpaceOrTab,
    List.takeWhile_append_dropWhile.symm, List.all_takeWhile, ?_⟩
  have hhead := List.head?_dropWhile_not isSpaceOrTab s
  cases hd : (s.dropWhile isSpaceOrTab).head? <;> simp_all

theorem gapAfter?_size_append {gap : Text} (hgap : gap.all isSpaceOrTab)
    (hb : ¬ b.head?.any isSpaceOrTab) (a : Text) :
    gapAfter? (a ++ (gap ++ b)) (size a) = some (size gap) := by
  have hstop : b.takeWhile isSpaceOrTab = [] := by
    cases b with
    | nil => rfl
    | cons c b => exact List.takeWhile_cons_of_neg (by simpa using hb)
  rw [gapAfter?, after?_size_append, Option.map_some,
    List.takeWhile_append_of_pos (List.all_eq_true.mp hgap), hstop, List.append_nil]

theorem exists_cuts_of_gapAfter? {gap : Nat} (hg : gapAfter? s start = some gap) :
    ∃ a held b, Span.Cuts ⟨start, start + gap⟩ s a held b ∧ held.all isSpaceOrTab ∧
      ¬ b.head?.any isSpaceOrTab := by
  obtain ⟨rest, hrest, rfl⟩ := Option.map_eq_some_iff.mp hg
  obtain ⟨a, rfl, rfl⟩ := after?_eq_some_iff.mp hrest
  obtain ⟨held, b, rfl, hheld, hb⟩ := exists_gap rest
  have hgap := gapAfter?_size_append hheld hb a
  rw [hg, Option.some.injEq] at hgap
  exact ⟨a, held, b, ⟨by simp, rfl, by rw [hgap, size_append]⟩, hheld, hb⟩

theorem exists_cuts_of_gapBefore? {gap : Nat} (hg : gapBefore? s start = some gap) :
    ∃ a held b, Span.Cuts ⟨start - gap, start⟩ s a held b ∧ held.all isSpaceOrTab := by
  obtain ⟨before, hbefore, rfl⟩ := Option.map_eq_some_iff.mp hg
  obtain ⟨b, rfl, rfl⟩ := before?_eq_some_iff.mp hbefore
  have hsplit := takeEndWhile_append_dropEndWhile isSpaceOrTab before
  have hsize : size before = size (before.dropEndWhile isSpaceOrTab) +
      size (before.takeEndWhile isSpaceOrTab) := by
    rw [← size_append, hsplit]
  refine ⟨before.dropEndWhile isSpaceOrTab, before.takeEndWhile isSpaceOrTab, b, ⟨?_, ?_, ?_⟩,
    all_takeEndWhile _ _⟩
  · rw [hsplit]
  · change size before - size (before.takeEndWhile isSpaceOrTab) = _
    omega
  · change size before = _
    rw [hsplit]

theorem advance?_size_append (a b : Text) (count : Nat) :
    advance? (a ++ b) (size a) count = some (size (a ++ b.take count)) := by
  simp [advance?]

end LintMend.Text
