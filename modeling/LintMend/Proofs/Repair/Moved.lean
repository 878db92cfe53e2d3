import LintMend.Proofs.Repair.Effect
import LintMend.Proofs.Repair.Line
import LintMend.Proofs.Repair.Pattern

/-!
# Where the keyword is moved to

The keyword `static` is looked for on the line of its hint, and is moved behind the next space of
the text. Where a space follows on the line, the line keeps its characters and no other line is
touched. Where the line has none the search goes on below it, and the keyword is put behind the
first space of the first later line that has one: two lines change, and a declaration with a tab or
a line break behind its visibility has lost its keyword to another one.
-/

namespace LintMend

open Text

variable {s t left written right word rest left' written' right' : Text}
  {earlier later clear earlier' later' : List Text} {n : Nat} {span : Span}

/-- No line is touched but one, which keeps its characters up to their order. -/
structure Text.ReordersLine (s t : Text) (n : Nat) : Prop where
  lineCount : t.lineCount = s.lineCount
  others : ∀ m ≠ n, t.lines[m]? = s.lines[m]?
  line : ∀ old ∈ s.lines[n]?, ∀ new ∈ t.lines[n]?, new.Perm old

theorem Text.reordersLine_refl (s : Text) (n : Nat) : ReordersLine s s n where
  lineCount := rfl
  others _ _ := rfl
  line old hold new hnew := by rw [Option.mem_unique hold hnew]

theorem Text.reordersLine_of_perm {old new : Text} (hs : s.lines = earlier ++ old :: later)
    (ht : t.lines = earlier ++ new :: later) (hperm : new.Perm old) :
    ReordersLine s t earlier.length where
  lineCount := by simp [lineCount, hs, ht]
  others m hm := by
    rw [hs, ht]
    rcases Nat.lt_or_gt_of_ne hm with hlt | hgt
    · rw [List.getElem?_append_left hlt, List.getElem?_append_left hlt]
    · obtain ⟨k, rfl⟩ := Nat.exists_eq_add_of_lt hgt
      simp [List.getElem?_append_right, Nat.add_assoc]
  line := by
    simpa [hs, ht] using hperm

namespace Repair

variable {anchor : Anchor} {rules : List Rule} {hint : Hint}

namespace Change

/-- The keyword on the line of an anchor: what stands on the line before it and behind it, and the
lines above and below. -/
structure Keyword (s : Text) (anchor : Anchor) (earlier : List Text) (left written right : Text)
    (later : List Text) : Prop where
  lines : s.lines = earlier ++ (left ++ (written ++ right)) :: later
  above : earlier.length = anchor.lineBegin
  word : written.asciiLower = asciiLower "static ".toList
  cuts : ∃ span, locate? s anchor "static ".toList = some span ∧
    span.Cuts s (ended earlier ++ left) written (right ++ led later)

/-- The keyword that is located stands on the line of its hint. -/
theorem exists_keyword (h : locate? s (Anchor.clamp s hint) "static ".toList = some span) :
    ∃ earlier left written right later,
      Keyword s (Anchor.clamp s hint) earlier left written right later := by
  let n := (Anchor.clamp s hint).lineBegin
  have hn : n < s.lines.length := (Anchor.within_clamp s hint).lineBegin
  obtain ⟨hfeed, hhas⟩ := hasLine_of_getElem? (List.getElem?_eq_getElem hn)
  have hmoves := moves_clamp hhas hfeed (show min hint.lineBegin (s.lineCount - 1) = n from rfl)
  have htoken : IsNeedle (asciiLower "static ".toList) := ⟨by decide, by decide⟩
  have hlocate := locate?_shift hhas hmoves (Anchor.within_clamp _ hint) htoken
  obtain ⟨own, hown, rfl⟩ := Option.map_eq_some_iff.mp (hlocate.symm.trans h)
  obtain ⟨left, written, right, hcuts, hword⟩ := exists_cuts_of_locate? hown
  have hmoved := hcuts.shift (ended (s.lines.take n)) (led (s.lines.drop (n + 1)))
  rw [← hhas.text] at hmoved
  refine ⟨s.lines.take n, left, written, right, s.lines.drop (n + 1), ?_,
    List.length_take_of_le (Nat.le_of_lt hn), hword, _, h, hmoved⟩
  rw [← List.append_assoc, ← hcuts.text, ← List.drop_eq_getElem_cons hn, List.take_append_drop]

namespace Keyword

theorem written_ne_nil (h : Keyword s anchor earlier left written right later) : written ≠ [] := by
  rintro rfl
  exact absurd h.word (by decide)

/-- A text has one keyword to move on the line of an anchor. -/
theorem unique (h : Keyword s anchor earlier left written right later)
    (h' : Keyword s anchor earlier' left' written' right' later') :
    right = right' ∧ later = later' := by
  have hlines := h.lines.symm.trans h'.lines
  obtain ⟨-, hcons⟩ := List.append_inj hlines (h.above.trans h'.above.symm)
  obtain ⟨-, rfl⟩ := List.cons.inj hcons
  obtain ⟨span, hspan, hcuts⟩ := h.cuts
  obtain ⟨span', hspan', hcuts'⟩ := h'.cuts
  obtain rfl : span = span' := Option.some.inj (hspan.symm.trans hspan')
  have hafter : right ++ led later = right' ++ led later :=
    Option.some.inj (hcuts.after?_stop.symm.trans hcuts'.after?_stop)
  exact ⟨List.append_cancel_right hafter, rfl⟩

end Keyword

/-- The lines of a text once the keyword on the line of an anchor has been moved. -/
inductive Moved (s : Text) (anchor : Anchor) : List Text → Prop
  /-- There is no keyword. -/
  | absent (h : locate? s anchor "static ".toList = none) : Moved s anchor s.lines
  /-- The keyword has no space behind it. -/
  | last {earlier later : List Text} {left written right : Text}
      (h : Keyword s anchor earlier left written right later) (hright : ' ' ∉ right)
      (hlater : ∀ line ∈ later, ' ' ∉ line) : Moved s anchor s.lines
  /-- It goes behind the next word of its line. -/
  | along {earlier later : List Text} {left written word rest : Text}
      (h : Keyword s anchor earlier left written (word ++ ' ' :: rest) later)
      (hword : ' ' ∉ word) :
      Moved s anchor (earlier ++ (left ++ (word ++ ' ' :: (written ++ rest))) :: later)
  /-- It goes to the first line below that has a space, behind the first word there. -/
  | down {earlier clear later : List Text} {left written right word rest : Text}
      (h : Keyword s anchor earlier left written right
        (clear ++ (word ++ ' ' :: rest) :: later)) (hright : ' ' ∉ right)
      (hclear : ∀ line ∈ clear, ' ' ∉ line) (hword : ' ' ∉ word) :
      Moved s anchor
        (earlier ++ (left ++ right) :: (clear ++ (word ++ ' ' :: (written ++ rest)) :: later))

/-- Whether no space stands behind the keyword on its line while a later line has one. -/
def LeavesLine (s : Text) (anchor : Anchor) : Prop :=
  ∃ earlier left written right later, Keyword s anchor earlier left written right later ∧
    ' ' ∉ right ∧ ∃ line ∈ later, ' ' ∈ line

/-- The first place of a character among some lines. -/
theorem exists_first_among (c : Char) (lines : List Text) : (∀ line ∈ lines, c ∉ line) ∨
    ∃ clear word rest later, lines = clear ++ (word ++ c :: rest) :: later ∧
      (∀ line ∈ clear, c ∉ line) ∧ c ∉ word := by
  cases hfind : lines.find? (c ∈ ·) with
  | none => exact .inl (by simpa using List.find?_eq_none.mp hfind)
  | some line =>
    obtain ⟨hline, clear, later, hlines, hclear⟩ := List.find?_eq_some_iff_append.mp hfind
    obtain ⟨word, rest, rfl, hword⟩ := List.eq_append_cons_of_mem (of_decide_eq_true hline)
    exact .inr ⟨clear, word, rest, later, hlines, by simpa using hclear, hword⟩

namespace Keyword

theorem forall_mem_lines (h : Keyword s anchor earlier left written right later) :
    (∀ l ∈ earlier, '\n' ∉ l) ∧ '\n' ∉ left ++ (written ++ right) ∧ ∀ l ∈ later, '\n' ∉ l := by
  have hfeeds : ∀ l ∈ earlier ++ (left ++ (written ++ right)) :: later, '\n' ∉ l :=
    h.lines ▸ fun l ↦ lineFeed_notMem_of_mem_lines
  rwa [List.forall_mem_append, List.forall_mem_cons] at hfeeds

/-- The keyword changes places with what stands behind it up to the next space. -/
theorem text_of_applyEdits {skipped back : Text}
    (h : Keyword s anchor earlier left written right later)
    (hafter : right ++ led later = skipped ++ ' ' :: back) (hskipped : ' ' ∉ skipped)
    (ht : s.applyEdits ((moveStatic? s anchor).getD []) = .ok t) :
    t = ended earlier ++ left ++ (skipped ++ ' ' :: (written ++ back)) := by
  obtain ⟨span, hspan, hcuts⟩ := h.cuts
  rw [hafter] at hcuts
  obtain ⟨edits, hedits, hmoved⟩ := applyEdits_moveStatic? hspan hcuts h.written_ne_nil hskipped
  rw [hedits, Option.getD_some, hmoved, Except.ok.injEq] at ht
  exact ht.symm

theorem moved_last (h : Keyword s anchor earlier left written right later) (hright : ' ' ∉ right)
    (hlater : ∀ line ∈ later, ' ' ∉ line)
    (ht : s.applyEdits ((moveStatic? s anchor).getD []) = .ok t) : Moved s anchor t.lines := by
  have hafter : ' ' ∉ right ++ led later := by simpa [led, hright] using hlater
  obtain ⟨span, hspan, hcuts⟩ := h.cuts
  rw [moveStatic?_eq hspan hcuts, find?_singleton_of_notMem hafter, Option.map_none,
    Option.getD_none, applyEdits_nil, Except.ok.injEq] at ht
  exact ht ▸ Moved.last h hright hlater

theorem moved_along (h : Keyword s anchor earlier left written (word ++ ' ' :: rest) later)
    (hword : ' ' ∉ word) (ht : s.applyEdits ((moveStatic? s anchor).getD []) = .ok t) :
    Moved s anchor t.lines := by
  obtain ⟨hearlier, hline, hlater⟩ := h.forall_mem_lines
  have hafter : word ++ ' ' :: rest ++ led later = word ++ ' ' :: (rest ++ led later) := by simp
  have htext : t = around earlier later (left ++ (word ++ ' ' :: (written ++ rest))) := by
    rw [h.text_of_applyEdits hafter hword ht]
    simp [around]
  have hfeed : '\n' ∉ left ++ (word ++ ' ' :: (written ++ rest)) := by simp_all
  rw [htext, lines_around hearlier hlater hfeed]
  exact .along h hword

theorem moved_down (h : Keyword s anchor earlier left written right
      (clear ++ (word ++ ' ' :: rest) :: later)) (hright : ' ' ∉ right)
    (hclear : ∀ line ∈ clear, ' ' ∉ line) (hword : ' ' ∉ word)
    (ht : s.applyEdits ((moveStatic? s anchor).getD []) = .ok t) : Moved s anchor t.lines := by
  obtain ⟨hearlier, hline, hbelow⟩ := h.forall_mem_lines
  rw [List.forall_mem_append, List.forall_mem_cons] at hbelow
  obtain ⟨hskip, hhit, hlater⟩ := hbelow
  have hafter : right ++ led (clear ++ (word ++ ' ' :: rest) :: later) =
      right ++ '\n' :: (ended clear ++ word) ++ ' ' :: (rest ++ led later) := by
    simp [led_append_cons]
  have hskipped : ' ' ∉ right ++ '\n' :: (ended clear ++ word) := by
    simpa [ended, hright, hword] using hclear
  have htext : t = around (earlier ++ (left ++ right) :: clear) later
      (word ++ ' ' :: (written ++ rest)) := by
    rw [h.text_of_applyEdits hafter hskipped ht]
    simp [around]
  have habove : ∀ l ∈ earlier ++ (left ++ right) :: clear, '\n' ∉ l := by
    rw [List.forall_mem_append, List.forall_mem_cons]
    exact ⟨hearlier, by simp_all, hskip⟩
  have hfeed : '\n' ∉ word ++ ' ' :: (written ++ rest) := by simp_all
  rw [htext, lines_around habove hlater hfeed, List.append_assoc, List.cons_append]
  exact .down h hright hclear hword

end Keyword

/-- What the edits of the rule do to the lines of a text. -/
theorem moved_of_applyEdits
    (ht : s.applyEdits ((moveStatic? s (Anchor.clamp s hint)).getD []) = .ok t) :
    Moved s (Anchor.clamp s hint) t.lines := by
  cases hlocate : locate? s (Anchor.clamp s hint) "static ".toList with
  | none =>
    have hnone : moveStatic? s (Anchor.clamp s hint) = none := by
      rw [moveStatic?, hlocate]
      rfl
    rw [hnone, Option.getD_none, applyEdits_nil, Except.ok.injEq] at ht
    exact ht ▸ Moved.absent hlocate
  | some span =>
    obtain ⟨earlier, left, written, right, later, h⟩ := exists_keyword hlocate
    by_cases hright : ' ' ∈ right
    · obtain ⟨word, rest, rfl, hword⟩ := List.eq_append_cons_of_mem hright
      exact h.moved_along hword ht
    · rcases exists_first_among ' ' later with hnone | ⟨clear, word, rest, below, rfl, hclear, hword⟩
      · exact h.moved_last hright hnone ht
      · exact h.moved_down hright hclear hword ht

theorem reordersLine_iff_of_moved (h : Moved s anchor t.lines) :
    ReordersLine s t anchor.lineBegin ↔ ¬ LeavesLine s anchor := by
  generalize ht : t.lines = lines at h
  cases h with
  | absent hnone =>
    obtain rfl := eq_of_lines_eq ht
    refine iff_of_true (reordersLine_refl t _) ?_
    rintro ⟨_, _, _, _, _, hkeyword, -⟩
    obtain ⟨span, hspan, -⟩ := hkeyword.cuts
    exact absurd (hnone.symm.trans hspan) (by simp)
  | last hkeyword hright hlater =>
    obtain rfl := eq_of_lines_eq ht
    refine iff_of_true (reordersLine_refl t _) ?_
    rintro ⟨_, _, _, _, _, hkeyword', -, line, hline, hspace⟩
    obtain ⟨-, rfl⟩ := hkeyword.unique hkeyword'
    exact hlater line hline hspace
  | @along earlier later left written word rest hkeyword hword =>
    have hperm : (word ++ [' '] ++ written ++ rest).Perm (written ++ (word ++ [' ']) ++ rest) :=
      List.perm_append_comm.append_right rest
    rw [← hkeyword.above]
    refine iff_of_true (reordersLine_of_perm hkeyword.lines ht ?_) ?_
    · simpa using hperm.append_left left
    · rintro ⟨_, _, _, _, _, hkeyword', hright, -⟩
      obtain ⟨rfl, -⟩ := hkeyword.unique hkeyword'
      simp at hright
  | @down earlier clear later left written right word rest hkeyword hright hclear hword =>
    refine iff_of_false ?_ ?_
    · intro hreorders
      have hperm := hreorders.line
      rw [← hkeyword.above, hkeyword.lines, ht] at hperm
      -- the line has lost the characters of the keyword
      have hlength : (left ++ right).length = (left ++ (written ++ right)).length := by
        exact (hperm (left ++ (written ++ right)) (by simp) (left ++ right) (by simp)).length_eq
      have hpos := List.length_pos_iff.mpr hkeyword.written_ne_nil
      simp only [List.length_append] at hlength
      omega
    · have hspace : ' ' ∈ word ++ ' ' :: rest := by simp
      exact not_not_intro ⟨_, _, _, _, _, hkeyword, hright, _, by simp, hspace⟩

end Change

open Change in
/-- A repair for the message makes the edits of the rule that moves the keyword. -/
theorem applyEdits_eq_ok_text_repair (hrule : .staticAfterVisibility ∈ rules)
    (hmessage : hint.message =
      "The static declaration must come after the visibility declaration") :
    s.applyEdits ((moveStatic? s (Anchor.clamp s hint)).getD []) =
      .ok (repair rules s [hint]).text := by
  obtain ⟨found, hfound⟩ : ∃ found, Rule.find? rules hint.message.toList =
      some (.staticAfterVisibility, found) := by
    rw [hmessage]
    exact ⟨_, Rule.find?_eq_some_iff.mpr ⟨hrule, rfl⟩⟩
  obtain ⟨t, ht, hstep⟩ := step_of_find?_eq_some (s := s) hfound
  have htext : (repair rules s [hint]).text = t := by
    rw [repair_singleton, hstep]
  rw [htext]
  exact ht

open Change in
/-- A repair for the message keeps to the line of its hint unless the keyword leaves that line, and
moves no more than the keyword. -/
theorem reordersLine_repair_iff (hrule : .staticAfterVisibility ∈ rules)
    (hmessage : hint.message =
      "The static declaration must come after the visibility declaration") :
    (ReordersLine s (repair rules s [hint]).text (Anchor.clamp s hint).lineBegin ↔
      ¬ LeavesLine s (Anchor.clamp s hint)) ∧
    Moved s (Anchor.clamp s hint) (repair rules s [hint]).text.lines := by
  have hmoved := moved_of_applyEdits (applyEdits_eq_ok_text_repair (s := s) hrule hmessage)
  exact ⟨reordersLine_iff_of_moved hmoved, hmoved⟩

open Change in
/-- The visibility stands before a tab, and the keyword goes to the declaration below. -/
theorem reordersLine_repair_of_tab :
    let s : Text := "<?php\nclass A\n\x7b\n\tstatic public\t$a;\n\tpublic $b;\n\x7d\n".toList
    let hint : Hint := ⟨3, 3, 1, 2,
      "The static declaration must come after the visibility declaration", default, 100, "phpcs"⟩
    (repair Rule.all s [hint]).text =
        "<?php\nclass A\n\x7b\n\tpublic\t$a;\n\tpublic static $b;\n\x7d\n".toList ∧
      ¬ ReordersLine s (repair Rule.all s [hint]).text 3 := by
  intro s hint
  have hkeyword : Keyword s (Anchor.clamp s hint)
      ["<?php".toList, "class A".toList, ['\x7b']] ['\t'] "static ".toList "public\t$a;".toList
      ["\tpublic $b;".toList, ['\x7d'], []] :=
    ⟨by decide +kernel, rfl, rfl, ⟨17, 24⟩, by decide +kernel, by decide +kernel, rfl, rfl⟩
  have happlied := @applyEdits_eq_ok_text_repair s Rule.all hint (by decide) rfl
  obtain ⟨hiff, -⟩ := @reordersLine_repair_iff s Rule.all hint (by decide) rfl
  constructor
  · have hskipped : ' ' ∉ "public\t$a;\n\tpublic".toList := by decide
    have hback : "public\t$a;".toList ++ led ["\tpublic $b;".toList, ['\x7d'], []] =
        "public\t$a;\n\tpublic".toList ++ ' ' :: "$b;\n\x7d\n".toList := by decide
    rw [hkeyword.text_of_applyEdits hback hskipped happlied]
    rfl
  · have hleaves : LeavesLine s (Anchor.clamp s hint) :=
      ⟨_, _, _, _, _, hkeyword, by decide, "\tpublic $b;".toList, by decide, by decide⟩
    exact fun hreorders ↦ hiff.mp hreorders hleaves

end Repair

end LintMend
