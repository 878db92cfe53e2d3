import LintMend.Proofs.Repair.Engine
import LintMend.Proofs.Text.Ascii
import LintMend.Proofs.Text.Lines
import Mathlib.Data.List.Pairwise

/-!
# Patterns that exclude each other

What a pattern matches begins in one of a few forms: sequences of sets of characters, of which some
repeat. Two forms are compared place by place, and where a set repeats both of its ends are tried;
forms that come apart on every way begin no message both. The patterns of the sixteen rules are
compared by evaluation. So at most one rule answers a message, and it does not matter in which order
rules are tried.
-/

namespace LintMend.Repair

open Text

variable {s : Text} {c : Char} {pattern : Pattern}

/-! ## Sets of characters -/

namespace CharClass

/-- The other classes hold letters and marks of ASCII, none of which is a digit. -/
theorem not_mem_decimal {cls : CharClass} (hcls : cls ≠ decimal) (h : cls.mem c) :
    ¬ decimal.mem c := by
  have hascii : c.toNat < 128 := by
    cases cls with
    | decimal => exact absurd rfl hcls
    | keyword =>
      rcases Bool.or_eq_true_iff.mp h with h | h
      · exact toNat_lt_of_isAlpha (Bool.or_eq_true_iff.mpr (.inl h))
      · exact of_decide_eq_true (by rw [beq_iff_eq.mp h]; rfl)
    | phrase =>
      rcases Bool.or_eq_true_iff.mp h with h | h
      · exact toNat_lt_of_isAlpha h
      · exact of_decide_eq_true (by rw [beq_iff_eq.mp h]; rfl)
  revert hcls h
  apply of_forall_ascii (p := fun c ↦ cls ≠ decimal → cls.mem c → ¬ decimal.mem c) _ hascii
  cases cls <;> decide +kernel

end CharClass

inductive CharSet where
  | only (c : Char)
  | cls (cls : CharClass)
deriving DecidableEq, Repr

namespace CharSet

def mem : CharSet → Char → Bool
  | only d, c => c == d
  | cls k, c => k.mem c

/-- Whether two sets are seen to have no character in common. -/
def apart : CharSet → CharSet → Bool
  | only c, y => !y.mem c
  | x, only d => !x.mem d
  | cls k, cls l => (k = .decimal) != (l = .decimal)

theorem not_mem_of_apart {x y : CharSet} (h : x.apart y) (hx : x.mem c) : ¬ y.mem c := by
  intro hy
  cases x with
  | only d =>
    obtain rfl : c = d := by simpa [mem] using hx
    simp [apart, hy] at h
  | cls k =>
    cases y with
    | only d =>
      obtain rfl : c = d := by simpa [mem] using hy
      simp [apart, hx] at h
    | cls l =>
      by_cases hk : k = .decimal
      · have hl : l ≠ .decimal := by simpa [apart, hk] using h
        exact CharClass.not_mem_decimal hl hy (hk ▸ hx)
      · have hl : l = .decimal := by simpa [apart, hk] using h
        exact CharClass.not_mem_decimal hk hx (hl ▸ hy)

end CharSet

/-! ## Forms -/

/-- A place of a form: one character of a set, any number of them, or the end of the text. -/
inductive Place where
  | one (set : CharSet)
  | many (set : CharSet)
  | stop
deriving DecidableEq, Repr

abbrev Form := List Place

namespace Form

/-- How a text can begin with what a form describes. -/
inductive Begins : Form → Text → Prop
  | done (s : Text) : Begins [] s
  | one {set : CharSet} {form : Form} {c : Char} {s : Text} (hc : set.mem c)
      (h : Begins form s) : Begins (.one set :: form) (c :: s)
  | skip {set : CharSet} {form : Form} {s : Text} (h : Begins form s) : Begins (.many set :: form) s
  | more {set : CharSet} {form : Form} {c : Char} {s : Text} (hc : set.mem c)
      (h : Begins (.many set :: form) s) : Begins (.many set :: form) (c :: s)
  | stop {form : Form} (h : Begins form []) : Begins (.stop :: form) []

def literal (text : String) : Form := text.toList.map fun c ↦ .one (.only c)

/-- Compares a form that begins with a place, where `next` compares what stands behind the place. -/
def apartFrom (place : Place) (next : Form → Bool) : Form → Bool
  | [] => false
  | other :: form =>
    match place, other with
    | .one x, .one y => x.apart y || next form
    | .one x, .many y => apartFrom place next form && (x.apart y || next (.many y :: form))
    | .many x, .one y => next (.one y :: form) && (x.apart y || apartFrom place next form)
    | .many _, .many y => next (.many y :: form) && apartFrom place next form
    | .one _, .stop | .stop, .one _ => true
    | .many _, .stop => next (.stop :: form)
    | .stop, .many _ => apartFrom place next form
    | .stop, .stop => next form

/-- Whether two forms are seen to begin no text both. -/
def apart : Form → Form → Bool
  | [] => fun _ ↦ false
  | place :: form => apartFrom place (apart form)

theorem begins_literal {text : String} {form : Form} (h : Begins form s) :
    Begins (literal text ++ form) (text.toList ++ s) := by
  rw [literal]
  induction text.toList with
  | nil => exact h
  | cons c text ih => exact .one (by simp [CharSet.mem]) ih

theorem begins_many {set : CharSet} {form : Form} {taken : Text} (hall : taken.all set.mem)
    (h : Begins form s) : Begins (.many set :: form) (taken ++ s) := by
  induction taken with
  | nil => exact .skip h
  | cons c taken ih =>
    rw [List.all_cons, Bool.and_eq_true] at hall
    exact .more hall.1 (ih hall.2)

theorem not_begins_of_apart {a b : Form} (h : apart a b) (ha : Begins a s) : ¬ Begins b s := by
  induction a generalizing b s with
  | nil => simp [apart] at h
  | cons place form ih =>
    rw [apart] at h
    induction b generalizing s with
    | nil => simp [apartFrom] at h
    | cons other rest ihb =>
      intro hb
      cases place with
      | one x =>
        obtain _ | ⟨hx, ha⟩ := ha
        cases other with
        | one y =>
          rw [apartFrom, Bool.or_eq_true] at h
          obtain _ | ⟨hy, hb⟩ := hb
          rcases h with h | h
          · exact CharSet.not_mem_of_apart h hx hy
          · exact ih h ha hb
        | many y =>
          rw [apartFrom, Bool.and_eq_true, Bool.or_eq_true] at h
          cases hb with
          | skip hb => exact ihb h.1 (.one hx ha) hb
          | more hy hb =>
            rcases h.2 with h | h
            · exact CharSet.not_mem_of_apart h hx hy
            · exact ih h ha hb
        | stop => cases hb
      | many x =>
        cases other with
        | one y =>
          rw [apartFrom, Bool.and_eq_true, Bool.or_eq_true] at h
          cases ha with
          | skip ha => exact ih h.1 ha hb
          | more hx ha =>
            obtain _ | ⟨hy, hb⟩ := hb
            rcases h.2 with h | h
            · exact CharSet.not_mem_of_apart h hx hy
            · exact ihb h ha hb
        | many y =>
          rw [apartFrom, Bool.and_eq_true] at h
          -- where both go on, only the text has become shorter
          induction s with
          | nil =>
            cases ha with
            | skip ha => exact ih h.1 ha hb
          | cons c s ihs =>
            cases ha with
            | skip ha => exact ih h.1 ha hb
            | more hx ha =>
              cases hb with
              | skip hb => exact ihb h.2 (.more hx ha) hb
              | more hy hb => exact ihs ha hb
        | stop =>
          rw [apartFrom] at h
          obtain _ | _ | _ | _ | hb := hb
          cases ha with
          | skip ha => exact ih h ha (.stop hb)
      | stop =>
        obtain _ | _ | _ | _ | ha := ha
        cases other with
        | one y => cases hb
        | many y =>
          rw [apartFrom] at h
          cases hb with
          | skip hb => exact ihb h (.stop ha) hb
        | stop =>
          rw [apartFrom] at h
          obtain _ | _ | _ | _ | hb := hb
          exact ih h ha hb

end Form

/-! ## The forms of a pattern -/

namespace Pattern

/-- The forms in which a match can begin, up to a variable. -/
def forms : Pattern → List Form
  | [] => [[]]
  | .literal text :: rest => (forms rest).map (Form.literal text ++ ·)
  | .optional text :: rest | .capturedOptional text :: rest =>
    (forms rest).map (Form.literal text ++ ·) ++ forms rest
  | .run cls :: rest | .capturedRun cls :: rest =>
    (forms rest).map (.one (.cls cls) :: .many (.cls cls) :: ·)
  | .either first second :: rest =>
    (forms rest).map (Form.literal first ++ ·) ++ (forms rest).map (Form.literal second ++ ·)
  | .varName :: _ => [[.one (.only '$')]]
  | .stop :: rest => (forms rest).map (.stop :: ·)

/-- Whether two patterns are seen to match no message both. -/
def apart (a b : Pattern) : Bool :=
  a.forms.all fun x ↦ b.forms.all fun y ↦ Form.apart x y

theorem exists_of_longestCut? {α : Type} {next : Text → Option α} {n : Nat} {taken : Text} {a : α}
    (h : longestCut? next s n = some (taken, a)) :
    ∃ m, 0 < m ∧ m ≤ n ∧ taken = s.take m ∧ next (s.drop m) = some a := by
  induction n with
  | zero => simp [longestCut?] at h
  | succ n ih =>
    rw [longestCut?] at h
    split at h
    · next found hnext =>
      obtain ⟨rfl, rfl⟩ : s.take (n + 1) = taken ∧ found = a := by simpa using h
      exact ⟨n + 1, Nat.succ_pos n, Nat.le_refl _, rfl, hnext⟩
    · obtain ⟨m, hpos, hle, htaken, hnext⟩ := ih h
      exact ⟨m, hpos, Nat.le_succ_of_le hle, htaken, hnext⟩

theorem begins_run {cls : CharClass} {form : Form} {m : Nat} (hpos : 0 < m)
    (hle : m ≤ (s.takeWhile cls.mem).length) (h : Form.Begins form (s.drop m)) :
    Form.Begins (.one (.cls cls) :: .many (.cls cls) :: form) s := by
  have hbegins : s.take m <+: s.takeWhile cls.mem :=
    List.prefix_of_prefix_length_le (List.take_prefix m s) (List.takeWhile_prefix _)
      (Nat.le_trans (List.length_take_le m s) hle)
  have hall : ∀ c ∈ s.take m, cls.mem c := fun c hc ↦
    List.all_eq_true.mp List.all_takeWhile c (hbegins.subset hc)
  have hlen : (s.take m).length = m := by
    rw [List.length_take]
    exact Nat.min_eq_left (Nat.le_trans hle (List.takeWhile_prefix _).length_le)
  rw [← List.take_append_drop m s]
  cases htake : s.take m with
  | nil =>
    rw [htake] at hlen
    exact absurd hlen (Nat.ne_of_lt hpos)
  | cons c taken =>
    rw [htake] at hall
    exact .one (hall c List.mem_cons_self)
      (Form.begins_many (List.all_eq_true.mpr fun d hd ↦ hall d (.tail c hd)) h)

/-- How a match goes on behind a literal, when what follows the literal begins as `pattern` can. -/
theorem exists_begins_of_literal {α : Type} {text : String} {next : Text → Option α} {a : α}
    (hnext : ∀ t a, next t = some a → ∃ form ∈ pattern.forms, Form.Begins form t)
    (h : (Text.stripStart? text.toList s).bind next = some a) :
    ∃ form ∈ pattern.forms.map (Form.literal text ++ ·), Form.Begins form s := by
  obtain ⟨t, hstrip, ha⟩ := Option.bind_eq_some_iff.mp h
  obtain ⟨form, hform, hbegins⟩ := hnext t a ha
  rw [stripStart?_eq_some_iff.mp hstrip]
  exact ⟨_, List.mem_map_of_mem hform, Form.begins_literal hbegins⟩

theorem exists_begins_of_longestCut? {α : Type} {cls : CharClass} {next : Text → Option α}
    {found : Text × α}
    (hnext : ∀ t a, next t = some a → ∃ form ∈ pattern.forms, Form.Begins form t)
    (h : longestCut? next s (s.takeWhile cls.mem).length = some found) :
    ∃ form ∈ pattern.forms.map (.one (.cls cls) :: .many (.cls cls) :: ·), Form.Begins form s := by
  obtain ⟨m, hpos, hle, -, ha⟩ := exists_of_longestCut? h
  obtain ⟨form, hform, hbegins⟩ := hnext (s.drop m) found.2 ha
  exact ⟨_, List.mem_map_of_mem hform, begins_run hpos hle hbegins⟩

/-- Every text that a pattern matches begins in one of its forms. -/
theorem exists_begins_of_matchStart? {found : Captures × Text}
    (h : matchStart? pattern s = some found) : ∃ form ∈ pattern.forms, Form.Begins form s := by
  induction pattern generalizing s found with
  | nil => exact ⟨[], List.mem_singleton_self _, .done s⟩
  | cons piece rest ih =>
    have hplain (t : Text) (found : Captures × Text) (h : matchStart? rest t = some found) :
        ∃ form ∈ forms rest, Form.Begins form t := ih h
    have hmap (f : Captures × Text → Captures × Text) (t : Text) (found : Captures × Text)
        (h : (matchStart? rest t).map f = some found) :
        ∃ form ∈ forms rest, Form.Begins form t := by
      obtain ⟨found, h, -⟩ := Option.map_eq_some_iff.mp h
      exact ih h
    cases piece with
    | literal text =>
      rw [matchStart?] at h
      exact exists_begins_of_literal hplain h
    | optional text =>
      rw [matchStart?, Option.or_eq_some_iff] at h
      simp only [forms, List.mem_append, or_and_right, exists_or]
      rcases h with h | ⟨-, h⟩
      · exact .inl (exists_begins_of_literal hplain h)
      · exact .inr (ih h)
    | capturedOptional text =>
      rw [matchStart?, Option.or_eq_some_iff] at h
      simp only [forms, List.mem_append, or_and_right, exists_or]
      rcases h with h | ⟨-, h⟩
      · exact .inl (exists_begins_of_literal (hmap _) h)
      · exact .inr (hmap _ s found h)
    | run cls =>
      rw [matchStart?] at h
      obtain ⟨_, h, -⟩ := Option.map_eq_some_iff.mp h
      exact exists_begins_of_longestCut? hplain h
    | capturedRun cls =>
      rw [matchStart?] at h
      obtain ⟨_, h, -⟩ := Option.map_eq_some_iff.mp h
      exact exists_begins_of_longestCut? hplain h
    | either first second =>
      rw [matchStart?, Option.or_eq_some_iff] at h
      simp only [forms, List.mem_append, or_and_right, exists_or]
      rcases h with h | ⟨-, h⟩
      · exact .inl (exists_begins_of_literal (hmap _) h)
      · exact .inr (exists_begins_of_literal (hmap _) h)
    | varName =>
      rw [matchStart?] at h
      obtain ⟨named, h, -⟩ := Option.bind_eq_some_iff.mp h
      -- only a text that begins with a dollar sign has a variable at its start
      unfold readName? at h
      split at h
      · exact ⟨[.one (.only '$')], List.mem_singleton_self _, .one rfl (.done _)⟩
      · exact absurd h (by simp)
    | stop =>
      rw [matchStart?] at h
      split at h
      · next hempty =>
        rw [List.isEmpty_iff.mp hempty] at h ⊢
        obtain ⟨form, hform, hbegins⟩ := ih h
        exact ⟨_, List.mem_map_of_mem hform, .stop hbegins⟩
      · exact absurd h (by simp)

theorem not_match?_of_apart {a b : Pattern} {message : Text} {x y : Match} (h : apart a b)
    (ha : match? a message = some x) : match? b message ≠ some y := by
  intro hb
  obtain ⟨_, ha, -⟩ := Option.map_eq_some_iff.mp ha
  obtain ⟨_, hb, -⟩ := Option.map_eq_some_iff.mp hb
  obtain ⟨form, hform, hbegins⟩ := exists_begins_of_matchStart? ha
  obtain ⟨form', hform', hbegins'⟩ := exists_begins_of_matchStart? hb
  have hapart : Form.apart form form' :=
    List.all_eq_true.mp (List.all_eq_true.mp h form hform) form' hform'
  exact Form.not_begins_of_apart hapart hbegins hbegins'

end Pattern

/-! ## The patterns of the rules -/

namespace Rule

variable {a b rule : Rule} {rules rules' : List Rule} {message : Text} {found x y : Pattern.Match}

theorem mem_all (rule : Rule) : rule ∈ all := by cases rule <;> decide

theorem pairwise_apart_all : all.Pairwise fun a b ↦ Pattern.apart a.pattern b.pattern := by
  decide +kernel

theorem eq_of_match? (ha : Pattern.match? a.pattern message = some x)
    (hb : Pattern.match? b.pattern message = some y) : a = b := by
  by_contra hne
  let exclusive (a b : Rule) : Prop :=
    ∀ x y, Pattern.match? a.pattern message = some x → Pattern.match? b.pattern message ≠ some y
  have hsymm : Std.Symm exclusive := ⟨fun a b h x y ha hb ↦ h y x hb ha⟩
  have hall : all.Pairwise exclusive :=
    pairwise_apart_all.imp fun h x y ↦ Pattern.not_match?_of_apart h
  exact hall.forall a.mem_all b.mem_all hne x y ha hb

/-- So it does not matter where in a list of rules the one that answers stands. -/
theorem find?_eq_some_iff : find? rules message = some (rule, found) ↔
    rule ∈ rules ∧ Pattern.match? rule.pattern message = some found := by
  constructor
  · exact mem_of_find?
  · rintro ⟨hmem, hmatch⟩
    cases hfind : find? rules message with
    | none =>
      have hnone := List.findSome?_eq_none_iff.mp hfind rule hmem
      rw [hmatch] at hnone
      exact absurd hnone (by simp)
    | some answer =>
      obtain ⟨-, hmatch'⟩ := mem_of_find? hfind
      obtain rfl : answer.1 = rule := eq_of_match? hmatch' hmatch
      obtain rfl : answer.2 = found := Option.some.inj (hmatch'.symm.trans hmatch)
      rfl

theorem find?_congr (h : ∀ rule, rule ∈ rules ↔ rule ∈ rules') :
    find? rules message = find? rules' message := by
  apply Option.ext
  rintro ⟨rule, found⟩
  rw [find?_eq_some_iff, find?_eq_some_iff, h]

/-- At most one rule answers a message, so rules in any order, and any number of times, answer it
alike. -/
theorem at_most_one_answers_and_order_free (message : Text) :
    (∀ a b : Rule, (Pattern.match? a.pattern message).isSome →
      (Pattern.match? b.pattern message).isSome → a = b) ∧
    (∀ rules rule found, find? rules message = some (rule, found) ↔
      rule ∈ rules ∧ Pattern.match? rule.pattern message = some found) ∧
    ∀ rules rules' : List Rule, (∀ rule, rule ∈ rules ↔ rule ∈ rules') →
      find? rules message = find? rules' message := by
  refine ⟨fun a b ha hb ↦ ?_, fun rules rule found ↦ find?_eq_some_iff,
    fun rules rules' h ↦ find?_congr h⟩
  obtain ⟨x, hx⟩ := Option.isSome_iff_exists.mp ha
  obtain ⟨y, hy⟩ := Option.isSome_iff_exists.mp hb
  exact eq_of_match? hx hy

theorem at_most_one_answers_and_order_free_arabic_digit :
    let message := "Expected ٣ spaces after opening brace; 1 found".toList
    (Pattern.match? braceSpacing.pattern message).isSome ∧
    (∀ rule, (Pattern.match? rule.pattern message).isSome → rule = braceSpacing) ∧
    find? all message = find? all.reverse message ∧ (find? all.reverse message).isSome := by
  intro message
  have hbrace : (Pattern.match? braceSpacing.pattern message).isSome := by decide +kernel
  have hreverse : ∀ rule : Rule, rule ∈ all ↔ rule ∈ all.reverse := fun rule ↦ List.mem_reverse.symm
  refine ⟨hbrace, fun rule hrule ↦ ?_, ?_, by decide +kernel⟩
  · exact (at_most_one_answers_and_order_free message).1 rule braceSpacing hrule hbrace
  · exact (at_most_one_answers_and_order_free message).2.2 all all.reverse hreverse

end Rule

end LintMend.Repair
