import LintMend.Proofs.Repair.Pattern

/-!
# Sentences about the spaces behind a token

Three kinds of messages count the spaces behind a token: a keyword, which they write in upper case,
a brace or a closing parenthesis. The pattern of the token's rule takes such a sentence apart again,
whatever the counts are: a run of a class takes all that the class holds, and the word after it
begins with a character that the class does not hold.
-/

namespace LintMend.Repair

open Text

variable {s left taken : Text} {rest : Pattern} {groups : Captures}
  {mark first second : String} {cls : CharClass}

/-! ## Piece by piece -/

namespace Pattern

theorem stripStart?_append (start s : Text) : Text.stripStart? start (start ++ s) = some s :=
  stripStart?_eq_some_iff.mpr rfl

/-- No text begins with a mark if its first character is another one. -/
theorem stripStart?_eq_none {start : Text} {c d : Char} (hstart : start.head? = some c)
    (hs : s.head? = some d) (hne : c ≠ d) : Text.stripStart? start s = none := by
  rw [Option.eq_none_iff_forall_ne_some]
  intro rest hrest
  rw [stripStart?_eq_some_iff.mp hrest, List.head?_append, hstart] at hs
  exact hne (Option.some.inj hs)

theorem head?_append_of_eq_some {a : Text} {c : Char} (h : a.head? = some c) (s : Text) :
    (a ++ s).head? = some c := by
  rw [List.head?_append, h, Option.some_or]

theorem matchStart?_literal (mark : String) (rest : Pattern) (s : Text) :
    matchStart? (.literal mark :: rest) (mark.toList ++ s) = matchStart? rest s := by
  rw [matchStart?, stripStart?_append, Option.bind_some]

theorem matchStart?_optional (present : Bool) (hs : Text.stripStart? mark.toList s = none)
    (h : matchStart? rest s = some (groups, left)) :
    matchStart? (.optional mark :: rest) ((if present then mark.toList else []) ++ s) =
      some (groups, left) := by
  rw [matchStart?]
  cases present with
  | true => rw [if_pos rfl, stripStart?_append, Option.bind_some, h, Option.some_or]
  | false =>
    rw [if_neg Bool.false_ne_true, List.nil_append, hs, Option.bind_none, Option.none_or, h]

theorem matchStart?_capturedRun (hne : taken ≠ []) (hall : taken.all cls.mem)
    (hs : s.head?.any cls.mem = false) (h : matchStart? rest s = some (groups, left)) :
    matchStart? (.capturedRun cls :: rest) (taken ++ s) = some (some taken :: groups, left) := by
  have hstop : s.takeWhile cls.mem = [] := by
    cases s with
    | nil => rfl
    | cons c s => exact List.takeWhile_cons_of_neg (by simpa using hs)
  have htake : ((taken ++ s).takeWhile cls.mem).length = taken.length := by
    rw [List.takeWhile_append_of_pos fun c hc ↦ List.all_eq_true.mp hall c hc, hstop,
      List.append_nil]
  obtain ⟨n, hn⟩ : ∃ n, taken.length = n + 1 :=
    ⟨taken.length - 1, by have := List.length_pos_iff.mpr hne; omega⟩
  -- the longest cut leaves a match already
  rw [matchStart?, htake, hn, longestCut?, ← hn, List.drop_left, h, List.take_left]
  rfl

theorem matchStart?_either_first (h : matchStart? rest s = some (groups, left)) :
    matchStart? (.either first second :: rest) (first.toList ++ s) =
      some (some first.toList :: groups, left) := by
  rw [matchStart?]
  simp only [stripStart?_append, Option.bind_some, h, Option.map_some, Option.some_or]

theorem matchStart?_either_second
    (hfirst : Text.stripStart? first.toList (second.toList ++ s) = none)
    (h : matchStart? rest s = some (groups, left)) :
    matchStart? (.either first second :: rest) (second.toList ++ s) =
      some (some second.toList :: groups, left) := by
  rw [matchStart?]
  simp only [stripStart?_append, hfirst, Option.bind_some, Option.bind_none, h, Option.map_some,
    Option.none_or]

/-- The digits of a number, up to a character that is no digit or to the end. -/
theorem matchStart?_digits {n : Nat} (hs : s.head?.any CharClass.decimal.mem = false)
    (h : matchStart? rest s = some (groups, left)) :
    matchStart? (.capturedRun .decimal :: rest) (digits n ++ s) =
      some (some (digits n) :: groups, left) :=
  matchStart?_capturedRun (digits_ne_nil n)
    (List.all_eq_true.mpr fun _ hc ↦ isDecimal_of_isDigit (isDigit_of_mem_digits hc)) hs h

/-- The beginning that all of these patterns have. -/
theorem matchStart?_expected (n : Nat) (plural : Bool) (hs : s.head? = some ' ')
    (h : matchStart? rest s = some (groups, left)) :
    matchStart? (.literal "Expected " :: .capturedRun .decimal :: .literal " space" ::
        .optional "s" :: rest)
      ("Expected ".toList ++ (digits n ++ (" space".toList ++
        ((if plural then "s".toList else []) ++ s)))) =
      some (some (digits n) :: groups, left) := by
  have hspace : (" space".toList).head? = some ' ' := by decide
  have hplural : ("s".toList).head? = some 's' := by decide
  rw [matchStart?_literal]
  apply matchStart?_digits
  · rw [head?_append_of_eq_some hspace]
    decide
  · rw [matchStart?_literal]
    exact matchStart?_optional plural (stripStart?_eq_none hplural hs (by decide)) h

/-- The count that was found, behind which a sentence ends. -/
theorem matchStart?_found (n : Nat) : matchStart? [.capturedRun .decimal, .literal " found"]
    (digits n ++ " found".toList) = some ([some (digits n)], []) := by
  have hspace : (" found".toList).head? = some ' ' := by decide
  apply matchStart?_digits
  · rw [hspace]
    decide
  · rw [← List.append_nil (" found".toList), matchStart?_literal, matchStart?]

end Pattern

/-! ## Tokens -/

/-- What the spaces that are counted stand behind. -/
inductive Token where
  /-- A keyword as the text writes it. -/
  | keyword (word : Text)
  | brace (opening : Bool)
  | closeParenthesis
deriving DecidableEq, Repr

namespace Token

def text : Token → Text
  | keyword word => word
  | brace opening => if opening then ['\x7b'] else ['\x7d']
  | closeParenthesis => [')']

/-- A keyword is at least two letters of ASCII or underscores. -/
structure IsKeyword (word : Text) : Prop where
  two_le : 2 ≤ word.length
  chars : ∀ c ∈ word, Pattern.isNameStart c

/-- Tokens that a message can be about. -/
def Valid : Token → Prop
  | keyword word => IsKeyword word
  | brace _ | closeParenthesis => True

def rule : Token → Rule
  | keyword _ => .keywordSpacing
  | brace _ => .braceSpacing
  | closeParenthesis => .closeParenthesisSpacing

/-- How a message names a brace. -/
def side (opening : Bool) : String := if opening then "opening" else "closing"

/-- How a message names a token, and how many spaces it says were found behind it. -/
def wording (counted : Nat) : Token → Text
  | keyword word =>
    word.map Char.toUpper ++ (" keyword; ".toList ++ (digits counted ++ " found".toList))
  | brace opening =>
    (side opening).toList ++ (" brace; ".toList ++ (digits counted ++ " found".toList))
  | closeParenthesis => "closing parenthesis; found ".toList ++ digits counted

/-- The sentence that so many spaces are expected behind a token and so many were found. -/
def sentence (token : Token) (expected counted : Nat) (plural : Bool) : Text :=
  "Expected ".toList ++ (digits expected ++ (" space".toList ++
    ((if plural then "s".toList else []) ++ (" after ".toList ++ token.wording counted))))

/-- What the pattern of the token's rule captures of the sentence. -/
def captures (expected counted : Nat) : Token → Captures
  | keyword word => [some (digits expected), some (word.map Char.toUpper), some (digits counted)]
  | brace opening => [some (digits expected), some (side opening).toList, some (digits counted)]
  | closeParenthesis => [some (digits expected), some (digits counted)]

variable {token : Token} {expected counted : Nat}

theorem toNat_lt_of_isNameStart {c : Char} (h : Pattern.isNameStart c) : c.toNat < 128 := by
  rcases Bool.or_eq_true_iff.mp h with h | h
  · exact toNat_lt_of_isAlpha h
  · rw [beq_iff_eq.mp h]
    decide

theorem mem_keyword_toUpper {c : Char} (h : Pattern.isNameStart c) :
    CharClass.keyword.mem c.toUpper := by
  have hascii := toNat_lt_of_isNameStart h
  revert h
  exact of_forall_ascii (p := fun c ↦ Pattern.isNameStart c → CharClass.keyword.mem c.toUpper)
    (by decide +kernel) hascii

theorem matchStart?_keyword {word : Text} (h : IsKeyword word) (counted : Nat) :
    Pattern.matchStart? [.literal " after ", .capturedRun .keyword, .literal " keyword; ",
        .capturedRun .decimal, .literal " found"]
      (" after ".toList ++ (keyword word).wording counted) =
        some ([some (word.map Char.toUpper), some (digits counted)], []) := by
  have hspace : (" keyword; ".toList).head? = some ' ' := by decide
  unfold wording
  rw [Pattern.matchStart?_literal]
  apply Pattern.matchStart?_capturedRun
  · have hpos := h.two_le
    simpa using List.ne_nil_of_length_pos (Nat.lt_of_lt_of_le Nat.two_pos hpos)
  · simp only [List.all_map, List.all_eq_true, Function.comp_apply]
    exact fun c hc ↦ mem_keyword_toUpper (h.chars c hc)
  · rw [Pattern.head?_append_of_eq_some hspace]
    decide
  · rw [Pattern.matchStart?_literal]
    exact Pattern.matchStart?_found counted

theorem matchStart?_brace (opening : Bool) (counted : Nat) :
    Pattern.matchStart? [.literal " after ", .either "opening" "closing", .literal " brace; ",
        .capturedRun .decimal, .literal " found"]
      (" after ".toList ++ (brace opening).wording counted) =
        some ([some (side opening).toList, some (digits counted)], []) := by
  have hopening : ("opening".toList).head? = some 'o' := by decide
  have hclosing : ("closing".toList).head? = some 'c' := by decide
  unfold wording
  rw [Pattern.matchStart?_literal]
  cases opening with
  | true =>
    apply Pattern.matchStart?_either_first
    rw [Pattern.matchStart?_literal]
    exact Pattern.matchStart?_found counted
  | false =>
    apply Pattern.matchStart?_either_second
    · exact Pattern.stripStart?_eq_none hopening (Pattern.head?_append_of_eq_some hclosing _)
        (by decide)
    · rw [Pattern.matchStart?_literal]
      exact Pattern.matchStart?_found counted

theorem matchStart?_closeParenthesis (counted : Nat) :
    Pattern.matchStart? [.literal " after closing parenthesis; found ", .capturedRun .decimal]
      (" after ".toList ++ closeParenthesis.wording counted) =
        some ([some (digits counted)], []) := by
  have hone : " after closing parenthesis; found ".toList =
      " after ".toList ++ "closing parenthesis; found ".toList := by decide +kernel
  have hend : Pattern.matchStart? [.capturedRun .decimal] (digits counted ++ []) =
      some ([some (digits counted)], []) := by
    apply Pattern.matchStart?_digits
    · rfl
    · rfl
  unfold wording
  rw [← List.append_assoc, ← hone, Pattern.matchStart?_literal]
  rwa [List.append_nil] at hend

/-- The rule of a token answers the sentence about it, and reads what the sentence says. -/
theorem exists_match?_sentence (h : token.Valid) (expected counted : Nat) (plural : Bool) :
    ∃ found,
      Pattern.match? token.rule.pattern (token.sentence expected counted plural) = some found ∧
      found.groups = token.captures expected counted := by
  have hafter : (" after ".toList ++ token.wording counted).head? = some ' ' :=
    Pattern.head?_append_of_eq_some (by decide) _
  have hstart : Pattern.matchStart? token.rule.pattern
      (token.sentence expected counted plural) = some (token.captures expected counted, []) := by
    unfold sentence
    cases token with
    | keyword word =>
      exact Pattern.matchStart?_expected expected plural hafter (matchStart?_keyword h counted)
    | brace opening =>
      exact Pattern.matchStart?_expected expected plural hafter (matchStart?_brace opening counted)
    | closeParenthesis =>
      exact Pattern.matchStart?_expected expected plural hafter
        (matchStart?_closeParenthesis counted)
  exact ⟨_, by rw [Pattern.match?, hstart]; rfl, rfl⟩

theorem counts?_captures (hexpected : expected < words64) (hcounted : counted < words64) :
    token.rule.counts? (token.captures expected counted) = some (expected, counted) := by
  have hread {n : Nat} (hn : n < words64) := readDigits?_digits hn
  cases token <;>
    simp [rule, captures, Rule.counts?, Captures.number?, Captures.text?, hread hexpected,
      hread hcounted]

end Token

end LintMend.Repair
