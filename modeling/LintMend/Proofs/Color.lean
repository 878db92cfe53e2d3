import LintMend.Hint.Json
import LintMend.Proofs.Text.Ascii
import LintMend.Proofs.Text.Slice

/-!
# Colors as texts

Hexadecimal digits are characters of ASCII, so six bytes of them are six digits, and a slice can be
taken at every byte. No other text passes the two tests on the digits: a character of several bytes
is no digit, and neither is a sign. So a color is read from the text it is written as and from those
that differ from it in the case of their letters, and from nothing else.
-/

namespace LintMend.Color

open Text

variable {a b c : Char} {n : Nat} {digits text : Text} {color : Color}

/-! ## Digits -/

theorem toNat_lt_of_isHexDigit (h : isHexDigit c) : c.toNat < 128 := by
  have hrange : ('0' ≤ c ∧ c ≤ '9') ∨ ('a' ≤ c ∧ c ≤ 'f') ∨ ('A' ≤ c ∧ c ≤ 'F') := by
    simpa [isHexDigit, or_assoc] using h
  have hle (d : Char) (hd : d.toNat < 128) (hc : c ≤ d) : c.toNat < 128 :=
    Nat.lt_of_le_of_lt (UInt32.le_iff_toNat_le.mp hc) hd
  rcases hrange with h | h | h
  · exact hle '9' (by decide) h.2
  · exact hle 'f' (by decide) h.2
  · exact hle 'F' (by decide) h.2

theorem utf8Size_of_isHexDigit (h : isHexDigit c) : c.utf8Size = 1 := by
  rw [Char.utf8Size_eq_one_iff, UInt32.le_iff_toNat_le]
  exact Nat.le_of_lt_succ (toNat_lt_of_isHexDigit h)

/-- A digit has a value, and the value is written as the digit in upper case. -/
theorem exists_digit?_eq (h : isHexDigit c) :
    ∃ n < 16, digit? c = some n ∧ hexDigit n = c.toUpper := by
  have hascii : isHexDigit c → ∃ n < 16, digit? c = some n ∧ hexDigit n = c.toUpper :=
    of_forall_ascii
      (p := fun c ↦ isHexDigit c → ∃ n < 16, digit? c = some n ∧ hexDigit n = c.toUpper)
      (by decide +kernel) (toNat_lt_of_isHexDigit h)
  exact hascii h

theorem isHexDigit_hexDigit (h : n < 16) : isHexDigit (hexDigit n) := by
  revert n
  decide

theorem digit?_hexDigit (h : n < 16) : digit? (hexDigit n) = some n := by
  revert n
  decide

/-- Digits take one byte each. -/
theorem size_of_all_isHexDigit (h : ∀ c ∈ digits, isHexDigit c) : size digits = digits.length := by
  induction digits with
  | nil => rfl
  | cons c digits ih =>
    obtain ⟨hc, hdigits⟩ := List.forall_mem_cons.mp h
    rw [size_cons, ih hdigits, utf8Size_of_isHexDigit hc, List.length_cons, Nat.add_comm]

/-! ## Channels -/

/-- Two digits make a byte, which is written as the two in upper case. -/
theorem exists_readByte?_eq (ha : isHexDigit a) (hb : isHexDigit b) :
    ∃ byte, readByte? [a, b] = some byte ∧ channelChars byte = [a.toUpper, b.toUpper] := by
  obtain ⟨high, hhigh, hdigitA, hupperA⟩ := exists_digit?_eq ha
  obtain ⟨low, hlow, hdigitB, hupperB⟩ := exists_digit?_eq hb
  have hsign : stripStart? ['+'] [a, b] = none := by
    rw [Option.eq_none_iff_forall_ne_some]
    intro rest hrest
    obtain rfl : a = '+' := (List.cons.inj (stripStart?_eq_some_iff.mp hrest)).1
    exact absurd ha (by decide)
  have hvalue : digitsValue? [a, b] = some (16 * high + low) := by
    have hsmall : high < 256 := by omega
    have hbyte : 16 * high + low < 256 := by omega
    simp [digitsValue?, hdigitA, hdigitB, Option.filter, hsmall, hbyte]
  have hbyte : (16 * high + low).toUInt8.toNat = 16 * high + low :=
    UInt8.toNat_ofNat_of_lt' (by change _ < 256; omega)
  refine ⟨(16 * high + low).toUInt8, ?_, ?_⟩
  · rw [readByte?, hsign, Option.getD_none, if_neg (by simp), hvalue, Option.map_some]
  · rw [channelChars, hbyte, ← hupperA, ← hupperB]
    congr 2 <;> congr 1 <;> omega

/-- A slice of six digits between two of their bytes. -/
theorem slice_append (first second third : Text) (hfirst : ∀ c ∈ first, isHexDigit c)
    (hsecond : ∀ c ∈ second, isHexDigit c) :
    Sliced.slice (first ++ second ++ third) first.length (first.length + second.length) =
      .ok second := by
  have hcuts : Span.Cuts ⟨first.length, first.length + second.length⟩ (first ++ second ++ third)
      first second third := by
    constructor
    · rfl
    · exact (size_of_all_isHexDigit hfirst).symm
    · rw [size_append, size_of_all_isHexDigit hfirst, size_of_all_isHexDigit hsecond]
  exact Sliced.slice_of_cuts hcuts

/-! ## Texts -/

/-- A number sign and six hexadecimal digits. -/
def IsHex (text : Text) : Prop :=
  ∃ digits, text = '#' :: digits ∧ digits.length = 6 ∧ ∀ c ∈ digits, isHexDigit c

theorem exists_read_eq_of_isHex (h : IsHex text) :
    ∃ color, read text = .ok (some color) ∧ color.toChars = text.map Char.toUpper := by
  obtain ⟨digits, rfl, hlength, hdigits⟩ := h
  match digits, hlength with
  | [a, b, c, d, e, f], hlength =>
    have hsize : size [a, b, c, d, e, f] = 6 := size_of_all_isHexDigit hdigits
    have hall : [a, b, c, d, e, f].all isHexDigit = true := List.all_eq_true.mpr hdigits
    obtain ⟨ha, hb, hc, hd, he, hf⟩ : isHexDigit a ∧ isHexDigit b ∧ isHexDigit c ∧
        isHexDigit d ∧ isHexDigit e ∧ isHexDigit f := by
      simpa using hdigits
    obtain ⟨red, hred, hredChars⟩ := exists_readByte?_eq ha hb
    obtain ⟨green, hgreen, hgreenChars⟩ := exists_readByte?_eq hc hd
    obtain ⟨blue, hblue, hblueChars⟩ := exists_readByte?_eq he hf
    have hfirst : Sliced.slice [a, b, c, d, e, f] 0 2 = .ok [a, b] := by
      apply slice_append [] [a, b] [c, d, e, f] <;> simp [*]
    have hsecond : Sliced.slice [a, b, c, d, e, f] 2 4 = .ok [c, d] := by
      apply slice_append [a, b] [c, d] [e, f] <;> simp [*]
    have hthird : Sliced.slice [a, b, c, d, e, f] 4 6 = .ok [e, f] := by
      apply slice_append [a, b, c, d] [e, f] [] <;> simp [*]
    have hsign : stripStart? ['#'] ('#' :: [a, b, c, d, e, f]) = some [a, b, c, d, e, f] :=
      stripStart?_eq_some_iff.mpr rfl
    refine ⟨⟨red, green, blue⟩, ?_, ?_⟩
    · unfold read
      simp [hsign, hsize, hall, hfirst, hsecond, hthird, hred, hgreen, hblue]
    · simp [toChars, hredChars, hgreenChars, hblueChars]

theorem read_eq_of_not_isHex (h : ¬ IsHex text) : read text = .ok none := by
  unfold read
  cases hsign : stripStart? ['#'] text with
  | none => rfl
  | some digits =>
    have htext : text = '#' :: digits := stripStart?_eq_some_iff.mp hsign
    by_cases htests : digits.size ≠ 6 ∨ ¬ digits.all isHexDigit
    · simp only [if_pos htests]
      rfl
    · rw [not_or, Decidable.not_not, Decidable.not_not] at htests
      have hdigits : ∀ c ∈ digits, isHexDigit c := List.all_eq_true.mp htests.2
      have hlength : digits.length = 6 := by rw [← size_of_all_isHexDigit hdigits, htests.1]
      exact absurd ⟨digits, htext, hlength, hdigits⟩ h

theorem ofHex_eq_ok_iff_read {text : String} :
    ofHex text = .ok color ↔ read text.toList = .ok (some color) := by
  unfold ofHex
  split
  · next found hread => simp [hread]
  · next hread =>
    constructor
    · intro h
      cases h
    · exact fun h ↦ absurd h (hread color)

theorem toHex_eq_toUpper_iff {text : String} :
    color.toHex = text.toUpper ↔ color.toChars = text.toList.map Char.toUpper := by
  rw [← String.toList_inj, toHex, String.toList_ofList, String.toUpper, String.toList_map]

/-! ## Colors -/

theorem channelChars_injective : Function.Injective channelChars := by
  intro x y h
  obtain ⟨hhigh, hlow⟩ : hexDigit (x.toNat / 16) = hexDigit (y.toNat / 16) ∧
      hexDigit (x.toNat % 16) = hexDigit (y.toNat % 16) := by
    simpa [channelChars] using h
  have hinj {m n : Nat} (hm : m < 16) (hn : n < 16) (h : hexDigit m = hexDigit n) : m = n := by
    have hdigit := congrArg digit? h
    rw [digit?_hexDigit hm, digit?_hexDigit hn] at hdigit
    exact Option.some.inj hdigit
  have hx : x.toNat < 256 := x.toNat_lt
  have hy : y.toNat < 256 := y.toNat_lt
  have hhighs : x.toNat / 16 = y.toNat / 16 := hinj (by omega) (by omega) hhigh
  have hlows : x.toNat % 16 = y.toNat % 16 := hinj (by omega) (by omega) hlow
  apply UInt8.toNat_inj.mp
  omega

theorem toChars_injective : Function.Injective toChars := by
  intro x y h
  obtain ⟨hred, hgreen, hblue⟩ : channelChars x.red = channelChars y.red ∧
      channelChars x.green = channelChars y.green ∧
      channelChars x.blue = channelChars y.blue := by
    simpa [toChars, channelChars, and_assoc] using h
  cases x
  cases y
  congr
  · exact channelChars_injective hred
  · exact channelChars_injective hgreen
  · exact channelChars_injective hblue

/-- A color is written in digits that are in upper case already. -/
theorem isHex_toChars (color : Color) :
    IsHex color.toChars ∧ color.toChars.map Char.toUpper = color.toChars := by
  have hdigits (channel : UInt8) : ∀ c ∈ channelChars channel, isHexDigit c ∧ c.toUpper = c := by
    have hlt : channel.toNat < 256 := channel.toNat_lt
    have hupper : ∀ n < 16, (hexDigit n).toUpper = hexDigit n := by decide
    simp only [channelChars, List.forall_mem_cons, List.not_mem_nil, false_implies, implies_true,
      and_true]
    exact ⟨⟨isHexDigit_hexDigit (by omega), hupper _ (by omega)⟩,
      isHexDigit_hexDigit (by omega), hupper _ (by omega)⟩
  have hall : ∀ c ∈ channelChars color.red ++ channelChars color.green ++
      channelChars color.blue, isHexDigit c ∧ c.toUpper = c := by
    simp only [List.forall_mem_append]
    exact ⟨⟨hdigits _, hdigits _⟩, hdigits _⟩
  constructor
  · exact ⟨_, rfl, rfl, fun c hc ↦ (hall c hc).1⟩
  · have hsame : ∀ c ∈ color.toChars, c.toUpper = id c :=
      List.forall_mem_cons.mpr ⟨by decide, fun c hc ↦ (hall c hc).2⟩
    rw [List.map_congr_left hsame, List.map_id]

theorem ofHex_toHex (color : Color) : ofHex color.toHex = .ok color := by
  obtain ⟨hhex, hupper⟩ := isHex_toChars color
  obtain ⟨found, hread, hfound⟩ := exists_read_eq_of_isHex hhex
  rw [hupper] at hfound
  rw [ofHex_eq_ok_iff_read, toHex, String.toList_ofList, hread, toChars_injective hfound]

theorem ofHex_eq_ok_iff {text : String} :
    ofHex text = .ok color ↔ IsHex text.toList ∧ color.toHex = text.toUpper := by
  rw [ofHex_eq_ok_iff_read, toHex_eq_toUpper_iff]
  by_cases h : IsHex text.toList
  · obtain ⟨found, hread, hfound⟩ := exists_read_eq_of_isHex h
    rw [hread, ← hfound, toChars_injective.eq_iff]
    simp [h, eq_comm]
  · simp [read_eq_of_not_isHex h, h]

/-- Reading takes a number sign and six hexadecimal digits and nothing else, and no slice that it
takes fails. The color it gives is the one that is written as the text in upper case. So every color
is read back from what it is written as, and the color of a hint from the hint in JSON. -/
theorem ofHex_accepts_hex (text : String) :
    (∃ found, read text.toList = .ok found) ∧
    ((∃ color, ofHex text = .ok color) ↔ IsHex text.toList) ∧
    (∀ color, ofHex text = .ok color ↔ IsHex text.toList ∧ color.toHex = text.toUpper) ∧
    (∀ color : Color, ofHex color.toHex = .ok color) ∧
    ∀ hint : Hint, (hint.toJson.get? "color").bind Hint.color? = some hint.color := by
  refine ⟨?_, ?_, fun color ↦ ofHex_eq_ok_iff, ofHex_toHex, fun hint ↦ ?_⟩
  · by_cases h : IsHex text.toList
    · obtain ⟨color, hread, -⟩ := exists_read_eq_of_isHex h
      exact ⟨some color, hread⟩
    · exact ⟨none, read_eq_of_not_isHex h⟩
  · constructor
    · rintro ⟨color, hcolor⟩
      exact (ofHex_eq_ok_iff.mp hcolor).1
    · intro h
      obtain ⟨color, hread, -⟩ := exists_read_eq_of_isHex h
      exact ⟨color, ofHex_eq_ok_iff_read.mpr hread⟩
  · have hmember : hint.toJson.get? "color" = some (.str hint.color.toHex) := rfl
    rw [hmember, Option.bind_some, Hint.color?, Json.str?, Option.bind_some, ofHex_toHex]
    rfl

/-- Six bytes that are no six digits, signs that a channel could be read with, and both cases. -/
example :
    ["#ééé", "#000é", "#+1+2+3", "#-10000", "#00000", "000000", "#8f78Ab"].map
      (fun text ↦ (ofHex text).toOption.map toHex) =
        [none, none, none, none, none, none, some "#8F78AB"] := by
  decide +kernel

end LintMend.Color
