import LintMend.Text.Number

/-!
# Characters of ASCII

There are 128 of them, so what holds of each is seen by looking at all. Among them the decimal
digits are `'0'` to `'9'`, and a number of 64 bits is read back from the digits it is written in.
-/

namespace LintMend.Text

variable {c : Char} {n : Nat}

theorem of_forall_ascii {p : Char → Prop} (h : ∀ n < 128, p (Char.ofNat n)) (hc : c.toNat < 128) :
    p c := by
  rw [← Char.ofNat_toNat c]
  exact h c.toNat hc

theorem toNat_lt_of_isAlpha (h : c.isAlpha) : c.toNat < 128 := by
  rcases Bool.or_eq_true_iff.mp h with h | h
  · have hrange : 'A'.val ≤ c.val ∧ c.val ≤ 'Z'.val := of_decide_eq_true h
    exact Nat.lt_of_le_of_lt (UInt32.le_iff_toNat_le.mp hrange.2) (by decide)
  · change (decide ('a'.val ≤ c.val) && decide (c.val ≤ 'z'.val)) = true at h
    have hle : c.val ≤ 'z'.val := of_decide_eq_true (Bool.and_eq_true_iff.mp h).2
    exact Nat.lt_of_le_of_lt (UInt32.le_iff_toNat_le.mp hle) (by decide)

/-! ## Digits -/

theorem isDecimal_eq_isDigit (h : c.toNat < 128) : isDecimal c = c.isDigit :=
  of_forall_ascii (p := fun c ↦ isDecimal c = c.isDigit) (by decide +kernel) h

theorem isDecimal_of_isDigit (h : c.isDigit) : isDecimal c := by
  have hle : c.toNat ≤ 57 := (Char.isDigit_iff_toNat.mp h).2
  rwa [isDecimal_eq_isDigit (by omega)]

/-- The digits of a number in base ten. -/
def digits (n : Nat) : Text := Nat.toDigits 10 n

theorem digits_ne_nil (n : Nat) : digits n ≠ [] := Nat.toDigits_ne_nil

theorem isDigit_of_mem_digits (h : c ∈ digits n) : c.isDigit :=
  Nat.isDigit_of_mem_toDigits (by decide) (by decide) h

theorem digitsValue_digits (n : Nat) : digitsValue (digits n) = n := by
  calc digitsValue (digits n) = Nat.ofDigitChars 10 (digits n) 0 := by
        rw [Nat.ofDigitChars_eq_foldl]
        rfl
    _ = n := Nat.ofDigitChars_ten_toDigits

theorem readDigits?_digits (h : n < words64) : readDigits? (digits n) = some n := by
  have hall : (digits n).all Char.isDigit := List.all_eq_true.mpr fun c ↦ isDigit_of_mem_digits
  rw [readDigits?, if_neg, digitsValue_digits, if_pos h]
  simp [hall, digits_ne_nil]

/-- Longer numbers are not read. -/
theorem lt_words64_of_readDigits? {s : Text} (h : readDigits? s = some n) : n < words64 := by
  unfold readDigits? at h
  split at h
  · cases h
  · split at h
    · next hlt => exact Option.some.inj h ▸ hlt
    · cases h

theorem lt_words64_of_readWord? {s : Text} (h : readWord? s = some n) : n < words64 := by
  unfold readWord? at h
  split at h
  · exact lt_words64_of_readDigits? h
  · exact lt_words64_of_readDigits? h

end LintMend.Text
