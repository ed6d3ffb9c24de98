import ForumMarkup.Text.Decimal

/-!
Contract: numbers that are written in decimal digits.

Main statement: `word?_ofNat`, the digits of a number are read back as the number.
-/

set_option autoImplicit false

namespace ForumMarkup.Text

theorem ofNat_ne_nil (n : Nat) : ofNat n ≠ [] :=
  Nat.toDigits_ne_nil

theorem isDigit_of_mem_ofNat {n : Nat} {c : Char} (member : c ∈ ofNat n) : c.isDigit = true :=
  Nat.isDigit_of_mem_toDigits (by decide) (by decide) member

theorem isBlank_of_isDigit {c : Char} (digit : c.isDigit = true) : isBlank c = false := by
  simp only [Char.isDigit, Bool.and_eq_true, decide_eq_true_eq, UInt32.le_iff_toNat_le,
    ge_iff_le] at digit
  have range : 48 ≤ c.toNat ∧ c.toNat ≤ 57 := digit
  simp [isBlank]
  omega

theorem digitsValue_ofNat (n : Nat) : digitsValue (ofNat n) = n := by
  have read := Nat.ofDigitChars_toDigits (b := 10) (n := n) (by decide) (by decide)
  rw [Nat.ofDigitChars_eq_foldl] at read
  exact read

/-- The digits of a number below the bound are read back as the number. -/
theorem word?_ofNat {n : Nat} (small : n < wordBound) : word? (ofNat n) = some n := by
  have digits : (ofNat n).all Char.isDigit = true :=
    List.all_eq_true.2 fun c member => isDigit_of_mem_ofNat member
  have read : natural? (ofNat n) = some n := by
    rw [natural?, digits, digitsValue_ofNat]
    simp [ofNat_ne_nil]
  rw [word?, read, Option.filter_some, decide_eq_true small, if_pos rfl]

end ForumMarkup.Text
