import Mathlib.Data.List.Induction
import Mathlib.Data.Nat.Digits.Defs
import ForumMarkup.Proofs.Text.Decimal

/-!
Contract: which texts denote a number, and which number.

Owns:
- `Text.IsNumeral`, a text of ASCII digits, at least one, and `Text.decimalValue`, the sum
  of its digits by their places;
- `Text.padded`, the canonical digits of a number behind some zeros.

Main statements: `word?_eq_some_iff`, a numeral is read as its value if that is below the
bound; and `isNumeral_and_decimalValue_iff`, the numerals of a number are its canonical
digits behind zeros.

`Text.digitsValue` reads from the left and `Nat.ofDigits` starts at the last place, so that
the inductions on a text go from its end.
-/

set_option autoImplicit false

namespace ForumMarkup.Text

/-- A run of ASCII digits, at least one. -/
def IsNumeral (t : Text) : Prop :=
  t ≠ [] ∧ ∀ c ∈ t, '0' ≤ c ∧ c ≤ '9'

/-- The sum of the digits, each times the power of ten of its place. -/
def decimalValue (t : Text) : Nat :=
  Nat.ofDigits 10 (t.reverse.map fun c => c.toNat - '0'.toNat)

def padded (zeros n : Nat) : Text :=
  List.replicate zeros '0' ++ ofNat n

variable {t : Text} {n zeros : Nat}

/-! ### Values -/

theorem digitsValue_concat (t : Text) (c : Char) :
    digitsValue (t ++ [c]) = 10 * digitsValue t + (c.toNat - '0'.toNat) := by
  rw [digitsValue, List.foldl_append]
  rfl

theorem decimalValue_eq (t : Text) : decimalValue t = digitsValue t := by
  induction t using List.reverseRecOn with
  | nil => rfl
  | append_singleton t c ih =>
      rw [digitsValue_concat, ← ih, decimalValue, decimalValue, List.reverse_append,
        List.reverse_singleton, List.singleton_append, List.map_cons, Nat.ofDigits_cons,
        Nat.add_comm]

theorem isNumeral_iff : IsNumeral t ↔ t ≠ [] ∧ t.all Char.isDigit = true := by
  rw [IsNumeral, List.all_eq_true]
  have digit : ∀ c : Char, c.isDigit = true ↔ '0' ≤ c ∧ c ≤ '9' := fun c => by
    rw [Char.isDigit, Bool.and_eq_true, decide_eq_true_eq, decide_eq_true_eq]
    rfl
  simp only [digit]

theorem natural?_eq_some_iff : natural? t = some n ↔ IsNumeral t ∧ decimalValue t = n := by
  rw [isNumeral_iff, decimalValue_eq, natural?]
  simp [and_assoc]

/-- A numeral is read as its value if that is below the bound, and nothing else is read. -/
theorem word?_eq_some_iff :
    word? t = some n ↔ IsNumeral t ∧ decimalValue t = n ∧ n < wordBound := by
  rw [word?, Option.filter_eq_some_iff, natural?_eq_some_iff, decide_eq_true_eq, and_assoc]

/-! ### Spellings -/

theorem digitsValue_zeros_append (zeros : Nat) (t : Text) :
    digitsValue (List.replicate zeros '0' ++ t) = digitsValue t := by
  induction zeros with
  | zero => rfl
  | succ zeros ih =>
      rw [List.replicate_succ, List.cons_append]
      exact ih

theorem decimalValue_padded (zeros n : Nat) : decimalValue (padded zeros n) = n := by
  rw [decimalValue_eq, padded, digitsValue_zeros_append, digitsValue_ofNat]

theorem isNumeral_padded (zeros n : Nat) : IsNumeral (padded zeros n) := by
  refine isNumeral_iff.2 ⟨List.append_ne_nil_of_right_ne_nil _ (ofNat_ne_nil n), ?_⟩
  rw [padded, List.all_append, Bool.and_eq_true]
  constructor
  · exact List.all_eq_true.2 fun c member => (List.eq_of_mem_replicate member) ▸ by decide
  · exact List.all_eq_true.2 fun c member => isDigit_of_mem_ofNat member

theorem digit_lt_ten {c : Char} (digit : c.isDigit = true) : c.toNat - '0'.toNat < 10 := by
  have high : c.toNat ≤ 57 := (Char.isDigit_iff_toNat.1 digit).2
  have zero : '0'.toNat = 48 := rfl
  omega

/-- A digit is the canonical spelling of its value. -/
theorem ofNat_digit {c : Char} (digit : c.isDigit = true) :
    ofNat (c.toNat - '0'.toNat) = [c] := by
  have low : 48 ≤ c.toNat := (Char.isDigit_iff_toNat.1 digit).1
  have small := digit_lt_ten digit
  rw [ofNat, Nat.toDigits_of_lt_base small, List.singleton_inj, ← Char.toNat_inj,
    Nat.toNat_digitChar_of_lt_ten small]
  exact Nat.add_sub_cancel' low

/-- A digit more at the end multiplies what stands before it by ten. -/
theorem ofNat_concat {n : Nat} (filled : 0 < n) {c : Char} (digit : c.isDigit = true) :
    ofNat (10 * n + (c.toNat - '0'.toNat)) = ofNat n ++ [c] := by
  rw [← ofNat_digit digit]
  exact (Nat.toDigits_append_toDigits (by decide) filled (digit_lt_ten digit)).symm

/-- Numerals differ from canonical digits in zeros at their start alone. -/
theorem exists_padded (numeral : IsNumeral t) : ∃ zeros, t = padded zeros (decimalValue t) := by
  obtain ⟨filled, digits⟩ := isNumeral_iff.1 numeral
  rw [decimalValue_eq]
  clear numeral
  induction t using List.reverseRecOn with
  | nil => exact absurd rfl filled
  | append_singleton t c ih =>
      rw [List.all_append, Bool.and_eq_true, List.all_cons, Bool.and_eq_true] at digits
      obtain ⟨front, digit, _⟩ := digits
      rw [digitsValue_concat]
      rcases Nat.eq_zero_or_pos (digitsValue t) with none | some
      · -- canonical digits never start with a zero of their own, so the one of `ofNat 0` is padding
        have nothing : ∃ zeros, t = List.replicate zeros '0' := by
          by_cases empty : t = []
          · exact ⟨0, empty⟩
          · obtain ⟨zeros, shape⟩ := ih empty front
            rw [none, padded] at shape
            exact ⟨zeros + 1, by rw [shape, List.replicate_succ']; rfl⟩
        obtain ⟨zeros, shape⟩ := nothing
        refine ⟨zeros, ?_⟩
        rw [none, Nat.mul_zero, Nat.zero_add, padded, ofNat_digit digit, shape]
      · have stands : t ≠ [] := by
          rintro rfl
          exact absurd some (by decide)
        obtain ⟨zeros, shape⟩ := ih stands front
        refine ⟨zeros, ?_⟩
        rw [padded, ofNat_concat some digit, ← List.append_assoc]
        exact congrArg (· ++ [c]) shape

/-- The numerals of a number are its canonical digits behind zeros. -/
theorem isNumeral_and_decimalValue_iff :
    (IsNumeral t ∧ decimalValue t = n) ↔ ∃ zeros, t = padded zeros n := by
  constructor
  · rintro ⟨numeral, rfl⟩
    exact exists_padded numeral
  · rintro ⟨zeros, rfl⟩
    exact ⟨isNumeral_padded zeros n, decimalValue_padded zeros n⟩

theorem word?_padded (small : n < wordBound) : word? (padded zeros n) = some n :=
  word?_eq_some_iff.2 ⟨isNumeral_padded zeros n, decimalValue_padded zeros n, small⟩

end ForumMarkup.Text
