import ForumMarkup.Lookup.Tables
import ForumMarkup.Proofs.Text.Numerals
import ForumMarkup.Span.Decoration

/-!
Contract: attributes that are read as numbers, and what is looked up by them.

Main statement: `numeric_attributes_exact`.

The tables list users and posts by canonical digits, while an attribute may have zeros in
front of them.
-/

set_option autoImplicit false

namespace ForumMarkup

namespace Attributes

variable {attributes : Attributes} {key : String} {n : Nat}

theorem number?_eq_some_iff :
    attributes.number? key = some n
      ↔ ∃ value, attributes.get? key = some value ∧ Text.IsNumeral value ∧
          Text.decimalValue value = n ∧ n < 2 ^ 64 := by
  rw [number?, Option.bind_eq_some_iff]
  exact exists_congr fun value => and_congr_right fun _ => Text.word?_eq_some_iff

/-- A number is missing when the attribute is, when it is no numeral, and when it does not fit
in 64 bits. -/
theorem number?_eq_none_iff :
    attributes.number? key = none
      ↔ ∀ value, attributes.get? key = some value → Text.IsNumeral value →
          2 ^ 64 ≤ Text.decimalValue value := by
  rw [Option.eq_none_iff_forall_ne_some]
  constructor
  · intro nothing value present numeral
    refine Nat.le_of_not_lt fun small => nothing (Text.decimalValue value) ?_
    exact number?_eq_some_iff.2 ⟨value, present, numeral, rfl, small⟩
  · intro large n read
    obtain ⟨value, present, numeral, rfl, small⟩ := number?_eq_some_iff.1 read
    exact Nat.not_lt_of_le (large value present numeral) small

theorem number?_of_padded {zeros : Nat} (small : n < 2 ^ 64)
    (present : attributes.get? key = some (Text.padded zeros n)) :
    attributes.number? key = some n := by
  rw [number?, present, Option.bind_some, Text.word?_padded small]

end Attributes

namespace LookupTables

variable {tables : LookupTables} {element : Element} {zeros n : Nat}

theorem evaluate_quotedUser (small : n < 2 ^ 64)
    (present : element.attributes.get? Key.userId = some (Text.padded zeros n)) :
    (Decoration.quotedUser element).evaluate tables.answer
      = tables.users.get? (String.ofList (Text.ofNat n)) := by
  rw [Decoration.quotedUser, Attributes.number?_of_padded small present]
  rfl

theorem evaluate_quotedPost (small : n < 2 ^ 64)
    (present : element.attributes.get? Key.postId = some (Text.padded zeros n)) :
    (Decoration.quotedPost element).evaluate tables.answer
      = tables.posts.get? (String.ofList (Text.ofNat n)) := by
  rw [Decoration.quotedPost, Attributes.number?_of_padded small present]
  rfl

end LookupTables

/-- An attribute is a number exactly if it is there and is a numeral below `2 ^ 64`, and then
it is the value of the numeral.  The numerals of a number are its canonical digits behind
zeros; each of them is read back as the number, and by each of them the tables find what
they list under the canonical digits. -/
theorem numeric_attributes_exact :
    (∀ (attributes : Attributes) (key : String) (n : Nat),
      attributes.number? key = some n
        ↔ ∃ value, attributes.get? key = some value ∧ Text.IsNumeral value ∧
            Text.decimalValue value = n ∧ n < 2 ^ 64) ∧
    (∀ (attributes : Attributes) (key : String),
      attributes.number? key = none
        ↔ ∀ value, attributes.get? key = some value → Text.IsNumeral value →
            2 ^ 64 ≤ Text.decimalValue value) ∧
    (∀ (value : Text) (n : Nat), (Text.IsNumeral value ∧ Text.decimalValue value = n)
        ↔ ∃ zeros, value = Text.padded zeros n) ∧
    ∀ zeros n : Nat, n < 2 ^ 64 →
      (∀ (attributes : Attributes) (key : String),
        Attributes.number? (attributes.set key (Text.padded zeros n)) key = some n) ∧
      ∀ (tables : LookupTables) (element : Element),
        (element.attributes.get? Key.userId = some (Text.padded zeros n) →
          (Decoration.quotedUser element).evaluate tables.answer
            = tables.users.get? (String.ofList (Text.ofNat n))) ∧
        (element.attributes.get? Key.postId = some (Text.padded zeros n) →
          (Decoration.quotedPost element).evaluate tables.answer
            = tables.posts.get? (String.ofList (Text.ofNat n))) := by
  refine ⟨fun _ _ _ => Attributes.number?_eq_some_iff, fun _ _ => Attributes.number?_eq_none_iff,
    fun _ _ => Text.isNumeral_and_decimalValue_iff, fun zeros n small => ⟨?_, ?_⟩⟩
  · intro attributes key
    exact Attributes.number?_of_padded small (Dictionary.get?_set_self attributes key _)
  · intro tables element
    exact ⟨LookupTables.evaluate_quotedUser small, LookupTables.evaluate_quotedPost small⟩

/-- The largest number, and a user under a number with zeros in front. -/
theorem numeric_attributes_exact_zeroPadded :
    Attributes.number? (Dictionary.set ∅ Key.size "018446744073709551615".toList) Key.size
        = some 18446744073709551615 ∧
      (Decoration.quotedUser ((Element.mk Tag.quote ∅ []).set Key.userId "007".toList)).evaluate
          (LookupTables.answer { users := Dictionary.ofList [("7", "bob".toList)] })
        = some "bob".toList := by
  have readings := numeric_attributes_exact.2.2.2
  constructor
  · have largest : "018446744073709551615".toList = Text.padded 1 18446744073709551615 := by
      decide +kernel
    rw [largest]
    exact (readings 1 18446744073709551615 (by decide)).1 ∅ Key.size
  · have found := ((readings 2 7 (by decide)).2
      { users := Dictionary.ofList [("7", "bob".toList)] }
      ((Element.mk Tag.quote ∅ []).set Key.userId "007".toList)).1 (by decide)
    rw [found]
    decide

end ForumMarkup
