import ForumMarkup.Text.Search

/-!
Contract: the characters of a text that are not blank.

Owns:
- `Text.solid`, those characters in order, which is what a reader and a writer
  must not lose;
- the lemmas that tell which operations on text keep them;
- lower case as far as it matters for what is not a letter.
-/

set_option autoImplicit false

open scoped List

namespace ForumMarkup
namespace Text

/-- The characters of a text that are not blank, in order. -/
def solid (t : Text) : Text :=
  t.filter fun c => !isBlank c

@[simp]
theorem solid_nil : solid [] = [] := rfl

@[simp]
theorem solid_append (front back : Text) : solid (front ++ back) = solid front ++ solid back :=
  List.filter_append ..

theorem solid_sublist (t : Text) : solid t <+ t :=
  List.filter_sublist

theorem solid_sublist_solid {front back : Text} (kept : front <+ back) :
    solid front <+ solid back :=
  kept.filter _

@[simp]
theorem solid_solid (t : Text) : solid (solid t) = solid t := by
  simp [solid]

theorem solid_cons_of_blank {c : Char} (blank : isBlank c = true) (t : Text) :
    solid (c :: t) = solid t := by
  simp [solid, blank]

theorem solid_eq_nil_iff {t : Text} : solid t = [] ↔ allBlank t = true := by
  simp [solid, allBlank]

theorem ne_lineFeed_of_solid {c : Char} (solid : isBlank c = false) : c ≠ '\n' := by
  rintro rfl
  cases solid

/-- Lower case changes nothing or gives a letter. -/
theorem toLower_eq_or_letter (c : Char) :
    c.toLower = c ∨ ('a' ≤ c.toLower ∧ c.toLower ≤ 'z') := by
  by_cases upper : c.val ≥ 'A'.val ∧ c.val ≤ 'Z'.val
  · right
    have low : 65 ≤ c.val.toNat := upper.1
    have high : c.val.toNat ≤ 90 := upper.2
    have lowered : c.toLower.val = c.val + ('a'.val - 'A'.val) :=
      congrArg Char.val (dif_pos upper)
    have value : c.toLower.val.toNat = c.val.toNat + 32 := by
      rw [lowered, UInt32.toNat_add]
      have step : ('a'.val - 'A'.val).toNat = 32 := by decide
      rw [step]
      omega
    constructor
    · show 97 ≤ c.toLower.val.toNat
      omega
    · show c.toLower.val.toNat ≤ 122
      omega
  · left
    exact dif_neg upper

/-- What is not a letter is in lower case only as itself. -/
theorem eq_of_toLower_eq {c d : Char} (lowered : c.toLower = d)
    (noLetter : ¬('a' ≤ d ∧ d ≤ 'z')) : c = d := by
  rcases toLower_eq_or_letter c with same | letter
  · rw [← lowered, same]
  · rw [lowered] at letter
    exact absurd letter noLetter

end Text
end ForumMarkup
