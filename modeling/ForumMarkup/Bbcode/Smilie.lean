import ForumMarkup.Element
import ForumMarkup.Text.Search

/-!
Contract: smilies in text.

Owns:
- `prepareCodes`, the order in which codes are tried: longest first;
- `splitSmilies`, the text leaves and smilie elements of a text.

At every place that is not inside an earlier smilie the first code that fits makes
a smilie.  Codes are measured in bytes, and an empty code fits nowhere.
-/

set_option autoImplicit false

namespace ForumMarkup.Bbcode

/-- The codes that are not empty, longest first. -/
def prepareCodes (codes : List Text) : List Text :=
  (codes.filter fun code => !code.isEmpty).mergeSort fun left right =>
    Text.byteLength right ≤ Text.byteLength left

/-- The first code that a text starts with, and the text behind it. -/
def matchCode? (codes : List Text) (t : Text) : Option (Text × Text) :=
  codes.findSome? fun code =>
    if code = [] then none else (Text.after? code t).map fun rest => (code, rest)

theorem matchCode?_eq_some {codes : List Text} {t code rest : Text}
    (found : matchCode? codes t = some (code, rest)) :
    code ∈ codes ∧ code ≠ [] ∧ t = code ++ rest := by
  simp only [matchCode?, List.findSome?_eq_some_iff] at found
  obtain ⟨_, fit, _, shape, fits, _⟩ := found
  simp only [Option.ite_none_left_eq_some, Option.map_eq_some_iff, Prod.mk.injEq] at fits
  obtain ⟨filled, _, begins, rfl, rfl⟩ := fits
  exact ⟨by simp [shape], filled, Text.eq_append_of_after? begins⟩

theorem matchCode?_length {codes : List Text} {t code rest : Text}
    (found : matchCode? codes t = some (code, rest)) : rest.length < t.length := by
  obtain ⟨_, filled, rfl⟩ := matchCode?_eq_some found
  have := List.length_pos_iff.2 filled
  simp only [List.length_append]
  omega

/-- A text leaf, unless the text is empty. -/
def leaf (t : Text) : List Node :=
  if t = [] then [] else [.text t]

/-- The leaves and smilies of a text behind the plain text `plain`, whose newest
character is first. -/
def splitFrom (codes : List Text) (plain : Text) (t : Text) : List Node :=
  match t with
  | [] => leaf plain.reverse
  | c :: rest =>
      match found : matchCode? codes (c :: rest) with
      | some (code, after) =>
          have : after.length < rest.length + 1 := matchCode?_length found
          leaf plain.reverse ++ (Element.ofText Tag.smilie code).toNode :: splitFrom codes [] after
      | none => splitFrom codes (c :: plain) rest
termination_by t.length

def splitSmilies (codes : List Text) (t : Text) : List Node :=
  splitFrom codes [] t

end ForumMarkup.Bbcode
