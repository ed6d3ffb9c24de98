import ForumMarkup.Dictionary
import ForumMarkup.Text.Decimal

/-!
Contract: the attributes of an element, a map from keys to texts.

Owns: `Attributes`, and the readings of a value as a text that must not be empty
and as a number.
-/

set_option autoImplicit false

namespace ForumMarkup

abbrev Attributes := Dictionary Text

namespace Attributes

/-- The value of a key, when it is not the empty text. -/
def nonEmpty? (attributes : Attributes) (key : String) : Option Text :=
  (attributes.get? key).filter fun value => !value.isEmpty

/-- The number a value denotes: a non-empty run of ASCII digits below
`Text.wordBound`. Any other value counts as absent. -/
def number? (attributes : Attributes) (key : String) : Option Nat :=
  (attributes.get? key).bind Text.word?

end Attributes
end ForumMarkup
