import ForumMarkup.Bbcode.Assembly

/-!
Contract: reading BBCode.

Owns: `Bbcode.read`, which takes any text.  Unknown tags and stray closing tags
are kept as text, and what is left open is closed at the end; both are reported
where the author may have meant something else.
-/

set_option autoImplicit false

namespace ForumMarkup.Bbcode

/-- The tree of a text, with the given smilie codes made into elements. -/
def read (codes : List Text) (input : Text) : Reading Element :=
  let prepared := prepareCodes codes
  (((pieces input).foldl (Assembly.step prepared) {}).finish prepared).toReading

end ForumMarkup.Bbcode
