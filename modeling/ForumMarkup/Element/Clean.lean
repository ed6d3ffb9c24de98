import ForumMarkup.Element

/-!
Contract: the part of a tree that a conversion looks at.

Owns: `Element.clean`, the tree without marker elements and without the blank
text that only lays out the source.

A text leaf that starts with a line feed loses all the ASCII blanks it starts
with.  So does the text that comes first in a list or in an item of a list, where
dropped nodes do not count as coming before.  A leaf that is left empty is
dropped.  The root itself is always kept.
-/

set_option autoImplicit false

namespace ForumMarkup

namespace Text

def trimAsciiStart (t : Text) : Text :=
  t.dropWhile isAsciiBlank

/-- The text without a line feed at its start and the ASCII blanks behind it. -/
def trimStartingLine : Text → Text
  | '\n' :: rest => trimAsciiStart ('\n' :: rest)
  | t => t

end Text

namespace Node

/-- A text leaf as it is kept; `first` says that it comes first in a list or item. -/
def cleanText (first : Bool) (content : Text) : Text :=
  let content := Text.trimStartingLine content
  if first then Text.trimAsciiStart content else content

mutual

/-- The node as it is kept, or nothing. -/
def clean? (first : Bool) : Node → Option Node
  | .text content =>
      match cleanText first content with
      | [] => none
      | kept => some (.text kept)
  | .element tag attributes children =>
      if Tag.markers.contains tag then none
      else some (.element tag attributes (cleanAll (Tag.trimmedStarts.contains tag) children))

def cleanAll (first : Bool) : List Node → List Node
  | [] => []
  | node :: rest =>
      match node.clean? first with
      | none => cleanAll first rest
      | some kept => kept :: cleanAll false rest

end

end Node

/-- The tree that a conversion looks at. -/
def Element.clean (element : Element) : Element :=
  { element with
    children := Node.cleanAll (Tag.trimmedStarts.contains element.tag) element.children }

end ForumMarkup
