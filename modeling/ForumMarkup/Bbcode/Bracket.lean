import ForumMarkup.Text.Blank
import ForumMarkup.Vocabulary

/-!
Contract: the bracket tags of BBCode.

Owns: `Bracket`, with the spellings of each tag and the element it stands for.
-/

set_option autoImplicit false

namespace ForumMarkup.Bbcode

inductive Bracket where
  | bold
  | italic
  | underline
  | strike
  | code
  | list
  | item
  | image
  | url
  | email
  | quote
  | attachment
  | size
  | video
  | color
  deriving DecidableEq, Repr

namespace Bracket

/-- The known names, in lower case, with their tags. -/
def names : List (String × Bracket) :=
  [("b", bold), ("i", italic), ("u", underline), ("s", strike), ("strike", strike),
    ("code", code), ("list", list), ("*", item), ("img", image), ("url", url),
    ("email", email), ("quote", quote), ("attachment", attachment), ("size", size),
    ("youtube", video), ("color", color)]

def ofName? (name : Text) : Option Bracket :=
  names.lookup (String.ofList name)

def tag : Bracket → String
  | bold => Tag.bold
  | italic => Tag.italic
  | underline => Tag.underline
  | strike => Tag.strike
  | code => Tag.code
  | list => Tag.list
  | item => Tag.item
  | image => Tag.image
  | url => Tag.url
  | email => Tag.email
  | quote => Tag.quote
  | attachment => Tag.attachment
  | size => Tag.size
  | video => Tag.video
  | color => Tag.color

def warningName (bracket : Bracket) : String :=
  String.ofList (Text.lower bracket.tag.toList)

end Bracket
end ForumMarkup.Bbcode
