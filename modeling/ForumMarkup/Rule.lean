import ForumMarkup.Vocabulary

/-!
Contract: the elements that Markdown is written for.

Owns: `Rule`, one constructor for each such element, with its tag, its name and
what it produces.

Main statement: `ofTag?_tag`, a rule is found by its tag.  An element of any
other tag writes nothing of its own and its children belong to the element
around it.
-/

set_option autoImplicit false

namespace ForumMarkup

inductive Rule where
  | bold
  | italic
  | underline
  | code
  | list
  | item
  | image
  | url
  | email
  | lineBreak
  | smilie
  | video
  | quote
  | attachment
  | size
  deriving DecidableEq, Repr

namespace Rule

/-- Every rule, in the order of listings. -/
def all : List Rule :=
  [bold, italic, underline, code, list, item, image, url, email, lineBreak, smilie, video,
    quote, attachment, size]

def tag : Rule → String
  | bold => Tag.bold
  | italic => Tag.italic
  | underline => Tag.underline
  | code => Tag.code
  | list => Tag.list
  | item => Tag.item
  | image => Tag.image
  | url => Tag.url
  | email => Tag.email
  | lineBreak => Tag.lineBreak
  | smilie => Tag.smilie
  | video => Tag.video
  | quote => Tag.quote
  | attachment => Tag.attachment
  | size => Tag.size

def ofTag? (tag : String) : Option Rule :=
  all.find? fun rule => rule.tag == tag

/-- The name under which a rule is listed. -/
def name : Rule → String
  | bold => "Bold"
  | italic => "Italic"
  | underline => "Underline"
  | code => "Code"
  | list => "List"
  | item => "ListItem"
  | image => "Image"
  | url => "Url"
  | email => "Email"
  | lineBreak => "LineBreak"
  | smilie => "Smilie"
  | video => "Video"
  | quote => "Quote"
  | attachment => "Attachment"
  | size => "Size"

def ofName? (name : String) : Option Rule :=
  all.find? fun rule => rule.name == name

/-- What a rule produces, for listings. -/
def description : Rule → String
  | bold => "**bold**"
  | italic => "_italic_"
  | underline => "[u]underline[/u]"
  | code => "fenced code block, or `inline code` when allowed"
  | list => "list container"
  | item => "* item / 1. item"
  | image => "![](src)"
  | url => "[text](url), or the bare url"
  | email => "<address>"
  | lineBreak => "line break"
  | smilie => "smilie replacement"
  | video => "video watch url"
  | quote => "[quote=\"...\"] header or > block quote"
  | attachment => "upload reference"
  | size => "<small>/<big>"

theorem ofTag?_tag (rule : Rule) : ofTag? rule.tag = some rule := by
  cases rule <;> decide

theorem tag_of_ofTag? {tag : String} {rule : Rule} (found : ofTag? tag = some rule) :
    rule.tag = tag := by
  simpa using List.find?_some found

end Rule
end ForumMarkup
