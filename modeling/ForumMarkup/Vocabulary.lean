/-!
Contract: the names that stored posts use.

Owns:
- `Tag`, the names of elements: upper case for markup, lower case for roots,
  line breaks and the marker elements that keep the bracket text of a post;
- `Key`, the names of attributes;
- the three groups of tags that have a common rule.
-/

set_option autoImplicit false

namespace ForumMarkup

namespace Tag

/-- Root of a post with markup. -/
def richRoot : String := "r"
/-- Root of a post of plain text. -/
def plainRoot : String := "t"
def bold : String := "B"
def italic : String := "I"
def underline : String := "U"
def strike : String := "S"
def color : String := "COLOR"
def size : String := "SIZE"
def code : String := "CODE"
/-- A list, ordered when it has a `type`. -/
def list : String := "LIST"
def item : String := "LI"
def quote : String := "QUOTE"
def image : String := "IMG"
def url : String := "URL"
def email : String := "EMAIL"
/-- A smilie, whose text is its code. -/
def smilie : String := "E"
def video : String := "YOUTUBE"
def attachment : String := "ATTACHMENT"
def lineBreak : String := "br"
/-- Marker that holds an opening bracket tag. -/
def startMarker : String := "s"
/-- Marker that holds a closing bracket tag. -/
def endMarker : String := "e"
/-- Marker that holds source text without effect. -/
def ignored : String := "i"

/-- Elements that only keep the source of a post. -/
def markers : List String := [startMarker, endMarker, ignored]

/-- Elements whose first text loses the blanks it starts with. -/
def trimmedStarts : List String := [list, item]

/-- Elements inside which a run of line breaks must not end the paragraph. -/
def emphasis : List String := [bold, italic, underline]

end Tag

namespace Key

def url : String := "url"
def src : String := "src"
def email : String := "email"
def type : String := "type"
def postId : String := "post_id"
def userId : String := "user_id"
def author : String := "author"
def filename : String := "filename"
/-- Place of an uploaded file. -/
def index : String := "index"
def size : String := "size"
def id : String := "id"
def lang : String := "lang"
def color : String := "color"

/-- Every key, in the order in which the vocabulary lists them. -/
def all : List String :=
  [url, src, email, type, postId, userId, author, filename, index, size, id, lang, color]

end Key

end ForumMarkup
