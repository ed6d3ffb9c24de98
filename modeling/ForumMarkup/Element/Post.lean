import ForumMarkup.Element

/-!
Contract: trees put together by hand.

Owns: one constructor for each kind of content, and `Element.post`, the root of a
post with markup.  The trees are those that a reader makes of stored markup.
-/

set_option autoImplicit false

namespace ForumMarkup

namespace Node

def wrap (tag : String) (children : List Node) : Node :=
  .element tag ∅ children

def wrapWith (tag key : String) (value : Text) (children : List Node) : Node :=
  .element tag (.set ∅ key value) children

def lineBreak : Node := wrap Tag.lineBreak []

def bold : List Node → Node := wrap Tag.bold

def italic : List Node → Node := wrap Tag.italic

def underline : List Node → Node := wrap Tag.underline

def strike : List Node → Node := wrap Tag.strike

def color : (color : Text) → List Node → Node := wrapWith Tag.color Key.color

def size : (size : Text) → List Node → Node := wrapWith Tag.size Key.size

def code (content : Text) : Node := wrap Tag.code [.text content]

def codeIn (language content : Text) : Node :=
  wrapWith Tag.code Key.lang language [.text content]

def link : (address : Text) → List Node → Node := wrapWith Tag.url Key.url

/-- A link whose text is its address. -/
def autolink (address : Text) : Node := link address [.text address]

def email (address : Text) : Node := wrapWith Tag.email Key.email address [.text address]

def image (src : Text) : Node := wrapWith Tag.image Key.src src [.text src]

def smilie (code : Text) : Node := wrap Tag.smilie [.text code]

/-- An embedded video, whose text is its short address. -/
def video (id : Text) : Node :=
  wrapWith Tag.video Key.id id [.text ("https://youtu.be/".toList ++ id)]

/-- A reference to an uploaded file. -/
def attachment (index : Nat) (filename : Text) : Node :=
  .element Tag.attachment
    (.ofList [(Key.index, Text.ofNat index), (Key.filename, filename)]) [.text filename]

def quote : List Node → Node := wrap Tag.quote

def quoteBy : (author : Text) → List Node → Node := wrapWith Tag.quote Key.author

/-- A quote of a post by a user, both given by number. -/
def quotePost (postId userId : Nat) (children : List Node) : Node :=
  .element Tag.quote
    (.ofList [(Key.postId, Text.ofNat postId), (Key.userId, Text.ofNat userId)]) children

def items (contents : List (List Node)) : List Node :=
  contents.map (wrap Tag.item)

def list (contents : List (List Node)) : Node :=
  wrap Tag.list (items contents)

def orderedList (contents : List (List Node)) : Node :=
  wrapWith Tag.list Key.type "decimal".toList (items contents)

end Node

def Element.post (children : List Node) : Element :=
  { tag := Tag.richRoot, children }

end ForumMarkup
