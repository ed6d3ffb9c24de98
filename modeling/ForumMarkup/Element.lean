import ForumMarkup.Attributes
import ForumMarkup.Vocabulary

/-!
Contract: the tree of a post that was read.

Owns:
- `Node`, a text leaf or an element with attributes and children, and `Element`,
  the element at the top of such a tree;
- `textContent`, the text leaves in reading order;
- small constructors for elements.

Texts may be empty and adjacent: a tree keeps the leaves it was given.
-/

set_option autoImplicit false

namespace ForumMarkup

/-- A child of an element. -/
inductive Node where
  | text (content : Text)
  | element (tag : String) (attributes : Attributes) (children : List Node)

/-- An element with its attributes and children. -/
structure Element where
  tag : String
  attributes : Attributes := ∅
  children : List Node := []

instance : Inhabited Node := ⟨.text []⟩

namespace Node

mutual

def textContent : Node → Text
  | .text content => content
  | .element _ _ children => textContents children

def textContents : List Node → Text
  | [] => []
  | node :: rest => node.textContent ++ textContents rest

end

/-- The tag of an element, none for a text leaf. -/
def tag? : Node → Option String
  | .text _ => none
  | .element tag _ _ => some tag

/-- Whether a node is an element with the given tag. -/
def hasTag (node : Node) (tag : String) : Bool :=
  node.tag? == some tag

theorem textContents_append (front back : List Node) :
    textContents (front ++ back) = textContents front ++ textContents back := by
  induction front with
  | nil => simp [textContents]
  | cons node rest ih => simp [textContents, ih]

end Node

namespace Element

def ofText (tag : String) (content : Text) : Element :=
  { tag, children := [.text content] }

def set (element : Element) (key : String) (value : Text) : Element :=
  { element with attributes := element.attributes.set key value }

def toNode (element : Element) : Node :=
  .element element.tag element.attributes element.children

/-- Whether the element has the given tag. -/
def hasTag (element : Element) (tag : String) : Bool :=
  element.tag == tag

def textContent (element : Element) : Text :=
  Node.textContents element.children

def childTags (element : Element) : List String :=
  element.children.filterMap Node.tag?

end Element
end ForumMarkup
