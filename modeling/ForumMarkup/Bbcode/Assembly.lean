import ForumMarkup.Bbcode.Piece
import ForumMarkup.Bbcode.Smilie
import ForumMarkup.Warning

/-!
Contract: the tree that the pieces of BBCode make up.

Owns:
- `Frame`, an element that is still open, and `Assembly`, a tree under
  construction;
- `Assembly.step`, what one piece adds;
- `Assembly.finish`, which closes what is still open.

Text is collected until an element starts or ends, so that smilies are found in
it as a whole.  Inside a list but outside its items blank text and line breaks are
layout and are dropped; so are those at the end of an item.
-/

set_option autoImplicit false

namespace ForumMarkup.Bbcode

/-- An element whose closing tag has not been seen. -/
structure Frame where
  bracket : Bracket
  attributes : Attributes := ∅
  /-- The children so far, the last one first. -/
  content : List Node := []
  /-- Byte offset of the opening tag. -/
  offset : Nat

/-- Whether a node at the end of an item only lays out the list. -/
def isLayout : Node → Bool
  | .text content => Text.allBlank content
  | .element tag _ _ => tag == Tag.lineBreak

def Frame.toNode (frame : Frame) : Node :=
  let content :=
    if frame.bracket = .item then frame.content.dropWhile isLayout else frame.content
  .element frame.bracket.tag frame.attributes content.reverse

/-- A tree under construction. -/
structure Assembly where
  /-- The open elements, the innermost one first. -/
  frames : List Frame := []
  /-- The children of the root so far, the last one first. -/
  base : List Node := []
  /-- The text since the last element started or ended, newest character first. -/
  pending : Text := []
  /-- The warnings so far, the last one first. -/
  warnings : List Warning := []
  /-- Byte offset of the next piece. -/
  offset : Nat := 0

/-- The style of an ordered list. A list of any other kind is unordered. -/
def listStyle? (kind : Text) : Option Text :=
  match kind with
  | ['1'] => some "decimal".toList
  | ['a'] => some "lower-alpha".toList
  | ['A'] => some "upper-alpha".toList
  | ['i'] => some "lower-roman".toList
  | ['I'] => some "upper-roman".toList
  | _ => none

def oneAttribute (key : String) (value? : Option Text) : Attributes :=
  match value? with
  | some value => .set ∅ key value
  | none => ∅

/-- The attributes that an opening tag gives its element. -/
def openingAttributes (bracket : Bracket) (token : Token) : Attributes :=
  match bracket with
  | .list => oneAttribute Key.type (token.filledArgument?.bind listStyle?)
  | .url => oneAttribute Key.url token.filledArgument?
  | .email => oneAttribute Key.email token.filledArgument?
  | .size => oneAttribute Key.size token.filledArgument?
  | .color => oneAttribute Key.color token.filledArgument?
  | .quote => quoteAttributes token.parameters
  | _ => ∅

namespace Assembly

def top? (assembly : Assembly) : Option Bracket :=
  assembly.frames.head?.map Frame.bracket

/-- Whether the innermost open tag is an item directly inside a list. -/
def isInItem (assembly : Assembly) : Bool :=
  match assembly.frames with
  | inner :: outer :: _ => inner.bracket == .item && outer.bracket == .list
  | _ => false

def addNode (assembly : Assembly) (node : Node) : Assembly :=
  match assembly.frames with
  | [] => { assembly with base := node :: assembly.base }
  | frame :: rest =>
      { assembly with frames := { frame with content := node :: frame.content } :: rest }

def addNodes (assembly : Assembly) (nodes : List Node) : Assembly :=
  nodes.foldl addNode assembly

/-- Turns the collected text into children; blank text directly in a list is
dropped. -/
def flush (codes : List Text) (assembly : Assembly) : Assembly :=
  let text := assembly.pending.reverse
  let emptied := { assembly with pending := [] }
  if text = [] ∨ (assembly.top? = some .list ∧ Text.allBlank text) then emptied
  else emptied.addNodes (splitSmilies codes text)

def addElement (codes : List Text) (assembly : Assembly) (element : Element) : Assembly :=
  (assembly.flush codes).addNode element.toNode

def collect (assembly : Assembly) (text : Text) : Assembly :=
  { assembly with pending := text.reverse ++ assembly.pending }

def warn (assembly : Assembly) (cause : Cause) (message : String) (offset : Nat) : Assembly :=
  { assembly with
    warnings := { severity := .minor, cause, message, offset? := some offset } :: assembly.warnings }

/-- Warns that the element of a frame was never closed. -/
def warnUnclosed (assembly : Assembly) (frame : Frame) : Assembly :=
  let name := frame.bracket.warningName
  assembly.warn (.unclosedTag name) ("[" ++ name ++ "] was never closed") frame.offset

def openFrame (assembly : Assembly) (bracket : Bracket) (attributes : Attributes) : Assembly :=
  { assembly with frames := { bracket, attributes, offset := assembly.offset } :: assembly.frames }

def closeTop (assembly : Assembly) : Assembly :=
  match assembly.frames with
  | [] => assembly
  | frame :: rest => { assembly with frames := rest }.addNode frame.toNode

/-- Closes elements that were never closed by their own tags, the innermost
`count`. An item that closes together with its list is not reported: the one
directly inside the list that the tag `outer` closes, or, at the end of the
input, any item directly inside a list. -/
def closeUnclosed (outer : Option Bracket) : (count : Nat) → Assembly → Assembly
  | 0, assembly => assembly
  | count + 1, assembly =>
      match assembly.frames with
      | [] => assembly
      | frame :: _ =>
          let expected : Bool := match outer with
            | some bracket => bracket == .list && frame.bracket == .item && count == 0
            | none => assembly.isInItem
          closeUnclosed outer count
            (if expected then assembly else assembly.warnUnclosed frame).closeTop

/-- Closes the innermost open element of a tag and all that is open inside it. A
tag without an open element is kept as text. -/
def close (codes : List Text) (assembly : Assembly) (bracket : Bracket) (token : Token) :
    Assembly :=
  match assembly.frames.findIdx? (·.bracket == bracket) with
  | none =>
      (assembly.warn (.unmatchedClose (String.ofList token.name))
        ("closing tag " ++ String.ofList token.text ++ " without opener kept as text")
        assembly.offset).collect token.text
  | some inner => (closeUnclosed (some bracket) inner (assembly.flush codes)).closeTop

/-- Opens an item in place of the one before it. Outside of a list the tag is kept
as text. -/
def openItem (codes : List Text) (assembly : Assembly) (token : Token) : Assembly :=
  let flushed := assembly.flush codes
  let ready := if flushed.isInItem then flushed.closeTop else flushed
  if ready.top? = some .list then ready.openFrame .item ∅
  else
    (ready.warn (.misplaced "*") "list item outside of a list kept as text"
      ready.offset).collect token.text

/-- What a lexeme adds; `source` is the text it was read from. -/
def act (codes : List Text) (assembly : Assembly) (source : Text) : Lexeme → Assembly
  | .char _ | .verbatim => assembly.collect source
  | .carriageReturn => assembly
  | .lineFeed =>
      if assembly.top? = some .list then assembly
      else assembly.addElement codes { tag := Tag.lineBreak }
  | .opener .item token => assembly.openItem codes token
  | .opener bracket token =>
      (assembly.flush codes).openFrame bracket (openingAttributes bracket token)
  | .closer bracket token => assembly.close codes bracket token
  | .whole element => assembly.addElement codes element
  | .endlessCode element =>
      (assembly.warn (.unclosedTag "code") "code block runs to end of input"
        assembly.offset).addElement codes element

/-- What a piece adds. -/
def step (codes : List Text) (assembly : Assembly) (piece : Piece) : Assembly :=
  let next := assembly.act codes piece.source piece.lexeme
  { next with offset := assembly.offset + Text.byteLength piece.source }

/-- Closes what is still open. -/
def finish (codes : List Text) (assembly : Assembly) : Assembly :=
  let flushed := assembly.flush codes
  closeUnclosed none flushed.frames.length flushed

/-- The root of a finished tree, with the warnings in order. -/
def toReading (assembly : Assembly) : Reading Element where
  value := { tag := Tag.richRoot, children := assembly.base.reverse }
  warnings := assembly.warnings.reverse

end Assembly
end ForumMarkup.Bbcode
