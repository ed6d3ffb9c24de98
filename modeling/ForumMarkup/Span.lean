import ForumMarkup.Rule
import ForumMarkup.Text.Blank

/-!
Contract: the plan of a Markdown text, between the tree that was read and the
text that is written.

Owns:
- `Span`, what one stretch of output puts around its content, how many line
  breaks it needs on either side and how they are spelled;
- `SpanTree`, spans inside spans.
-/

set_option autoImplicit false

namespace ForumMarkup

/-- How the line breaks on one side of a span are spelled. -/
inductive BreakKind where
  /-- Plain line feeds, and hard breaks in a long run. -/
  | auto
  /-- Hard breaks. -/
  | hard
  /-- The edge of a block: always one break more than is there. -/
  | html
  deriving DecidableEq, Repr

/-- Where a span comes from. -/
inductive Origin where
  | root
  | text
  | rule (rule : Rule)
  deriving DecidableEq, Repr

/-- A stretch of output. -/
structure Span where
  origin : Origin
  /-- What is written when no span lies inside. -/
  text : Text := []
  /-- Written before the content. -/
  opening : Text := []
  /-- Written after the content. -/
  closing : Text := []
  breaksBefore : Nat := 0
  breaksAfter : Nat := 0
  kindBefore : BreakKind := .auto
  kindAfter : BreakKind := .auto
  /-- Put before every line written inside. -/
  lineMark? : Option Text := none
  /-- The text stands for the whole content, and no span lies inside. -/
  replaced : Bool := false
  deriving DecidableEq, Repr

namespace Span

def enclose (span : Span) (marker : Text) : Span :=
  { span with opening := marker, closing := marker }

def setBreaks (span : Span) (count : Nat) : Span :=
  { span with breaksBefore := count, breaksAfter := count }

/-- The span with a text in place of its content. -/
def replace (span : Span) (text : Text) : Span :=
  { span with text, replaced := true }

def isRule (span : Span) (rule : Rule) : Bool :=
  span.origin == .rule rule

end Span

/-- A span with the spans inside it, in order. -/
inductive SpanTree where
  | node (span : Span) (children : List SpanTree)

namespace SpanTree

def span : SpanTree → Span
  | .node span _ => span

def children : SpanTree → List SpanTree
  | .node _ children => children

def isLeaf (tree : SpanTree) : Bool :=
  tree.children.isEmpty

def ofText (text : Text) : SpanTree :=
  .node { origin := .text, text } []

mutual

def size : SpanTree → Nat
  | .node _ children => 1 + sizes children

def sizes : List SpanTree → Nat
  | [] => 0
  | tree :: rest => tree.size + sizes rest

end

end SpanTree
end ForumMarkup
