import ForumMarkup.Element.Clean
import ForumMarkup.Span.Decoration

/-!
Contract: the span tree of a post.

Owns:
- `Cursor`, the spans written so far at one place, and the items counted so far;
- `Node.plan`, which adds what a node writes;
- `Element.plan`, the span tree of a whole post.

An element without a rule gets no span, and what it holds belongs to the span
around it.  Line breaks that follow each other there share one span.  A span whose
content was replaced holds no other spans, so nothing below its element is looked
at.
-/

set_option autoImplicit false

namespace ForumMarkup

/-- A place inside a span while the spans there are laid out. -/
structure Cursor where
  /-- The spans in place, the last one first. -/
  before : List SpanTree := []
  /-- The number of items so far in the innermost open list. -/
  items : Nat := 0

def Cursor.add (cursor : Cursor) (tree : SpanTree) : Cursor :=
  { cursor with before := tree :: cursor.before }

/-- Where the span of an element begins: with a new span, or for a line break with
the line break just before it. Gives that span, the spans already inside it, the
last one first, and the spans before it. -/
def Cursor.begin (cursor : Cursor) (rule : Rule) : Span × List SpanTree × List SpanTree :=
  let fresh := ({ origin := .rule rule }, [], cursor.before)
  match rule, cursor.before with
  | .lineBreak, .node span children :: before =>
      if span.isRule .lineBreak then (span, children.reverse, before) else fresh
  | _, _ => fresh

/-- What the inside of an element sees around it. -/
def Scope.enter (scope : Scope) (rule : Rule) (element : Element) : Scope :=
  let inner := { scope with
    parent := element.tag
    emphasised := scope.emphasised || Tag.emphasis.contains element.tag }
  if rule = .list then
    { inner with lists := scope.lists + 1, ordered := element.attributes.contains Key.type }
  else inner

namespace Node

mutual

/-- Adds the spans of a node. -/
def plan (options : Options) (scope : Scope) : Node → Cursor → Inquiry Cursor
  | .text content, cursor => pure (cursor.add (.ofText (Entity.decode content)))
  | .element tag attributes children, cursor =>
      match Rule.ofTag? tag with
      | none => planAll options { scope with parent := tag } children cursor
      | some rule => do
          let element : Element := ⟨tag, attributes, children⟩
          let (start, within, before) := cursor.begin rule
          let span ← decorate options scope cursor.items rule element start
          let items := if rule = .item then cursor.items + 1 else cursor.items
          if span.replaced then
            return { before := .node span within.reverse :: before, items }
          else
            let inner : Cursor := { before := within, items := if rule = .list then 0 else items }
            let ending ← planAll options (scope.enter rule element) children inner
            return {
              before := .node span ending.before.reverse :: before
              items := if rule = .list then items else ending.items }

def planAll (options : Options) (scope : Scope) : List Node → Cursor → Inquiry Cursor
  | [], cursor => pure cursor
  | node :: rest, cursor => do
      let next ← node.plan options scope cursor
      planAll options scope rest next

end

end Node

/-- The span tree of a post. -/
def Element.plan (options : Options) (post : Element) : Inquiry SpanTree := do
  let post := post.clean
  let cursor ← Node.planAll options { parent := post.tag } post.children {}
  return .node { origin := .root } cursor.before.reverse

end ForumMarkup
