import ForumMarkup.Markdown.BreakRun
import ForumMarkup.Markdown.LineMark

/-!
Contract: the text of a span tree.

Owns:
- `place`, which writes one span with its content behind what is written already;
- `inside`, the text of the spans inside a span;
- `SpanTree.render`, the text of the whole tree.

One blank at each edge of a content is moved outside the opening and closing text,
so that emphasis starts and ends at a character that is not blank where no further
blank is there.  Code keeps its blanks where they are.
-/

set_option autoImplicit false

namespace ForumMarkup.Markdown

def endsBlank : Buffer → Bool
  | [] => false
  | c :: _ => Text.isBlank c

/-- Whether the next character starts a line; the very first one does where the
spans around it bring a line mark of their own. -/
def atLineStart (marked : Bool) : Buffer → Bool
  | [] => marked
  | c :: _ => c == '\n'

/-- An opening text and a content, with a blank at the start of the content moved
before the opening; the blank is dropped at the start of a marked line and behind
another blank. -/
def hoistStart (lineStart : Bool) (buffer : Buffer) (opening content : Text) : Text × Text :=
  match content with
  | c :: rest =>
      if Text.isBlank c && (!opening.isEmpty || lineStart) then
        (if lineStart || endsBlank buffer then opening else c :: opening, rest)
      else (opening, content)
  | [] => (opening, [])

/-- A content and a closing text, with a blank at the end of the content moved
behind the closing. -/
def hoistEnd (content closing : Text) : Text × Text :=
  match content.reverse with
  | c :: rest =>
      if Text.isBlank c && !closing.isEmpty then (rest.reverse, closing ++ [c])
      else (content, closing)
  | [] => (content, closing)

/-- Writes a span and its content: the breaks before it, the line mark where the
span starts a line, its opening, content and closing, and the breaks after it.
`leaf` says that the content is the span's own text, whose lines are not marked
yet; `marked` says that the spans around bring a line mark of their own. -/
def place (options : Options) (mark : Text) (marked : Bool) (span : Span) (leaf : Bool)
    (content : Text) (buffer : Buffer) : Buffer :=
  let buffer := addBreaks options span.kindBefore mark span.breaksBefore buffer
  let lineStart := !mark.isEmpty && !span.isRule .lineBreak && span.lineMark?.isNone
    && atLineStart marked buffer
  let (opening, content, closing) :=
    if span.isRule .code then (span.opening, content, span.closing)
    else
      let (opening, content) := hoistStart lineStart buffer span.opening content
      let (content, closing) := hoistEnd content span.closing
      (opening, content, closing)
  let written := (if lineStart then mark else []) ++ markLines mark opening
    ++ (if leaf then markLines mark content else content) ++ markLines mark closing
  addBreaks options span.kindAfter mark span.breaksAfter (written.reverse ++ buffer)

mutual

/-- The text of the spans inside a span, under the line mark of all spans around
them, that span included. The breaks at the end of a marked text are left to the
span itself. -/
def inside (options : Options) (mark : Text) : SpanTree → Text
  | .node span children =>
      let buffer := siblings options mark span.lineMark?.isSome [] children
      (if span.lineMark?.isSome then stripBreaks mark buffer else buffer).reverse

def siblings (options : Options) (mark : Text) (marked : Bool) (buffer : Buffer) :
    List SpanTree → Buffer
  | [] => buffer
  | tree :: rest =>
      let content :=
        if tree.isLeaf then tree.span.text
        else inside options (mark ++ tree.span.lineMark?.getD []) tree
      siblings options mark marked
        (place options mark marked tree.span tree.isLeaf content buffer) rest

end

end ForumMarkup.Markdown

namespace ForumMarkup.SpanTree

/-- The Markdown of a span tree, without the breaks and blanks at its end. Of the
root only the line mark matters. -/
def render (options : Options) (tree : SpanTree) : Text :=
  let mark := tree.span.lineMark?.getD []
  (Markdown.stripBreaks [] (Markdown.inside options mark tree).reverse).reverse

end ForumMarkup.SpanTree
