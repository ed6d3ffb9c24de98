import ForumMarkup.Markdown.Render

/-!
Contract: what one span writes, in its steps.

Owns:
- `startsLine`, whether a span begins with the line mark;
- `edges`, its opening, content and closing after blanks were moved outside;
- `written`, the text a span adds between the breaks on its two sides.

Main statement: `place_eq`, placing a span is breaks, this text, and breaks; besides,
one equation for each form of a span among its siblings.
-/

set_option autoImplicit false

namespace ForumMarkup.Markdown

/-- Whether a span begins with the line mark behind what is there. -/
def startsLine (mark : Text) (marked : Bool) (span : Span) (buffer : Buffer) : Bool :=
  !mark.isEmpty && !span.isRule .lineBreak && span.lineMark?.isNone && atLineStart marked buffer

/-- Opening, content and closing of a span, with the blanks at the edges of the
content moved outside; code keeps them. -/
def edges (lineStart : Bool) (buffer : Buffer) (span : Span) (content : Text) :
    Text × Text × Text :=
  if span.isRule .code then (span.opening, content, span.closing)
  else
    let start := hoistStart lineStart buffer span.opening content
    let finish := hoistEnd start.2 span.closing
    (start.1, finish.1, finish.2)

/-- What a span adds between the breaks on its two sides. -/
def written (mark : Text) (lineStart leaf : Bool) (parts : Text × Text × Text) : Text :=
  (if lineStart then mark else []) ++ markLines mark parts.1
    ++ (if leaf then markLines mark parts.2.1 else parts.2.1) ++ markLines mark parts.2.2

theorem place_eq (options : Options) (mark : Text) (marked : Bool) (span : Span) (leaf : Bool)
    (content : Text) (buffer : Buffer) :
    place options mark marked span leaf content buffer
      = let spaced := addBreaks options span.kindBefore mark span.breaksBefore buffer
        let lineStart := startsLine mark marked span spaced
        addBreaks options span.kindAfter mark span.breaksAfter
          ((written mark lineStart leaf (edges lineStart spaced span content)).reverse
            ++ spaced) := by
  unfold place edges written startsLine
  dsimp only

/-! ### Siblings and what lies inside -/

theorem siblings_leaf (options : Options) (mark : Text) (marked : Bool) (buffer : Buffer)
    (span : Span) (rest : List SpanTree) :
    siblings options mark marked buffer (.node span [] :: rest)
      = siblings options mark marked
          (place options mark marked span true span.text buffer) rest := by
  rw [siblings]
  rfl

theorem siblings_node (options : Options) (mark : Text) (marked : Bool) (buffer : Buffer)
    (span : Span) {children : List SpanTree} (filled : children ≠ []) (rest : List SpanTree) :
    siblings options mark marked buffer (.node span children :: rest)
      = siblings options mark marked
          (place options mark marked span false
            (inside options (mark ++ span.lineMark?.getD []) (.node span children))
            buffer) rest := by
  cases children with
  | nil => exact absurd rfl filled
  | cons child more =>
      rw [siblings]
      rfl

theorem inside_of_none (options : Options) (mark : Text) {span : Span}
    (unmarked : span.lineMark? = none) (children : List SpanTree) :
    inside options mark (.node span children)
      = (siblings options mark false [] children).reverse := by
  rw [inside, unmarked]
  rfl

theorem inside_of_some (options : Options) (mark : Text) {span : Span} {lineMark : Text}
    (marked : span.lineMark? = some lineMark) (children : List SpanTree) :
    inside options mark (.node span children)
      = (stripBreaks mark (siblings options mark true [] children)).reverse := by
  rw [inside, marked]
  rfl

end ForumMarkup.Markdown
