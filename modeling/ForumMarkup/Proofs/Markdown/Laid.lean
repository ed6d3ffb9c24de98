import ForumMarkup.Proofs.Markdown.BareSpans
import ForumMarkup.Proofs.Span.Steps

/-!
Contract: what spans have written while they are laid out.

Owns: `laid`, the text of the spans at a cursor, the last one first, with one
equation for each kind of span that can come next.
-/

set_option autoImplicit false

namespace ForumMarkup.Markdown

/-- What spans write behind nothing, the last one first. -/
def laid (options : Options) (mark : Text) (marked : Bool) (before : List SpanTree) : Buffer :=
  siblings options mark marked [] before.reverse

theorem siblings_append (options : Options) (mark : Text) (marked : Bool) (buffer : Buffer)
    (front back : List SpanTree) :
    siblings options mark marked buffer (front ++ back)
      = siblings options mark marked (siblings options mark marked buffer front) back := by
  induction front generalizing buffer with
  | nil => rw [List.nil_append, siblings]
  | cons tree rest ih => rw [List.cons_append, siblings, siblings, ih]

variable (options : Options) (mark : Text) (marked : Bool)

theorem laid_leaf (span : Span) (before : List SpanTree) :
    laid options mark marked (.node span [] :: before)
      = place options mark marked span true span.text (laid options mark marked before) := by
  rw [laid, List.reverse_cons, siblings_append, siblings_leaf, siblings]
  rfl

theorem laid_ofText (line : Text) (before : List SpanTree) :
    laid options [] false (.ofText line :: before)
      = line.reverse ++ laid options [] false before := by
  rw [SpanTree.ofText, laid_leaf, place_unmarked rfl rfl (addBreaks_zero _ _ _ _)]
  exact addBreaks_zero _ _ _ _

/-- A span without a text and a line mark of its own is placed around what is laid inside it. -/
theorem laid_node {span : Span} (unmarked : span.lineMark? = none) (empty : span.text = [])
    (inner before : List SpanTree) :
    laid options mark marked (.node span inner.reverse :: before)
      = place options mark marked span inner.isEmpty (laid options mark false inner).reverse
          (laid options mark marked before) := by
  cases inner with
  | nil =>
      rw [List.reverse_nil, laid_leaf, empty]
      rfl
  | cons tree more =>
      rw [laid, List.reverse_cons, siblings_append, siblings_node _ _ _ _ _ (by simp), unmarked,
        siblings, Option.getD_none, List.append_nil, inside_of_none _ _ unmarked]
      rfl

/-- A run of breaks is written as one request. -/
theorem laid_run (scope : Scope) (count : Nat) (prior : List SpanTree) :
    laid options mark marked (scope.run count prior)
      = addBreaks options (scope.breaks count).kindAfter mark count
          (laid options mark marked prior) := by
  cases count with
  | zero => exact (addBreaks_zero _ _ _ _).symm
  | succ count =>
      have noStart (buffer : Buffer) :
          startsLine mark marked (scope.breaks (count + 1)) buffer = false := by
        unfold startsLine
        rw [show (scope.breaks (count + 1)).isRule .lineBreak = true from rfl]
        simp
      rw [Scope.run, laid_leaf]
      show place options mark marked _ true [] _ = _
      rw [place_inline rfl rfl (addBreaks_zero _ _ _ _) (noStart _) (by rw [markLines_nil, ite_self])]
      rfl

theorem breaks_ne_html (scope : Scope) (count : Nat) : (scope.breaks count).kindAfter ≠ .html := by
  unfold Scope.breaks
  dsimp only
  split <;> decide

end ForumMarkup.Markdown
