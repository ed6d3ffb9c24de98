import ForumMarkup.Element.Post
import ForumMarkup.Markdown
import ForumMarkup.Proofs.Markdown.Place
import ForumMarkup.Proofs.Span.Steps

/-!
Contract: the Markdown of posts that are laid out without any question.

Main statements: `toMarkdown_of_planAll` and `convertPlain_of_planAll`.
-/

set_option autoImplicit false

namespace ForumMarkup.Markdown

/-- A post whose kept nodes ask nothing is written as their spans without the breaks at
the end. -/
theorem toMarkdown_of_planAll {options : Options} {nodes kept : List Node} {cursor : Cursor}
    (clean : (Element.post nodes).clean = .post kept)
    (planned : Node.planAll options { parent := Tag.richRoot } kept {} = .done cursor) :
    (Element.post nodes).toMarkdown options
      = .done (stripBreaks [] (siblings options [] false [] cursor.before.reverse)).reverse := by
  have plan : (Element.post nodes).plan options
      = .done (.node { origin := .root } cursor.before.reverse) := by
    unfold Element.plan
    rw [clean]
    show Node.planAll options { parent := Tag.richRoot } kept {} >>= _ = _
    rw [planned, Inquiry.done_bind]
    rfl
  unfold Element.toMarkdown
  rw [plan, Inquiry.done_bind]
  show Inquiry.done (stripBreaks []
    (inside options [] (.node { origin := .root } _)).reverse).reverse = _
  rw [inside_of_none options [] rfl, List.reverse_reverse]

theorem convertPlain_of_planAll {options : Options} {nodes kept : List Node} {cursor : Cursor}
    (clean : (Element.post nodes).clean = .post kept)
    (planned : Node.planAll options { parent := Tag.richRoot } kept {} = .done cursor) :
    (Element.post nodes).convertPlain options
      = (stripBreaks [] (siblings options [] false [] cursor.before.reverse)).reverse := by
  unfold Element.convertPlain
  rw [toMarkdown_of_planAll clean planned]
  rfl

end ForumMarkup.Markdown
