import ForumMarkup.Markdown.Render
import ForumMarkup.Span.Plan

/-!
Contract: the Markdown of a post.

Owns: `Element.toMarkdown`, a conversion as a program of questions, its run under
a resolver and its plain form without any answers.
-/

set_option autoImplicit false

namespace ForumMarkup.Element

/-- The Markdown of a post, with the questions it takes. -/
def toMarkdown (options : Options) (post : Element) : Inquiry Text := do
  let tree ← post.plan options
  return tree.render options

/-- The Markdown of a post under a resolver, or the first failure. -/
def convert {ε : Type} (options : Options) (resolver : Resolver ε) (post : Element) :
    Except ε Text :=
  (post.toMarkdown options).run resolver

/-- The Markdown of a post when nothing is known about what it names. -/
def convertPlain (options : Options) (post : Element) : Text :=
  (post.toMarkdown options).evaluate Lookup.unresolved

end ForumMarkup.Element
