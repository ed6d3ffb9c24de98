import ForumMarkup.Element.Post
import ForumMarkup.Markdown
import ForumMarkup.Proofs.Element.Below
import ForumMarkup.Proofs.Markdown.BareSpans
import ForumMarkup.Proofs.Span.Textual

/-!
Contract: posts without markup that Markdown is written for.

Owns: `Element.Unruled`, posts in which no element outside of the markers has a rule.

Main statement: `convert_unruled`.  Such a post asks nothing, and its Markdown is the
text of its leaves without the breaks at the end.
-/

set_option autoImplicit false

namespace ForumMarkup

namespace Node

def leafSpan (leaf : Text) : SpanTree :=
  .ofText (Entity.decode leaf)

variable (options : Options)

mutual

/-- A node without ruled elements is laid out as its leaves, wherever it stands. -/
theorem plan_unruled : ∀ (node : Node) (scope : Scope) (cursor : Cursor),
    (∀ element ∈ node.elements, Rule.ofTag? element.tag = none) →
      node.plan options scope cursor
        = .done { cursor with before := (node.leaves.map leafSpan).reverse ++ cursor.before }
  | .text content, scope, cursor, _ => rfl
  | .element tag attributes children, scope, cursor, noRules => by
      obtain ⟨noRule, inner⟩ := List.forall_mem_cons.1 noRules
      rw [plan, noRule]
      exact planAll_unruled children { scope with parent := tag } cursor inner

theorem planAll_unruled : ∀ (nodes : List Node) (scope : Scope) (cursor : Cursor),
    (∀ element ∈ elementsOf nodes, Rule.ofTag? element.tag = none) →
      planAll options scope nodes cursor
        = .done { cursor with before := ((leavesOf nodes).map leafSpan).reverse ++ cursor.before }
  | [], scope, cursor, _ => rfl
  | node :: rest, scope, cursor, noRules => by
      rw [elementsOf] at noRules
      obtain ⟨here, later⟩ := List.forall_mem_append.1 noRules
      rw [planAll, plan_unruled node scope cursor here, Inquiry.done_bind,
        planAll_unruled rest scope _ later, leavesOf, List.map_append, List.reverse_append,
        List.append_assoc]

end

end Node

/-- Texts at the top are written one behind the other. -/
theorem SpanTree.render_texts (options : Options) (texts : List Text) :
    (SpanTree.node { origin := .root } (texts.map SpanTree.ofText)).render options
      = (Markdown.stripBreaks [] texts.flatten.reverse).reverse := by
  have written := Markdown.siblings_texts options false texts [] []
  rw [List.append_nil, List.append_nil, Markdown.siblings] at written
  show (Markdown.stripBreaks [] (Markdown.inside options [] _).reverse).reverse = _
  rw [Markdown.inside_of_none options [] rfl, written, List.reverse_reverse]

namespace Element

/-- Outside of the markers no element below the root has a rule. -/
def Unruled (post : Element) : Prop :=
  ∀ placed ∈ Node.placedOf [] post.children, placed.inMarker = false →
    Rule.ofTag? placed.element.tag = none

instance (post : Element) : Decidable post.Unruled :=
  inferInstanceAs (Decidable (∀ placed ∈ _, _))

variable {post : Element}

/-- What is kept of such a post has no element with a rule. -/
theorem Unruled.below_clean (unruled : post.Unruled) :
    ∀ element ∈ post.clean.below, Rule.ofTag? element.tag = none := by
  intro element member
  obtain ⟨placed, there, apart, rfl⟩ := exists_placed_of_mem_below_clean member
  exact unruled placed there apart

theorem Unruled.plan_eq (unruled : post.Unruled) (options : Options) :
    post.plan options
      = .done (.node { origin := .root } (post.clean.leaves.map Node.leafSpan)) := by
  have laid := Node.planAll_unruled options post.clean.children { parent := post.clean.tag } {}
    unruled.below_clean
  unfold Element.plan
  dsimp only
  rw [laid, Inquiry.done_bind, List.append_nil, List.reverse_reverse]
  rfl

/-- Nothing is asked, and of the joined leaves only the end is stripped. -/
theorem Unruled.toMarkdown_eq (unruled : post.Unruled) (options : Options) :
    post.toMarkdown options
      = .done (Markdown.stripBreaks [] (decodedText post.clean.leaves).reverse).reverse := by
  have spans : post.clean.leaves.map Node.leafSpan
      = (post.clean.leaves.map Entity.decode).map SpanTree.ofText := by
    rw [List.map_map]
    rfl
  unfold Element.toMarkdown
  rw [unruled.plan_eq options, Inquiry.done_bind, spans, SpanTree.render_texts, decodedText,
    List.flatMap_def]
  rfl

end Element

/-- A post in which nothing but the markers holds elements with a rule asks no question,
and it is written as its decoded text leaves, one behind the other, without the breaks at
the end. -/
theorem convert_unruled {ε : Type} (options : Options) (resolver : Resolver ε) {post : Element}
    (unruled : post.Unruled) :
    (post.toMarkdown options).asked resolver = [] ∧
      post.convert options resolver
        = .ok (Markdown.stripBreaks [] (decodedText post.clean.leaves).reverse).reverse := by
  unfold Element.convert
  rw [unruled.toMarkdown_eq options]
  exact ⟨rfl, rfl⟩

def strikingPost : Element :=
  .post [.text "*a* ".toList,
    .wrap Tag.strike [.wrap Tag.startMarker [.bold [.text "[s]".toList]],
      .color "red".toList [.text "[b]&amp;".toList, .wrap Tag.ignored [.text ">".toList]],
      .text "\n c\n\nd".toList],
    .wrap Tag.endMarker [.text "[/s]".toList], .text "e \\\n".toList]

theorem convert_unruled_strikingPost :
    strikingPost.Unruled ∧
      (strikingPost.toMarkdown {}).asked (Resolver.nothing : Resolver Unit) = [] ∧
      strikingPost.convert {} (Resolver.nothing : Resolver Unit)
        = .ok "*a* [b]&c\n\nde".toList := by
  have unruled : strikingPost.Unruled := by decide
  have text : (Markdown.stripBreaks [] (decodedText strikingPost.clean.leaves).reverse).reverse
      = "*a* [b]&c\n\nde".toList := by decide +kernel
  obtain ⟨asked, converted⟩ := convert_unruled {} (Resolver.nothing : Resolver Unit) unruled
  rw [text] at converted
  exact ⟨unruled, asked, converted⟩

end ForumMarkup
