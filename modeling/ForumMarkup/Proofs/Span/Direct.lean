import ForumMarkup.Element.Post
import ForumMarkup.Span.Plan

/-!
Contract: plans that are made without any question.

Owns: `Node.Lays`, nodes that lay out the same trees in every scope, with one rule
for each kind of node that does.

Main statement: `plan_of_lays`, the span tree of a post of such nodes.
-/

set_option autoImplicit false

namespace ForumMarkup

open Decoration

namespace Node

/-- Behind the spans `prior`, the last one first, the nodes lay out the given trees. -/
def Lays (options : Options) (prior : List SpanTree) (nodes : List Node)
    (trees : List SpanTree) : Prop :=
  ∀ (scope : Scope) (items : Nat),
    planAll options scope nodes { before := prior, items }
      = .done { before := trees.reverse ++ prior, items }

section

variable {options : Options} {prior : List SpanTree}

theorem lays_nil : Lays options prior [] [] :=
  fun _ _ => rfl

theorem Lays.text {content read : Text} {rest : List Node} {trees : List SpanTree}
    (reads : Entity.decode content = read)
    (later : Lays options (.ofText read :: prior) rest trees) :
    Lays options prior (.text content :: rest) (.ofText read :: trees) := by
  intro scope items
  rw [← reads] at later ⊢
  rw [List.reverse_cons, List.append_assoc]
  exact later scope items

/-- An element is laid out as one span around the trees of its content. -/
theorem Lays.element (rule : Rule) {attributes : Attributes} {children rest : List Node}
    {span : Span} {inside trees : List SpanTree} (noList : rule ≠ .list) (noItem : rule ≠ .item)
    (fresh : ∀ items, Cursor.begin { before := prior, items } rule
      = ({ origin := .rule rule }, [], prior))
    (decorated : ∀ scope items, decorate options scope items rule
      ⟨rule.tag, attributes, children⟩ { origin := .rule rule } = .done span)
    (open_ : span.replaced = false) (inner : Lays options [] children inside)
    (later : Lays options (.node span inside :: prior) rest trees) :
    Lays options prior (.element rule.tag attributes children :: rest)
      (.node span inside :: trees) := by
  intro scope items
  have first : plan options scope (.element rule.tag attributes children)
      { before := prior, items } = .done { before := .node span inside :: prior, items } := by
    rw [plan, Rule.ofTag?_tag]
    dsimp only
    rw [fresh]
    dsimp only
    rw [decorated, Inquiry.done_bind, open_, if_neg noList, if_neg noItem,
      if_neg Bool.false_ne_true, inner, Inquiry.done_bind, if_neg noList, List.append_nil,
      List.reverse_reverse]
    rfl
  rw [planAll, first, Inquiry.done_bind, later, List.reverse_cons, List.append_assoc]
  rfl

end

end Node

theorem clean_post {nodes : List Node} (clean : Node.cleanAll false nodes = nodes) :
    (Element.post nodes).clean = Element.post nodes := by
  unfold Element.clean Element.post
  rw [show Tag.trimmedStarts.contains Tag.richRoot = false by decide, clean]

/-- The span tree of a post that cleaning leaves as it is. -/
theorem plan_of_lays {options : Options} {nodes : List Node} {trees : List SpanTree}
    (clean : (Element.post nodes).clean = Element.post nodes)
    (lays : Node.Lays options [] nodes trees) :
    (Element.post nodes).plan options = .done (.node { origin := .root } trees) := by
  unfold Element.plan
  rw [clean]
  dsimp only
  rw [show (Element.post nodes).children = nodes from rfl, lays, Inquiry.done_bind,
    List.append_nil, List.reverse_reverse]
  rfl

end ForumMarkup
