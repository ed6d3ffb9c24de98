import ForumMarkup.Proofs.Markdown.Questions
import ForumMarkup.Proofs.Span.Steps

/-!
Contract: the spans of a plan one by one, and what an element with a rule adds to them.

Owns:
- `SpanTree.spots`, every span of a tree with the spans around it, in document order, and
  `SpanTree.spans`, these spans alone;
- `SpanTree.spansWhere`, the spans of some trees that have a property.

Main statements: `exists_of_plan_rule`, the two ways in which an element with a rule is laid
out, with the items it counts; and `spansWhere_ruled`, what it adds to the spans of a kind.
-/

set_option autoImplicit false

namespace ForumMarkup

variable {ε : Type} {resolver : Resolver ε}

/-- A part of a span tree, with the spans around it, the innermost one first. -/
structure Spot where
  tree : SpanTree
  around : List Span

namespace SpanTree

mutual

/-- The parts of a tree, each in front of those inside of it. -/
def spots (around : List Span) : SpanTree → List Spot
  | .node span children => ⟨.node span children, around⟩ :: spotsOf (span :: around) children

def spotsOf (around : List Span) : List SpanTree → List Spot
  | [] => []
  | tree :: rest => tree.spots around ++ spotsOf around rest

end

mutual

def spans : SpanTree → List Span
  | .node span children => span :: spansOf children

def spansOf : List SpanTree → List Span
  | [] => []
  | tree :: rest => tree.spans ++ spansOf rest

end

def spansWhere (p : Span → Bool) (trees : List SpanTree) : List Span :=
  (spansOf trees).filter p

variable {p : Span → Bool}

theorem spansWhere_cons (tree : SpanTree) (rest : List SpanTree) :
    spansWhere p (tree :: rest) = tree.spans.filter p ++ spansWhere p rest := by
  rw [spansWhere, spansOf, List.filter_append]
  rfl

theorem spansWhere_append (front back : List SpanTree) :
    spansWhere p (front ++ back) = spansWhere p front ++ spansWhere p back := by
  induction front with
  | nil => rfl
  | cons tree rest ih =>
      rw [List.cons_append, spansWhere_cons, ih, spansWhere_cons, List.append_assoc]

theorem spansWhere_node (span : Span) (children : List SpanTree) :
    spansWhere p [.node span children]
      = (if p span then [span] else []) ++ spansWhere p children := by
  rw [spansWhere_cons, SpanTree.spans, List.filter_cons, show spansWhere p [] = [] from rfl,
    List.append_nil]
  split <;> rfl

/-- A span behind others comes last, with what is inside of it. -/
theorem spansWhere_reverse_cons (span : Span) (children before : List SpanTree) :
    spansWhere p (.node span children :: before).reverse
      = spansWhere p before.reverse ++ (if p span then [span] else [])
        ++ spansWhere p children := by
  rw [List.reverse_cons, spansWhere_append, spansWhere_node, List.append_assoc]

theorem spansWhere_reverse_text {text : Text} (other : p { origin := .text, text } = false)
    (before : List SpanTree) :
    spansWhere p (SpanTree.ofText text :: before).reverse = spansWhere p before.reverse := by
  rw [SpanTree.ofText, spansWhere_reverse_cons, other, if_neg Bool.false_ne_true, List.append_nil]
  exact List.append_nil _

end SpanTree

open SpanTree (spansWhere spansWhere_append spansWhere_reverse_cons)

/-! ### Elements with a rule -/

/-- The rule that was found for an element is the only one for its tag. -/
theorem Element.hasTag_tag {element : Element} {rule : Rule}
    (found : Rule.ofTag? element.tag = some rule) (other : Rule) :
    element.hasTag other.tag = decide (rule = other) := by
  rw [Element.hasTag, Bool.eq_iff_iff, beq_iff_eq, decide_eq_true_iff]
  constructor
  · intro same
    rw [same, Rule.ofTag?_tag] at found
    exact (Option.some.inj found).symm
  · rintro rfl
    exact (Rule.tag_of_ofTag? found).symm

theorem Element.not_hasTag_tag {element : Element} (noRule : Rule.ofTag? element.tag = none)
    (other : Rule) : element.hasTag other.tag = false := by
  rw [Element.hasTag, beq_eq_false_iff_ne]
  intro same
  rw [same, Rule.ofTag?_tag] at noRule
  cases noRule

theorem Span.isRule_of_origin {span : Span} {rule : Rule} (origin : span.origin = .rule rule)
    (other : Rule) : span.isRule other = decide (rule = other) := by
  rw [Span.isRule, origin, Bool.eq_iff_iff, beq_iff_eq, Origin.rule.injEq, decide_eq_true_iff]

namespace Node

variable {options : Options} {scope : Scope} {tag : String} {attributes : Attributes}
  {children : List Node} {rule : Rule} {cursor ending : Cursor}

/-- An element with a rule gets one span. Where something is written in place of its content,
the spans inside of it are those it goes on with. Otherwise its children come behind these,
and go on with the count of items, which a list keeps to itself. -/
theorem exists_of_plan_rule (found : Rule.ofTag? tag = some rule) (resumable : cursor.Resumable)
    (ran : ((Node.element tag attributes children).plan options scope cursor).run resolver
      = .ok ending) :
    let element : Element := ⟨tag, attributes, children⟩
    let items := if rule = .item then cursor.items + 1 else cursor.items
    ∃ span,
      (decorate options scope cursor.items rule element (cursor.begin rule).1).run resolver
        = .ok span ∧
      span.origin = .rule rule ∧ span.replaced = element.isReplaced resolver ∧
      if element.isReplaced resolver then
        ending = {
          before := .node span (cursor.begin rule).2.1.reverse :: (cursor.begin rule).2.2
          items }
      else ∃ last,
        (planAll options (scope.enter rule element) children
          { before := (cursor.begin rule).2.1
            items := if rule = .list then 0 else items }).run resolver = .ok last ∧
        ending = {
          before := .node span last.before.reverse :: (cursor.begin rule).2.2
          items := if rule = .list then items else last.items } := by
  intro element items
  obtain ⟨⟨origin, fresh⟩, _⟩ := Cursor.resumable_begin resumable rule
  rw [plan, found] at ran
  dsimp only at ran
  generalize cursor.begin rule = begun at ran origin fresh ⊢
  obtain ⟨start, inside, prior⟩ := begun
  dsimp only at ran origin fresh ⊢
  obtain ⟨span, decorated, goesOn⟩ := Inquiry.exists_of_run_bind ran
  have posed := @poses_decorate _ resolver options scope cursor.items rule element found start
    fresh
  obtain ⟨sameOrigin, replaced⟩ := posed.of_run decorated
  refine ⟨span, decorated, sameOrigin.trans origin, replaced, ?_⟩
  rw [replaced] at goesOn
  split at goesOn
  · next closed =>
      cases goesOn
      rw [if_pos closed]
  · next opened =>
      obtain ⟨last, laid, same⟩ := Inquiry.exists_of_run_bind goesOn
      cases same
      rw [if_neg opened]
      exact ⟨last, laid, rfl⟩

end Node

namespace Cursor

variable {p : Span → Bool} (cursor : Cursor) {rule : Rule}

/-- Where line breaks do not count, the spans in place are those before the place where a span
begins and those already inside of it. -/
theorem spansWhere_begin
    (noBreak : ∀ span : Span, span.isRule .lineBreak = true → p span = false) (rule : Rule) :
    spansWhere p cursor.before.reverse
      = spansWhere p (cursor.begin rule).2.2.reverse
        ++ spansWhere p (cursor.begin rule).2.1.reverse := by
  have fresh : spansWhere p cursor.before.reverse
      = spansWhere p cursor.before.reverse ++ spansWhere p ([] : List SpanTree) :=
    (List.append_nil _).symm
  unfold Cursor.begin
  split
  · next span children before shape =>
      split
      · next continues =>
          rw [shape, spansWhere_reverse_cons, noBreak span continues, List.reverse_reverse]
          exact congrArg (· ++ _) (List.append_nil _)
      · exact fresh
  · exact fresh

/-- The span of a rule comes behind the spans in place, and behind it what is added inside. -/
theorem spansWhere_ruled
    (noBreak : ∀ span : Span, span.isRule .lineBreak = true → p span = false) {span : Span}
    (origin : span.origin = .rule rule) {inner : List SpanTree} {added : List Span}
    (grown : spansWhere p inner.reverse
      = spansWhere p (cursor.begin rule).2.1.reverse ++ added) :
    spansWhere p (SpanTree.node span inner.reverse :: (cursor.begin rule).2.2).reverse
      = spansWhere p cursor.before.reverse ++ ((if p span then [span] else []) ++ added) := by
  rw [spansWhere_reverse_cons, grown, cursor.spansWhere_begin noBreak rule]
  by_cases isBreak : rule = .lineBreak
  · have silent : p span = false := noBreak span (by rw [Span.isRule, origin, isBreak]; rfl)
    rw [silent, if_neg Bool.false_ne_true, List.append_nil, List.nil_append, List.append_assoc]
  · have empty : (cursor.begin rule).2.1 = [] := by rw [Cursor.begin_of_ne isBreak]
    rw [empty, List.reverse_nil, show spansWhere p [] = [] from rfl, List.append_nil,
      List.nil_append, List.append_assoc]

end Cursor

end ForumMarkup
