import Mathlib.Data.List.Forall2
import ForumMarkup.Proofs.Markdown.CalmText
import ForumMarkup.Proofs.Markdown.RepeatedMarkers

/-!
Contract: breaks in emphasis do not end it.

Owns:
- `SpanTree.emphases`, the spans of bold, italic and underlined text in a plan, and
  `Element.emphases`, the visited elements of such text;
- `SpanTree.Lays`, spans whose content is that of an element.

Main statements: `forall₂_lays_plan`, the spans of emphasis are those of the visited elements
of emphasis, in document order; and `emphases_without_blank_lines`.
-/

set_option autoImplicit false

namespace ForumMarkup

open Markdown

variable {ε : Type} {resolver : Resolver ε}

theorem forall₂_of_mem {α β : Type} {r s : α → β → Prop} {front : List α} {back : List β}
    (related : List.Forall₂ r front back)
    (weaker : ∀ a ∈ front, ∀ b ∈ back, r a b → s a b) : List.Forall₂ s front back := by
  induction related with
  | nil => exact .nil
  | cons first _ ih =>
      refine .cons (weaker _ List.mem_cons_self _ List.mem_cons_self first) (ih ?_)
      exact fun a inFront b inBack =>
        weaker a (List.mem_cons_of_mem _ inFront) b (List.mem_cons_of_mem _ inBack)

/-! ### Spans of emphasis -/

def Span.isEmphasis (span : Span) : Bool :=
  emphasisRules.any span.isRule

theorem Span.isEmphasis_of_origin {span : Span} {rule : Rule} (origin : span.origin = .rule rule) :
    span.isEmphasis = emphasisRules.contains rule := by
  have same (other : Rule) : span.isRule other = true ↔ rule = other := by
    rw [Span.isRule, origin, beq_iff_eq, Origin.rule.injEq]
  rw [Bool.eq_iff_iff, Span.isEmphasis, List.any_eq_true, List.contains_iff_mem]
  simp only [same, exists_eq_right']

namespace SpanTree

/-- The spans of emphasis at the top of several trees and inside of them, in order, each with
the line mark in effect inside it. -/
def emphasesUnder (mark : Text) (trees : List SpanTree) : List (Text × SpanTree) :=
  (spansUnderAll mark trees).filter fun place => place.2.span.isEmphasis

/-- The spans of emphasis of a tree, in order, each with the line mark in effect inside it. -/
def emphases (tree : SpanTree) : List (Text × SpanTree) :=
  (tree.spansUnder []).filter fun place => place.2.span.isEmphasis

variable {mark : Text}

theorem emphasesUnder_nil : emphasesUnder mark [] = [] := rfl

theorem emphasesUnder_append (front back : List SpanTree) :
    emphasesUnder mark (front ++ back) = emphasesUnder mark front ++ emphasesUnder mark back := by
  have whole : spansUnderAll mark (front ++ back)
      = spansUnderAll mark front ++ spansUnderAll mark back := by
    induction front with
    | nil => rfl
    | cons tree rest ih =>
        rw [List.cons_append, spansUnderAll, spansUnderAll, ih, List.append_assoc]
  rw [emphasesUnder, whole, List.filter_append]
  rfl

theorem emphasesUnder_node (span : Span) (children : List SpanTree) :
    emphasesUnder mark [.node span children]
      = (if span.isEmphasis then [(mark ++ span.lineMark?.getD [], .node span children)] else [])
        ++ emphasesUnder (mark ++ span.lineMark?.getD []) children := by
  rw [emphasesUnder, spansUnderAll, spansUnder, spansUnderAll, List.append_nil, List.filter_cons]
  show (if span.isEmphasis = true then _ :: emphasesUnder _ children
    else emphasesUnder _ children) = _
  split <;> rfl

/-- The span of an emphasis has the rule of the element, and its content is that of the
element in emphasis. -/
def Lays (options : Options) (resolver : Resolver ε) (tree : SpanTree) (element : Element) :
    Prop :=
  ∃ rule ∈ emphasisRules, rule.tag = element.tag ∧ tree.span.origin = .rule rule ∧
    tree.span.lineMark? = none ∧ ∃ scope items last, Scope.emphasised scope = true ∧
      (Node.planAll options scope element.children { items }).run resolver = .ok last ∧
      tree.children = last.before.reverse

end SpanTree

/-- The visited elements of bold, italic and underlined text, in document order. -/
def Element.emphases (resolver : Resolver ε) (post : Element) : List Element :=
  (post.visited resolver).filter fun element => Tag.emphasis.contains element.tag

open SpanTree (emphasesUnder emphasesUnder_nil emphasesUnder_append emphasesUnder_node)
open Decoration Node

/-! ### Elements and their spans -/

/-- Where a span begins, the spans of emphasis in place are those before it and those already
inside of it. -/
theorem Cursor.emphasesUnder_begin (cursor : Cursor) (rule : Rule) (mark : Text) :
    emphasesUnder mark cursor.before.reverse
      = emphasesUnder mark (cursor.begin rule).2.2.reverse
        ++ emphasesUnder (mark ++ (cursor.begin rule).1.lineMark?.getD [])
          (cursor.begin rule).2.1.reverse := by
  have fresh : emphasesUnder mark cursor.before.reverse
      = emphasesUnder mark cursor.before.reverse ++ emphasesUnder (mark ++ []) [] :=
    (List.append_nil _).symm
  unfold Cursor.begin
  split
  · next span children before shape =>
      split
      · next continues =>
          have noEmphasis : span.isEmphasis = false := by
            rw [Span.isEmphasis_of_origin (eq_of_beq continues)]
            decide
          rw [shape, List.reverse_cons, emphasesUnder_append, emphasesUnder_node, noEmphasis,
            List.reverse_reverse]
          rfl
      · exact fresh
  · exact fresh

/-- A rule adds its span if this is of emphasis, and behind it what is added inside of it. -/
theorem emphasesUnder_ruled {options : Options} {scope : Scope} {earlier : Nat} {rule : Rule}
    {element : Element} {cursor : Cursor} {span : Span}
    (ran : (decorate options scope earlier rule element (cursor.begin rule).1).run resolver
      = .ok span) (origin : span.origin = .rule rule) {mark : Text} {inner : List SpanTree}
    {added : List (Text × SpanTree)}
    (grown : emphasesUnder (mark ++ span.lineMark?.getD []) inner.reverse
      = emphasesUnder (mark ++ span.lineMark?.getD []) (cursor.begin rule).2.1.reverse ++ added) :
    emphasesUnder mark (SpanTree.node span inner.reverse :: (cursor.begin rule).2.2).reverse
      = emphasesUnder mark cursor.before.reverse
        ++ ((if span.isEmphasis then
            [(mark ++ span.lineMark?.getD [], .node span inner.reverse)] else []) ++ added) := by
  rw [List.reverse_cons, emphasesUnder_append, emphasesUnder_node, grown,
    cursor.emphasesUnder_begin rule mark]
  by_cases isBreak : rule = .lineBreak
  · -- The line mark stays the same where a line break goes on with others.
    subst isBreak
    cases ran
    have noEmphasis : (lineBreak scope (cursor.begin .lineBreak).1).isEmphasis = false := by
      rw [Span.isEmphasis_of_origin origin]
      decide
    rw [noEmphasis, if_neg Bool.false_ne_true, List.nil_append, List.nil_append, List.append_assoc]
    rfl
  · rw [Cursor.begin_of_ne isBreak, List.reverse_nil, emphasesUnder_nil, emphasesUnder_nil,
      List.append_nil, List.nil_append]

/-- Nothing is replaced in emphasis. -/
theorem not_isReplaced_of_emphasis {element : Element} {rule : Rule}
    (found : Rule.ofTag? element.tag = some rule) (emphasis : rule ∈ emphasisRules) :
    element.isReplaced resolver = false := by
  rw [Element.isReplaced, found]
  cases rule with
  | bold => rfl
  | italic => rfl
  | underline => rfl
  | _ => exact absurd emphasis (by decide)

/-- The span that a rule of emphasis makes of an element lays the element. -/
theorem lays_ruled {options : Options} {scope : Scope} {earlier : Nat} {rule : Rule}
    (emphasis : rule ∈ emphasisRules) {element : Element} (tag : rule.tag = element.tag)
    {cursor last : Cursor} {span : Span}
    (ran : (decorate options scope earlier rule element (cursor.begin rule).1).run resolver
      = .ok span) {items : Nat}
    (laid : (planAll options (scope.enter rule element) element.children
      { before := (cursor.begin rule).2.1, items }).run resolver = .ok last) :
    (SpanTree.node span last.before.reverse).Lays options resolver element := by
  rw [Cursor.begin_of_ne (others_of_mem_emphasisRules emphasis).2.1] at ran laid
  obtain ⟨made, decorated, origin, wraps⟩ := exists_decorate_wrap options scope earlier
    (mem_wrapRules_of_emphasis emphasis) element
  rw [decorated] at ran
  cases ran
  have unmarked : span.lineMark? = none := congrArg Span.lineMark? wraps.bare
  have within : (scope.enter rule element).emphasised = true := by
    have inside : Tag.emphasis.contains element.tag = true := by
      rw [← tag, Rule.contains_tag_emphasis, List.contains_iff_mem]
      exact emphasis
    unfold Scope.enter
    split <;> simp only [inside, Bool.or_true]
  exact ⟨rule, emphasis, tag, origin, unmarked, _, items, last, within, laid, rfl⟩

namespace Node

mutual

/-- A node adds the spans of the elements of emphasis visited in it. -/
theorem exists_emphases_plan (options : Options) {around : List Element}
    (visible : ∀ outer ∈ around, outer.isReplaced resolver = false) (scope : Scope)
    (mark : Text) :
    ∀ (node : Node) (cursor : Cursor), cursor.Resumable → ∀ {ending : Cursor},
      (node.plan options scope cursor).run resolver = .ok ending →
        ∃ added, emphasesUnder mark ending.before.reverse
            = emphasesUnder mark cursor.before.reverse ++ added ∧
          List.Forall₂ (fun place element => place.2.Lays options resolver element) added
            ((node.visited resolver around).filter fun element =>
              Tag.emphasis.contains element.tag)
  | .text content, cursor, _, ending, ran => by
      cases ran
      refine ⟨[], ?_, .nil⟩
      show emphasesUnder mark (SpanTree.ofText _ :: cursor.before).reverse = _
      rw [List.reverse_cons, emphasesUnder_append, SpanTree.ofText, emphasesUnder_node]
      rfl
  | .element tag attributes children, cursor, resumable, ending, ran => by
      rw [visited_element resolver visible, List.filter_cons]
      cases found : Rule.ofTag? tag with
      | none =>
          rw [plan, found] at ran
          have open_ : Element.isReplaced resolver ⟨tag, attributes, children⟩ = false :=
            Element.not_isReplaced_of_noRule found resolver
          have plain : Tag.emphasis.contains tag = false := by
            simpa using not_mem_emphasis_of_noRule found
          rw [open_, plain, if_neg Bool.false_ne_true, if_neg Bool.false_ne_true]
          exact exists_emphases_planAll options (List.forall_mem_cons.2 ⟨open_, visible⟩) _ mark
            children cursor resumable ran
      | some rule =>
          obtain ⟨span, inner, decorated, origin, shape, filled⟩ :=
            exists_of_plan_ruled found resumable ran
          have ruleTag : rule.tag = tag := Rule.tag_of_ofTag? found
          have sameKind : Tag.emphasis.contains tag = span.isEmphasis := by
            rw [Span.isEmphasis_of_origin origin, ← Rule.contains_tag_emphasis, ruleTag]
          rw [shape, sameKind]
          split at filled
          · next closed =>
              have noEmphasis : span.isEmphasis = false := by
                rw [Span.isEmphasis_of_origin origin, ← Bool.not_eq_true, List.contains_iff_mem]
                intro emphasis
                rw [not_isReplaced_of_emphasis found emphasis] at closed
                cases closed
              refine ⟨_, emphasesUnder_ruled decorated origin (by rw [filled, List.append_nil]), ?_⟩
              rw [noEmphasis, closed]
              exact .nil
          · next opened =>
              obtain ⟨items, last, laid, rfl⟩ := filled
              have open_ := Bool.eq_false_iff.2 opened
              obtain ⟨added, grown, lays⟩ := exists_emphases_planAll options
                (List.forall_mem_cons.2 ⟨open_, visible⟩) _ (mark ++ span.lineMark?.getD [])
                children _ (resumable.within rule items) laid
              refine ⟨_, emphasesUnder_ruled decorated origin grown, ?_⟩
              rw [open_, if_neg Bool.false_ne_true]
              cases kind : span.isEmphasis with
              | false => exact lays
              | true =>
                  rw [Span.isEmphasis_of_origin origin, List.contains_iff_mem] at kind
                  exact .cons (lays_ruled kind ruleTag decorated laid) lays

/-- Nodes add the spans of the elements of emphasis visited in them, in document order. -/
theorem exists_emphases_planAll (options : Options) {around : List Element}
    (visible : ∀ outer ∈ around, outer.isReplaced resolver = false) (scope : Scope)
    (mark : Text) :
    ∀ (nodes : List Node) (cursor : Cursor), cursor.Resumable → ∀ {ending : Cursor},
      (planAll options scope nodes cursor).run resolver = .ok ending →
        ∃ added, emphasesUnder mark ending.before.reverse
            = emphasesUnder mark cursor.before.reverse ++ added ∧
          List.Forall₂ (fun place element => place.2.Lays options resolver element) added
            ((visitedOf resolver around nodes).filter fun element =>
              Tag.emphasis.contains element.tag)
  | [], cursor, _, ending, ran => by
      cases ran
      exact ⟨[], (List.append_nil _).symm, .nil⟩
  | node :: rest, cursor, resumable, ending, ran => by
      rw [planAll] at ran
      obtain ⟨next, first, later⟩ := Inquiry.exists_of_run_bind ran
      have between : next.Resumable :=
        (poses_plan options scope visible node cursor resumable).of_run first
      obtain ⟨here, added, lays⟩ :=
        exists_emphases_plan options visible scope mark node cursor resumable first
      obtain ⟨there, more, laysRest⟩ :=
        exists_emphases_planAll options visible scope mark rest next between later
      refine ⟨here ++ there, ?_, ?_⟩
      · rw [more, added, List.append_assoc]
      · rw [visitedOf_cons, List.filter_append]
        exact List.rel_append lays laysRest

end

end Node

/-- The spans of emphasis in the plan of a post are those of the visited elements of emphasis,
in document order. -/
theorem forall₂_lays_plan (options : Options) (resolver : Resolver ε) {post : Element}
    {tree : SpanTree} (planned : (post.plan options).run resolver = .ok tree) :
    List.Forall₂ (fun place element => place.2.Lays options resolver element) tree.emphases
      (post.clean.emphases resolver) := by
  obtain ⟨ending, laid, made⟩ := Inquiry.exists_of_run_bind planned
  cases made
  have alone : ∀ outer ∈ ([] : List Element), outer.isReplaced resolver = false := nofun
  obtain ⟨added, shape, lays⟩ := exists_emphases_planAll options alone _ [] post.clean.children {}
    nofun laid
  have start : emphasesUnder [] ([] : List SpanTree).reverse = [] := rfl
  rw [start, List.nil_append] at shape
  rw [← shape] at lays
  exact lays

/-! ### No blank line -/

namespace SpanTree

/-- Where only quotes have a line mark, every mark consists of arrows and spaces. -/
theorem chars_of_mem_spansUnder {tree : SpanTree}
    (quotes : tree.Every fun span => ∀ own, span.lineMark? = some own → own = quoteMark) :
    ∀ place ∈ tree.spansUnder [], ∀ c ∈ place.1, c = '>' ∨ c = ' ' := by
  have within {mark : Text} {span : Span} (chars : ∀ c ∈ mark, c = '>' ∨ c = ' ')
      (quote : ∀ own, span.lineMark? = some own → own = quoteMark) :
      ∀ c ∈ mark ++ span.lineMark?.getD [], c = '>' ∨ c = ' ' := by
    cases marked : span.lineMark? with
    | none =>
        rw [Option.getD_none, List.append_nil]
        exact chars
    | some own =>
        rw [quote own marked]
        exact (isMark_append_quoteMark chars).chars
  let Holds (mark : Text) (tree : SpanTree) : Prop :=
    (tree.Every fun span => ∀ own, span.lineMark? = some own → own = quoteMark) ∧
      ∀ c ∈ mark, c = '>' ∨ c = ' '
  have passes : ∀ mark span children, Holds mark (.node span children) →
      ∀ child ∈ children, Holds (mark ++ span.lineMark?.getD []) child :=
    fun _ _ _ holds child member =>
      ⟨holds.1.children child member, within holds.2 holds.1.span⟩
  intro place member
  obtain ⟨around, span, children, rfl, every, chars⟩ :=
    exists_of_mem_spansUnder passes [] tree ⟨quotes, List.forall_mem_nil _⟩ place member
  exact within chars every.span

/-- The text of an emphasis whose element is calm has no blank line. -/
theorem Lays.noBlankLine {options : Options} {tree : SpanTree} {element : Element}
    (lays : tree.Lays options resolver element) (calm : element.Calm) {mark : Text}
    (chars : ∀ c ∈ mark, c = '>' ∨ c = ' ') : NoBlankLine mark (inside options mark tree) := by
  obtain ⟨_, _, _, _, unmarked, scope, items, last, emphasised, laid, shape⟩ := lays
  have start : Cursor.Calm { items } := List.forall_mem_nil _
  have within : last.Calm :=
    (calm_planAll options emphasised element.children _ calm start).of_run laid
  obtain ⟨span, children⟩ := tree
  cases shape
  exact noBlankLine_inside options chars unmarked
    fun child member => within child (List.mem_reverse.1 member)

end SpanTree

/-- Breaks in emphasis do not end it. Without a resolver every post has a plan whose spans of
bold, italic and underlined text are those of the visited elements of such text, in document
order. Each of these elements is one of the post as it is kept, and where that is calm, the
text in the span has no blank line under the line mark in effect. -/
theorem emphases_without_blank_lines (options : Options) (post : Element) :
    ∃ tree, (post.plan options).run (Resolver.nothing : Resolver Unit) = .ok tree ∧
      List.Forall₂
        (fun place element =>
          (∃ rule ∈ emphasisRules, rule.tag = element.tag ∧ place.2.span.origin = .rule rule) ∧
          (∃ original ∈ post.below, element = Node.kept original) ∧
          ∀ original ∈ post.below, element = Node.kept original → original.Calm →
            NoBlankLine place.1 (inside options place.1 place.2))
        tree.emphases (post.clean.emphases (Resolver.nothing : Resolver Unit)) := by
  have total : ∀ lookup, ∃ answer, (Resolver.nothing : Resolver Unit) lookup = .ok answer :=
    fun lookup => ⟨_, rfl⟩
  obtain ⟨tree, planned, quotes⟩ := Inquiry.exists_run (quoteMarked_plan options post) total
  refine ⟨tree, planned, ?_⟩
  refine forall₂_of_mem (forall₂_lays_plan options .nothing planned) ?_
  intro place inPlan element visited lays
  obtain ⟨rule, emphasis, tag, origin, _⟩ := id lays
  refine ⟨⟨rule, emphasis, tag, origin⟩, ?_, ?_⟩
  · exact Element.exists_of_mem_below_clean
      (Element.mem_below_of_mem_visited (List.mem_filter.1 visited).1)
  · rintro original _ rfl calm
    exact lays.noBlankLine calm.kept
      (SpanTree.chars_of_mem_spansUnder quotes place (List.mem_filter.1 inPlan).1)

/-- Breaks at the edges of elements inside of bold text in a quote. -/
example :
    (Element.post [.quote [.bold [.lineBreak, .text "a".toList, .lineBreak,
      .element Tag.size ∅ [.lineBreak, .text "b ".toList, .lineBreak], .lineBreak, .lineBreak,
      .italic [.text " c".toList, .lineBreak], .text "d".toList]]]).convertPlain {}
      = "> **a\n> b\\\n> \\\n> _c_\n> d**".toList := by
  decide +kernel

end ForumMarkup
