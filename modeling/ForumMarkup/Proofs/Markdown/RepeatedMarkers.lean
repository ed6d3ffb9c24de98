import ForumMarkup.Element.Post
import ForumMarkup.Proofs.Markdown.Questions
import ForumMarkup.Proofs.Markdown.Wrapper
import ForumMarkup.Proofs.Span.Spots

/-!
Contract: when emphasis writes its markers twice.

Owns:
- `SpanTree.nestings`, every span with the span directly around it, and
  `SpanTree.Undoubled`, trees in which no emphasis writes its markers directly inside
  of emphasis of the same kind;
- `Node.Placed.isVeiled`, emphasis that only elements without a rule separate from an
  element of its own tag.

Main statement: `undoubled_plan_iff`.  The tree of a post is undoubled exactly if no
element that is visited is veiled.

An element without a rule has no span, so that the element around an element and the
element that owns the span around its span need not be the same one.  The rule of an
emphasis looks at the former only.
-/

set_option autoImplicit false

namespace ForumMarkup

open Markdown

variable {ε : Type} {resolver : Resolver ε}

theorem Rule.contains_tag_emphasis (rule : Rule) :
    Tag.emphasis.contains rule.tag = emphasisRules.contains rule := by
  cases rule <;> decide

/-! ### Spans directly inside of spans -/

/-- Whether a span writes the markers of the emphasis around it once more. -/
def Span.doubles (outer inner : Span) : Bool :=
  emphasisRules.any fun rule => outer.isRule rule && inner.isRule rule && !inner.opening.isEmpty

namespace SpanTree

mutual

/-- Every span inside of a tree, with the span directly around it in front. -/
def nestings : SpanTree → List (Span × Span)
  | .node span children => nestingsIn span children

def nestingsIn (outer : Span) : List SpanTree → List (Span × Span)
  | [] => []
  | tree :: rest => (outer, tree.span) :: tree.nestings ++ nestingsIn outer rest

end

/-- No bold span with markers lies directly inside of a bold span, and likewise for
italic and underlined text. -/
def Undoubled (tree : SpanTree) : Prop :=
  ∀ rule ∈ emphasisRules, ∀ nesting ∈ tree.nestings,
    nesting.1.isRule rule = true → nesting.2.isRule rule = true → nesting.2.opening = []

def doublesIn (outer : Span) (trees : List SpanTree) : Bool :=
  (nestingsIn outer trees).any fun nesting => nesting.1.doubles nesting.2

variable {outer : Span}

theorem doublesIn_cons (span : Span) (children rest : List SpanTree) :
    doublesIn outer (.node span children :: rest)
      = (outer.doubles span || doublesIn span children || doublesIn outer rest) := by
  rw [doublesIn, nestingsIn, nestings, List.any_append, List.any_cons]
  rfl

theorem doublesIn_append (front back : List SpanTree) :
    doublesIn outer (front ++ back) = (doublesIn outer front || doublesIn outer back) := by
  induction front with
  | nil => rfl
  | cons tree rest ih =>
      obtain ⟨span, children⟩ := tree
      rw [List.cons_append, doublesIn_cons, doublesIn_cons, ih]
      simp only [Bool.or_assoc]

theorem doublesIn_reverse (trees : List SpanTree) :
    doublesIn outer trees.reverse = doublesIn outer trees := by
  induction trees with
  | nil => rfl
  | cons tree rest ih =>
      rw [List.reverse_cons, doublesIn_append, ih, Bool.or_comm, ← doublesIn_append]
      rfl

/-- Of the span around only its origin matters. -/
theorem doublesIn_congr {other : Span} (same : other.origin = outer.origin)
    (trees : List SpanTree) : doublesIn other trees = doublesIn outer trees := by
  induction trees with
  | nil => rfl
  | cons tree rest ih =>
      obtain ⟨span, children⟩ := tree
      have here : other.doubles span = outer.doubles span := by
        unfold Span.doubles Span.isRule
        rw [same]
      rw [doublesIn_cons, doublesIn_cons, here, ih]

theorem undoubled_iff (span : Span) (children : List SpanTree) :
    (SpanTree.node span children).Undoubled ↔ doublesIn span children = false := by
  unfold Undoubled doublesIn nestings
  simp only [Span.doubles, List.any_eq_false]
  constructor
  · intro undoubled nesting member doubles
    obtain ⟨rule, emphasis, doubled⟩ := List.any_eq_true.1 doubles
    simp only [Bool.and_eq_true, Bool.not_eq_true'] at doubled
    obtain ⟨⟨outer, inner⟩, marked⟩ := doubled
    rw [undoubled rule emphasis nesting member outer inner] at marked
    cases marked
  · intro none rule emphasis nesting member outer inner
    refine Decidable.byContradiction fun marked => ?_
    refine none nesting member (List.any_eq_true.2 ⟨rule, emphasis, ?_⟩)
    simp [outer, inner, marked]

end SpanTree

/-! ### Elements around elements -/

namespace Node

/-- The rule of the nearest element that has one. -/
def nearestRule? (around : List Element) : Option Rule :=
  around.findSome? fun outer => Rule.ofTag? outer.tag

/-- Whether an element is bold, italic or underlined text in an element of its own tag,
with elements in between, and only such that have no rule. -/
def Placed.isVeiled (placed : Placed) : Bool :=
  Tag.emphasis.contains placed.element.tag
    && nearestRule? placed.around == Rule.ofTag? placed.element.tag
    && placed.around.head?.all fun outer => outer.tag != placed.element.tag

/-- Whether an element gets a span that doubles markers. -/
def Placed.doubles (resolver : Resolver ε) (placed : Placed) : Bool :=
  placed.isVisited resolver && placed.isVeiled

/-- Where the span comes from that the spans of an element lie in. -/
def originAround (around : List Element) : Origin :=
  ((nearestRule? around).map Origin.rule).getD .root

variable {around : List Element} {outer : Span}

theorem isRule_originAround (within : outer.origin = originAround around) (rule : Rule) :
    outer.isRule rule = (nearestRule? around == some rule) := by
  rw [Span.isRule, within, originAround, Bool.eq_iff_iff, beq_iff_eq, beq_iff_eq]
  cases nearestRule? around with
  | none => simp
  | some nearest => simp

/-- A place inside of some elements: the tag directly around is known there, and where the
spans of the place lie in. -/
structure Encloses (around : List Element) (scope : Scope) (outer : Span) : Prop where
  parent : ∀ nearest ∈ around.head?, scope.parent = nearest.tag
  origin : outer.origin = originAround around

end Node

theorem Span.doubles_eq {outer inner : Span} {rule : Rule} (origin : inner.origin = .rule rule) :
    outer.doubles inner
      = (emphasisRules.contains rule && outer.isRule rule && !inner.opening.isEmpty) := by
  have same (other : Rule) : inner.isRule other = true ↔ rule = other := by
    rw [Span.isRule, origin, beq_iff_eq, Origin.rule.injEq]
  rw [Bool.eq_iff_iff, Span.doubles, List.any_eq_true]
  simp only [Bool.and_eq_true, List.contains_iff_mem, same]
  constructor
  · rintro ⟨_, emphasised, ⟨around, rfl⟩, marked⟩
    exact ⟨⟨emphasised, around⟩, marked⟩
  · rintro ⟨⟨emphasised, around⟩, marked⟩
    exact ⟨rule, emphasised, ⟨around, rfl⟩, marked⟩

theorem Span.doubles_text (outer : Span) (text : Text) :
    outer.doubles { origin := .text, text } = false := by
  have none (rule : Rule) : Span.isRule { origin := .text, text } rule = false := rfl
  simp [Span.doubles, none]

open Node Decoration

/-- An element doubles the markers around it if it is veiled. -/
theorem doubles_decorate {options : Options} {scope : Scope} {earlier : Nat} {rule : Rule}
    (element : Element) {around : List Element} {outer start span : Span}
    (found : Rule.ofTag? element.tag = some rule) (encloses : Encloses around scope outer)
    (bare : rule ≠ .lineBreak → start.opening = [])
    (ran : (decorate options scope earlier rule element start).run resolver = .ok span)
    (origin : span.origin = .rule rule) :
    outer.doubles span = Placed.isVeiled ⟨element, around⟩ := by
  have tag : rule.tag = element.tag := Rule.tag_of_ofTag? found
  rw [Span.doubles_eq origin, isRule_originAround encloses.origin, Placed.isVeiled, found]
  dsimp only
  rw [← tag, Rule.contains_tag_emphasis]
  cases emphasised : emphasisRules.contains rule with
  | false => rfl
  | true =>
      have noBreak : rule ≠ .lineBreak := by
        rintro rfl
        exact absurd emphasised (by decide)
      obtain ⟨opening, closing, marker, decorated⟩ :=
        exists_decorate_emphasis options scope earlier emphasised element start
      rw [decorated] at ran
      cases ran
      rw [isEmpty_opening_emphasis marker (bare noBreak)]
      -- Only where a rule is around is there an element around.
      cases around with
      | nil => rfl
      | cons nearest others =>
          rw [encloses.parent nearest rfl]
          rfl

/-- Where a span begins, the spans in place are divided into those inside of it and those
before it. -/
theorem Cursor.doublesIn_begin (cursor : Cursor) (rule : Rule) (outer : Span) :
    (rule ≠ .lineBreak → (cursor.begin rule).1.opening = []) ∧
      SpanTree.doublesIn outer cursor.before
        = (SpanTree.doublesIn (cursor.begin rule).1 (cursor.begin rule).2.1
            || SpanTree.doublesIn outer (cursor.begin rule).2.2) := by
  unfold Cursor.begin
  split
  · next span children before shape =>
      rw [shape]
      split
      · next continues =>
          have origin : span.origin = .rule .lineBreak := eq_of_beq continues
          refine ⟨fun other => absurd rfl other, ?_⟩
          rw [SpanTree.doublesIn_cons, SpanTree.doublesIn_reverse, Span.doubles_eq origin]
          rfl
      · exact ⟨fun _ => rfl, rfl⟩
  · exact ⟨fun _ => rfl, rfl⟩

namespace Node

variable {around : List Element} {scope : Scope} {outer : Span}

theorem Encloses.unruled {tag : String} (noRule : Rule.ofTag? tag = none)
    (encloses : Encloses around scope outer) (attributes : Attributes) (children : List Node) :
    Encloses (⟨tag, attributes, children⟩ :: around) { scope with parent := tag } outer where
  parent := by
    rintro nearest ⟨⟩
    rfl
  origin := by
    rw [encloses.origin, originAround, originAround, nearestRule?, nearestRule?,
      List.findSome?_cons_of_isNone (by rw [noRule]; rfl)]

theorem Encloses.ruled (element : Element) {rule : Rule}
    (found : Rule.ofTag? element.tag = some rule) (origin : outer.origin = .rule rule)
    (scope : Scope) (around : List Element) :
    Encloses (element :: around) (scope.enter rule element) outer where
  parent := by
    rintro nearest ⟨⟩
    unfold Scope.enter
    dsimp only
    split <;> rfl
  origin := by
    rw [origin, originAround, nearestRule?, List.findSome?_cons, found]
    rfl

theorem isVeiled_unruled {element : Element} (noRule : Rule.ofTag? element.tag = none)
    (around : List Element) : Placed.isVeiled ⟨element, around⟩ = false := by
  have plain : Tag.emphasis.contains element.tag = false := by
    simpa using not_mem_emphasis_of_noRule noRule
  rw [Placed.isVeiled, plain]
  rfl

theorem any_doubles_of_closed {around : List Element}
    (closed : ∃ outer ∈ around, outer.isReplaced resolver = true) (nodes : List Node) :
    (placedOf around nodes).any (Placed.doubles resolver) = false := by
  refine List.any_eq_false.2 fun placed member => ?_
  rw [Placed.doubles, placedOf_closed resolver closed nodes placed member]
  exact Bool.false_ne_true

/-- An element with a rule gets one span. Inside of it are the spans it goes on with, and
behind them those of its children unless it is written as something else. -/
theorem exists_of_plan_ruled {options : Options} {tag : String} {attributes : Attributes}
    {children : List Node} {rule : Rule} {cursor ending : Cursor}
    (found : Rule.ofTag? tag = some rule) (resumable : cursor.Resumable)
    (ran : ((Node.element tag attributes children).plan options scope cursor).run resolver
      = .ok ending) :
    ∃ span inner,
      (decorate options scope cursor.items rule ⟨tag, attributes, children⟩
        (cursor.begin rule).1).run resolver = .ok span ∧
      span.origin = .rule rule ∧
      ending.before = .node span inner.reverse :: (cursor.begin rule).2.2 ∧
      if Element.isReplaced resolver ⟨tag, attributes, children⟩ = true
        then inner = (cursor.begin rule).2.1
        else ∃ items last,
          (planAll options (scope.enter rule ⟨tag, attributes, children⟩) children
            { before := (cursor.begin rule).2.1, items }).run resolver = .ok last ∧
          last.before = inner := by
  obtain ⟨span, decorated, origin, _, filled⟩ := exists_of_plan_rule found resumable ran
  split at filled
  · next closed =>
      refine ⟨span, _, decorated, origin, by rw [filled], ?_⟩
      rw [if_pos closed]
  · next opened =>
      obtain ⟨last, laid, rfl⟩ := filled
      refine ⟨span, last.before, decorated, origin, rfl, ?_⟩
      rw [if_neg opened]
      exact ⟨_, last, laid, rfl⟩

mutual

/-- A node doubles markers exactly if a visited element of it is veiled. -/
theorem doublesIn_plan (options : Options) {around : List Element}
    (visible : ∀ outer ∈ around, outer.isReplaced resolver = false) {scope : Scope} {outer : Span}
    (encloses : Encloses around scope outer) :
    ∀ (node : Node) (cursor : Cursor), cursor.Resumable → ∀ {ending : Cursor},
      (node.plan options scope cursor).run resolver = .ok ending →
        SpanTree.doublesIn outer ending.before
          = (SpanTree.doublesIn outer cursor.before
              || (node.placed around).any (Placed.doubles resolver))
  | .text content, cursor, _, ending, ran => by
      cases ran
      show SpanTree.doublesIn outer (.ofText _ :: cursor.before) = _
      rw [SpanTree.ofText, SpanTree.doublesIn_cons, Span.doubles_text]
      exact (Bool.or_false _).symm
  | .element tag attributes children, cursor, resumable, ending, ran => by
      have here : Placed.doubles resolver ⟨⟨tag, attributes, children⟩, around⟩
          = Placed.isVeiled ⟨⟨tag, attributes, children⟩, around⟩ := by
        rw [Placed.doubles, Placed.isVisited, List.all_eq_true.2 (by simpa using visible)]
        rfl
      rw [placed, List.any_cons, here]
      cases found : Rule.ofTag? tag with
      | none =>
          -- The content belongs to the span around, and the element stands in between.
          rw [plan, found] at ran
          have open_ : Element.isReplaced resolver ⟨tag, attributes, children⟩ = false :=
            Element.not_isReplaced_of_noRule found resolver
          rw [isVeiled_unruled found, Bool.false_or]
          exact doublesIn_planAll options (List.forall_mem_cons.2 ⟨open_, visible⟩)
            (encloses.unruled found attributes children) children cursor resumable ran
      | some rule =>
          obtain ⟨bare, divided⟩ := Cursor.doublesIn_begin cursor rule outer
          obtain ⟨span, inner, decorated, origin, shape, filled⟩ :=
            exists_of_plan_ruled found resumable ran
          have veiled := doubles_decorate ⟨tag, attributes, children⟩ found encloses bare
            decorated origin
          have begun : SpanTree.doublesIn span (cursor.begin rule).2.1
              = SpanTree.doublesIn (cursor.begin rule).1 (cursor.begin rule).2.1 :=
            SpanTree.doublesIn_congr
              (origin.trans (Cursor.resumable_begin resumable rule).1.1.symm) _
          rw [shape, SpanTree.doublesIn_cons, SpanTree.doublesIn_reverse, veiled, divided, ← begun]
          split at filled
          · next closed =>
              rw [filled, any_doubles_of_closed ⟨_, List.mem_cons_self, closed⟩, Bool.or_false,
                Bool.or_assoc, Bool.or_comm]
          · next opened =>
              obtain ⟨items, last, laid, rfl⟩ := filled
              rw [doublesIn_planAll options
                (List.forall_mem_cons.2 ⟨Bool.eq_false_iff.2 opened, visible⟩)
                (Encloses.ruled ⟨tag, attributes, children⟩ found origin scope around)
                children _ (resumable.within rule items) laid]
              ac_rfl

theorem doublesIn_planAll (options : Options) {around : List Element}
    (visible : ∀ outer ∈ around, outer.isReplaced resolver = false) {scope : Scope} {outer : Span}
    (encloses : Encloses around scope outer) :
    ∀ (nodes : List Node) (cursor : Cursor), cursor.Resumable → ∀ {ending : Cursor},
      (planAll options scope nodes cursor).run resolver = .ok ending →
        SpanTree.doublesIn outer ending.before
          = (SpanTree.doublesIn outer cursor.before
              || (placedOf around nodes).any (Placed.doubles resolver))
  | [], cursor, _, ending, ran => by
      cases ran
      exact (Bool.or_false _).symm
  | node :: rest, cursor, resumable, ending, ran => by
      rw [planAll] at ran
      obtain ⟨next, first, later⟩ := Inquiry.exists_of_run_bind ran
      have between : next.Resumable :=
        (poses_plan options scope visible node cursor resumable).of_run first
      rw [doublesIn_planAll options visible encloses rest next between later,
        doublesIn_plan options visible encloses node cursor resumable first, placedOf,
        List.any_append, Bool.or_assoc]

end

end Node

/-- In the plan of a post no emphasis writes its markers directly inside of emphasis of the
same kind, exactly if no visited element is veiled. -/
theorem undoubled_plan_iff (options : Options) (resolver : Resolver ε) {post : Element}
    {tree : SpanTree} (planned : (post.plan options).run resolver = .ok tree) :
    tree.Undoubled ↔
      ∀ placed ∈ Node.placedOf [] post.clean.children,
        placed.isVisited resolver = true → placed.isVeiled = false := by
  obtain ⟨ending, laid, made⟩ := Inquiry.exists_of_run_bind planned
  cases made
  have alone : ∀ outer ∈ ([] : List Element), outer.isReplaced resolver = false := nofun
  have top : Encloses [] { parent := post.clean.tag } { origin := .root } := ⟨nofun, rfl⟩
  have doubled := doublesIn_planAll options alone top post.clean.children {} nofun laid
  have start : SpanTree.doublesIn { origin := .root } [] = false := rfl
  rw [SpanTree.undoubled_iff, SpanTree.doublesIn_reverse, doubled, start, Bool.false_or,
    List.any_eq_false]
  refine forall_congr' fun placed => forall_congr' fun _ => ?_
  rw [Placed.doubles, Bool.and_eq_true, not_and, Bool.not_eq_true]

def nestedBold : Element :=
  .post [.bold [.bold [.text "a".toList,
      .color "red".toList [.italic [.bold [.smilie ":)".toList]]]],
    .wrap Tag.strike [.underline [.text "b".toList]]]]

theorem undoubled_plan_nestedBold :
    ∃ tree, (nestedBold.plan {}).run (Resolver.nothing : Resolver Unit) = .ok tree ∧
      (∀ placed ∈ Node.placedOf [] nestedBold.clean.children,
        placed.isVisited (Resolver.nothing : Resolver Unit) = true → placed.isVeiled = false) ∧
      tree.Undoubled := by
  have planned : (nestedBold.plan {}).run (Resolver.nothing : Resolver Unit) = .ok _ :=
    Inquiry.run_ofAnswers _ _
  have open_ : ∀ placed ∈ Node.placedOf [] nestedBold.clean.children,
      placed.isVisited (Resolver.nothing : Resolver Unit) = true → placed.isVeiled = false := by
    decide
  exact ⟨_, planned, open_, (undoubled_plan_iff {} .nothing planned).2 open_⟩

def colouredBold : Element :=
  .post [.bold [.wrap Tag.color [.bold [.text "x".toList]]]]

def boldSpan : Span :=
  { origin := .rule .bold, opening := "**".toList, closing := "**".toList }

theorem not_undoubled_colouredBold :
    (colouredBold.plan {}).run (Resolver.nothing : Resolver Unit)
        = .ok (.node { origin := .root } [.node boldSpan [.node boldSpan [.ofText "x".toList]]]) ∧
      ¬SpanTree.Undoubled
        (.node { origin := .root } [.node boldSpan [.node boldSpan [.ofText "x".toList]]]) ∧
      colouredBold.convertPlain {} = "****x****".toList ∧
      colouredBold.convertPlain {} ≠ "**x**".toList := by
  have output : colouredBold.convertPlain {} = "****x****".toList := by decide +kernel
  refine ⟨by with_unfolding_all rfl, fun undoubled => ?_, output, ?_⟩
  · have within : (boldSpan, boldSpan) ∈ SpanTree.nestings
        (.node { origin := .root } [.node boldSpan [.node boldSpan [.ofText "x".toList]]]) := by
      decide
    have bare := undoubled .bold (by decide) _ within (by decide) (by decide)
    exact absurd bare (by decide)
  · rw [output]
    decide

end ForumMarkup
