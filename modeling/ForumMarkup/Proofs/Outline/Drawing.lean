import ForumMarkup.Proofs.Outline.Preorder
import ForumMarkup.Proofs.Span.Steps
import ForumMarkup.Proofs.Span.Walk

/-!
Contract: the plan of a post as one walk that builds an outline.

Owns:
- `Outline.begin`, the number of the span of an element, which is new unless a line break goes
  on with the one before it;
- `Drawing`, the state of the walk, and `Node.draw`, which puts what a node writes inside a span
  of the outline;
- `Element.outline`, the outline that the walk over a post ends with.

Main statements: `draw_eq`, the outline has the trees that a visit of the node adds, inside the
span; and `outline_eq_plan`.

The walk only ever looks at the last span inside the one it is at. The spans there are the last
of the outline, together with those inside of them, so that a line break that goes on with an
earlier one takes up its content where it ended.
-/

set_option autoImplicit false

namespace ForumMarkup

namespace Outline

/-- The last span directly inside a span, with its number. -/
def lastInside? (outline : Outline) (container : Nat) : Option (Nat × Span) := do
  let last ← outline.lastChild? container
  return (last, ← outline.span? last)

/-- Where the span of an element begins inside the span `container`: with a new span, or for a
line break with the line break that is last there. Gives the number and the span. -/
def begin (outline : Outline) (container : Nat) (rule : Rule) : Nat × Span × Outline :=
  let start : Span := { origin := .rule rule }
  let fresh := (outline.size, start, outline.push container start)
  match rule, outline.lastInside? container with
  | .lineBreak, some (last, span) =>
      if span.isRule .lineBreak then (last, span, outline) else fresh
  | _, _ => fresh

end Outline

/-- The state of a walk that builds an outline. -/
structure Drawing where
  context : RuleContext := {}
  outline : Outline := .empty

namespace Node

mutual

/-- Puts what a node writes inside the span `container`, in an element of tag `parent`. A span
whose content was replaced takes up nothing, but the content is visited. -/
def draw (options : Options) (parent : String) (container : Nat) :
    Node → Drawing → Inquiry Drawing
  | .text content, { context, outline } =>
      pure <| if outline.isOpen container then
          let written := outline.push container { origin := .text }
          { context
            outline := written.modify outline.size fun span =>
              { span with text := Entity.decode content } }
        else { context, outline }
  | .element tag attributes children, { context, outline } =>
      match if outline.isOpen container then Rule.ofTag? tag else none with
      | none => do
          let ending ← drawAll options tag container children
            { context := context.enter tag, outline }
          return { ending with context := ending.context.leave tag }
      | some rule => do
          let element : Element := ⟨tag, attributes, children⟩
          let (number, start, begun) := outline.begin container rule
          let span ← decorate options (context.scope parent) context.earlier rule element start
          let ending ← drawAll options tag number children
            { context := (context.applied rule element).enter tag
              outline := begun.modify number fun _ => span }
          return { ending with context := (ending.context.leave tag).after rule }

def drawAll (options : Options) (parent : String) (container : Nat) :
    List Node → Drawing → Inquiry Drawing
  | [], drawing => pure drawing
  | node :: rest, drawing => do
      let next ← node.draw options parent container drawing
      drawAll options parent container rest next

end

end Node

/-- The outline that the walk over a post ends with. -/
def Element.outline (options : Options) (post : Element) : Inquiry Outline := do
  let post := post.clean
  let ending ← Node.drawAll options post.tag 0 post.children {}
  return ending.outline

/-! ### Trees inside one span -/

namespace Outline

variable {base : Outline} {container : Nat} {span : Span}

structure Bare (outline : Outline) (container : Nat) (span : Span) : Prop where
  found : outline.span? container = some span
  empty : outline.children container = []

theorem Bare.known (bare : base.Bare container span) : container < base.size := by
  refine Nat.lt_of_not_le fun outside => ?_
  have found := bare.found
  rw [span?, List.getElem?_eq_none outside] at found
  cases found

theorem Bare.isOpen_graftAll (bare : base.Bare container span) (trees : List SpanTree) :
    (graftAll container base trees).isOpen container = !span.replaced := by
  rw [isOpen, span?_graftAll bare.known trees bare.known, bare.found]
  rfl

theorem bare_push (known : container < base.size) (span : Span) :
    (base.push container span).Bare base.size span where
  found := by rw [span?_push known, if_pos rfl]
  empty := by
    have beyond : base.entries[base.size]? = none := List.getElem?_eq_none (Nat.le_refl _)
    rw [children_push known, if_neg (Nat.ne_of_gt known), children, beyond]
    rfl

theorem graftAll_reverse_cons (container : Nat) (base : Outline) (tree : SpanTree)
    (before : List SpanTree) :
    graftAll container base (tree :: before).reverse
      = graft container (graftAll container base before.reverse) tree := by
  rw [List.reverse_cons, graftAll_append]
  rfl

theorem Bare.lastInside?_nil (bare : base.Bare container span) :
    base.lastInside? container = none := by
  rw [lastInside?, lastChild?, bare.empty]
  rfl

/-- The tree that was put in last is the last one inside. -/
theorem lastInside?_graft (known : container < base.size) (tree : SpanTree) :
    (graft container base tree).lastInside? container = some (base.size, tree.span) := by
  obtain ⟨span, children⟩ := tree
  have inside := lt_size_push known span
  have last : (graft container base (.node span children)).lastChild? container
      = some base.size := by
    have listed := children_graftAll known [.node span children] known
    rw [if_pos rfl] at listed
    rw [lastChild?]
    exact (congrArg List.getLast? listed).trans List.getLast?_concat
  have found : (graft container base (.node span children)).span? base.size = some span := by
    rw [graft, span?_graftAll inside _ inside]
    exact (bare_push known span).found
  rw [lastInside?, last]
  show ((graft container base (.node span children)).span? base.size).bind _ = _
  rw [found]
  rfl

/-- The outline begins the span of an element where a cursor does. The spans inside of it are
the last ones of the outline, and the others are before it. -/
theorem Bare.begin_graftAll (bare : base.Bare container span) (before : List SpanTree)
    (rule : Rule) :
    let begun := Cursor.begin { before } rule
    let prior := graftAll container base begun.2.2.reverse
    (graftAll container base before.reverse).begin container rule
      = (prior.size, begun.1,
          graftAll prior.size (prior.push container begun.1) begun.2.1.reverse) := by
  intro begun prior
  by_cases isBreak : rule = .lineBreak
  · subst isBreak
    cases before with
    | nil =>
        unfold begin
        rw [List.reverse_nil, graftAll, bare.lastInside?_nil]
        rfl
    | cons tree before =>
        obtain ⟨last, children⟩ := tree
        have known := lt_size_graftAll bare.known before.reverse bare.known
        unfold begin
        rw [graftAll_reverse_cons, lastInside?_graft known]
        by_cases continues : last.isRule .lineBreak = true
        · have same : begun = (last, children.reverse, before) :=
            Cursor.begin_of_lineBreak rfl continues
          dsimp only [prior]
          rw [same, List.reverse_reverse]
          exact if_pos continues
        · have ends : Cursor.Ends (.node last children :: before) := by
            rintro _ ⟨⟩
            exact Bool.eq_false_iff.2 continues
          have same : begun = ({ origin := .rule .lineBreak }, [], .node last children :: before) :=
            Cursor.begin_of_ends ends
          dsimp only [prior]
          rw [same, ← graftAll_reverse_cons]
          exact if_neg continues
  · have same : begun = ({ origin := .rule rule }, [], before) := Cursor.begin_of_ne isBreak _
    dsimp only [prior]
    rw [same]
    unfold begin
    split
    · exact absurd rfl isBreak
    · rfl

end Outline

open Outline (Bare bare_push graftAll lt_size_graftAll graftAll_reverse_cons modify_graftAll
  modify_push)

def Walk.drawn (walk : Walk) (base : Outline) (container : Nat) : Drawing where
  context := walk.context
  outline := graftAll container base walk.before.reverse

namespace Node

mutual

/-- A node puts those trees inside a span that a visit of the node adds. -/
theorem draw_eq (options : Options) {base : Outline} {container : Nat} {outer : Span}
    (bare : base.Bare container outer) :
    ∀ (node : Node) (parent : String) (walk : Walk),
      node.draw options parent container (walk.drawn base container)
        = node.visit options parent outer.replaced walk
          >>= fun ending => .done (ending.drawn base container)
  | .text content, parent, walk => by
      have known := lt_size_graftAll bare.known walk.before.reverse bare.known
      rw [Walk.drawn, draw, visit, bare.isOpen_graftAll]
      cases outer.replaced with
      | true => rfl
      | false =>
          rw [if_neg Bool.false_ne_true, Inquiry.pure_eq, Inquiry.pure_eq, Inquiry.done_bind,
            Walk.drawn, graftAll_reverse_cons]
          dsimp only [Bool.not_false, if_true]
          rw [modify_push known]
          rfl
  | .element tag attributes children, parent, walk => by
      rw [Walk.drawn, draw, visit, bare.isOpen_graftAll]
      have choice : (if (!outer.replaced) = true then Rule.ofTag? tag else none)
          = if outer.replaced = true then none else Rule.ofTag? tag := by
        cases outer.replaced <;> rfl
      rw [choice]
      cases (if outer.replaced = true then none else Rule.ofTag? tag) with
      | none =>
          have inner := drawAll_eq options bare children tag
            { walk with context := walk.context.enter tag }
          dsimp only [Walk.drawn] at inner ⊢
          rw [inner, bind_assoc, bind_assoc]
          rfl
      | some rule =>
          -- The span of the element is bare, and its trees become the drawing inside of it.
          have begins := bare.begin_graftAll walk.before rule
          dsimp only at begins ⊢
          rw [begins]
          generalize Cursor.begin { before := walk.before } rule = begun
          obtain ⟨start, within, before⟩ := begun
          dsimp only
          generalize drawn : graftAll container base before.reverse = prior
          have known : container < prior.size := by
            rw [← drawn]
            exact lt_size_graftAll bare.known _ bare.known
          rw [bind_assoc]
          refine congrArg _ (funext fun span => ?_)
          have inside := (bare_push known start).known
          have inner := drawAll_eq options (bare_push known span) children tag
            { context := (walk.context.applied rule ⟨tag, attributes, children⟩).enter tag
              before := within }
          dsimp only [Walk.drawn] at inner
          rw [modify_graftAll inside _ inside, modify_push known, inner, bind_assoc, bind_assoc]
          refine congrArg _ (funext fun ending => ?_)
          rw [Inquiry.done_bind, Inquiry.pure_eq, Inquiry.pure_eq, Inquiry.done_bind, Walk.drawn,
            graftAll_reverse_cons, drawn]
          rfl

theorem drawAll_eq (options : Options) {base : Outline} {container : Nat} {outer : Span}
    (bare : base.Bare container outer) :
    ∀ (nodes : List Node) (parent : String) (walk : Walk),
      drawAll options parent container nodes (walk.drawn base container)
        = visitAll options parent outer.replaced nodes walk
          >>= fun ending => .done (ending.drawn base container)
  | [], parent, walk => by
      rw [drawAll, visitAll]
      rfl
  | node :: rest, parent, walk => by
      rw [drawAll, visitAll, draw_eq options bare node parent walk, bind_assoc, bind_assoc]
      refine congrArg _ (funext fun next => ?_)
      exact drawAll_eq options bare rest parent next

end

end Node

/-- The walk builds the outline of the plan. -/
theorem outline_eq_plan (options : Options) (post : Element) :
    post.outline options = post.plan options >>= fun tree => .done (.ofTree tree) := by
  have bare : Outline.empty.Bare 0 { origin := .root } := ⟨rfl, rfl⟩
  have start : ({} : Drawing) = Walk.drawn {} .empty 0 := rfl
  rw [← walk_eq_plan]
  unfold Element.outline Element.walk
  dsimp only
  rw [start, Node.drawAll_eq options bare, bind_assoc, bind_assoc]
  rfl

end ForumMarkup
