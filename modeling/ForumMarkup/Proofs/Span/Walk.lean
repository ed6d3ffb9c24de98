import ForumMarkup.Proofs.Lookup.Poses
import ForumMarkup.Proofs.Markdown.Wrapper
import ForumMarkup.Span.Plan

/-!
Contract: the plan of a post as one walk with a state.

Owns:
- `RuleContext`, what the rules remember on the way: how deep in emphasis the walk is, and
  the open lists with the items counted in each;
- `Node.visit`, which adds what a node writes and moves this state along, also where the
  spans are closed and nothing is added;
- `Element.walk`, the span tree that the walk over a post ends with.

Main statements: `visit_eq`, a visit is the plan of the node under the scope that the state
stands for, and leaves the state as it was but for the count of the innermost list;
`balanced_visit`; and `walk_eq_plan`.

Lists are pushed and popped, and the depth goes up and down, so that only the balance of
these steps makes the scope of a node a matter of the elements around it.
-/

set_option autoImplicit false

namespace ForumMarkup

structure OpenList where
  ordered : Bool
  /-- The items counted so far. -/
  items : Nat := 0
  deriving DecidableEq, Repr

structure RuleContext where
  /-- The number of open elements of emphasis. -/
  depth : Nat := 0
  /-- The open lists, the innermost one first. -/
  lists : List OpenList := []
  deriving DecidableEq, Repr

namespace RuleContext

/-- In front of the content of an element, whether or not it has a span. -/
def enter (context : RuleContext) (tag : String) : RuleContext :=
  if Tag.emphasis.contains tag then { context with depth := context.depth + 1 } else context

def leave (context : RuleContext) (tag : String) : RuleContext :=
  if Tag.emphasis.contains tag then { context with depth := context.depth - 1 } else context

def counted (context : RuleContext) (items : Nat) : RuleContext :=
  { context with lists := context.lists.modifyHead fun list => { list with items } }

def earlier (context : RuleContext) : Nat :=
  (context.lists.head?.map OpenList.items).getD 0

/-- Behind the span of an element of the rule: a list is opened, an item is counted. -/
def applied (context : RuleContext) (rule : Rule) (element : Element) : RuleContext :=
  match rule with
  | .list =>
      { context with lists := { ordered := element.attributes.contains Key.type } :: context.lists }
  | .item => context.counted (context.earlier + 1)
  | _ => context

/-- Behind the content of an element with a span of its own: a list is closed. -/
def after (context : RuleContext) (rule : Rule) : RuleContext :=
  match rule with
  | .list => { context with lists := context.lists.tail }
  | _ => context

/-- What a rule looks at in this state, in an element of the given tag. -/
def scope (context : RuleContext) (parent : String) : Scope where
  parent
  emphasised := decide (0 < context.depth)
  lists := context.lists.length
  ordered := context.lists.head?.any OpenList.ordered

end RuleContext

/-- The state of a walk. -/
structure Walk where
  context : RuleContext := {}
  /-- The spans in place, the last one first. -/
  before : List SpanTree := []

namespace Node

mutual

/-- Visits a node in an element of tag `parent`. Nothing is added to a span that is closed,
but its content is visited. -/
def visit (options : Options) (parent : String) (closed : Bool) : Node → Walk → Inquiry Walk
  | .text content, walk =>
      pure <| if closed then walk
        else { walk with before := .ofText (Entity.decode content) :: walk.before }
  | .element tag attributes children, walk =>
      match if closed then none else Rule.ofTag? tag with
      | none => do
          let ending ← visitAll options tag closed children
            { walk with context := walk.context.enter tag }
          return { ending with context := ending.context.leave tag }
      | some rule => do
          let element : Element := ⟨tag, attributes, children⟩
          let (start, within, before) := Cursor.begin { before := walk.before } rule
          let span ← decorate options (walk.context.scope parent) walk.context.earlier rule
            element start
          let ending ← visitAll options tag span.replaced children
            { context := (walk.context.applied rule element).enter tag, before := within }
          return {
            context := (ending.context.leave tag).after rule
            before := .node span ending.before.reverse :: before }

def visitAll (options : Options) (parent : String) (closed : Bool) :
    List Node → Walk → Inquiry Walk
  | [], walk => pure walk
  | node :: rest, walk => do
      let next ← node.visit options parent closed walk
      visitAll options parent closed rest next

end

end Node

/-- The span tree that the walk over a post ends with. -/
def Element.walk (options : Options) (post : Element) : Inquiry SpanTree := do
  let post := post.clean
  let ending ← Node.visitAll options post.tag false post.children {}
  return .node { origin := .root } ending.before.reverse

/-! ### The state -/

namespace RuleContext

variable {context : RuleContext} {items : Nat}

/-- The number is the count of the innermost list, if there is one. -/
def Counts (context : RuleContext) (items : Nat) : Prop :=
  ∀ list ∈ context.lists.head?, list.items = items

theorem counts_earlier (context : RuleContext) : context.Counts context.earlier := by
  intro list innermost
  rw [earlier, Option.mem_def.1 innermost]
  rfl

theorem counts_counted (context : RuleContext) (items : Nat) :
    (context.counted items).Counts items := by
  obtain ⟨depth, lists⟩ := context
  cases lists with
  | nil => exact nofun
  | cons list outer =>
      rintro _ ⟨⟩
      rfl

theorem Counts.counted_eq (counts : context.Counts items) : context.counted items = context := by
  obtain ⟨depth, lists⟩ := context
  cases lists with
  | nil => rfl
  | cons list outer =>
      have same : list.items = items := counts list rfl
      subst same
      rfl

theorem counted_counted (context : RuleContext) (first second : Nat) :
    (context.counted first).counted second = context.counted second := by
  obtain ⟨depth, lists⟩ := context
  cases lists <;> rfl

theorem scope_counted (context : RuleContext) (items : Nat) (parent : String) :
    (context.counted items).scope parent = context.scope parent := by
  obtain ⟨depth, lists⟩ := context
  cases lists <;> rfl

theorem leave_enter (context : RuleContext) (tag : String) :
    (context.enter tag).leave tag = context := by
  unfold enter leave
  split <;> rfl

theorem enter_counted (context : RuleContext) (items : Nat) (tag : String) :
    (context.counted items).enter tag = (context.enter tag).counted items := by
  unfold enter
  split <;> rfl

theorem Counts.enter (counts : context.Counts items) (tag : String) :
    (context.enter tag).Counts items := by
  unfold RuleContext.enter
  split <;> exact counts

/-- An element that is no emphasis leaves the state as it is. -/
theorem enter_of_not_mem {tag : String} (plain : tag ∉ Tag.emphasis) (context : RuleContext) :
    context.enter tag = context := by
  rw [enter, if_neg (by simpa using plain)]

/-- Where a count matches the state before a rule, the count that goes on matches the state
behind it. -/
theorem Counts.applied (counts : context.Counts items) (rule : Rule) (element : Element) :
    (context.applied rule element).Counts
      (if rule = .list then 0 else if rule = .item then items + 1 else items) := by
  cases rule with
  | list =>
      rintro _ ⟨⟩
      rfl
  | item =>
      intro list innermost
      have same : context.earlier = items := by
        obtain ⟨depth, lists⟩ := context
        cases lists with
        | nil => cases innermost
        | cons list outer => exact counts list rfl
      rw [RuleContext.applied, same] at innermost
      exact counts_counted context _ list innermost
  | _ => exact counts

/-- Inside of an element the state stands for the scope that the plan goes on with. -/
theorem scope_applied (context : RuleContext) (rule : Rule) (element : Element)
    (parent : String) :
    ((context.applied rule element).enter element.tag).scope element.tag
      = (context.scope parent).enter rule element := by
  have deeper (inner : RuleContext) : (inner.enter element.tag).scope element.tag
      = { inner.scope parent with
          parent := element.tag
          emphasised :=
            (inner.scope parent).emphasised || Tag.emphasis.contains element.tag } := by
    unfold enter scope
    cases Tag.emphasis.contains element.tag <;> simp
  rw [deeper]
  cases rule with
  | list => rfl
  | item =>
      rw [applied, scope_counted]
      rfl
  | _ => rfl

/-- Behind an element whose content counted up to `last` the state is the one before it, but
for the count. A list has counted for itself. -/
theorem Counts.after_leave (counts : context.Counts items) (rule : Rule) (element : Element)
    (tag : String) (last : Nat) :
    ((((context.applied rule element).enter tag).counted last).leave tag).after rule
      = context.counted
          (if rule = .list then (if rule = .item then items + 1 else items) else last) := by
  rw [← enter_counted, leave_enter]
  cases rule with
  | list => exact counts.counted_eq.symm
  | item => exact counted_counted context _ last
  | _ => rfl

/-- Behind an element without content an item is counted, and a list is closed again. -/
theorem Counts.after_applied (counts : context.Counts items) (rule : Rule) (element : Element) :
    (context.applied rule element).after rule
      = context.counted (if rule = .item then items + 1 else items) := by
  cases rule with
  | list => exact counts.counted_eq.symm
  | item =>
      obtain ⟨depth, lists⟩ := context
      cases lists with
      | nil => rfl
      | cons list outer =>
          have same : list.items = items := counts list rfl
          subst same
          rfl
  | _ => exact counts.counted_eq.symm

end RuleContext

/-- Outside of lists no rule looks at a count. -/
theorem decorate_counts {context : RuleContext} {items : Nat} (counts : context.Counts items)
    (options : Options) (parent : String) (rule : Rule) (element : Element) (start : Span) :
    decorate options (context.scope parent) context.earlier rule element start
      = decorate options (context.scope parent) items rule element start := by
  cases rule with
  | item =>
      obtain ⟨depth, lists⟩ := context
      cases lists with
      | nil => rfl
      | cons list outer =>
          have same : list.items = items := counts list rfl
          subst same
          rfl
  | _ => rfl

/-! ### The walk -/

/-- The walk behind the spans of a cursor, which may have counted further items. -/
def Walk.behind (walk : Walk) (ending : Cursor) : Walk where
  context := walk.context.counted ending.items
  before := ending.before

theorem Walk.behind_eq {walk : Walk} {items : Nat} (counts : walk.context.Counts items)
    (before : List SpanTree) : walk.behind { before, items } = { walk with before } := by
  rw [Walk.behind, counts.counted_eq]

theorem Cursor.begin_congr {first second : Cursor} (same : first.before = second.before)
    (rule : Rule) : first.begin rule = second.begin rule := by
  unfold begin
  rw [same]

namespace Node

mutual

/-- A visit adds what the plan of the node adds, and nothing where spans are closed. -/
theorem visit_eq (options : Options) :
    ∀ (node : Node) (parent : String) (closed : Bool) (walk : Walk) {items : Nat},
      walk.context.Counts items →
        node.visit options parent closed walk
          = if closed then .done walk
            else node.plan options (walk.context.scope parent) { before := walk.before, items }
              >>= fun ending => .done (walk.behind ending)
  | .text content, parent, closed, walk, items, counts => by
      rw [visit]
      cases closed with
      | true => rfl
      | false =>
          rw [plan, Inquiry.pure_eq, if_neg Bool.false_ne_true, Inquiry.pure_eq, Inquiry.done_bind,
            Cursor.add, Walk.behind_eq counts]
          rfl
  | .element tag attributes children, parent, true, walk, items, counts => by
      -- No span and no list is opened here, and what is entered is left.
      rw [visit]
      dsimp only [if_true]
      rw [visitAll_eq options children tag true { walk with context := walk.context.enter tag }
        (counts.enter tag), if_pos rfl, if_pos rfl, Inquiry.done_bind]
      dsimp only
      rw [RuleContext.leave_enter]
      rfl
  | .element tag attributes children, parent, false, walk, items, counts => by
      rw [visit, plan, if_neg Bool.false_ne_true]
      cases found : Rule.ofTag? tag with
      | none =>
          have plain := not_mem_emphasis_of_noRule found
          dsimp only
          rw [visitAll_eq options children tag false { walk with context := walk.context.enter tag }
            (counts.enter tag), if_neg Bool.false_ne_true, RuleContext.enter_of_not_mem plain,
            bind_assoc]
          refine congrArg _ (funext fun ending => ?_)
          rw [Inquiry.done_bind, ← RuleContext.enter_of_not_mem plain (walk.behind ending).context,
            RuleContext.leave_enter]
          rfl
      | some rule =>
          -- The children are visited in the state behind the rule, which stands for the scope
          -- the plan goes on with; where the span is closed they add nothing.
          have begins : Cursor.begin { before := walk.before, items } rule
              = Cursor.begin { before := walk.before } rule := Cursor.begin_congr rfl rule
          have inside := walk.context.scope_applied rule ⟨tag, attributes, children⟩ parent
          have counted := (counts.applied rule ⟨tag, attributes, children⟩).enter tag
          dsimp only at inside counted ⊢
          rw [begins]
          generalize Cursor.begin { before := walk.before } rule = begun
          obtain ⟨start, within, before⟩ := begun
          dsimp only
          rw [decorate_counts counts, bind_assoc]
          refine congrArg _ (funext fun span => ?_)
          rw [visitAll_eq options children tag span.replaced _ counted]
          cases span.replaced with
          | true =>
              rw [if_pos rfl, if_pos rfl, Inquiry.done_bind, Inquiry.pure_eq, Inquiry.pure_eq,
                Inquiry.done_bind, RuleContext.leave_enter, counts.after_applied]
              rfl
          | false =>
              rw [if_neg Bool.false_ne_true, if_neg Bool.false_ne_true, inside, bind_assoc,
                bind_assoc]
              refine congrArg _ (funext fun ending => ?_)
              rw [Inquiry.done_bind, Inquiry.pure_eq, Inquiry.pure_eq, Inquiry.done_bind,
                Walk.behind, counts.after_leave]
              rfl

/-- The walk with its remembered lists does what the plan does with its scope, and inside a
closed span it does nothing. -/
theorem visitAll_eq (options : Options) :
    ∀ (nodes : List Node) (parent : String) (closed : Bool) (walk : Walk) {items : Nat},
      walk.context.Counts items →
        visitAll options parent closed nodes walk
          = if closed then .done walk
            else planAll options (walk.context.scope parent) nodes
                { before := walk.before, items }
              >>= fun ending => .done (walk.behind ending)
  | [], parent, closed, walk, items, counts => by
      rw [visitAll, planAll]
      cases closed with
      | true => rfl
      | false =>
          rw [if_neg Bool.false_ne_true, Inquiry.pure_eq, Inquiry.pure_eq, Inquiry.done_bind,
            Walk.behind_eq counts]
  | node :: rest, parent, closed, walk, items, counts => by
      rw [visitAll, planAll, visit_eq options node parent closed walk counts]
      cases closed with
      | true =>
          rw [if_pos rfl, if_pos rfl, Inquiry.done_bind,
            visitAll_eq options rest parent true walk counts, if_pos rfl]
      | false =>
          rw [if_neg Bool.false_ne_true, if_neg Bool.false_ne_true, bind_assoc, bind_assoc]
          refine congrArg _ (funext fun next => ?_)
          rw [Inquiry.done_bind, visitAll_eq options rest parent false (walk.behind next)
            (RuleContext.counts_counted walk.context next.items), if_neg Bool.false_ne_true]
          dsimp only [Walk.behind]
          rw [RuleContext.scope_counted]
          refine congrArg _ (funext fun ending => ?_)
          rw [RuleContext.counted_counted]

end

end Node

/-- A visit leaves the depth and the open lists as they were, but for the count of the
innermost list. -/
theorem balanced_visit {ε : Type} {resolver : Resolver ε} (options : Options) (parent : String)
    (closed : Bool) (node : Node) {walk ending : Walk}
    (ran : (node.visit options parent closed walk).run resolver = .ok ending) :
    ∃ items, ending.context = walk.context.counted items := by
  rw [Node.visit_eq options node parent closed walk walk.context.counts_earlier] at ran
  split at ran
  · cases ran
    exact ⟨_, walk.context.counts_earlier.counted_eq.symm⟩
  · obtain ⟨last, _, same⟩ := Inquiry.exists_of_run_bind ran
    cases same
    exact ⟨last.items, rfl⟩

/-- The walk over a post ends with the plan of the post. -/
theorem walk_eq_plan (options : Options) (post : Element) :
    post.walk options = post.plan options := by
  have none : RuleContext.Counts {} 0 := nofun
  unfold Element.walk Element.plan
  dsimp only
  rw [Node.visitAll_eq options post.clean.children post.clean.tag false {} none,
    if_neg Bool.false_ne_true, bind_assoc]
  rfl

end ForumMarkup
