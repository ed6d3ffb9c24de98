import ForumMarkup.Span.Plan

/-!
Contract: what one node adds at a cursor.

Owns:
- `Scope.breaks`, the span of a run of line breaks, and `Scope.run`, such a run behind
  other spans;
- one equation for each kind of node: text, a line break behind other nodes or
  behind line breaks, an element that keeps its content, an element whose content
  is replaced.
-/

set_option autoImplicit false

namespace ForumMarkup

open Decoration

def Scope.breaks (scope : Scope) (count : Nat) : Span :=
  { origin := .rule .lineBreak
    breaksAfter := count
    kindAfter := if 1 < count ∧ scope.emphasised then .hard else .auto }

theorem lineBreak_breaks (scope : Scope) (count : Nat) :
    lineBreak scope (scope.breaks count) = scope.breaks (count + 1) := by
  unfold lineBreak Scope.breaks
  by_cases emphasised : scope.emphasised = true
  · by_cases first : count = 0
    · simp [first]
    · have several : 1 < count + 1 := by omega
      simp [emphasised, several]
  · simp [emphasised]

/-- Spans, the last one first, with a run of line breaks behind them. -/
def Scope.run (scope : Scope) (count : Nat) (prior : List SpanTree) : List SpanTree :=
  match count with
  | 0 => prior
  | count + 1 => .node (scope.breaks (count + 1)) [] :: prior

theorem Cursor.begin_of_ne {rule : Rule} (other : rule ≠ .lineBreak) (cursor : Cursor) :
    cursor.begin rule = ({ origin := .rule rule }, [], cursor.before) := by
  unfold Cursor.begin
  split
  · exact absurd rfl other
  · rfl

def Cursor.Ends (before : List SpanTree) : Prop :=
  ∀ tree ∈ before.head?, tree.span.isRule .lineBreak = false

theorem Cursor.ends_ofText (line : Text) (before : List SpanTree) :
    Cursor.Ends (.ofText line :: before) := by
  intro tree last
  cases last
  rfl

/-- Behind another span a run of breaks begins anew. -/
theorem Cursor.begin_of_ends {cursor : Cursor} (ends : Cursor.Ends cursor.before) :
    cursor.begin .lineBreak = ({ origin := .rule .lineBreak }, [], cursor.before) := by
  unfold Cursor.begin
  split
  · next span children before _ shape =>
      have other : span.isRule .lineBreak = false := by
        rw [shape] at ends
        exact ends (.node span children) rfl
      rw [other, shape]
      rfl
  · rfl

theorem Cursor.exists_of_not_ends {before : List SpanTree} (continues : ¬Ends before) :
    ∃ span children prior, before = .node span children :: prior ∧
      span.isRule .lineBreak = true := by
  cases before with
  | nil => exact absurd nofun continues
  | cons tree prior =>
      obtain ⟨span, children⟩ := tree
      refine ⟨span, children, prior, rfl, eq_true_of_ne_false fun other => continues ?_⟩
      rintro _ ⟨⟩
      exact other

theorem Cursor.begin_of_lineBreak {cursor : Cursor} {span : Span}
    {children prior : List SpanTree} (shape : cursor.before = .node span children :: prior)
    (continues : span.isRule .lineBreak = true) :
    cursor.begin .lineBreak = (span, children.reverse, prior) := by
  unfold Cursor.begin
  rw [shape]
  exact if_pos continues

namespace Node

variable {options : Options} {scope : Scope} {cursor : Cursor}

theorem plan_text (content : Text) :
    plan options scope (.text content) cursor
      = .done (cursor.add (.ofText (Entity.decode content))) := by
  rw [plan]
  rfl

/-- A line break behind a node of another kind begins a run. -/
theorem plan_lineBreak (ends : Cursor.Ends cursor.before) (attributes : Attributes) :
    plan options scope (.element Tag.lineBreak attributes []) cursor
      = .done (cursor.add (.node (scope.breaks 1) [])) := by
  have decorated : decorate options scope cursor.items .lineBreak
      ⟨Tag.lineBreak, attributes, []⟩ { origin := .rule .lineBreak }
      = .done (scope.breaks 1) := congrArg Inquiry.done (lineBreak_breaks scope 0)
  rw [plan, show Rule.ofTag? Tag.lineBreak = some .lineBreak by decide]
  dsimp only
  rw [Cursor.begin_of_ends ends]
  dsimp only
  rw [decorated, Inquiry.done_bind]
  rfl

/-- A line break behind a run of them makes it longer. -/
theorem plan_lineBreak_breaks (attributes : Attributes) (count items : Nat)
    (before : List SpanTree) :
    plan options scope (.element Tag.lineBreak attributes [])
        { before := .node (scope.breaks count) [] :: before, items }
      = .done { before := .node (scope.breaks (count + 1)) [] :: before, items } := by
  have decorated : decorate options scope items .lineBreak
      ⟨Tag.lineBreak, attributes, []⟩ (scope.breaks count)
      = .done (scope.breaks (count + 1)) := congrArg Inquiry.done (lineBreak_breaks scope count)
  rw [plan, show Rule.ofTag? Tag.lineBreak = some .lineBreak by decide]
  dsimp only
  rw [show Cursor.begin { before := .node (scope.breaks count) [] :: before, items } .lineBreak
    = (scope.breaks count, [], before) from rfl]
  dsimp only
  rw [decorated, Inquiry.done_bind]
  rfl

/-- A line break makes the run of them longer that spans end with. -/
theorem plan_lineBreak_run {prior : List SpanTree} (ends : Cursor.Ends prior)
    (attributes : Attributes) (count items : Nat) :
    plan options scope (.element Tag.lineBreak attributes []) { before := scope.run count prior, items }
      = .done { before := scope.run (count + 1) prior, items } := by
  cases count with
  | zero => exact plan_lineBreak ends attributes
  | succ count => exact plan_lineBreak_breaks attributes (count + 1) items prior

/-- An element that keeps its content is a span around the spans of its content. -/
theorem plan_element (cursor : Cursor) (rule : Rule) (attributes : Attributes)
    {children : List Node} {span : Span} {ending : Cursor} (other : rule ≠ .lineBreak)
    (decorated : decorate options scope cursor.items rule ⟨rule.tag, attributes, children⟩
      { origin := .rule rule } = .done span)
    (open_ : span.replaced = false)
    (inner : planAll options (scope.enter rule ⟨rule.tag, attributes, children⟩) children
      { items := if rule = .list then 0
          else if rule = .item then cursor.items + 1 else cursor.items } = .done ending) :
    plan options scope (.element rule.tag attributes children) cursor
      = .done {
          before := .node span ending.before.reverse :: cursor.before
          items := if rule = .list then cursor.items else ending.items } := by
  rw [plan, Rule.ofTag?_tag]
  dsimp only
  rw [Cursor.begin_of_ne other]
  dsimp only
  rw [decorated, Inquiry.done_bind, open_, if_neg Bool.false_ne_true, inner, Inquiry.done_bind]
  by_cases list : rule = .list
  · subst list
    rfl
  · rw [if_neg list, if_neg list]
    rfl

/-- An element whose content is replaced is a span with nothing inside. -/
theorem plan_replaced (cursor : Cursor) (rule : Rule) (attributes : Attributes)
    {children : List Node} {span : Span} (other : rule ≠ .lineBreak) (noItem : rule ≠ .item)
    (decorated : decorate options scope cursor.items rule ⟨rule.tag, attributes, children⟩
      { origin := .rule rule } = .done span)
    (closed : span.replaced = true) :
    plan options scope (.element rule.tag attributes children) cursor
      = .done (cursor.add (.node span [])) := by
  rw [plan, Rule.ofTag?_tag]
  dsimp only
  rw [Cursor.begin_of_ne other]
  dsimp only
  rw [decorated, Inquiry.done_bind, closed, if_pos rfl, if_neg noItem]
  rfl

theorem planAll_cons {node : Node} {next : Cursor} (rest : List Node)
    (first : plan options scope node cursor = .done next) :
    planAll options scope (node :: rest) cursor = planAll options scope rest next := by
  rw [planAll, first, Inquiry.done_bind]

end Node

end ForumMarkup
