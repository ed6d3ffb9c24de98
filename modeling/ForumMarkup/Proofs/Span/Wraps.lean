import ForumMarkup.Proofs.Span.Shape

/-!
Contract: spans that only put texts around their content, and properties of all spans of a
plan.

Owns:
- `wrapRules`, the rules of such spans, and `Span.Wraps`, what their spans are like;
- `SpanTree.Every`, trees all of whose spans have a property, and `Decoration.Keeps`, what
  the rules must promise for that.

Main statements: `exists_decorate_wrap`, the span of such a rule; `every_plan`; and its
instances `wraps_plan` and `quoteMarked_plan`.
-/

set_option autoImplicit false

namespace ForumMarkup

open Decoration Inquiry

/-- The rules that put texts around the content of an element and do nothing else. -/
def wrapRules : List Rule :=
  [.bold, .italic, .underline, .email, .size]

theorem others_of_mem_wrapRules {rule : Rule} (member : rule ∈ wrapRules) :
    rule ≠ .list ∧ rule ≠ .item ∧ rule ≠ .lineBreak ∧ rule ≠ .code := by
  have all : ∀ rule ∈ wrapRules,
      rule ≠ .list ∧ rule ≠ .item ∧ rule ≠ .lineBreak ∧ rule ≠ .code := by decide
  exact all rule member

theorem mem_wrapRules_of_emphasis {rule : Rule} (member : rule ∈ Markdown.emphasisRules) :
    rule ∈ wrapRules := by
  have all : ∀ rule ∈ Markdown.emphasisRules, rule ∈ wrapRules := by decide
  exact all rule member

/-- The texts around a content: both or none, each on one line, and the second one shows
something. -/
structure Wrapping (opening closing : Text) : Prop where
  opens : '\n' ∉ opening
  closes : '\n' ∉ closing
  both : opening = [] ↔ closing = []
  visible : closing ≠ [] → Text.allBlank closing = false

theorem wrapping_nil : Wrapping [] [] :=
  ⟨List.not_mem_nil, List.not_mem_nil, Iff.rfl, fun filled => absurd rfl filled⟩

structure Span.Wraps (span : Span) : Prop where
  bare : span = { origin := span.origin, opening := span.opening, closing := span.closing }
  wrapping : Wrapping span.opening span.closing

/-- The span that a wrapping rule gives an element. -/
theorem exists_decorate_wrap (options : Options) (scope : Scope) (earlier : Nat) {rule : Rule}
    (wraps : rule ∈ wrapRules) (element : Element) :
    ∃ span, decorate options scope earlier rule element { origin := .rule rule } = .done span ∧
      span.origin = .rule rule ∧ span.Wraps := by
  have bare : Span.Wraps { origin := .rule rule } := ⟨rfl, wrapping_nil⟩
  have emphasised : ∀ opening closing, Wrapping opening closing →
      (emphasis scope rule opening closing { origin := .rule rule }).origin = .rule rule ∧
        (emphasis scope rule opening closing { origin := .rule rule }).Wraps := by
    intro opening closing wrapping
    rcases emphasis_eq_or scope rule opening closing { origin := .rule rule } with same | same
    · rw [same]
      exact ⟨rfl, bare⟩
    · rw [same]
      exact ⟨rfl, rfl, wrapping⟩
  cases rule with
  | bold => exact ⟨_, rfl, emphasised _ _ ⟨by decide, by decide, by decide, by decide⟩⟩
  | italic => exact ⟨_, rfl, emphasised _ _ ⟨by decide, by decide, by decide, by decide⟩⟩
  | underline => exact ⟨_, rfl, emphasised _ _ ⟨by decide, by decide, by decide, by decide⟩⟩
  | email => exact ⟨_, rfl, rfl, rfl, by decide, by decide, by decide, by decide⟩
  | size =>
      refine ⟨_, rfl, ?_⟩
      rcases size_eq_or options element { origin := .rule .size } with same | same | same
      · rw [same]
        exact ⟨rfl, bare⟩
      · rw [same]
        exact ⟨rfl, rfl, by decide, by decide, by decide, by decide⟩
      · rw [same]
        exact ⟨rfl, rfl, by decide, by decide, by decide, by decide⟩
  | _ => exact absurd wraps (by decide)

/-! ### All spans of a plan -/

inductive SpanTree.Every (p : Span → Prop) : SpanTree → Prop where
  | node {span : Span} {children : List SpanTree} (holds : p span)
      (inner : ∀ child ∈ children, Every p child) : Every p (.node span children)

namespace SpanTree.Every

variable {p : Span → Prop} {tree : SpanTree}

theorem span (every : tree.Every p) : p tree.span := by
  cases every with
  | node holds _ => exact holds

theorem children (every : tree.Every p) : ∀ child ∈ tree.children, child.Every p := by
  cases every with
  | node _ inner => exact inner

end SpanTree.Every

/-- The spans that rules make have the property, and one more line break does not take it
from a span of line breaks. -/
structure Decoration.Keeps (options : Options) (p : Span → Prop) : Prop where
  root : p { origin := .root }
  text : ∀ text, p { origin := .text, text }
  fresh : ∀ scope earlier rule element,
    (decorate options scope earlier rule element { origin := .rule rule }).Always p
  again : ∀ scope span, span.origin = .rule .lineBreak → p span → p (lineBreak scope span)

section

variable {options : Options} {p : Span → Prop}

def Cursor.Every (p : Span → Prop) (cursor : Cursor) : Prop :=
  ∀ tree ∈ cursor.before, tree.Every p

/-- The span of an element has the property, and so do the spans that it begins with. -/
theorem Cursor.every_begin (keeps : Keeps options p) {cursor : Cursor} (every : cursor.Every p)
    (scope : Scope) (earlier : Nat) (rule : Rule) (element : Element) :
    (decorate options scope earlier rule element (cursor.begin rule).1).Always p ∧
      (∀ tree ∈ (cursor.begin rule).2.1, tree.Every p) ∧
      ∀ tree ∈ (cursor.begin rule).2.2, tree.Every p := by
  have fresh := keeps.fresh scope earlier rule element
  unfold Cursor.begin
  split
  · next span children before shape =>
      have all : ∀ tree ∈ cursor.before, tree.Every p := every
      rw [shape] at all ⊢
      split
      · next continues =>
          obtain ⟨last, others⟩ := List.forall_mem_cons.1 all
          refine ⟨keeps.again scope span (eq_of_beq continues) last.span, ?_, others⟩
          exact fun tree member => last.children tree (List.mem_reverse.1 member)
      · exact ⟨fresh, List.forall_mem_nil _, all⟩
  · exact ⟨fresh, List.forall_mem_nil _, every⟩

namespace Node

mutual

/-- By induction over the node: what rules keep holds of every span. -/
theorem every_plan (keeps : Keeps options p) (scope : Scope) :
    ∀ (node : Node) (cursor : Cursor), cursor.Every p →
      (node.plan options scope cursor).Always (Cursor.Every p)
  | .text content, cursor, every =>
      List.forall_mem_cons.2 ⟨.node (keeps.text _) (List.forall_mem_nil _), every⟩
  | .element tag attributes children, cursor, every => by
      rw [plan]
      split
      · exact every_planAll keeps _ children cursor every
      · next rule _ =>
          obtain ⟨decorated, within, before⟩ := Cursor.every_begin keeps every scope cursor.items
            rule ⟨tag, attributes, children⟩
          generalize cursor.begin rule = begun at decorated within before ⊢
          obtain ⟨start, inside, prior⟩ := begun
          refine always_bind.2 (decorated.mono fun span holds => ?_)
          by_cases replaced : span.replaced = true
          · rw [if_pos replaced]
            exact List.forall_mem_cons.2
              ⟨.node holds fun child member => within child (List.mem_reverse.1 member), before⟩
          · rw [if_neg replaced]
            have start (items : Nat) : Cursor.Every p { before := inside, items } := within
            refine always_bind.2 ((every_planAll keeps _ children _ (start _)).mono ?_)
            intro ending inner
            exact List.forall_mem_cons.2
              ⟨.node holds fun child member => inner child (List.mem_reverse.1 member), before⟩

theorem every_planAll (keeps : Keeps options p) (scope : Scope) :
    ∀ (nodes : List Node) (cursor : Cursor), cursor.Every p →
      (planAll options scope nodes cursor).Always (Cursor.Every p)
  | [], cursor, every => every
  | node :: rest, cursor, every => by
      rw [planAll]
      refine always_bind.2 ((every_plan keeps scope node cursor every).mono ?_)
      exact fun next everyNext => every_planAll keeps scope rest next everyNext

end

end Node

/-- What the rules keep to holds of every span in the plan of a post, whatever the answers
are. -/
theorem every_plan (keeps : Keeps options p) (post : Element) :
    (post.plan options).Always (SpanTree.Every p) := by
  have laid := Node.every_planAll keeps { parent := post.clean.tag } post.clean.children {}
    (List.forall_mem_nil _)
  refine always_bind.2 (laid.mono fun cursor every => ?_)
  exact .node keeps.root fun child member => every child (List.mem_reverse.1 member)

end

/-- In the plan of a post every span of a wrapping rule wraps. -/
theorem wraps_plan (options : Options) (post : Element) :
    (post.plan options).Always
      (SpanTree.Every fun span => ∀ rule ∈ wrapRules, span.origin = .rule rule → span.Wraps) := by
  refine every_plan ⟨fun _ _ => nofun, fun _ _ _ => nofun, ?_, ?_⟩ post
  · intro scope earlier rule element
    by_cases wraps : rule ∈ wrapRules
    · obtain ⟨span, decorated, _, spanWraps⟩ :=
        exists_decorate_wrap options scope earlier wraps element
      rw [decorated]
      exact fun _ _ _ => spanWraps
    · refine (sound_decorate (Span.fresh_new rule) options scope earlier element).mono ?_
      rintro span ⟨_, origin⟩ other isWrap same
      rw [origin] at same
      rw [← Origin.rule.inj same] at isWrap
      exact absurd isWrap wraps
  · intro scope span isBreak _ rule wraps origin
    have same : Origin.rule .lineBreak = .rule rule := isBreak.symm.trans origin
    exact absurd (Origin.rule.inj same).symm (others_of_mem_wrapRules wraps).2.2.1

/-- In the plan of a post every line mark is that of a quote. -/
theorem quoteMarked_plan (options : Options) (post : Element) :
    (post.plan options).Always
      (SpanTree.Every fun span => ∀ mark, span.lineMark? = some mark → mark = quoteMark) := by
  refine every_plan ⟨fun _ => nofun, fun _ _ => nofun, ?_, fun _ _ _ marked => marked⟩ post
  intro scope earlier rule element
  refine (sound_decorate (Span.fresh_new rule) options scope earlier element).mono ?_
  exact fun span sound mark marked => (sound.1.marked mark marked).1

end ForumMarkup
