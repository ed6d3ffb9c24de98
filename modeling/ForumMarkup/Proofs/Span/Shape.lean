import ForumMarkup.Proofs.Element.Below
import ForumMarkup.Proofs.Span.Forms
import ForumMarkup.Span.Plan

/-!
Contract: what the plan of a post promises about its spans.

Owns:
- `Span.Sound`, the spans that the rules make: only quotes have a line mark, and
  nothing else of their own; line breaks write nothing but breaks; code is written
  as its own text;
- `SpanTree.Sound`, trees of such spans in which replaced spans and line breaks
  hold no others.

Main statement: `sound_plan`.  It needs line breaks without children, whatever the
answers to the questions are.
-/

set_option autoImplicit false

namespace ForumMarkup

namespace Span

/-- The span writes nothing but the breaks and the spans inside it. -/
def Silent (span : Span) : Prop :=
  span.text = [] ∧ span.opening = [] ∧ span.closing = []

/-- The spans that the rules make. -/
structure Sound (span : Span) : Prop where
  marked : ∀ mark, span.lineMark? = some mark → mark = Decoration.quoteMark ∧ span.Silent
  lineBreak : span.origin = .rule .lineBreak → span.lineMark? = none ∧ span.Silent
  code : span.origin = .rule .code → span.replaced = true

/-- A span that a rule starts from. -/
structure Fresh (rule : Rule) (span : Span) : Prop where
  origin : span.origin = .rule rule
  unmarked : span.lineMark? = none
  silent : span.Silent

theorem fresh_new (rule : Rule) : Fresh rule { origin := .rule rule } :=
  ⟨rfl, rfl, rfl, rfl, rfl⟩

/-- Without a line mark only line breaks and code have something to keep to. -/
theorem sound_of_unmarked {rule : Rule} {span : Span} (origin : span.origin = .rule rule)
    (unmarked : span.lineMark? = none) (breaks : rule = .lineBreak → span.Silent)
    (code : rule = .code → span.replaced = true) : span.Sound where
  marked mark found := by
    rw [unmarked] at found
    cases found
  lineBreak same := by
    rw [origin] at same
    exact ⟨unmarked, breaks (Origin.rule.inj same)⟩
  code same := by
    rw [origin] at same
    exact code (Origin.rule.inj same)

theorem sound_of_quote {span : Span} (origin : span.origin = .rule .quote)
    (marked : span.lineMark? = some Decoration.quoteMark) (silent : span.Silent) :
    span.Sound where
  marked mark found := by
    rw [marked] at found
    cases found
    exact ⟨rfl, silent⟩
  lineBreak same := by
    rw [origin] at same
    cases same
  code same := by
    rw [origin] at same
    cases same

end Span

open Decoration Inquiry

/-- A rule makes a sound span of its own element, whatever the answers are. -/
theorem sound_decorate {rule : Rule} {start : Span} (fresh : start.Fresh rule) (options : Options)
    (scope : Scope) (earlier : Nat) (element : Element) :
    (decorate options scope earlier rule element start).Always fun span =>
      span.Sound ∧ span.origin = .rule rule := by
  obtain ⟨origin, unmarked, silent⟩ := fresh
  have plain : ∀ span : Span, span.origin = start.origin → span.lineMark? = start.lineMark? →
      (rule = .lineBreak → span.Silent) → (rule = .code → span.replaced = true) →
      span.Sound ∧ span.origin = .rule rule := by
    intro span sameOrigin sameMark breaks code
    rw [origin] at sameOrigin
    rw [unmarked] at sameMark
    exact ⟨Span.sound_of_unmarked sameOrigin sameMark breaks code, sameOrigin⟩
  cases rule with
  | bold =>
      rcases emphasis_eq_or scope .bold ['*', '*'] ['*', '*'] start with same | same <;>
        exact plain _ (by rw [same]) (by rw [same]) nofun nofun
  | italic =>
      rcases emphasis_eq_or scope .italic ['_'] ['_'] start with same | same <;>
        exact plain _ (by rw [same]) (by rw [same]) nofun nofun
  | underline =>
      rcases emphasis_eq_or scope .underline "[u]".toList "[/u]".toList start with same | same <;>
        exact plain _ (by rw [same]) (by rw [same]) nofun nofun
  | code => exact plain _ rfl rfl nofun fun _ => rfl
  | list =>
      rcases list_eq_or scope start with same | same <;>
        exact plain _ (by rw [same]; rfl) (by rw [same]; rfl) nofun nofun
  | item => exact plain _ rfl rfl nofun nofun
  | image => exact plain _ rfl rfl nofun nofun
  | url =>
      refine always_question.2 fun target => ?_
      refine plain _ ?_ ?_ nofun nofun
      · split <;> rfl
      · split <;> rfl
  | email => exact plain _ rfl rfl nofun nofun
  | lineBreak => exact plain _ rfl rfl (fun _ => silent) nofun
  | smilie =>
      refine always_question.2 fun replacement => ?_
      cases replacement with
      | some text => exact plain _ rfl rfl nofun nofun
      | none => exact plain _ rfl rfl nofun nofun
  | video =>
      rcases video_eq_or element start with same | ⟨text, same⟩ <;>
        exact plain _ (by rw [same]; rfl) (by rw [same]; rfl) nofun nofun
  | quote =>
      refine always_quote element (fun header => plain _ rfl rfl nofun nofun) ?_
      exact ⟨Span.sound_of_quote origin rfl silent, origin⟩
  | attachment =>
      refine always_bind.2 ((always_true _).mono fun markdown? _ => ?_)
      exact plain _ rfl rfl nofun nofun
  | size =>
      rcases size_eq_or options element start with same | same | same <;>
        exact plain _ (by rw [same]) (by rw [same]) nofun nofun

/-! ### Trees of spans -/

/-- Trees of sound spans in which nothing lies inside replaced spans and line
breaks. -/
inductive SpanTree.Sound : SpanTree → Prop where
  | node {span : Span} {children : List SpanTree} (sound : span.Sound)
      (closed : span.replaced = true ∨ span.origin = .rule .lineBreak → children = [])
      (inner : ∀ child ∈ children, Sound child) : Sound (.node span children)

theorem SpanTree.sound_ofText (text : Text) : (SpanTree.ofText text).Sound := by
  refine .node ⟨?_, ?_, ?_⟩ (fun _ => rfl) ?_
  · intro mark found
    cases found
  · intro same
    cases same
  · intro same
    cases same
  · intro child none
    cases none

def Cursor.Sound (cursor : Cursor) : Prop :=
  ∀ tree ∈ cursor.before, tree.Sound

theorem Cursor.sound_add {cursor : Cursor} (sound : cursor.Sound) {tree : SpanTree}
    (next : tree.Sound) : (cursor.add tree).Sound :=
  List.forall_mem_cons.2 ⟨next, sound⟩

/-- A span begins fresh and with nothing inside, also where it goes on with a line
break. -/
theorem Cursor.sound_begin {cursor : Cursor} (sound : cursor.Sound) (rule : Rule) :
    (cursor.begin rule).1.Fresh rule ∧ (cursor.begin rule).2.1 = [] ∧
      ∀ tree ∈ (cursor.begin rule).2.2, tree.Sound := by
  have fresh : ({ origin := .rule rule } : Span).Fresh rule ∧ ([] : List SpanTree) = [] ∧
      ∀ tree ∈ cursor.before, tree.Sound := ⟨Span.fresh_new rule, rfl, sound⟩
  unfold Cursor.begin
  split
  · next span children before shape =>
      rw [shape] at fresh ⊢
      split
      · next continues =>
          have origin : span.origin = .rule .lineBreak := eq_of_beq continues
          have all : Cursor.Sound cursor := sound
          rw [Cursor.Sound, shape] at all
          obtain ⟨last, others⟩ := List.forall_mem_cons.1 all
          cases last with
          | node soundSpan closed _ =>
              have silent := soundSpan.lineBreak origin
              refine ⟨⟨origin, silent.1, silent.2⟩, ?_, others⟩
              rw [closed (.inr origin)]
              rfl
      · exact fresh
  · exact fresh

/-- Line breaks hold no children. -/
def BreaksEmpty (elements : List Element) : Prop :=
  ∀ element ∈ elements, element.tag = Tag.lineBreak → element.children = []

namespace Node

mutual

/-- By induction over the node, with the spans of line breaks the only ones that are resumed. -/
theorem sound_plan (options : Options) (scope : Scope) :
    ∀ (node : Node) (cursor : Cursor), BreaksEmpty node.elements → cursor.Sound →
      (node.plan options scope cursor).Always Cursor.Sound
  | .text content, cursor, _, sound => cursor.sound_add sound (SpanTree.sound_ofText _)
  | .element tag attributes children, cursor, breaks, sound => by
      rw [elements] at breaks
      obtain ⟨here, below⟩ := List.forall_mem_cons.1 breaks
      rw [plan]
      split
      · exact sound_planAll options _ children cursor below sound
      · next rule found =>
          obtain ⟨fresh, empty, before⟩ := Cursor.sound_begin sound rule
          generalize cursor.begin rule = begun at fresh empty before ⊢
          obtain ⟨start, within, prior⟩ := begun
          cases empty
          refine always_bind.2 ((sound_decorate fresh options scope cursor.items _).mono ?_)
          rintro span ⟨soundSpan, origin⟩
          by_cases replaced : span.replaced = true
          · rw [if_pos replaced]
            exact List.forall_mem_cons.2
              ⟨.node soundSpan (fun _ => rfl) (fun _ none => nomatch none), before⟩
          · rw [if_neg replaced]
            refine always_bind.2 ?_
            by_cases isBreak : rule = .lineBreak
            · have childless : children = [] := by
                apply here
                rw [← Rule.tag_of_ofTag? found, isBreak]
                rfl
              rw [childless]
              exact List.forall_mem_cons.2
                ⟨.node soundSpan (fun _ => rfl) (fun _ none => nomatch none), before⟩
            · have nothing (items : Nat) : Cursor.Sound { before := [], items } :=
                fun _ none => nomatch none
              refine (sound_planAll options _ children _ below (nothing _)).mono ?_
              intro ending inner
              have notClosed : ¬(span.replaced = true ∨ span.origin = .rule .lineBreak) := by
                rintro (same | same)
                · exact replaced same
                · rw [origin] at same
                  exact isBreak (Origin.rule.inj same)
              refine List.forall_mem_cons.2 ⟨.node soundSpan (fun closed => ?_) ?_, before⟩
              · exact absurd closed notClosed
              · intro child member
                exact inner child (List.mem_reverse.1 member)

theorem sound_planAll (options : Options) (scope : Scope) :
    ∀ (nodes : List Node) (cursor : Cursor), BreaksEmpty (elementsOf nodes) → cursor.Sound →
      (planAll options scope nodes cursor).Always Cursor.Sound
  | [], cursor, _, sound => sound
  | node :: rest, cursor, breaks, sound => by
      rw [elementsOf] at breaks
      obtain ⟨here, later⟩ := List.forall_mem_append.1 breaks
      rw [planAll]
      refine always_bind.2 ((sound_plan options scope node cursor here sound).mono ?_)
      intro next soundNext
      exact sound_planAll options scope rest next later soundNext

end

end Node

theorem breaksEmpty_clean {post : Element} (breaks : BreaksEmpty post.below) :
    BreaksEmpty post.clean.below := by
  intro element member isBreak
  obtain ⟨original, there, rfl⟩ := Element.exists_of_mem_below_clean member
  have childless : original.children = [] := breaks original there isBreak
  unfold Node.kept
  rw [childless]
  rfl

/-- The plan of a post whose line breaks are empty is sound. -/
theorem sound_plan (options : Options) {post : Element} (breaks : BreaksEmpty post.below) :
    (post.plan options).Always SpanTree.Sound := by
  have start : Cursor.Sound {} := fun _ none => nomatch none
  have laid := Node.sound_planAll options { parent := post.clean.tag } post.clean.children {}
    (breaksEmpty_clean breaks) start
  refine always_bind.2 (laid.mono fun cursor sound => ?_)
  refine .node ⟨?_, ?_, ?_⟩ ?_ fun child member => sound child (List.mem_reverse.1 member)
  · intro mark found
    cases found
  · intro same
    cases same
  · intro same
    cases same
  · rintro (replaced | same)
    · cases replaced
    · cases same

end ForumMarkup
