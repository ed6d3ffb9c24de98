import ForumMarkup.Element.Post
import ForumMarkup.Proofs.Outline.Drawing
import ForumMarkup.Proofs.Span.Forms

/-!
Contract: the outlines of posts are well-formed trees.

Owns:
- `Span.Opens`, spans that leave their content to the spans inside of them;
- `SpanTree.Exclusive`, trees in which a span has a text or holds other spans, and not both.

Main statements: `opens_or_replaced_decorate`; `exclusive_plan`, whatever the answers are;
`Outline.Holds.exclusive`, the same of the numbers of an outline; and `outline_well_formed`.

A line break is never replaced, so that the run of breaks it begins can take up the spans
inside of the breaks that follow.
-/

set_option autoImplicit false

namespace ForumMarkup

open Decoration Inquiry

/-- Nothing is written in place of the spans inside of the span. -/
structure Span.Opens (span : Span) : Prop where
  kept : span.replaced = false
  wordless : span.text = []

theorem Span.opens_new (origin : Origin) : Span.Opens { origin } :=
  ⟨rfl, rfl⟩

/-- A rule leaves the content of its element to the spans inside, or it puts a text in its
place. A line break never does that. -/
theorem opens_or_replaced_decorate {rule : Rule} {start : Span} (origin : start.origin = .rule rule)
    (opens : start.Opens) (options : Options) (scope : Scope) (earlier : Nat)
    (element : Element) :
    (decorate options scope earlier rule element start).Always fun span =>
      span.origin = .rule rule ∧
        (span.Opens ∨ span.replaced = true ∧ span.isRule .lineBreak = false) := by
  have plain : ∀ span : Span, span.origin = start.origin → span.text = start.text →
      span.replaced = start.replaced → span.origin = .rule rule ∧
        (span.Opens ∨ span.replaced = true ∧ span.isRule .lineBreak = false) := by
    intro span sameOrigin sameText sameReplaced
    exact ⟨sameOrigin.trans origin,
      .inl ⟨sameReplaced.trans opens.kept, sameText.trans opens.wordless⟩⟩
  have closed : ∀ span : Span, rule ≠ .lineBreak → span.origin = start.origin →
      span.replaced = true → span.origin = .rule rule ∧
        (span.Opens ∨ span.replaced = true ∧ span.isRule .lineBreak = false) := by
    intro span other sameOrigin replaced
    have same := sameOrigin.trans origin
    refine ⟨same, .inr ⟨replaced, ?_⟩⟩
    rw [Span.isRule, same, beq_eq_false_iff_ne]
    exact fun isBreak => other (Origin.rule.inj isBreak)
  cases rule with
  | bold =>
      rcases emphasis_eq_or scope .bold ['*', '*'] ['*', '*'] start with same | same <;>
        exact plain _ (by rw [same]) (by rw [same]) (by rw [same])
  | italic =>
      rcases emphasis_eq_or scope .italic ['_'] ['_'] start with same | same <;>
        exact plain _ (by rw [same]) (by rw [same]) (by rw [same])
  | underline =>
      rcases emphasis_eq_or scope .underline "[u]".toList "[/u]".toList start with same | same <;>
        exact plain _ (by rw [same]) (by rw [same]) (by rw [same])
  | code => exact closed _ nofun rfl rfl
  | list =>
      rcases list_eq_or scope start with same | same <;>
        exact plain _ (by rw [same]; rfl) (by rw [same]; rfl) (by rw [same]; rfl)
  | item => exact plain _ rfl rfl rfl
  | image => exact closed _ nofun rfl rfl
  | url =>
      refine always_question.2 fun target => ?_
      split
      · exact closed _ nofun rfl rfl
      · exact plain _ rfl rfl rfl
  | email => exact plain _ rfl rfl rfl
  | lineBreak => exact plain _ rfl rfl rfl
  | smilie =>
      refine always_question.2 fun replacement => ?_
      cases replacement with
      | some text => exact closed _ nofun rfl rfl
      | none => exact plain _ rfl rfl rfl
  | video =>
      rcases video_eq_or element start with same | ⟨text, same⟩
      · exact plain _ (by rw [same]; rfl) (by rw [same]; rfl) (by rw [same]; rfl)
      · exact closed _ nofun (by rw [same]; rfl) (by rw [same]; rfl)
  | quote => exact always_quote element (fun header => plain _ rfl rfl rfl) (plain _ rfl rfl rfl)
  | attachment =>
      refine always_bind.2 ((always_true _).mono fun markdown? _ => ?_)
      exact closed _ nofun rfl rfl
  | size =>
      rcases size_eq_or options element start with same | same | same <;>
        exact plain _ (by rw [same]) (by rw [same]) (by rw [same])

/-! ### Trees of spans -/

/-- Trees in which nothing lies inside texts and replaced spans, and all other spans have no
text of their own. -/
inductive SpanTree.Exclusive : SpanTree → Prop where
  | closed {span : Span} (ends : span.replaced = true ∨ span.origin = .text)
      (other : span.isRule .lineBreak = false) : Exclusive (.node span [])
  | opened {span : Span} {children : List SpanTree} (opens : span.Opens)
      (other : span.origin ≠ .text) (inner : ∀ child ∈ children, Exclusive child) :
      Exclusive (.node span children)

theorem SpanTree.exclusive_ofText (text : Text) : (SpanTree.ofText text).Exclusive :=
  .closed (.inr rfl) rfl

def Cursor.Exclusive (cursor : Cursor) : Prop :=
  ∀ tree ∈ cursor.before, tree.Exclusive

/-- A span begins open, also where it goes on with a line break, and only there with spans
inside. -/
theorem Cursor.exclusive_begin {cursor : Cursor} (exclusive : cursor.Exclusive) (rule : Rule) :
    ((cursor.begin rule).1.origin = .rule rule ∧ (cursor.begin rule).1.Opens) ∧
      (∀ tree ∈ (cursor.begin rule).2.1, tree.Exclusive) ∧
      (rule ≠ .lineBreak → (cursor.begin rule).2.1 = []) ∧
      ∀ tree ∈ (cursor.begin rule).2.2, tree.Exclusive := by
  by_cases isBreak : rule = .lineBreak
  · subst isBreak
    by_cases ends : Ends cursor.before
    · rw [begin_of_ends ends]
      exact ⟨⟨rfl, Span.opens_new _⟩, List.forall_mem_nil _, fun _ => rfl, exclusive⟩
    · obtain ⟨span, children, prior, shape, isBreak⟩ := exists_of_not_ends ends
      rw [begin_of_lineBreak shape isBreak]
      rw [Cursor.Exclusive, shape] at exclusive
      obtain ⟨last, others⟩ := List.forall_mem_cons.1 exclusive
      refine ⟨⟨eq_of_beq isBreak, ?_⟩, fun child member => ?_, fun other => absurd rfl other, others⟩
      · cases last with
        | closed _ other => exact absurd isBreak (Bool.eq_false_iff.1 other)
        | opened opens _ _ => exact opens
      · cases last with
        | closed _ _ => cases member
        | opened _ _ inner => exact inner child (List.mem_reverse.1 member)
  · rw [begin_of_ne isBreak]
    exact ⟨⟨rfl, Span.opens_new _⟩, List.forall_mem_nil _, fun _ => rfl, exclusive⟩

namespace Node

mutual

/-- By induction over the node: a span gets a text or a replacement, or spans inside, and never
both. -/
theorem exclusive_plan (options : Options) (scope : Scope) :
    ∀ (node : Node) (cursor : Cursor), cursor.Exclusive →
      (node.plan options scope cursor).Always Cursor.Exclusive
  | .text content, cursor, exclusive =>
      List.forall_mem_cons.2 ⟨SpanTree.exclusive_ofText _, exclusive⟩
  | .element tag attributes children, cursor, exclusive => by
      rw [plan]
      split
      · exact exclusive_planAll options _ children cursor exclusive
      · next rule _ =>
          obtain ⟨⟨origin, opens⟩, within, fresh, before⟩ := Cursor.exclusive_begin exclusive rule
          generalize cursor.begin rule = begun at origin opens within fresh before ⊢
          obtain ⟨start, inside, prior⟩ := begun
          refine always_bind.2 ((opens_or_replaced_decorate origin opens options scope
            cursor.items ⟨tag, attributes, children⟩).mono ?_)
          rintro span ⟨sameOrigin, opened | ⟨replaced, other⟩⟩
          · -- What the children add lies inside of the span.
            rw [if_neg (Bool.eq_false_iff.1 opened.kept)]
            have start (items : Nat) : Cursor.Exclusive { before := inside, items } := within
            refine always_bind.2 ((exclusive_planAll options _ children _ (start _)).mono ?_)
            intro ending inner
            have noText : span.origin ≠ .text := by
              rw [sameOrigin]
              exact nofun
            refine List.forall_mem_cons.2 ⟨.opened opened noText fun child member => ?_, before⟩
            exact inner child (List.mem_reverse.1 member)
          · -- The span is no line break, and therefore new.
            have isOther : rule ≠ .lineBreak := by
              rintro rfl
              rw [Span.isRule, sameOrigin] at other
              cases other
            dsimp only at fresh
            rw [if_pos replaced, fresh isOther]
            exact List.forall_mem_cons.2 ⟨.closed (.inl replaced) other, before⟩

theorem exclusive_planAll (options : Options) (scope : Scope) :
    ∀ (nodes : List Node) (cursor : Cursor), cursor.Exclusive →
      (planAll options scope nodes cursor).Always Cursor.Exclusive
  | [], cursor, exclusive => exclusive
  | node :: rest, cursor, exclusive => by
      rw [planAll]
      refine always_bind.2 ((exclusive_plan options scope node cursor exclusive).mono ?_)
      exact fun next between => exclusive_planAll options scope rest next between

end

end Node

/-- In the plan of a post each span has a text or holds other spans, whatever the answers are. -/
theorem exclusive_plan (options : Options) (post : Element) :
    (post.plan options).Always fun tree =>
      tree.Exclusive ∧ tree.span = { origin := .root } := by
  have laid := Node.exclusive_planAll options { parent := post.clean.tag } post.clean.children {}
    (List.forall_mem_nil _)
  refine always_bind.2 (laid.mono fun cursor exclusive => ⟨?_, rfl⟩)
  exact .opened (Span.opens_new _) nofun fun child member =>
    exclusive child (List.mem_reverse.1 member)

/-! ### Numbers of an outline -/

namespace Outline

/-- A span that was replaced holds no others, and one that holds others has no text and is
none. -/
def ExclusiveAt (outline : Outline) (number : Nat) : Prop :=
  ∀ span, outline.span? number = some span →
    (span.replaced = true → outline.children number = []) ∧
    (outline.children number ≠ [] → span.text = [] ∧ span.origin ≠ .text)

variable {outline : Outline}

mutual

/-- An outline that has an exclusive tree is exclusive at all numbers of the tree. -/
theorem Holds.exclusive : ∀ {tree : SpanTree} {number : Nat}, outline.Holds number tree →
    tree.Exclusive → ∀ place, number ≤ place → place < number + tree.size →
      outline.ExclusiveAt place
  | .node span children, number, ⟨found, listed, inner⟩, exclusive, place, first, last => by
      rcases Nat.eq_or_lt_of_le first with rfl | below
      · intro same there
        rw [found] at there
        cases there
        rw [listed]
        cases exclusive with
        | closed ends other => exact ⟨fun _ => rfl, fun some => absurd rfl some⟩
        | opened opens other _ =>
            refine ⟨fun replaced => ?_, fun _ => ⟨opens.wordless, other⟩⟩
            rw [opens.kept] at replaced
            cases replaced
      · have below_exclusive : ∀ child ∈ children, child.Exclusive := by
          cases exclusive with
          | closed _ _ => exact List.forall_mem_nil _
          | opened _ _ inside => exact inside
        rw [SpanTree.size] at last
        exact HoldsAll.exclusive inner below_exclusive place below (by omega)

theorem HoldsAll.exclusive : ∀ {trees : List SpanTree} {number : Nat},
    outline.HoldsAll number trees → (∀ tree ∈ trees, tree.Exclusive) →
      ∀ place, number ≤ place → place < number + SpanTree.sizes trees → outline.ExclusiveAt place
  | [], number, _, _, place, first, last => absurd last (Nat.not_lt_of_ge first)
  | tree :: rest, number, ⟨here, later⟩, exclusive, place, first, last => by
      obtain ⟨head, others⟩ := List.forall_mem_cons.1 exclusive
      rw [SpanTree.sizes] at last
      rcases Nat.lt_or_ge place (number + tree.size) with inside | beyond
      · exact Holds.exclusive here head place first inside
      · exact HoldsAll.exclusive later others place beyond (by omega)

end

theorem exclusiveAt_ofTree {tree : SpanTree} (exclusive : tree.Exclusive) (number : Nat) :
    (ofTree tree).ExclusiveAt number := by
  intro span found
  refine (holds_ofTree tree).exclusive exclusive number (Nat.zero_le _) ?_ span found
  rw [Nat.zero_add, ← size_ofTree]
  refine Nat.lt_of_not_le fun outside => ?_
  rw [span?, List.getElem?_eq_none outside] at found
  cases found

end Outline

/-- Outlines are well-formed trees. Whatever spans are put in and changed, every span but the
root lies in one with a smaller number, where it is listed once, and nowhere else. The lists
ascend, and hold numbers of spans only. There is one way from the root to a span, and the text
before the lines inside it is made of the line marks on this way.

The outline of a post is such a one, that of the plan of the post. Its numbers are the places
in reading order, with each span in front of those inside of it. Spans that were replaced hold
no others, those that hold others have no text and are none, and the root is bare. -/
theorem outline_well_formed :
    (∀ outline : Outline, outline.Grown →
      (∀ number, 0 < number → number < outline.size → ∃ parent, parent < number ∧
        outline.parent? number = some parent ∧
        (outline.children parent).count number = 1 ∧
        ∀ other, number ∈ outline.children other → other = parent) ∧
      (∀ number, (outline.children number).Pairwise (· < ·) ∧
        ∀ child ∈ outline.children number, number < child ∧ child < outline.size) ∧
      ∀ number, number < outline.size → ∃ path, outline.IsPath path number ∧
        (∀ other, outline.IsPath other number → other = path) ∧
        outline.lineMark number = path.flatMap fun step =>
          ((outline.span? step).bind Span.lineMark?).getD []) ∧
    ∀ (ε : Type) (resolver : Resolver ε) (options : Options) (post : Element) (outline : Outline),
      (post.outline options).run resolver = .ok outline →
        outline.Grown ∧
        (∃ tree, (post.plan options).run resolver = .ok tree ∧ outline = .ofTree tree) ∧
        outline.preorder 0 = List.range outline.size ∧
        (∀ number span, outline.span? number = some span →
          (span.replaced = true → outline.children number = []) ∧
          (outline.children number ≠ [] → span.text = [] ∧ span.origin ≠ .text)) ∧
        outline.span? 0 = some { origin := .root } := by
  refine ⟨fun outline grown => ?_, fun ε resolver options post outline ran => ?_⟩
  · have linked := grown.linked
    refine ⟨fun number inner inside => ?_, fun number => ⟨linked.ascending number, ?_⟩,
      fun number inside => ?_⟩
    · obtain ⟨parent, up⟩ := linked.attached number inner inside
      refine ⟨parent, Outline.lt_of_parent? up, up, linked.count_children up, ?_⟩
      intro other member
      have again := (linked.listed other number).1 member
      rw [up] at again
      exact (Option.some.inj again).symm
    · intro child member
      exact ⟨Outline.lt_of_mem_children member,
        Outline.lt_size_of_parent? ((linked.listed number child).1 member)⟩
    · obtain ⟨path, way⟩ := Outline.exists_isPath linked inside
      exact ⟨path, way, fun other another => another.unique linked way, way.lineMark_eq linked⟩
  · rw [outline_eq_plan] at ran
    obtain ⟨tree, planned, made⟩ := exists_of_run_bind ran
    cases made
    obtain ⟨exclusive, root⟩ := (exclusive_plan options post).of_run planned
    refine ⟨Outline.grown_ofTree tree, ⟨tree, planned, rfl⟩, Outline.preorder_ofTree tree,
      Outline.exclusiveAt_ofTree exclusive, ?_⟩
    rw [← root]
    exact (Outline.holds_ofTree tree).found

/-- Two line breaks, the second one with a text inside, a quote with a smilie and a text, and an
image. -/
def continuedBreak : Element :=
  .post [
    .lineBreak, .wrap Tag.lineBreak [.text "a".toList],
    .quote [.smilie ":)".toList, .text "b".toList],
    .image "c".toList]

/-- The line breaks share the number 1, and the text behind the second one is inside of it. The
image, number 7, is replaced. The text of the smilie, number 5, is quoted. -/
theorem outline_well_formed_continuedBreak :
    ∃ outline, (continuedBreak.outline {}).run (Resolver.nothing : Resolver Unit) = .ok outline ∧
      outline.entries.map Outline.Entry.children
        = [[1, 3, 7], [2], [], [4, 6], [5], [], [], []] ∧
      outline.preorder 0 = List.range 8 ∧
      outline.children 7 = [] ∧
      outline.lineMark 5 = quoteMark := by
  have ran : (continuedBreak.outline {}).run (Resolver.nothing : Resolver Unit) = .ok _ :=
    Inquiry.run_ofAnswers _ _
  obtain ⟨grown, _, numbered, exclusive, _⟩ :=
    outline_well_formed.2 Unit .nothing {} continuedBreak _ ran
  have size : ((continuedBreak.outline {}).evaluate Lookup.unresolved).size = 8 := by decide +kernel
  have links : ((continuedBreak.outline {}).evaluate Lookup.unresolved).entries.map
      Outline.Entry.children = [[1, 3, 7], [2], [], [4, 6], [5], [], [], []] := by decide +kernel
  have listed (number : Nat) :
      ((continuedBreak.outline {}).evaluate Lookup.unresolved).children number
        = ([[1, 3, 7], [2], [], [4, 6], [5], [], [], []] : List (List Nat))[number]?.getD [] := by
    rw [← links, List.getElem?_map]
    rfl
  have way : ((continuedBreak.outline {}).evaluate Lookup.unresolved).IsPath [0, 3, 4, 5] 5 := by
    refine ⟨rfl, ?_, rfl⟩
    simp only [listed]
    decide
  obtain ⟨path, _, only, marks⟩ := (outline_well_formed.1 _ grown).2.2 5 (by rw [size]; decide)
  refine ⟨_, ran, links, ?_, ?_, ?_⟩
  · rw [numbered, size]
  · have image : (((continuedBreak.outline {}).evaluate Lookup.unresolved).span? 7).map
        Span.replaced = some true := by decide +kernel
    obtain ⟨span, found, replaced⟩ := Option.map_eq_some_iff.1 image
    exact (exclusive 7 span found).1 replaced
  · rw [marks, ← only _ way]
    decide +kernel

end ForumMarkup
