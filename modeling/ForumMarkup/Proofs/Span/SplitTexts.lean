import ForumMarkup.Proofs.Element.SplitLeaves
import ForumMarkup.Proofs.Lookup.Related
import ForumMarkup.Proofs.Markdown.Wrapper
import ForumMarkup.Proofs.Span.Steps

/-!
Contract: plans that differ in how their text is cut into spans.

Owns: `SpanTree.Finer`, spans in place, the last one first, some texts among which and below
which are cut in two.

Main statement: `Finer.planAll`.  Trees that differ in how their text is cut ask the same
questions, and their plans differ in the same way.

Rules read the text of an element as a whole, and a text span is never gone on with, so that
a cut is seen by nothing that a span is made of.
-/

set_option autoImplicit false

namespace ForumMarkup

/-- Some text spans among those in place and below them are replaced by two parts. -/
inductive SpanTree.Finer : (before finer : List SpanTree) → Prop where
  | nil : Finer [] []
  | node {children finerChildren before finer : List SpanTree} (span : Span)
      (inner : Finer children.reverse finerChildren.reverse) (prior : Finer before finer) :
      Finer (.node span children :: before) (.node span finerChildren :: finer)
  | cut {front back : Text} {before finer : List SpanTree} (seam : front.Seam back)
      (prior : Finer before finer) :
      Finer (.ofText (front ++ back) :: before) (.ofText back :: .ofText front :: finer)

structure Cursor.Finer (cursor finer : Cursor) : Prop where
  before : SpanTree.Finer cursor.before finer.before
  items : cursor.items = finer.items

theorem SpanTree.Finer.ofText {before finer : List SpanTree} (prior : Finer before finer)
    (text : Text) : Finer (.ofText text :: before) (.ofText text :: finer) :=
  .node _ .nil prior

/-- A span begins with the same span, and no line break goes on with a text. -/
theorem Cursor.Finer.begin {cursor finer : Cursor} (cuts : cursor.Finer finer) (rule : Rule) :
    (cursor.begin rule).1 = (finer.begin rule).1 ∧
      SpanTree.Finer (cursor.begin rule).2.1 (finer.begin rule).2.1 ∧
      SpanTree.Finer (cursor.begin rule).2.2 (finer.begin rule).2.2 := by
  obtain ⟨before, items⟩ := cursor
  obtain ⟨finerBefore, finerItems⟩ := finer
  have placed : SpanTree.Finer before finerBefore := cuts.before
  by_cases isBreak : rule = .lineBreak
  · subst isBreak
    cases placed with
    | nil => exact ⟨rfl, .nil, .nil⟩
    | node span inner prior =>
        by_cases continues : span.isRule .lineBreak = true
        · rw [Cursor.begin_of_lineBreak rfl continues, Cursor.begin_of_lineBreak rfl continues]
          exact ⟨rfl, inner, prior⟩
        · have ends (children before : List SpanTree) :
              Cursor.Ends (.node span children :: before) := by
            rintro _ ⟨⟩
            exact Bool.eq_false_iff.2 continues
          rw [Cursor.begin_of_ends (ends _ _), Cursor.begin_of_ends (ends _ _)]
          exact ⟨rfl, .nil, .node span inner prior⟩
    | cut seam prior =>
        rw [Cursor.begin_of_ends (Cursor.ends_ofText _ _), Cursor.begin_of_ends (Cursor.ends_ofText _ _)]
        exact ⟨rfl, .nil, .cut seam prior⟩
  · rw [Cursor.begin_of_ne isBreak, Cursor.begin_of_ne isBreak]
    exact ⟨rfl, .nil, placed⟩

namespace Node

/-- From cursors that differ in how their text is cut, trees that differ so are laid out with
the same questions, to cursors that differ so again. -/
theorem Finer.planAll {options : Options} {nodes finer : List Node} (cuts : Finer nodes finer) :
    ∀ (scope : Scope) {cursor other : Cursor}, cursor.Finer other →
      (Node.planAll options scope nodes cursor).Related Cursor.Finer
        (Node.planAll options scope finer other) := by
  induction cuts with
  | nil => exact fun _ _ _ placed => .done placed
  | text content _ ih =>
      intro scope cursor other placed
      exact ih scope ⟨placed.before.ofText _, placed.items⟩
  | cut seam _ ih =>
      intro scope cursor other placed
      have plain := seam.plain
      rw [List.mem_append, not_or] at plain
      rw [planAll_cons _ (plan_text _), planAll_cons _ (plan_text _), planAll_cons _ (plan_text _),
        Entity.decode_eq_self seam.plain, Entity.decode_eq_self plain.1,
        Entity.decode_eq_self plain.2]
      exact ih scope ⟨.cut seam placed.before, placed.items⟩
  | element tag attributes inner _ ihInner ih =>
      intro scope cursor other placed
      rw [Node.planAll, Node.planAll]
      refine Inquiry.Related.bind (r := Cursor.Finer) ?_ fun next next' => ih scope
      rw [plan, plan]
      cases Rule.ofTag? tag with
      | none => exact ihInner _ placed
      | some rule =>
          obtain ⟨same, within, prior⟩ := placed.begin rule
          dsimp only
          rw [decorate_children options scope cursor.items rule tag attributes inner.textContents,
            placed.items, same]
          refine Inquiry.related_bind _ fun span => ?_
          by_cases closed : span.replaced = true
          · rw [if_pos closed, if_pos closed]
            refine .done ⟨.node span ?_ prior, rfl⟩
            rwa [List.reverse_reverse, List.reverse_reverse]
          · rw [if_neg closed, if_neg closed]
            refine Inquiry.Related.bind (r := Cursor.Finer) (ihInner _ ⟨within, rfl⟩) ?_
            intro ending finerEnding laid
            refine .done ⟨.node span ?_ prior, ?_⟩
            · rw [List.reverse_reverse, List.reverse_reverse]
              exact laid.before
            · dsimp only
              rw [laid.items]

end Node

end ForumMarkup
