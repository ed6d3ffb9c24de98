import ForumMarkup.Markdown
import ForumMarkup.Proofs.Element.Visited
import ForumMarkup.Proofs.Lookup.Poses
import ForumMarkup.Proofs.Span.Forms

/-!
Contract: which questions a conversion asks, in which order, and how it fails.

Owns: `SpanTree.Resumable`, trees in which a line break can still take further ones.

Main statement: `asked_toMarkdown`.  The questions are those of the visited elements in
document order, up to the first one that fails, and its failure is the result.
-/

set_option autoImplicit false

namespace ForumMarkup

variable {ε : Type} {resolver : Resolver ε}

open Inquiry

namespace Decoration

theorem isFound_ok {α : Type} (answer? : Option α) :
    isFound (.ok answer? : Except ε (Option α)) = answer?.isSome := by
  cases answer? with
  | some answer => rfl
  | none => rfl

/-- The quoted post is asked for by its number, and found if it is known. -/
theorem poses_quotedPost (element : Element) :
    (quotedPost element).Poses resolver element.postLookup?.toList fun post? =>
      element.hasKnownPost resolver = post?.isSome := by
  unfold quotedPost Element.postLookup? Element.hasKnownPost
  cases element.attributes.number? Key.postId with
  | some postId =>
      refine (poses_question _).mono fun post? answered => ?_
      rw [Option.any_some, answered, isFound_ok]
  | none => exact poses_done rfl

theorem poses_quotedUser (element : Element) :
    (quotedUser element).Poses resolver element.userLookup?.toList fun _ => True := by
  unfold quotedUser Element.userLookup?
  cases element.attributes.number? Key.userId with
  | some userId => exact (poses_question _).mono fun _ _ => trivial
  | none => exact poses_done trivial

theorem poses_quotedAuthor (element : Element) :
    (quotedAuthor element).Poses resolver element.userLookup?.toList fun _ => True :=
  (poses_quotedUser element).bind_done fun _ _ => trivial

theorem poses_uploaded (element : Element) :
    (uploaded element).Poses resolver
      ((element.attributes.nonEmpty? Key.filename).map fun filename =>
        .upload filename (element.attributes.number? Key.index)).toList fun _ => True := by
  unfold uploaded
  cases element.attributes.nonEmpty? Key.filename with
  | some filename => exact (poses_question _).mono fun _ _ => trivial
  | none => exact poses_done trivial

/-- A quote asks for its post and, unless that is known, for its user. -/
theorem poses_quote {p : Span → Prop} (element : Element) {span : Span}
    (headed : ∀ header, p (quoteHeader header { span.setBreaks 2 with kindBefore := .html }))
    (marked : p { span.setBreaks 2 with kindBefore := .html, lineMark? := some quoteMark }) :
    (quote element span).Poses resolver
      (element.postLookup?.toList
        ++ if element.hasKnownPost resolver then [] else element.userLookup?.toList) p := by
  refine (poses_quotedPost element).bind fun post? known => ?_
  rw [known]
  cases post? with
  | some post => exact poses_done (headed _)
  | none =>
      rw [show (if (none : Option QuotedPost).isSome = true then []
        else element.userLookup?.toList) = element.userLookup?.toList ++ [] by simp]
      refine (poses_quotedAuthor element).bind fun author? _ => ?_
      cases author? with
      | some author => exact poses_done (headed _)
      | none => exact poses_done marked

end Decoration

open Decoration

/-- The rule of an element asks the questions of that element, and replaces its content
where this is replaced. -/
theorem poses_decorate (options : Options) (scope : Scope) (earlier : Nat) {rule : Rule}
    {element : Element} (found : Rule.ofTag? element.tag = some rule) {start : Span}
    (fresh : start.replaced = false) :
    (decorate options scope earlier rule element start).Poses resolver
      (element.lookups resolver) fun span =>
        span.origin = start.origin ∧ span.replaced = element.isReplaced resolver := by
  unfold Element.lookups Element.isReplaced
  rw [found]
  -- One case for each rule; those without a question return a span at once.
  cases rule with
  | bold =>
      refine poses_done ?_
      rcases emphasis_eq_or scope .bold ['*', '*'] ['*', '*'] start with same | same <;>
        exact by rw [same]; exact ⟨rfl, fresh⟩
  | italic =>
      refine poses_done ?_
      rcases emphasis_eq_or scope .italic ['_'] ['_'] start with same | same <;>
        exact by rw [same]; exact ⟨rfl, fresh⟩
  | underline =>
      refine poses_done ?_
      rcases emphasis_eq_or scope .underline "[u]".toList "[/u]".toList start with same | same <;>
        exact by rw [same]; exact ⟨rfl, fresh⟩
  | code => exact poses_done ⟨rfl, rfl⟩
  | list =>
      refine poses_done ?_
      rcases list_eq_or scope start with same | same <;> exact by rw [same]; exact ⟨rfl, fresh⟩
  | item => exact poses_done ⟨rfl, fresh⟩
  | image => exact poses_done ⟨rfl, rfl⟩
  | url =>
      refine Poses.bind_done (poses_question _) fun target _ => ?_
      cases address? : element.attributes.get? Key.url with
      | none => simp [Span.replace]
      | some address =>
          by_cases same : Text.trim element.textContent = address
          · simp [same, Span.replace]
          · simp [same, fresh]
  | email => exact poses_done ⟨rfl, fresh⟩
  | lineBreak => exact poses_done ⟨rfl, fresh⟩
  | smilie =>
      rw [← List.append_nil [_]]
      refine (poses_question _).bind fun replacement? answered => ?_
      rw [answered, isFound_ok]
      cases replacement? with
      | some replacement => exact poses_done ⟨rfl, rfl⟩
      | none => exact poses_done ⟨rfl, fresh⟩
  | video =>
      refine poses_done ?_
      unfold video
      cases element.attributes.nonEmpty? Key.id with
      | some id => exact ⟨rfl, rfl⟩
      | none => exact ⟨rfl, fresh⟩
  | quote => exact poses_quote element (fun _ => ⟨rfl, fresh⟩) ⟨rfl, fresh⟩
  | attachment =>
      exact Poses.bind_done (poses_uploaded element) fun _ _ => ⟨rfl, rfl⟩
  | size =>
      refine poses_done ?_
      rcases size_eq_or options element start with same | same | same <;>
        exact by rw [same]; exact ⟨rfl, fresh⟩

/-! ### Trees of spans -/

/-- Trees in which no line break is replaced, so that each can take further ones. -/
inductive SpanTree.Resumable : SpanTree → Prop where
  | node {span : Span} {children : List SpanTree}
      (open_ : span.origin = .rule .lineBreak → span.replaced = false)
      (inner : ∀ child ∈ children, Resumable child) : Resumable (.node span children)

def Cursor.Resumable (cursor : Cursor) : Prop :=
  ∀ tree ∈ cursor.before, tree.Resumable

/-- A span begins without a replacement, also where it goes on with a line break. -/
theorem Cursor.resumable_begin {cursor : Cursor} (resumable : cursor.Resumable) (rule : Rule) :
    ((cursor.begin rule).1.origin = .rule rule ∧ (cursor.begin rule).1.replaced = false) ∧
      (∀ tree ∈ (cursor.begin rule).2.1, tree.Resumable) ∧
      ∀ tree ∈ (cursor.begin rule).2.2, tree.Resumable := by
  unfold Cursor.begin
  split
  · next span children before shape =>
      have all : ∀ tree ∈ cursor.before, tree.Resumable := resumable
      rw [shape] at all
      split
      · next continues =>
          have origin : span.origin = .rule .lineBreak := eq_of_beq continues
          obtain ⟨last, others⟩ := List.forall_mem_cons.1 all
          cases last with
          | node open_ inner =>
              have within := fun tree member => inner tree (List.mem_reverse.1 member)
              exact ⟨⟨origin, open_ origin⟩, within, others⟩
      · rw [shape]
        exact ⟨⟨rfl, rfl⟩, nofun, all⟩
  · exact ⟨⟨rfl, rfl⟩, nofun, resumable⟩

/-- What is in place inside of a span that begins stays resumable, whatever was counted. -/
theorem Cursor.Resumable.within {cursor : Cursor} (resumable : cursor.Resumable) (rule : Rule)
    (items : Nat) : Cursor.Resumable { before := (cursor.begin rule).2.1, items } :=
  (Cursor.resumable_begin resumable rule).2.1

namespace Node

mutual

/-- A node asks the questions of the elements visited in it. -/
theorem poses_plan (options : Options) (scope : Scope) {around : List Element}
    (visible : ∀ outer ∈ around, outer.isReplaced resolver = false) :
    ∀ (node : Node) (cursor : Cursor), cursor.Resumable →
      (node.plan options scope cursor).Poses resolver
        ((node.visited resolver around).flatMap (Element.lookups resolver)) Cursor.Resumable
  | .text content, cursor, resumable => by
      refine poses_done (List.forall_mem_cons.2 ⟨.node nofun nofun, resumable⟩)
  | .element tag attributes children, cursor, resumable => by
      rw [visited_element resolver visible, List.flatMap_cons, plan]
      cases found : Rule.ofTag? tag with
      | none =>
          -- Without a rule there is no question, and the content belongs to the span around.
          have none : Element.lookups resolver ⟨tag, attributes, children⟩ = [] := by
            rw [Element.lookups, found]
          have open_ : Element.isReplaced resolver ⟨tag, attributes, children⟩ = false :=
            Element.not_isReplaced_of_noRule found resolver
          rw [none, open_, List.nil_append]
          exact poses_planAll options _ (List.forall_mem_cons.2 ⟨open_, visible⟩) children cursor
            resumable
      | some rule =>
          dsimp only
          obtain ⟨⟨origin, fresh⟩, within, before⟩ := Cursor.resumable_begin resumable rule
          generalize cursor.begin rule = begun at origin fresh within before ⊢
          obtain ⟨start, inside, prior⟩ := begun
          dsimp only at origin fresh within before ⊢
          have decorated := @poses_decorate _ resolver options scope cursor.items rule
            ⟨tag, attributes, children⟩ found start fresh
          refine decorated.bind ?_
          rintro span ⟨sameOrigin, replaced⟩
          cases isReplaced : Element.isReplaced resolver ⟨tag, attributes, children⟩ with
          | true =>
              rw [isReplaced] at replaced
              rw [if_pos replaced, if_pos rfl]
              refine poses_done (List.forall_mem_cons.2 ⟨.node ?_ ?_, before⟩)
              · intro lineBreak
                rw [sameOrigin, origin] at lineBreak
                rw [Element.isReplaced, found, Origin.rule.inj lineBreak] at isReplaced
                cases isReplaced
              · exact fun child member => within child (List.mem_reverse.1 member)
          | false =>
              rw [isReplaced] at replaced
              have goesOn : ¬span.replaced = true := by simp [replaced]
              rw [if_neg Bool.false_ne_true, if_neg goesOn]
              have inner (items : Nat) : Cursor.Resumable { before := inside, items } := within
              refine Poses.bind_done (poses_planAll options _
                (List.forall_mem_cons.2 ⟨isReplaced, visible⟩) children _ (inner _)) ?_
              intro ending resumableEnding
              refine List.forall_mem_cons.2 ⟨.node (fun _ => replaced) ?_, before⟩
              exact fun child member => resumableEnding child (List.mem_reverse.1 member)

/-- Nodes ask the questions of the elements visited in them, one node after the other. -/
theorem poses_planAll (options : Options) (scope : Scope) {around : List Element}
    (visible : ∀ outer ∈ around, outer.isReplaced resolver = false) :
    ∀ (nodes : List Node) (cursor : Cursor), cursor.Resumable →
      (planAll options scope nodes cursor).Poses resolver
        ((visitedOf resolver around nodes).flatMap (Element.lookups resolver)) Cursor.Resumable
  | [], cursor, resumable => poses_done resumable
  | node :: rest, cursor, resumable => by
      rw [visitedOf_cons, List.flatMap_append, planAll]
      refine (poses_plan options scope visible node cursor resumable).bind ?_
      exact fun next => poses_planAll options scope visible rest next

end

end Node

/-- The questions of a post, in the order in which they are asked unless one fails. -/
def Element.allLookups (resolver : Resolver ε) (post : Element) : List Lookup :=
  (post.clean.visited resolver).flatMap (Element.lookups resolver)

theorem poses_toMarkdown (options : Options) (post : Element) :
    (post.toMarkdown options).Poses resolver (post.allLookups resolver) fun _ => True := by
  have start : Cursor.Resumable {} := nofun
  have alone : ∀ outer ∈ ([] : List Element), outer.isReplaced resolver = false := nofun
  have laid := Node.poses_planAll options { parent := post.clean.tag } alone
    post.clean.children {} start
  have planned : (post.plan options).Poses resolver (post.allLookups resolver)
      fun _ => True := laid.bind_done fun _ _ => trivial
  exact planned.bind_done fun _ _ => trivial

/-- A conversion asks the questions of the visited elements, in document order and each
one once, up to the first that fails. It fails exactly if one of them does, with the
failure of that one. -/
theorem asked_toMarkdown (options : Options) (resolver : Resolver ε) (post : Element) :
    (post.toMarkdown options).asked resolver = resolver.untilFailure (post.allLookups resolver) ∧
      ∀ failure, post.convert options resolver = .error failure
        ↔ resolver.failure? (post.allLookups resolver) = some failure :=
  ⟨(poses_toMarkdown options post).asked, (poses_toMarkdown options post).run_eq_error_iff⟩

end ForumMarkup
