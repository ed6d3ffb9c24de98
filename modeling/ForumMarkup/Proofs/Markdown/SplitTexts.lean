import ForumMarkup.Proofs.Markdown.Laid
import ForumMarkup.Proofs.Span.SplitTexts
import ForumMarkup.Proofs.Span.Wraps
import ForumMarkup.Proofs.Text.Core

/-!
Contract: how text is cut into leaves does not show in the Markdown.

Main statements: `place_ofText_append`, a text span is written as its two parts one behind
the other; `Finer.laid_eq`, the same for whole plans; and `convert_split`.

A line starts with its mark only once: behind the first part the buffer ends with neither
nothing nor a line feed, since a mark has no line feed.
-/

set_option autoImplicit false

namespace ForumMarkup

namespace Markdown

variable (options : Options) {mark : Text} (marked : Bool)

/-- A text without line feeds is written as it is, or at the start of a marked line behind
the mark and without the blank it starts with. -/
theorem place_ofText {content : Text} (single : '\n' ∉ content) (buffer : Buffer) :
    place options mark marked { origin := .text, text := content } true content buffer
      = (if !mark.isEmpty && atLineStart marked buffer then mark ++ Text.dropLeadingBlank content
          else content).reverse ++ buffer := by
  have start : startsLine mark marked { origin := .text, text := content } buffer
      = (!mark.isEmpty && atLineStart marked buffer) := by
    unfold startsLine
    rw [show Span.isRule { origin := .text, text := content } .lineBreak = false from rfl]
    simp
  rw [place_eq]
  dsimp only
  rw [addBreaks_zero, addBreaks_zero, start]
  generalize (!mark.isEmpty && atLineStart marked buffer) = lineStart
  have hoisted : hoistStart lineStart buffer [] content
      = ([], if lineStart then Text.dropLeadingBlank content else content) := by
    cases content with
    | nil => cases lineStart <;> rfl
    | cons c rest =>
        rw [hoistStart, Text.dropLeadingBlank]
        cases lineStart <;> cases Text.isBlank c <;> rfl
  have parts : edges lineStart buffer { origin := .text, text := content } content
      = ([], if lineStart then Text.dropLeadingBlank content else content, []) := by
    unfold edges
    rw [show Span.isRule { origin := .text, text := content } .code = false from rfl,
      if_neg Bool.false_ne_true]
    dsimp only
    rw [hoisted, hoistEnd_nil]
  have kept : '\n' ∉ (if lineStart then Text.dropLeadingBlank content else content) := by
    split
    · rw [← Text.leadingBlank_append content] at single
      exact fun feed => single (List.mem_append_right _ feed)
    · exact single
  rw [parts, written, markLines_nil, markLines_of_feed_free kept, if_pos rfl, List.append_nil,
    List.append_nil]
  cases lineStart <;> rfl

/-- Behind a text without a line feed no line starts. -/
theorem atLineStart_behind {front : Text} (filled : front ≠ []) (single : '\n' ∉ front)
    (buffer : Buffer) : atLineStart marked (front.reverse ++ buffer) = false := by
  obtain ⟨c, rest, shape⟩ := List.exists_cons_of_ne_nil (List.reverse_ne_nil_iff.2 filled)
  rw [shape, List.cons_append, atLineStart, beq_eq_false_iff_ne]
  rintro rfl
  exact single (List.mem_reverse.1 (by rw [shape]; exact List.mem_cons_self))

/-- A text is written as its two parts one behind the other. -/
theorem place_ofText_append (feedless : '\n' ∉ mark) {front back : Text}
    (seam : front.Seam back) (buffer : Buffer) :
    place options mark marked { origin := .text, text := front ++ back } true (front ++ back) buffer
      = place options mark marked { origin := .text, text := back } true back
          (place options mark marked { origin := .text, text := front } true front buffer) := by
  obtain ⟨singleFront, singleBack⟩ := not_or.1 (mt List.mem_append.2 seam.single)
  have dropped : Text.dropLeadingBlank (front ++ back) = Text.dropLeadingBlank front ++ back := by
    obtain ⟨c, rest, shape⟩ := List.exists_cons_of_ne_nil seam.first
    rw [shape, List.cons_append, Text.dropLeadingBlank, Text.dropLeadingBlank]
    split <;> rfl
  have inLine {t : Text} (filled : t ≠ []) (single : '\n' ∉ t) :
      place options mark marked { origin := .text, text := back } true back (t.reverse ++ buffer)
        = (t ++ back).reverse ++ buffer := by
    rw [place_ofText options marked singleBack, atLineStart_behind marked filled single,
      Bool.and_false, if_neg Bool.false_ne_true, List.reverse_append, List.append_assoc]
  rw [place_ofText options marked seam.single, place_ofText options marked singleFront]
  cases lineStart : !mark.isEmpty && atLineStart marked buffer with
  | false => exact (inLine seam.first singleFront).symm
  | true =>
      have filled : mark ≠ [] := by
        rw [Bool.and_eq_true] at lineStart
        simpa using lineStart.1
      have single : '\n' ∉ mark ++ Text.dropLeadingBlank front := by
        rw [← Text.leadingBlank_append front] at singleFront
        rw [List.mem_append, not_or]
        exact ⟨feedless, fun feed => singleFront (List.mem_append_right _ feed)⟩
      rw [if_pos rfl, if_pos rfl, inLine (List.append_ne_nil_of_left_ne_nil filled _) single,
        dropped, List.append_assoc]

end Markdown

open Decoration Markdown

namespace SpanTree

abbrev QuoteMarked (tree : SpanTree) : Prop :=
  tree.Every fun span => ∀ mark, span.lineMark? = some mark → mark = quoteMark

theorem QuoteMarked.feedless {span : Span} {children : List SpanTree}
    (quoted : QuoteMarked (.node span children)) {mark : Text} (feedless : '\n' ∉ mark) :
    '\n' ∉ mark ++ span.lineMark?.getD [] := by
  rw [List.mem_append, not_or]
  refine ⟨feedless, ?_⟩
  cases found : span.lineMark? with
  | none => exact List.not_mem_nil
  | some inner =>
      rw [quoted.span inner found]
      decide

theorem Finer.eq_nil_iff {before finer : List SpanTree} (cuts : Finer before finer) :
    before = [] ↔ finer = [] := by
  cases cuts <;> simp

/-- Spans write the same, however their text is cut. -/
theorem Finer.laid_eq (options : Options) {before finer : List SpanTree}
    (cuts : Finer before finer) :
    (∀ tree ∈ before, tree.QuoteMarked) → ∀ {mark : Text}, '\n' ∉ mark → ∀ marked : Bool,
      laid options mark marked before = laid options mark marked finer := by
  induction cuts with
  | nil => exact fun _ _ _ _ => rfl
  | cut seam _ ih =>
      intro quoted mark feedless marked
      obtain ⟨_, later⟩ := List.forall_mem_cons.1 quoted
      rw [SpanTree.ofText, SpanTree.ofText, SpanTree.ofText, laid_leaf, laid_leaf, laid_leaf,
        ih later feedless, place_ofText_append options marked feedless seam]
  | @node children finerChildren before finer span inner _ ihInner ih =>
      intro quoted mark feedless marked
      obtain ⟨here, later⟩ := List.forall_mem_cons.1 quoted
      have same (marked : Bool) :
          siblings options (mark ++ span.lineMark?.getD []) marked [] children
            = siblings options (mark ++ span.lineMark?.getD []) marked [] finerChildren := by
        have below : ∀ tree ∈ children.reverse, tree.QuoteMarked :=
          fun tree member => here.children tree (List.mem_reverse.1 member)
        have content := ihInner below (here.feedless feedless) marked
        rwa [laid, laid, List.reverse_reverse, List.reverse_reverse] at content
      have written : inside options (mark ++ span.lineMark?.getD []) (.node span children)
          = inside options (mark ++ span.lineMark?.getD []) (.node span finerChildren) := by
        rw [inside, inside, same]
      have leaf : isLeaf (.node span children) = isLeaf (.node span finerChildren) := by
        have none := inner.eq_nil_iff
        rw [List.reverse_eq_nil_iff, List.reverse_eq_nil_iff] at none
        rw [Bool.eq_iff_iff, isLeaf, isLeaf, List.isEmpty_iff, List.isEmpty_iff]
        exact none
      rw [laid, laid, List.reverse_cons, List.reverse_cons, siblings_append, siblings_append,
        siblings, siblings, siblings, siblings, leaf]
      dsimp only [SpanTree.span]
      rw [written]
      exact congrArg _ (ih later feedless marked)

end SpanTree

/-- The plans of two posts whose text is cut differently ask the same, and differ in how the
text is cut. -/
theorem plan_of_finer (options : Options) {post finer : Element} (tag : finer.tag = post.tag)
    (cuts : Node.Finer post.children finer.children) :
    (post.plan options).Related
      (fun tree other => ∃ before finerBefore : List SpanTree,
        SpanTree.Finer before finerBefore ∧ tree = .node { origin := .root } before.reverse ∧
          other = .node { origin := .root } finerBefore.reverse)
      (finer.plan options) := by
  unfold Element.plan Element.clean
  dsimp only
  rw [tag]
  refine ((cuts.cleanAll _).planAll _ ⟨.nil, rfl⟩).bind fun cursor other laid => ?_
  exact .done ⟨cursor.before, other.before, laid.before, rfl, rfl⟩

/-- Cut leaves are written as the whole ones are, with the same questions. -/
theorem toMarkdown_of_finer (options : Options) {post finer : Element}
    (tag : finer.tag = post.tag) (cuts : Node.Finer post.children finer.children) :
    finer.toMarkdown options = post.toMarkdown options := by
  refine ((plan_of_finer options tag cuts).bind_eq (quoteMarked_plan options post) ?_).symm
  rintro _ _ ⟨before, finerBefore, laidFiner, rfl, rfl⟩ quoted
  have below : ∀ tree ∈ before, tree.QuoteMarked :=
    fun tree member => quoted.children tree (List.mem_reverse.2 member)
  have written := laidFiner.laid_eq options below List.not_mem_nil false
  have rendered (trees : List SpanTree) :
      (SpanTree.node { origin := .root } trees.reverse).render options
        = (stripBreaks [] (laid options [] false trees)).reverse := by
    unfold SpanTree.render
    dsimp only
    rw [inside_of_none options _ rfl, List.reverse_reverse]
    rfl
  rw [rendered, rendered, written]

/-- How text is cut into leaves does not show: with one leaf replaced by its two parts, which
are not empty and have no line feed and no ampersand, every resolver is asked the same
questions in the same order, and the Markdown is the same, or the failure is. -/
theorem convert_split {ε : Type} (options : Options) (resolver : Resolver ε) {front back : Text}
    (first : front ≠ []) (second : back ≠ []) (single : '\n' ∉ front ++ back)
    (plain : '&' ∉ front ++ back) {post split : Element} (splits : post.Splits front back split) :
    (split.toMarkdown options).asked resolver = (post.toMarkdown options).asked resolver ∧
      split.convert options resolver = post.convert options resolver := by
  have same : split.toMarkdown options = post.toMarkdown options :=
    toMarkdown_of_finer options splits.tag
      (splits.children.finer ⟨first, second, single, plain⟩)
  unfold Element.convert
  rw [same]
  exact ⟨rfl, rfl⟩

def quotedItem (nodes : List Node) : Element :=
  .post [.quote [.list [nodes], .smilie ":)".toList]]

theorem convert_split_quotedItem :
    "  ".toList ≠ [] ∧ "  a".toList ≠ [] ∧ '\n' ∉ "    a".toList ∧ '&' ∉ "    a".toList ∧
      (quotedItem [.text "    a".toList]).Splits "  ".toList "  a".toList
        (quotedItem [.text "  ".toList, .text "  a".toList]) ∧
      ((quotedItem [.text "  ".toList, .text "  a".toList]).toMarkdown {}).asked
          (Resolver.nothing : Resolver Unit)
        = ((quotedItem [.text "    a".toList]).toMarkdown {}).asked
          (Resolver.nothing : Resolver Unit) ∧
      (quotedItem [.text "  ".toList, .text "  a".toList]).convert {}
          (Resolver.nothing : Resolver Unit)
        = (quotedItem [.text "    a".toList]).convert {} .nothing := by
  have splits : (quotedItem [.text "    a".toList]).Splits "  ".toList "  a".toList
      (quotedItem [.text "  ".toList, .text "  a".toList]) :=
    ⟨rfl, rfl, .inside [] [] _ _ (.inside [] [.smilie ":)".toList] _ _
      (.inside [] [] _ _ (.here [] [])))⟩
  have single : '\n' ∉ "    a".toList := by decide
  have plain : '&' ∉ "    a".toList := by decide
  exact ⟨by decide, by decide, single, plain, splits,
    convert_split {} .nothing (by decide) (by decide) single plain splits⟩

end ForumMarkup
