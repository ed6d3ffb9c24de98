import ForumMarkup.Element.Post
import ForumMarkup.Markdown
import ForumMarkup.Proofs.Markdown.BareSpans
import ForumMarkup.Proofs.Markdown.Laid
import ForumMarkup.Proofs.Markdown.QuoteMarks
import ForumMarkup.Proofs.Markdown.RepeatedMarkers
import ForumMarkup.Proofs.Markdown.TornBreaks
import ForumMarkup.Proofs.Span.Wraps
import ForumMarkup.Proofs.Text.Core

/-!
Contract: what stands next to the markers of emphasis.

Owns: `beforeMarker` and `behindMarker`, what a span with markers writes outside of them.

Main statement: `emphasis_clings_iff`.  The content of emphasis loses one blank at each
end, so the markers stand next to characters that are not blank exactly if the content has
at most one blank there.
-/

set_option autoImplicit false

namespace ForumMarkup.Markdown

/-! ### Edges of a content -/

/-- With an opening text one blank at the start of the content moves or is dropped. -/
theorem hoistStart_of_opening {opening : Text} (marked : opening ≠ []) (lineStart : Bool)
    (buffer : Buffer) (content : Text) :
    hoistStart lineStart buffer opening content
      = ((if lineStart || endsBlank buffer then [] else Text.leadingBlank content) ++ opening,
          Text.dropLeadingBlank content) := by
  have filled : opening.isEmpty = false := by simpa using marked
  cases content with
  | nil =>
      rw [hoistStart, Text.leadingBlank, ite_self]
      rfl
  | cons c rest =>
      rw [hoistStart, Text.leadingBlank, Text.dropLeadingBlank, filled]
      cases Text.isBlank c with
      | true =>
          cases lineStart || endsBlank buffer <;> rfl
      | false =>
          rw [if_neg Bool.false_ne_true, ite_self]
          rfl

/-- With a closing text one blank at the end of the content moves, at most. -/
theorem hoistEnd_of_closing {closing : Text} (marked : closing ≠ []) (content : Text) :
    hoistEnd content closing
      = (Text.dropTrailingBlank content, closing ++ Text.trailingBlank content) := by
  have filled : closing.isEmpty = false := by simpa using marked
  unfold hoistEnd Text.dropTrailingBlank Text.trailingBlank
  split
  · next c rest shape =>
      rw [shape, Text.dropLeadingBlank, Text.leadingBlank, filled]
      cases Text.isBlank c with
      | true => rfl
      | false =>
          rw [if_neg Bool.false_ne_true, ← shape, List.reverse_reverse, if_neg Bool.false_ne_true,
            List.append_nil]
          rfl
  · next none =>
      rw [none, Text.leadingBlank, List.append_nil, List.reverse_eq_nil_iff.1 none]
      rfl

/-! ### Spans with markers -/

/-- What a span writes before its opening text: the line mark at the start of a line, and
elsewhere the blank that its content starts with, unless it stands behind a blank. -/
def beforeMarker (mark : Text) (marked : Bool) (span : Span) (buffer : Buffer) (content : Text) :
    Text :=
  if startsLine mark marked span buffer then mark
  else if endsBlank buffer then []
  else markLines mark (Text.leadingBlank content)

/-- What a span writes behind its closing text: the blank that its content ends with. -/
def behindMarker (mark content : Text) : Text :=
  markLines mark (Text.trailingBlank (Text.dropLeadingBlank content))

theorem markLines_leadingBlank_append {text : Text} (single : '\n' ∉ text) (mark blank : Text) :
    markLines mark (blank ++ text) = markLines mark blank ++ text := by
  have next : text.head? ≠ some '\n' := fun feed => single (List.mem_of_head? feed)
  rw [markLines_append (.inl next), markLines_of_feed_free single]

/-- A span with markers writes them around the core of its content. -/
theorem place_of_wraps {span : Span} (wraps : span.Wraps) (noCode : span.isRule .code = false)
    (marks : span.opening ≠ []) (options : Options) (mark : Text) (marked : Bool) (content : Text)
    (buffer : Buffer) :
    place options mark marked span false content buffer
      = (beforeMarker mark marked span buffer content ++ span.opening ++ content.core
          ++ span.closing ++ behindMarker mark content).reverse ++ buffer := by
  obtain ⟨bare, wrapping⟩ := wraps
  have closes : span.closing ≠ [] := fun none => marks (wrapping.both.2 none)
  have lastLine : span.closing.getLast? ≠ some '\n' := fun feed =>
    wrapping.closes (List.mem_of_getLast? feed)
  have before : span.breaksBefore = 0 := by rw [bare]
  have after : span.breaksAfter = 0 := by rw [bare]
  have moved : edges (startsLine mark marked span buffer) buffer span content
      = ((if startsLine mark marked span buffer || endsBlank buffer then []
            else Text.leadingBlank content) ++ span.opening,
          content.core,
          span.closing ++ Text.trailingBlank (Text.dropLeadingBlank content)) := by
    rw [edges, noCode, if_neg Bool.false_ne_true, hoistStart_of_opening marks]
    dsimp only
    rw [hoistEnd_of_closing closes]
    rfl
  rw [place_eq, before, after]
  simp only [addBreaks_zero]
  rw [moved, written, markLines_leadingBlank_append wrapping.opens,
    markLines_append (.inr lastLine), markLines_of_feed_free wrapping.closes]
  unfold beforeMarker behindMarker
  cases startsLine mark marked span buffer <;> cases endsBlank buffer <;> simp

end ForumMarkup.Markdown

namespace ForumMarkup.SpanTree

theorem every_of_mem_spansUnder {p : Span → Prop} (mark : Text) (tree : SpanTree)
    (every : tree.Every p) : ∀ place ∈ tree.spansUnder mark, place.2.Every p := by
  intro place member
  obtain ⟨_, span, children, rfl, holds⟩ := exists_of_mem_spansUnder
    (fun _ _ _ (every : SpanTree.Every p _) => every.children) mark tree every place member
  exact holds

end ForumMarkup.SpanTree

namespace ForumMarkup.Markdown

/-- Emphasis with markers and with something to see inside of it, anywhere in the plan of a
post: its markers are written around the core of its content, and stand next to characters
that are not blank exactly if the content has at most one blank at each end. -/
theorem emphasis_clings_iff {ε : Type} (options : Options) (resolver : Resolver ε) {post : Element}
    {tree : SpanTree} (planned : (post.plan options).run resolver = .ok tree) {mark : Text}
    {outer : SpanTree} (member : (mark, outer) ∈ tree.spansUnder []) {front back : List SpanTree}
    {child : SpanTree} (place : outer.children = front ++ child :: back) {rule : Rule}
    (emphasis : rule ∈ emphasisRules) (isRule : child.span.isRule rule = true)
    (marks : child.span.opening ≠ [])
    (visible : Text.allBlank (inside options mark child) = false) :
    let marked := outer.span.lineMark?.isSome
    let buffer := siblings options mark marked [] front
    let content := inside options mark child
    siblings options mark marked [] (front ++ [child])
        = (beforeMarker mark marked child.span buffer content ++ child.span.opening
            ++ content.core ++ child.span.closing ++ behindMarker mark content).reverse ++ buffer ∧
      content.core ≠ [] ∧ (content.core.Clings ↔ content.SingleEdges) := by
  intro marked buffer content
  refine ⟨?_, Text.core_ne_nil visible, Text.clings_core_iff visible⟩
  have every := SpanTree.every_of_mem_spansUnder [] tree ((wraps_plan options post).of_run planned)
    _ member
  have inner : child ∈ outer.children := by
    rw [place]
    exact List.mem_append_right _ List.mem_cons_self
  have wraps := (every.children child inner).span rule
    (mem_wrapRules_of_emphasis emphasis) (eq_of_beq isRule)
  have noCode : child.span.isRule .code = false := by
    rw [Span.isRule, eq_of_beq isRule, beq_eq_false_iff_ne]
    exact fun same => (others_of_mem_emphasisRules emphasis).2.2 (Origin.rule.inj same)
  obtain ⟨span, children⟩ := child
  have filled : children ≠ [] := by
    rintro rfl
    rw [inside_leaf] at visible
    cases visible
  have unmarked : span.lineMark? = none := by
    have bare : span = _ := wraps.bare
    rw [bare]
  rw [siblings_append, siblings_node _ _ _ _ _ filled, unmarked, Option.getD_none, List.append_nil,
    siblings]
  exact place_of_wraps wraps noCode marks options mark marked content buffer

def spacedBold : Element :=
  .post [.text "x".toList, .bold [.text " a ".toList]]

theorem emphasis_clings_iff_spacedBold :
    let child : SpanTree := .node boldSpan [.ofText " a ".toList]
    let tree : SpanTree := .node { origin := .root } [.ofText "x".toList, child]
    (spacedBold.plan {}).run (Resolver.nothing : Resolver Unit) = .ok tree ∧
      ([], tree) ∈ tree.spansUnder [] ∧ child.span.isRule .bold = true ∧
      child.span.opening ≠ [] ∧ Text.allBlank (inside {} [] child) = false ∧
      siblings {} [] false [] [.ofText "x".toList, child] = "x **a** ".toList.reverse ∧
      (inside {} [] child).core.Clings := by
  intro child tree
  have planned : (spacedBold.plan {}).run (Resolver.nothing : Resolver Unit) = .ok tree := by with_unfolding_all rfl
  have member : ([], tree) ∈ tree.spansUnder [] := by
    rw [SpanTree.spansUnder]
    exact List.mem_cons_self
  have marks : child.span.opening ≠ [] := by decide
  have visible : Text.allBlank (inside {} [] child) = false := by decide +kernel
  obtain ⟨written, _, clings⟩ := emphasis_clings_iff {} .nothing planned member
    (show tree.children = [.ofText "x".toList] ++ child :: [] from rfl)
    (show Rule.bold ∈ emphasisRules by decide) rfl marks visible
  have content : inside {} [] child = " a ".toList := by decide +kernel
  have single : (inside {} [] child).SingleEdges := by
    rw [content]
    refine ⟨fun c d rest shape _ => ?_, fun front c d shape _ => ?_⟩
    · cases shape
      decide
    · have last : ['a', ' '] = [c, d] :=
        (List.append_inj' (show [' '] ++ ['a', ' '] = front ++ [c, d] from shape) rfl).2
      cases last
      decide
  exact ⟨planned, member, rfl, marks, visible, written.trans (by decide +kernel), clings.2 single⟩

/-- Of the two blanks at the end of bold text only one is moved out of it. -/
theorem not_clings_doubledBlank :
    let post : Element := .post [.bold [.text "a  ".toList]]
    let child : SpanTree := .node boldSpan [.ofText "a  ".toList]
    (post.plan {}).run (Resolver.nothing : Resolver Unit)
        = .ok (.node { origin := .root } [child]) ∧
      Text.allBlank (inside {} [] child) = false ∧
      siblings {} [] false [] [child] = "**a ** ".toList.reverse ∧
      ¬(inside {} [] child).core.Clings ∧
      post.convertPlain {} = "**a **".toList ∧ post.convertPlain {} ≠ "**a**".toList := by
  intro post child
  have output : post.convertPlain {} = "**a **".toList := by decide +kernel
  have content : inside {} [] child = "a  ".toList := by decide +kernel
  have planned : (post.plan {}).run (Resolver.nothing : Resolver Unit)
      = .ok (.node { origin := .root } [child]) := by with_unfolding_all rfl
  have visible : Text.allBlank (inside {} [] child) = false := by rw [content]; decide
  refine ⟨planned, visible, by decide +kernel, fun clings => ?_, output, ?_⟩
  · rw [content] at clings
    exact absurd (clings.finish ' ' (by decide)) (by decide)
  · rw [output]
    decide

end ForumMarkup.Markdown
