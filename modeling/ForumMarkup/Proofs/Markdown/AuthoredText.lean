import ForumMarkup.Element.Post
import ForumMarkup.Markdown
import ForumMarkup.Proofs.Markdown.Place
import ForumMarkup.Proofs.Span.Textual

/-!
Contract: which authored text the Markdown writer keeps.

Owns:
- what placing one span does to a buffer that keeps what was authored;
- `KeepsText`, the property of one post, and `Exposes`, posts of sturdy leaves and
  one given text.

Main statement: `keepsText_of_sturdy`, a post of sturdy leaves keeps all its text.
-/

set_option autoImplicit false

open scoped List

namespace ForumMarkup.Markdown

open Decoration

section

variable {depth : Nat} {authored more t : Text}

/-- What is written between the opening and the closing of a span: the text of a
leaf, whose lines are not marked yet, or the text of the spans inside. -/
def Held (mark more : Text) : (leaf : Bool) → Text → Prop
  | true, content => ¬Fragile (Text.trim content) ∧ Text.solid content = Text.solid more
  | false, content => Keeps mark more content

theorem Held.of_cons_blank {leaf : Bool} {c : Char} (blank : Text.isBlank c = true)
    (held : Held (quoteMarks depth) more leaf (c :: t)) : Held (quoteMarks depth) more leaf t := by
  cases leaf with
  | true =>
      obtain ⟨firm, same⟩ := held
      rw [Text.trim_cons_of_blank blank] at firm
      rw [Text.solid_cons_of_blank blank] at same
      exact ⟨firm, same⟩
  | false => exact Keeps.of_cons_blank blank held

theorem Held.of_concat_blank {leaf : Bool} {c : Char} (blank : Text.isBlank c = true)
    (held : Held (quoteMarks depth) more leaf (t ++ [c])) :
    Held (quoteMarks depth) more leaf t := by
  cases leaf with
  | true =>
      obtain ⟨firm, same⟩ := held
      rw [Text.trim_concat_of_blank blank] at firm
      rw [Text.solid_append, Text.solid_cons_of_blank blank, Text.solid_nil,
        List.append_nil] at same
      exact ⟨firm, same⟩
  | false => exact Keeps.of_concat_blank blank held

theorem Held.keeps {leaf : Bool} (held : Held (quoteMarks depth) more leaf t) :
    Keeps (quoteMarks depth) more (if leaf then markLines (quoteMarks depth) t else t) := by
  cases leaf with
  | true => exact (keeps_markLines depth held.1).congr held.2
  | false => exact held

/-- Moving a blank before the opening text loses no authored character. -/
theorem held_hoistStart {leaf : Bool} (held : Held (quoteMarks depth) more leaf t)
    (lineStart : Bool) (buffer : Buffer) {opening : Text} (tame : Tame opening) :
    Held (quoteMarks depth) more leaf (hoistStart lineStart buffer opening t).2 ∧
      Tame (hoistStart lineStart buffer opening t).1 := by
  unfold hoistStart
  split
  · next c rest =>
      split
      · next moved =>
          rw [Bool.and_eq_true] at moved
          refine ⟨held.of_cons_blank moved.1, ?_⟩
          have blank : Tame [c] := tame_of_solid_eq_nil (Text.solid_cons_of_blank moved.1 [])
          split
          · exact tame
          · exact blank.append tame
      · exact ⟨held, tame⟩
  · exact ⟨held, tame⟩

/-- Moving a blank behind the closing text loses no authored character. -/
theorem held_hoistEnd {leaf : Bool} (held : Held (quoteMarks depth) more leaf t)
    {closing : Text} (tame : Tame closing) :
    Held (quoteMarks depth) more leaf (hoistEnd t closing).1 ∧ Tame (hoistEnd t closing).2 := by
  unfold hoistEnd
  split
  · next c rest shape =>
      split
      · next moved =>
          rw [Bool.and_eq_true] at moved
          have parts : t = rest.reverse ++ [c] := by
            rw [← List.reverse_cons, ← shape, List.reverse_reverse]
          rw [parts] at held
          have blank : Tame [c] := tame_of_solid_eq_nil (Text.solid_cons_of_blank moved.1 [])
          exact ⟨held.of_concat_blank moved.1, tame.append blank⟩
      · exact ⟨held, tame⟩
  · exact ⟨held, tame⟩

/-- The step of the proof: whatever is written around a span, the authored text before it and
inside it is kept. -/
theorem keeps_place (options : Options) {marked leaf : Bool} {span : Span}
    (opening : Tame span.opening) (closing : Tame span.closing)
    (notCode : span.isRule .code = false) {content : Text} {buffer : Buffer}
    (keeps : Keeps (quoteMarks depth) authored buffer.reverse)
    (held : Held (quoteMarks depth) more leaf content) :
    Keeps (quoteMarks depth) (authored ++ more)
      (place options (quoteMarks depth) marked span leaf content buffer).reverse := by
  have chars := chars_quoteMarks depth
  have spaced := keeps.addBreaks chars options span.kindBefore span.breaksBefore
  rw [place_eq]
  dsimp only
  generalize addBreaks options span.kindBefore (quoteMarks depth) span.breaksBefore buffer
    = spacedBuffer at spaced ⊢
  generalize startsLine (quoteMarks depth) marked span spacedBuffer = lineStart
  obtain ⟨heldStart, tameStart⟩ := held_hoistStart held lineStart spacedBuffer opening
  obtain ⟨heldEnd, tameEnd⟩ := held_hoistEnd heldStart closing
  have lead : Tame (if lineStart then quoteMarks depth else []) := by
    split
    · exact tame_of_chars chars
    · exact tame_of_solid_eq_nil rfl
  refine Keeps.addBreaks chars ?_ options _ _
  rw [List.reverse_append, List.reverse_reverse]
  unfold edges
  rw [notCode]
  unfold written
  have between := lead.append (tame_markLines chars tameStart)
  have kept := (spaced.append between heldEnd.keeps).append_tame (tame_markLines chars tameEnd)
  rw [List.append_assoc] at kept
  exact kept

end

/-! ### Spans inside spans -/

/-- The mark inside a span of a textual rule is the one around it or one more. -/
theorem exists_quoteMarks_inside (depth : Nat) {span : Span}
    (mark : span.lineMark? = none ∨ span.lineMark? = some quoteMark) :
    ∃ inner, quoteMarks depth ++ span.lineMark?.getD [] = quoteMarks inner := by
  rcases mark with none | some
  · exact ⟨depth, by rw [none, Option.getD_none, List.append_nil]⟩
  · exact ⟨depth + 1, by rw [some, Option.getD_some, quoteMarks_concat]⟩

/-- Leaves that are not fragile. -/
def Sturdy (t : Text) : Prop :=
  ¬Fragile (Text.trim t)

theorem sturdy_of_getLast? {t : Text}
    (other : (Text.trim t).getLast?.all (fun c => !(['\\', '>', 'r'].contains c)) = true) :
    Sturdy t := by
  intro fragile
  obtain ⟨c, last, special⟩ := fragile.getLast?
  rw [last, Option.all_some, List.contains_iff_mem.2 special] at other
  cases other

mutual

theorem keeps_inside (options : Options) :
    ∀ (depth : Nat) (tree : SpanTree), (∀ child ∈ tree.children, child.Plain Sturdy) →
      Keeps (quoteMarks depth) (SpanTree.authoredAll tree.children)
        (inside options (quoteMarks depth) tree)
  | depth, .node span children, plain => by
      have start : Keeps (quoteMarks depth) [] ([] : Buffer).reverse :=
        keeps_nil (tame_of_solid_eq_nil rfl)
      have filled := keeps_siblings options depth span.lineMark?.isSome children [] [] plain start
      rw [List.nil_append] at filled
      rw [inside]
      split
      · exact filled.stripBreaks
      · exact filled

/-- By induction over the spans, with the number of quotes around them. -/
theorem keeps_siblings (options : Options) :
    ∀ (depth : Nat) (marked : Bool) (trees : List SpanTree) (authored : Text) (buffer : Buffer),
      (∀ tree ∈ trees, tree.Plain Sturdy) → Keeps (quoteMarks depth) authored buffer.reverse →
      Keeps (quoteMarks depth) (authored ++ SpanTree.authoredAll trees)
        (siblings options (quoteMarks depth) marked buffer trees).reverse
  | depth, marked, [], authored, buffer, _, keeps => by
      rw [SpanTree.authoredAll, List.append_nil]
      exact keeps
  | depth, marked, .node span children :: rest, authored, buffer, plain, keeps => by
      obtain ⟨first, others⟩ := List.forall_mem_cons.1 plain
      rw [siblings, SpanTree.authoredAll, ← List.append_assoc]
      refine keeps_siblings options depth marked rest _ _ others ?_
      have within := fun depth => keeps_inside options depth (.node span children)
      -- A leaf is kept because it is sturdy, a span because of what lies inside it.
      cases first with
      | leaf firm =>
          refine keeps_place options (tame_of_solid_eq_nil rfl) (tame_of_solid_eq_nil rfl) rfl
            keeps ?_
          refine ⟨firm, ?_⟩
          rw [SpanTree.authored, SpanTree.authoredAll, List.append_nil]
          rfl
      | node plainSpan inner =>
          obtain ⟨innerDepth, marks⟩ := exists_quoteMarks_inside depth plainSpan.mark
          have around : quoteMarks depth <:+: quoteMarks innerDepth := by
            rw [← marks]
            exact (List.prefix_append _ _).isInfix
          have kept := (within innerDepth inner).mono around
          refine keeps_place options plainSpan.opening plainSpan.closing plainSpan.notCode keeps ?_
          show Held _ _ (SpanTree.node span children).isLeaf (if _ then span.text else
            inside options (quoteMarks depth ++ span.lineMark?.getD []) (.node span children))
          rw [SpanTree.authored, plainSpan.text, List.nil_append, marks]
          cases children with
          | nil => exact ⟨fun fragile => fragile.ne_nil rfl, rfl⟩
          | cons child more => exact kept

end

/-- The Markdown of a post holds every authored character that is not blank, in
order. -/
def KeepsText (options : Options) (post : Element) : Prop :=
  Text.solid (decodedText post.clean.leaves) <+ post.convertPlain options

/-- The post has no text leaves but sturdy ones and the given text. -/
def Exposes (core : Text) (post : Element) : Prop :=
  Textual post.below ∧ ∀ leaf ∈ post.clean.leaves,
    Text.trim (Entity.decode leaf) = core ∨ Sturdy (Entity.decode leaf)

/-- A tree with sturdy leaves is written with all its text. -/
theorem sublist_render (options : Options) {children : List SpanTree}
    (plain : ∀ child ∈ children, child.Plain Sturdy) :
    Text.solid (SpanTree.authoredAll children)
      <+ (SpanTree.node { origin := .root } children).render options := by
  have kept := keeps_inside options 0 (.node { origin := .root } children) plain
  rw [← List.reverse_reverse (inside options (quoteMarks 0) _)] at kept
  exact kept.stripBreaks.sublist

theorem keepsText_of_sturdy (options : Options) {post : Element} (textual : Textual post.below)
    (sturdy : ∀ leaf ∈ post.clean.leaves, Sturdy (Entity.decode leaf)) :
    KeepsText options post := by
  have plan := plain_plan options textual sturdy
  have always : (post.toMarkdown options).Always fun markdown =>
      Text.solid (decodedText post.clean.leaves) <+ markdown := by
    refine Inquiry.always_bind.2 (plan.mono ?_)
    rintro tree ⟨children, rfl, plain, text⟩
    rw [← text]
    exact sublist_render options plain
  exact always.evaluate Lookup.unresolved

end ForumMarkup.Markdown
