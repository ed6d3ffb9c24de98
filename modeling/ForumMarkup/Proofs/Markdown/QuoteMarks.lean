import ForumMarkup.Element.Post
import ForumMarkup.Proofs.Markdown.MarkedText
import ForumMarkup.Proofs.Markdown.Place
import ForumMarkup.Proofs.Span.Shape

/-!
Contract: every line of a quote without a header is marked.

Owns:
- what placing one span does to a marked text;
- `SpanTree.spansUnder`, the spans of a plan, each with the line mark inside it.

Main statement: `quote_lines_marked`.

The text inside a quote is marked from its first line on, the text inside any
other span only from its second line on.  Both are one property of the text with a
line feed in front, or without one.
-/

set_option autoImplicit false

namespace ForumMarkup.Markdown

open Decoration

section

variable {mark : Text}

/-! ### Edges of a content -/

theorem marked_hoistStart {content : Text} (marked : Marked mark content) (lineStart : Bool)
    (buffer : Buffer) (opening : Text) :
    Marked mark (hoistStart lineStart buffer opening content).2 := by
  unfold hoistStart
  split
  · next c rest =>
      split
      · have parts : Marked mark ([c] ++ rest) := marked
        exact parts.of_append
      · exact marked
  · exact marked

/-- A content that something follows does not end a line. -/
theorem marked_hoistEnd (isMark : IsMark mark) {content : Text} (marked : Marked mark content)
    (closing : Text) :
    Marked mark (hoistEnd content closing).1 ∧
      ((hoistEnd content closing).2 ≠ [] →
        (hoistEnd content closing).1.getLast? ≠ some '\n') := by
  unfold hoistEnd
  split
  · next c rest shape =>
      have parts : content = rest.reverse ++ [c] := by
        rw [← List.reverse_cons, ← shape, List.reverse_reverse]
      split
      · next moved =>
          rw [Bool.and_eq_true] at moved
          rw [parts] at marked
          refine ⟨?_, fun _ => Marked.getLast?_ne isMark moved.1 marked⟩
          have before : Marked mark ([] ++ (rest.reverse ++ [c])) := marked
          exact before.outlasts isMark (.blank c moved.1)
      · next stays =>
          refine ⟨marked, fun filled feed => ?_⟩
          have ends : some c = some '\n' := by
            rw [← feed, parts, List.getLast?_concat]
          rw [Option.some.injEq] at ends
          apply stays
          rw [ends]
          simpa [Text.isBlank] using filled
  · next shape =>
      rw [List.reverse_eq_nil_iff] at shape
      refine ⟨marked, fun _ => ?_⟩
      rw [shape]
      simp

/-- A placed span is marked when its content is and none of its parts follows a line feed
unmarked. -/
theorem marked_written (isMark : IsMark mark) {lineStart leaf : Bool}
    {parts : Text × Text × Text} (inner : leaf = false → Marked mark parts.2.1)
    (ends : leaf = false → parts.2.2 ≠ [] → parts.2.1.getLast? ≠ some '\n') :
    Marked mark (written mark lineStart leaf parts) := by
  have opened : MarkedAll mark ((if lineStart then mark else []) ++ markLines mark parts.1) := by
    apply (markedAll_markLines isMark parts.1).append_left
    split
    · exact feed_free_mark isMark
    · exact List.not_mem_nil
  have body : Marked mark (if leaf then markLines mark parts.2.1 else parts.2.1) ∧
      (parts.2.2 ≠ [] →
        (if leaf then markLines mark parts.2.1 else parts.2.1).getLast? ≠ some '\n') := by
    split
    · have all := markedAll_markLines isMark parts.2.1
      exact ⟨all.marked, fun _ => all.getLast?_ne isMark⟩
    · next other =>
        have notLeaf : leaf = false := Bool.eq_false_iff.2 other
        exact ⟨inner notLeaf, ends notLeaf⟩
  unfold written
  refine (opened.marked.append body.1 ?_).append (markedAll_markLines isMark parts.2.2).marked ?_
  · intro feed
    exact absurd feed (opened.getLast?_ne isMark)
  · intro feed
    by_cases closing : parts.2.2 = []
    · left
      rw [closing]
      rfl
    · rw [List.getLast?_append, Option.or_eq_some_iff] at feed
      rcases feed with here | ⟨_, before⟩
      · exact absurd here (body.2 closing)
      · exact absurd before (opened.getLast?_ne isMark)

/-- The line that a text inside a marked span continues: a new one at its very
start. -/
def lead (marked : Bool) : Text :=
  if marked then ['\n'] else []

/-- Behind an unfinished line anything may follow. -/
theorem getLast?_ne_of_atLineStart {marked : Bool} {buffer : Buffer}
    (within : atLineStart marked buffer = false) :
    (lead marked ++ buffer.reverse).getLast? ≠ some '\n' := by
  cases buffer with
  | nil =>
      have plain : marked = false := within
      rw [plain]
      simp [lead]
  | cons c rest =>
      have other : c ≠ '\n' := by simpa [atLineStart] using within
      rw [List.reverse_cons, ← List.append_assoc, List.getLast?_concat]
      simpa using other

theorem edges_of_silent {span : Span} (silent : span.Silent) (buffer : Buffer) (content : Text) :
    edges false buffer span content = ([], content, []) := by
  obtain ⟨_, opening, closing⟩ := silent
  have start : hoistStart false buffer [] content = ([], content) := by
    cases content with
    | nil => rfl
    | cons c rest => simp [hoistStart]
  have finish : hoistEnd content [] = (content, []) := by
    unfold hoistEnd
    split
    · simp
    · rfl
  unfold edges
  rw [opening, closing]
  split
  · rfl
  · simp only [start, finish]

theorem written_of_silent {leaf : Bool} {content : Text} (own : leaf = true → content = []) :
    written mark false leaf ([], content, []) = content := by
  have nothing : markLines mark [] = [] := rfl
  unfold written
  rw [nothing]
  cases leaf with
  | true =>
      rw [own rfl, nothing]
      rfl
  | false => simp

/-- What a span adds can follow what is there. -/
theorem written_follows (isMark : IsMark mark) {span : Span} (sound : span.Sound)
    {marked leaf : Bool} {content : Text}
    {buffer : Buffer}
    (quoted : span.lineMark?.isSome = true → content = [] ∨ Text.trimEnd mark <+: content)
    (own : leaf = true → content = span.text)
    (breaks : span.origin = .rule .lineBreak → content = [])
    (ended : (lead marked ++ buffer.reverse).getLast? = some '\n') :
    written mark (startsLine mark marked span buffer) leaf
        (edges (startsLine mark marked span buffer) buffer span content) = [] ∨
      Text.trimEnd mark <+: written mark (startsLine mark marked span buffer) leaf
        (edges (startsLine mark marked span buffer) buffer span content) := by
  cases starts : startsLine mark marked span buffer with
  | true =>
      right
      unfold written
      rw [if_pos rfl, List.append_assoc, List.append_assoc]
      exact (Text.trimEnd_prefix mark).trans (List.prefix_append _ _)
  | false =>
      have still : span.Silent → written mark false leaf (edges false buffer span content)
          = content := by
        intro silent
        rw [edges_of_silent silent]
        apply written_of_silent
        intro isLeaf
        rw [own isLeaf, silent.1]
      simp only [startsLine, Bool.and_eq_false_iff, Bool.not_eq_false'] at starts
      rcases starts with ((empty | isBreak) | isQuote) | within
      · exact absurd (List.isEmpty_iff.1 empty) isMark.ne_nil
      · have origin : span.origin = .rule .lineBreak := eq_of_beq isBreak
        rw [still (sound.lineBreak origin).2]
        exact .inl (breaks origin)
      · have isQuote : span.lineMark?.isSome = true := by
          simpa [Option.isSome_iff_ne_none] using isQuote
        obtain ⟨own, marks⟩ := Option.isSome_iff_exists.1 isQuote
        rw [still (sound.marked own marks).2]
        exact quoted isQuote
      · exact absurd ended (getLast?_ne_of_atLineStart within)

/-- The step of the proof: placing a sound span behind marked text leaves it marked. -/
theorem marked_place (isMark : IsMark mark) (options : Options) {marked leaf : Bool} {span : Span}
    (sound : span.Sound) {content : Text} {buffer : Buffer}
    (before : Marked mark (lead marked ++ buffer.reverse))
    (inner : leaf = false → Marked mark content)
    (quoted : span.lineMark?.isSome = true → content = [] ∨ Text.trimEnd mark <+: content)
    (own : leaf = true → content = span.text)
    (breaks : span.origin = .rule .lineBreak → content = [])
    (code : span.origin = .rule .code → leaf = true) :
    Marked mark (lead marked ++ (place options mark marked span leaf content buffer).reverse) := by
  have spaced := marked_addBreaks isMark options span.kindBefore span.breaksBefore before
  rw [place_eq]
  dsimp only
  generalize addBreaks options span.kindBefore mark span.breaksBefore buffer
    = spacedBuffer at spaced ⊢
  apply marked_addBreaks isMark
  rw [List.reverse_append, List.reverse_reverse, ← List.append_assoc]
  refine spaced.append ?_ (written_follows isMark sound quoted own breaks)
  have notCode : leaf = false → span.isRule .code = false := by
    intro notLeaf
    rw [Bool.eq_false_iff]
    intro isCode
    have isLeaf := code (eq_of_beq isCode)
    rw [notLeaf] at isLeaf
    cases isLeaf
  have moved : leaf = false → Marked mark
      (hoistStart (startsLine mark marked span spacedBuffer) spacedBuffer span.opening content).2 :=
    fun notLeaf => marked_hoistStart (inner notLeaf) _ _ _
  apply marked_written isMark
  · intro notLeaf
    unfold edges
    rw [notCode notLeaf]
    exact (marked_hoistEnd isMark (moved notLeaf) span.closing).1
  · intro notLeaf
    unfold edges
    rw [notCode notLeaf]
    exact (marked_hoistEnd isMark (moved notLeaf) span.closing).2

end

/-! ### Spans inside spans -/

/-- The mark inside a span: the marks around it and its own. -/
theorem isMark_inside {mark : Text} (chars : ∀ c ∈ mark, c = '>' ∨ c = ' ') {span : Span}
    (sound : span.Sound) (quotes : span.lineMark?.isSome = true) :
    IsMark (mark ++ span.lineMark?.getD []) := by
  obtain ⟨own, marks⟩ := Option.isSome_iff_exists.1 quotes
  rw [marks, (sound.marked own marks).1]
  exact isMark_append_quoteMark chars

/-- The mark inside a span is made of arrows and blanks like the mark around it. -/
theorem chars_inside {mark : Text} (chars : ∀ c ∈ mark, c = '>' ∨ c = ' ') {span : Span}
    (sound : span.Sound) : ∀ c ∈ mark ++ span.lineMark?.getD [], c = '>' ∨ c = ' ' := by
  cases quotes : span.lineMark? with
  | none =>
      rw [Option.getD_none, List.append_nil]
      exact chars
  | some own =>
      have isMark := isMark_inside chars sound (by rw [quotes]; rfl)
      rw [quotes] at isMark
      exact isMark.chars

/-- The mark inside a span begins with the mark around it. -/
theorem trimEnd_prefix_inside (mark : Text) {span : Span} (sound : span.Sound) :
    Text.trimEnd mark <+: Text.trimEnd (mark ++ span.lineMark?.getD []) := by
  cases quotes : span.lineMark? with
  | none =>
      exact ⟨[], by rw [Option.getD_none, List.append_nil, List.append_nil]⟩
  | some own =>
      rw [(sound.marked own quotes).1, Option.getD_some, trimEnd_append_quoteMark]
      exact (Text.trimEnd_prefix mark).trans (List.prefix_append _ _)

theorem marked_lead {mark : Text} (marked : Bool) : Marked mark (lead marked) := by
  cases marked with
  | true => exact marked_feed
  | false => exact marked_of_feed_free List.not_mem_nil

mutual

/-- The text inside a span is marked, and inside a quote so is its first line. -/
theorem marked_inside (options : Options) :
    ∀ (mark : Text) (tree : SpanTree), tree.Sound → (∀ c ∈ mark, c = '>' ∨ c = ' ') →
      Marked (mark ++ tree.span.lineMark?.getD [])
        (lead tree.span.lineMark?.isSome
          ++ inside options (mark ++ tree.span.lineMark?.getD []) tree)
  | mark, .node span children, sound, chars => by
      obtain ⟨soundSpan, _, inner⟩ := sound
      have filled := marked_siblings options (mark ++ span.lineMark?.getD [])
        span.lineMark?.isSome children [] inner (chars_inside chars soundSpan)
        (by rw [List.reverse_nil, List.append_nil]; exact marked_lead _)
      rw [inside]
      show Marked _ (lead span.lineMark?.isSome ++ _)
      cases quotes : span.lineMark?.isSome with
      | true =>
          rw [quotes] at filled
          exact marked_stripBreaks (isMark_inside chars soundSpan quotes) filled
      | false =>
          rw [quotes] at filled
          exact filled

/-- By induction over the spans: inside a quote the mark grows, and the text there is marked
with the longer one. -/
theorem marked_siblings (options : Options) :
    ∀ (mark : Text) (marked : Bool) (trees : List SpanTree) (buffer : Buffer),
      (∀ tree ∈ trees, tree.Sound) → (∀ c ∈ mark, c = '>' ∨ c = ' ') →
      Marked mark (lead marked ++ buffer.reverse) →
      Marked mark (lead marked ++ (siblings options mark marked buffer trees).reverse)
  | mark, marked, [], buffer, _, _, before => before
  | mark, marked, .node span children :: rest, buffer, sound, chars, before => by
      obtain ⟨first, others⟩ := List.forall_mem_cons.1 sound
      rw [siblings]
      refine marked_siblings options mark marked rest _ others chars ?_
      by_cases blank : Text.trimEnd mark = []
      · exact marked_of_trimEnd_eq_nil blank _
      have isMark : IsMark mark := ⟨chars, blank⟩
      have within := marked_inside options mark (.node span children) first chars
      obtain ⟨soundSpan, closed, _⟩ := first
      have leafOf : children = [] → (SpanTree.node span children).isLeaf = true := by
        rintro rfl
        rfl
      -- A leaf writes its own text; only other spans have a content of their own.
      have own : (SpanTree.node span children).isLeaf = true →
          (if (SpanTree.node span children).isLeaf then span.text
            else inside options (mark ++ span.lineMark?.getD []) (.node span children))
            = span.text := fun isLeaf => if_pos isLeaf
      refine marked_place isMark options soundSpan before ?_ ?_ own ?_ ?_
      · intro notLeaf
        show Marked mark (if (SpanTree.node span children).isLeaf then _ else _)
        rw [notLeaf]
        exact within.of_append.mono (trimEnd_prefix_inside mark soundSpan)
      · intro quotes
        obtain ⟨text, marks⟩ := Option.isSome_iff_exists.1 quotes
        show (if (SpanTree.node span children).isLeaf then span.text else _) = [] ∨ _
        split
        · exact .inl (soundSpan.marked text marks).2.1
        · have started : Marked (mark ++ span.lineMark?.getD [])
              ('\n' :: inside options (mark ++ span.lineMark?.getD []) (.node span children)) := by
            have shape : lead (SpanTree.node span children).span.lineMark?.isSome = ['\n'] := by
              show lead span.lineMark?.isSome = _
              rw [quotes]
              rfl
            rw [shape] at within
            exact within
          exact (started [] _ rfl).imp id (trimEnd_prefix_inside mark soundSpan).trans
      · intro isBreak
        have isLeaf := leafOf (closed (.inr isBreak))
        exact (own isLeaf).trans (soundSpan.lineBreak isBreak).2.1
      · intro isCode
        exact leafOf (closed (.inl (soundSpan.code isCode)))

end

/-! ### Every line of a quote -/

/-- A text whose first line is marked too, and that does not end a line, has only
marked lines. -/
theorem lines_marked {mark : Text} (isMark : IsMark mark) {t : Text} (filled : t ≠ [])
    (marked : Marked mark ('\n' :: t)) (ends : t.getLast? ≠ some '\n') :
    ∀ line ∈ Text.lines t, Text.trimEnd mark <+: line := by
  intro line member
  obtain ⟨before, after, shape, stops⟩ := Text.exists_of_mem_joinLines member
  rw [Text.joinLines_lines] at shape
  have start : Text.trimEnd mark <+: line ++ after := by
    rcases marked before (line ++ after) shape with none | start
    · exfalso
      rw [none] at shape
      have last : ('\n' :: t).getLast? = some '\n' := by
        rw [shape, List.getLast?_concat]
      rw [List.getLast?_cons_of_ne_nil filled] at last
      exact ends last
    · exact start
  rcases stops with rfl | ⟨rest, rfl⟩
  · rw [List.append_nil] at start
    exact start
  · exact prefix_of_prefix_append_cons (isMark.not_mem (by decide)) start

/-- Every line inside a quote without a header starts with the mark of the quote. -/
theorem lines_inside_marked (options : Options) {mark : Text} {span : Span}
    {children : List SpanTree} (sound : (SpanTree.node span children).Sound)
    (chars : ∀ c ∈ mark, c = '>' ∨ c = ' ') (quotes : span.lineMark?.isSome = true)
    (filled : inside options (mark ++ span.lineMark?.getD []) (.node span children) ≠ []) :
    ∀ line ∈ Text.lines
        (inside options (mark ++ span.lineMark?.getD []) (.node span children)),
      Text.trimEnd (mark ++ span.lineMark?.getD []) <+: line := by
  have marked := marked_inside options mark _ sound chars
  have started : lead (SpanTree.node span children).span.lineMark?.isSome = ['\n'] := by
    show lead span.lineMark?.isSome = _
    rw [quotes]
    rfl
  rw [started] at marked
  have isMark : IsMark (mark ++ span.lineMark?.getD []) := by
    obtain ⟨soundSpan, _, _⟩ := sound
    exact isMark_inside chars soundSpan quotes
  refine lines_marked isMark filled marked ?_
  rw [inside, quotes, if_pos rfl, List.getLast?_reverse]
  exact head?_stripBreaks _

end ForumMarkup.Markdown

namespace ForumMarkup.SpanTree

mutual

/-- The spans of a tree, each with the line mark in effect inside it: the marks of
all spans around it and its own. -/
def spansUnder (mark : Text) : SpanTree → List (Text × SpanTree)
  | .node span children =>
      (mark ++ span.lineMark?.getD [], .node span children)
        :: spansUnderAll (mark ++ span.lineMark?.getD []) children

def spansUnderAll (mark : Text) : List SpanTree → List (Text × SpanTree)
  | [] => []
  | tree :: rest => tree.spansUnder mark ++ spansUnderAll mark rest

end

mutual

/-- What passes from a span and the marks around it to the spans directly inside of it holds
of every span and the marks around that. -/
theorem exists_of_mem_spansUnder {q : Text → SpanTree → Prop}
    (passes : ∀ mark span children, q mark (.node span children) →
      ∀ child ∈ children, q (mark ++ span.lineMark?.getD []) child) :
    ∀ (mark : Text) (tree : SpanTree), q mark tree → ∀ place ∈ tree.spansUnder mark,
      ∃ around span children, place = (around ++ span.lineMark?.getD [], .node span children) ∧
        q around (.node span children)
  | mark, .node span children, holds, place, member => by
      rw [spansUnder] at member
      rcases List.mem_cons.1 member with rfl | below
      · exact ⟨mark, span, children, rfl, holds⟩
      · exact exists_of_mem_spansUnderAll passes _ children (passes mark span children holds)
          place below

theorem exists_of_mem_spansUnderAll {q : Text → SpanTree → Prop}
    (passes : ∀ mark span children, q mark (.node span children) →
      ∀ child ∈ children, q (mark ++ span.lineMark?.getD []) child) :
    ∀ (mark : Text) (trees : List SpanTree), (∀ tree ∈ trees, q mark tree) →
      ∀ place ∈ spansUnderAll mark trees,
        ∃ around span children, place = (around ++ span.lineMark?.getD [], .node span children) ∧
          q around (.node span children)
  | _, [], _, _, member => nomatch member
  | mark, tree :: rest, holds, place, member => by
      obtain ⟨first, others⟩ := List.forall_mem_cons.1 holds
      rw [spansUnderAll] at member
      rcases List.mem_append.1 member with here | later
      · exact exists_of_mem_spansUnder passes mark tree first place here
      · exact exists_of_mem_spansUnderAll passes mark rest others place later

end

/-- A span of a sound tree under marks of quotes: it is sound, and so are the marks
around it. -/
def UnderMarks (place : Text × SpanTree) : Prop :=
  ∃ around span children, place = (around ++ span.lineMark?.getD [], .node span children) ∧
    (SpanTree.node span children).Sound ∧ ∀ c ∈ around, c = '>' ∨ c = ' '

theorem underMarks_of_mem_spansUnder (mark : Text) (tree : SpanTree) (sound : tree.Sound)
    (chars : ∀ c ∈ mark, c = '>' ∨ c = ' ') : ∀ place ∈ tree.spansUnder mark, UnderMarks place := by
  let Holds (mark : Text) (tree : SpanTree) : Prop := tree.Sound ∧ ∀ c ∈ mark, c = '>' ∨ c = ' '
  have passes : ∀ mark span children, Holds mark (.node span children) →
      ∀ child ∈ children, Holds (mark ++ span.lineMark?.getD []) child := by
    rintro around span children ⟨⟨soundSpan, _, inner⟩, charsAround⟩ child member
    exact ⟨inner child member, Markdown.chars_inside charsAround soundSpan⟩
  exact exists_of_mem_spansUnder passes mark tree ⟨sound, chars⟩

end ForumMarkup.SpanTree

namespace ForumMarkup.Markdown

/-- With a resolver that never fails, and line breaks without children, a post has a
plan in which every line inside every quote without a header starts with the marks
of all such quotes around it, up to the blank these end with. -/
theorem quote_lines_marked {ε : Type} (options : Options) (resolver : Resolver ε)
    (total : ∀ lookup, ∃ answer, resolver lookup = .ok answer) {post : Element}
    (breaks : BreaksEmpty post.below) :
    ∃ tree, (post.plan options).run resolver = .ok tree ∧
      ∀ mark quote, (mark, quote) ∈ tree.spansUnder [] →
        quote.span.lineMark? = some Decoration.quoteMark → inside options mark quote ≠ [] →
        ∀ line ∈ Text.lines (inside options mark quote), Text.trimEnd mark <+: line := by
  obtain ⟨tree, ran, sound⟩ := Inquiry.exists_run (sound_plan options breaks) total
  refine ⟨tree, ran, ?_⟩
  intro mark quote member isQuote filled
  have noMark : ∀ c ∈ ([] : Text), c = '>' ∨ c = ' ' := fun _ none => nomatch none
  obtain ⟨around, span, children, shape, soundQuote, chars⟩ :=
    SpanTree.underMarks_of_mem_spansUnder [] tree sound noMark _ member
  cases shape
  have quotes : span.lineMark?.isSome = true := Option.isSome_iff_exists.2 ⟨_, isQuote⟩
  exact lines_inside_marked options soundQuote chars quotes filled

/-- The mark inside each quote without a header, with the lines of its text. -/
def linesInQuotes (options : Options) (tree : SpanTree) : List (Text × List Text) :=
  (tree.spansUnder []).filterMap fun (mark, quote) =>
    if quote.span.lineMark? = some Decoration.quoteMark then
      some (mark, Text.lines (inside options mark quote))
    else none

def nestedQuotes : Element :=
  .post [.quote [.text "a".toList, .lineBreak, .quote [.bold [.text "b\nc ".toList]]]]

/-- Both quotes have a text, and its lines are marked once in the outer quote around the
inner one, and twice in the inner one. -/
theorem quote_lines_marked_nestedQuotes :
    BreaksEmpty nestedQuotes.below ∧
      ∃ tree, (nestedQuotes.plan {}).run (Resolver.nothing : Resolver Unit) = .ok tree ∧
        linesInQuotes {} tree =
          [("> ".toList, ["> a".toList, ">".toList, "> > **b".toList, "> > c**".toList]),
            ("> > ".toList, ["> > **b".toList, "> > c**".toList])] ∧
        ∀ mark quote, (mark, quote) ∈ tree.spansUnder [] →
          quote.span.lineMark? = some Decoration.quoteMark →
          inside {} mark quote ≠ [] ∧
            ∀ line ∈ Text.lines (inside {} mark quote), Text.trimEnd mark <+: line := by
  have breaks : BreaksEmpty nestedQuotes.below := by
    intro element member
    simp only [nestedQuotes, Element.post, Element.below, Node.quote, Node.lineBreak, Node.bold,
      Node.wrap, Node.elementsOf, Node.elements, List.append_nil, List.nil_append,
      List.cons_append, List.mem_cons, List.not_mem_nil, or_false] at member
    rcases member with rfl | rfl | rfl | rfl <;> decide
  obtain ⟨tree, ran, marked⟩ :=
    quote_lines_marked {} (.nothing : Resolver Unit) (fun lookup => ⟨_, rfl⟩) breaks
  have evaluated :
      ((nestedQuotes.plan {}).run (Resolver.nothing : Resolver Unit)).map (linesInQuotes {})
        = .ok [("> ".toList, ["> a".toList, ">".toList, "> > **b".toList, "> > c**".toList]),
            ("> > ".toList, ["> > **b".toList, "> > c**".toList])] := by
    with_unfolding_all rfl
  rw [ran] at evaluated
  have listed := Except.ok.inj evaluated
  refine ⟨breaks, tree, ran, listed, fun mark quote member isQuote => ?_⟩
  have filled : inside {} mark quote ≠ [] := by
    intro empty
    have written : (mark, Text.lines (inside {} mark quote)) ∈ linesInQuotes {} tree :=
      List.mem_filterMap.2 ⟨(mark, quote), member, if_pos isQuote⟩
    rw [listed, empty] at written
    revert written
    simp [Text.lines]
  exact ⟨filled, marked mark quote member isQuote filled⟩

end ForumMarkup.Markdown
