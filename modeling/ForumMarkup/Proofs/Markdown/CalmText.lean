import ForumMarkup.Proofs.Markdown.Laid
import ForumMarkup.Proofs.Markdown.MarkerEdges
import ForumMarkup.Proofs.Markdown.QuoteMarks
import ForumMarkup.Proofs.Markdown.ShownLines
import ForumMarkup.Proofs.Span.Calm

/-!
Contract: the text of calm content in emphasis has no blank line.

Owns: one lemma for each kind of calm span, which says what it adds and that every line
feed in there ends a line that shows something.

Main statement: `noBlankLine_inside`.

A run of line breaks is written behind a text that was stripped, so the lines it ends show
something.  A line feed that is moved behind a closing text follows that text.  The rest of
a content may have lost the blank it starts with, which ends no line.
-/

set_option autoImplicit false

namespace ForumMarkup.Markdown

section

variable {mark : Text}

/-! ### What one span adds -/

/-- Behind a text with only shown lines a span adds another one, under the line mark where
it starts a line. -/
theorem showsLines_behind (single : '\n' ∉ mark) {span : Span}
    (noBreak : span.isRule .lineBreak = false) (unmarked : span.lineMark? = none)
    {buffer : Buffer} (marked : Marked mark buffer.reverse)
    (lines : ShowsLines mark buffer.reverse) {piece : Text} (added : ShowsLines mark piece) :
    ShowsLines mark (buffer.reverse
      ++ ((if startsLine mark false span buffer then mark else []) ++ piece)) := by
  cases starts : startsLine mark false span buffer with
  | true =>
      rw [if_pos rfl, ← List.append_assoc]
      exact lines.append_mark single added
  | false =>
      rw [if_neg Bool.false_ne_true, List.nil_append]
      refine lines.append single (pastMark_of_marked marked fun ends => ?_) added
      simp only [startsLine, noBreak, unmarked, Option.isNone_none, Bool.not_false, Bool.and_true,
        Bool.and_eq_false_iff, Bool.not_eq_false'] at starts
      rcases starts with empty | within
      · rw [List.isEmpty_iff.1 empty]
        rfl
      · exact absurd ends (getLast?_ne_of_atLineStart within)

theorem hoistStart_nil (lineStart : Bool) (buffer : Buffer) (content : Text) :
    hoistStart lineStart buffer [] content
      = ([], if lineStart then Text.dropLeadingBlank content else content) := by
  cases content with
  | nil =>
      rw [hoistStart, Text.dropLeadingBlank, ite_self]
  | cons c rest =>
      rw [hoistStart, Text.dropLeadingBlank]
      cases lineStart with
      | false => simp
      | true => cases Text.isBlank c <;> simp

/-- A span without opening and closing adds its content, without the blank it starts with
where it starts a line. -/
theorem place_unwrapped {span : Span} (noCode : span.isRule .code = false)
    (opening : span.opening = []) (closing : span.closing = []) (before : span.breaksBefore = 0)
    (after : span.breaksAfter = 0) (options : Options) (marked leaf : Bool) {content : Text}
    (inLine : leaf = true → '\n' ∉ content) (buffer : Buffer) :
    place options mark marked span leaf content buffer
      = ((if startsLine mark marked span buffer then mark else [])
          ++ if startsLine mark marked span buffer then Text.dropLeadingBlank content
            else content).reverse ++ buffer := by
  rw [place_eq, before, after]
  simp only [addBreaks_zero]
  generalize startsLine mark marked span buffer = lineStart
  have kept : leaf = true →
      '\n' ∉ (if lineStart then Text.dropLeadingBlank content else content) := by
    intro isLeaf
    split
    · rw [← Text.leadingBlank_append content, List.mem_append, not_or] at inLine
      exact (inLine isLeaf).2
    · exact inLine isLeaf
  have same : edges lineStart buffer span content
      = ([], if lineStart then Text.dropLeadingBlank content else content, []) := by
    rw [edges, noCode, if_neg Bool.false_ne_true, opening, closing, hoistStart_nil]
    dsimp only
    rw [hoistEnd_nil]
  rw [same, written]
  cases leaf with
  | false => simp
  | true => simp [markLines_of_feed_free (kept rfl)]

/-- A span of literal text adds one line. -/
theorem showsLines_ofText (single : '\n' ∉ mark) (options : Options) {text : Text}
    (inLine : '\n' ∉ text) {buffer : Buffer} (marked : Marked mark buffer.reverse)
    (lines : ShowsLines mark buffer.reverse) :
    ShowsLines mark (siblings options mark false buffer [.ofText text]).reverse := by
  rw [SpanTree.ofText, siblings_leaf, siblings, place_unwrapped rfl rfl rfl rfl rfl options false
    true (fun _ => inLine), List.reverse_append, List.reverse_reverse]
  refine showsLines_behind single rfl rfl marked lines ?_
  split
  · exact (showsLines_of_feed_free inLine).dropLeadingBlank
  · exact showsLines_of_feed_free inLine

/-- A run of line breaks in emphasis adds hard breaks, or one break. -/
theorem showsLines_breaks (chars : ∀ c ∈ mark, c = '>' ∨ c = ' ') (options : Options)
    {scope : Scope} (emphasised : scope.emphasised = true) (count : Nat) {buffer : Buffer}
    (marked : Marked mark buffer.reverse) (lines : ShowsLines mark buffer.reverse) :
    ShowsLines mark
      (siblings options mark false buffer [.node (scope.breaks count) []]).reverse := by
  have noStart : startsLine mark false (scope.breaks count) buffer = false := by
    rw [startsLine, show (scope.breaks count).isRule .lineBreak = true from rfl]
    simp
  have spelled : (scope.breaks count).kindAfter = .hard ∨
      ((scope.breaks count).kindAfter = .auto ∧ count ≤ 1) := by
    rw [Scope.breaks]
    dsimp only
    split
    · exact .inl rfl
    · next short =>
        exact .inr ⟨rfl, Nat.le_of_not_lt fun several => short ⟨several, emphasised⟩⟩
  rw [siblings_leaf, siblings, place_inline rfl rfl (addBreaks_zero _ _ _ _) noStart rfl]
  exact showsLines_addBreaks chars options spelled marked lines

/-! ### Spans around a content -/

/-- The core of a marked content ends no line unless there is no mark. -/
theorem pastMark_core (chars : ∀ c ∈ mark, c = '>' ∨ c = ' ') {content : Text}
    (marked : Marked mark content) : PastMark mark content.core := by
  by_cases bare : Text.trimEnd mark = []
  · exact pastMark_of_marked (marked_of_trimEnd_eq_nil bare _) fun _ => bare
  · -- The core is what is left of the content before any closing text.
    have markers : ['*'] ≠ [] := List.cons_ne_nil _ _
    rw [← Text.leadingBlank_append content] at marked
    obtain ⟨core, noFeed⟩ := marked_hoistEnd ⟨chars, bare⟩ marked.of_append ['*']
    rw [hoistEnd_of_closing markers] at core noFeed
    exact pastMark_of_marked core fun ends =>
      absurd ends (noFeed (List.append_ne_nil_of_left_ne_nil markers _))

/-- Between its opening and its closing text a content keeps its core; a blank at its start
comes before the opening, and one at its end behind the closing, also when this is a line
feed. -/
theorem showsLines_wrapped (chars : ∀ c ∈ mark, c = '>' ∨ c = ' ') {opening closing before : Text}
    (wrapping : Wrapping opening closing) (markers : closing ≠ []) (inLine : '\n' ∉ before)
    {content : Text} (marked : Marked mark content) (lines : ShowsLines mark content) :
    ShowsLines mark
      (before ++ opening ++ content.core ++ closing ++ behindMarker mark content) := by
  have single := feed_not_mem_of_chars chars
  have opened : '\n' ∉ before ++ opening := by
    rw [List.mem_append, not_or]
    exact ⟨inLine, wrapping.opens⟩
  have past : PastMark mark (before ++ opening) := pastMark_of_marked (marked_of_feed_free opened)
    fun feed => absurd (List.mem_of_getLast? feed) opened
  have filled : ShowsLines mark (before ++ opening ++ content.core ++ closing) :=
    ((showsLines_of_feed_free opened).append single past lines.core).append_line wrapping.closes
  rw [behindMarker]
  rcases Text.trailingBlank_cases (Text.dropLeadingBlank content) with ⟨none, _⟩ | ⟨c, one, blank⟩
  · rw [none, markLines_nil, List.append_nil]
    exact filled
  · rw [one]
    by_cases feed : c = '\n'
    · subst feed
      have ends : markLines mark ['\n'] = '\n' :: mark := by
        rw [markLines_feed, markLines_nil, List.append_nil]
        rfl
      rw [ends]
      refine filled.feed ?_ single
      -- The closing text is what the last line shows.
      have closed : ShowsLast mark closing :=
        showsLast_of_line wrapping.closes (wrapping.visible markers)
      rw [List.append_assoc]
      exact (closed.append single (pastMark_core chars marked)).append single past
    · have alone : '\n' ∉ [c] := by
        rw [List.mem_singleton]
        exact Ne.symm feed
      rw [markLines_of_feed_free alone]
      exact filled.append_line alone

/-- Before its opening text a span writes nothing but the line mark or a part of a line. -/
theorem exists_beforeMarker {content : Text} (lines : ShowsLines mark content) (marked : Bool)
    (span : Span) (buffer : Buffer) :
    ∃ before, '\n' ∉ before ∧ beforeMarker mark marked span buffer content
      = (if startsLine mark marked span buffer then mark else []) ++ before := by
  unfold beforeMarker
  split
  · exact ⟨[], List.not_mem_nil, (List.append_nil mark).symm⟩
  · split
    · exact ⟨[], List.not_mem_nil, rfl⟩
    · have alone : '\n' ∉ Text.leadingBlank content := by
        cases content with
        | nil => exact List.not_mem_nil
        | cons c rest =>
            rw [Text.leadingBlank]
            split
            · rw [List.mem_singleton]
              rintro rfl
              exact lines.head?_ne rfl
            · exact List.not_mem_nil
      exact ⟨_, alone, markLines_of_feed_free alone mark⟩

/-- A wrapping span adds lines that show something when its content has only such lines. -/
theorem showsLines_place_of_wraps (chars : ∀ c ∈ mark, c = '>' ∨ c = ' ') (options : Options)
    {span : Span} (wraps : span.Wraps) {rule : Rule} (isWrap : rule ∈ wrapRules)
    (origin : span.origin = .rule rule) {content : Text} (inner : Marked mark content)
    (shown : ShowsLines mark content) {buffer : Buffer} (marked : Marked mark buffer.reverse)
    (lines : ShowsLines mark buffer.reverse) :
    ShowsLines mark (place options mark false span false content buffer).reverse := by
  have single := feed_not_mem_of_chars chars
  obtain ⟨_, _, noBreak, noCode⟩ := others_of_mem_wrapRules isWrap
  have other {rule' : Rule} (differs : rule ≠ rule') : span.isRule rule' = false := by
    rw [Span.isRule, origin, beq_eq_false_iff_ne]
    exact fun same => differs (Origin.rule.inj same)
  have bare := wraps.bare
  have unmarked : span.lineMark? = none := by rw [bare]
  have behind {piece : Text} (added : ShowsLines mark piece) :=
    showsLines_behind single (other noBreak) unmarked marked lines added
  by_cases markers : span.opening = []
  · rw [place_unwrapped (other noCode) markers (wraps.wrapping.both.1 markers) (by rw [bare])
      (by rw [bare]) options false false (fun isLeaf => absurd isLeaf Bool.false_ne_true),
      List.reverse_append, List.reverse_reverse]
    apply behind
    split
    · exact shown.dropLeadingBlank
    · exact shown
  · rw [place_of_wraps wraps (other noCode) markers, List.reverse_append, List.reverse_reverse]
    have closes : span.closing ≠ [] := fun none => markers (wraps.wrapping.both.2 none)
    obtain ⟨before, inLine, shape⟩ := exists_beforeMarker shown false span buffer
    have added := behind (showsLines_wrapped chars wraps.wrapping closes inLine inner shown)
    rw [shape]
    simpa only [List.append_assoc] using added

end

/-- A leaf without a text of its own is a span around nothing. -/
theorem place_nil (options : Options) (mark : Text) (marked : Bool) (span : Span)
    (buffer : Buffer) :
    place options mark marked span true [] buffer
      = place options mark marked span false [] buffer := by
  have noContent (lineStart : Bool) (buffer : Buffer) :
      (edges lineStart buffer span []).2.1 = [] := by
    unfold edges
    split
    · rfl
    · exact rfl
  rw [place_eq, place_eq]
  dsimp only
  rw [written, written, noContent]
  rfl

/-! ### Calm spans -/

/-- Calm spans are marked behind a marked text. -/
theorem marked_siblings_of_calm (options : Options) {mark : Text}
    (chars : ∀ c ∈ mark, c = '>' ∨ c = ' ') {trees : List SpanTree}
    (calm : ∀ tree ∈ trees, tree.Calm) {buffer : Buffer} (marked : Marked mark buffer.reverse) :
    Marked mark (siblings options mark false buffer trees).reverse :=
  marked_siblings options mark false trees buffer (fun tree member => (calm tree member).sound)
    chars marked

/-- One span in emphasis adds no blank line. -/
theorem showsLines_sibling (options : Options) {mark : Text}
    (chars : ∀ c ∈ mark, c = '>' ∨ c = ' ') {tree : SpanTree} (calm : tree.Calm)
    (inner : Marked mark (inside options mark tree))
    (shown : ShowsLines mark (inside options mark tree)) {buffer : Buffer}
    (marked : Marked mark buffer.reverse) (lines : ShowsLines mark buffer.reverse) :
    ShowsLines mark (siblings options mark false buffer [tree]).reverse := by
  cases calm with
  | text single => exact showsLines_ofText (feed_not_mem_of_chars chars) options single marked lines
  | breaks emphasised count => exact showsLines_breaks chars options emphasised count marked lines
  | @wrap span children rule wraps isWrap origin within =>
      have added := showsLines_place_of_wraps chars options wraps isWrap origin inner shown marked
        lines
      have bare := wraps.bare
      by_cases empty : children = []
      · subst empty
        have noText : span.text = [] := by rw [bare]
        rw [siblings_leaf, siblings, noText, place_nil]
        rw [inside_leaf] at added
        exact added
      · have unmarked : span.lineMark? = none := by rw [bare]
        rw [siblings_node _ _ _ _ _ empty, siblings, unmarked, Option.getD_none, List.append_nil]
        exact added

mutual

theorem showsLines_inside (options : Options) {mark : Text}
    (chars : ∀ c ∈ mark, c = '>' ∨ c = ' ') :
    ∀ tree : SpanTree, tree.Calm → ShowsLines mark (inside options mark tree)
  | .node span children, calm => by
      have empty : '\n' ∉ ([] : Text) := List.not_mem_nil
      have unmarked : span.lineMark? = none := calm.unmarked
      rw [inside_of_none options mark unmarked]
      exact showsLines_siblings options chars children calm.children (marked_of_feed_free empty)
        (showsLines_of_feed_free empty)

/-- Behind a text with only shown lines calm spans add another one. -/
theorem showsLines_siblings (options : Options) {mark : Text}
    (chars : ∀ c ∈ mark, c = '>' ∨ c = ' ') :
    ∀ (trees : List SpanTree) {buffer : Buffer}, (∀ tree ∈ trees, tree.Calm) →
      Marked mark buffer.reverse → ShowsLines mark buffer.reverse →
      ShowsLines mark (siblings options mark false buffer trees).reverse
  | [], _, _, _, lines => lines
  | .node span children :: rest, buffer, calm, marked, lines => by
      obtain ⟨here, later⟩ := List.forall_mem_cons.1 calm
      have unmarked : span.lineMark? = none := here.unmarked
      have inner : Marked mark (inside options mark (.node span children)) := by
        rw [inside_of_none options mark unmarked]
        exact marked_siblings_of_calm options chars here.children
          (marked_of_feed_free List.not_mem_nil)
      have next := showsLines_sibling options chars here inner
        (showsLines_inside options chars (.node span children) here) marked lines
      have nextMarked := marked_siblings_of_calm options chars (List.forall_mem_singleton.2 here)
        marked
      have split := siblings_append options mark false buffer [.node span children] rest
      rw [List.singleton_append] at split
      rw [split]
      exact showsLines_siblings options chars rest later nextMarked next

end

/-- The text of calm spans has no blank line under any mark of quotes. -/
theorem noBlankLine_inside (options : Options) {mark : Text}
    (chars : ∀ c ∈ mark, c = '>' ∨ c = ' ') {span : Span} (unmarked : span.lineMark? = none)
    {children : List SpanTree} (calm : ∀ child ∈ children, child.Calm) :
    NoBlankLine mark (inside options mark (.node span children)) := by
  have empty : '\n' ∉ ([] : Text) := List.not_mem_nil
  rw [inside_of_none options mark unmarked]
  exact noBlankLine_of_showsLines chars
    (marked_siblings_of_calm options chars calm (marked_of_feed_free empty))
    (showsLines_siblings options chars children calm (marked_of_feed_free empty)
      (showsLines_of_feed_free empty))

end ForumMarkup.Markdown
