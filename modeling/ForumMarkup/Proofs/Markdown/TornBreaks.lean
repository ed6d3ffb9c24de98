import ForumMarkup.Element.Post
import ForumMarkup.Markdown
import ForumMarkup.Proofs.Markdown.Place
import ForumMarkup.Proofs.Markdown.QuoteMarks
import ForumMarkup.Proofs.Markdown.WholeBreaks

/-!
Contract: where the blanks that are moved out of a span tear a hard break.

Owns: `Span.Tears`, a span moves the line feed of a hard break behind its closing text.

Main statement: `breaksWhole_convertPlain_iff`.  Without backslashes in what was read, the
Markdown has a backslash that is not followed by a line feed exactly if some span tears a
break.

A quote with a header tears none: its closing text starts with a line feed, which takes
the place of the one that is moved.
-/

set_option autoImplicit false

namespace ForumMarkup

/-- The content ends with a hard break, and the closing text of the span is written right
behind the backslash of it. -/
structure Span.Tears (span : Span) (content : Text) : Prop where
  moves : span.isRule .code = false
  closes : span.closing ≠ []
  onLine : span.closing.head? ≠ some '\n'
  ends : ['\\', '\n'] <:+ content

namespace Markdown

/-- A span tears a break of what is written inside it, under the given line mark. -/
def TearsAt (options : Options) (place : Text × SpanTree) : Prop :=
  place.2.span.Tears (inside options place.1 place.2)

/-! ### Edges of a content -/

/-- At the start of a content at most one blank is moved or dropped. -/
theorem hoistStart_eq_or (lineStart : Bool) (buffer : Buffer) (opening content : Text) :
    hoistStart lineStart buffer opening content = (opening, content) ∨
      ∃ c rest, content = c :: rest ∧ Text.isBlank c = true ∧
        (hoistStart lineStart buffer opening content = (opening, rest) ∨
          hoistStart lineStart buffer opening content = (c :: opening, rest)) := by
  unfold hoistStart
  split
  · next c rest =>
      split
      · next moved =>
          rw [Bool.and_eq_true] at moved
          refine .inr ⟨c, rest, rfl, moved.1, ?_⟩
          split
          · exact .inl rfl
          · exact .inr rfl
      · exact .inl rfl
  · exact .inl rfl

/-- At the end of a content at most one blank is moved, behind a closing text. -/
theorem hoistEnd_eq_or (content closing : Text) :
    hoistEnd content closing = (content, closing) ∨
      ∃ front c, content = front ++ [c] ∧ Text.isBlank c = true ∧ closing ≠ [] ∧
        hoistEnd content closing = (front, closing ++ [c]) := by
  unfold hoistEnd
  split
  · next c rest shape =>
      have parts : content = rest.reverse ++ [c] := by
        rw [← List.reverse_cons, ← shape, List.reverse_reverse]
      split
      · next moved =>
          rw [Bool.and_eq_true] at moved
          exact .inr ⟨rest.reverse, c, parts, moved.1, by simpa using moved.2, rfl⟩
      · exact .inl rfl
  · exact .inl rfl

/-- A blank at the end of a content is moved behind a closing text. -/
theorem hoistEnd_concat {c : Char} (blank : Text.isBlank c = true) {closing : Text}
    (filled : closing ≠ []) (front : Text) :
    hoistEnd (front ++ [c]) closing = (front, closing ++ [c]) := by
  unfold hoistEnd
  rw [List.reverse_concat]
  simp [blank, filled]

/-- What outlasts the loss of a blank at the start still holds behind the moved blank. -/
theorem hoistStart_kept {p : Text → Prop} {content : Text}
    (drop : ∀ c rest, Text.isBlank c = true → p (c :: rest) → p rest) (holds : p content)
    (lineStart : Bool) (buffer : Buffer) (opening : Text) :
    p (hoistStart lineStart buffer opening content).2 := by
  rcases hoistStart_eq_or lineStart buffer opening content with
    same | ⟨c, rest, rfl, blank, same | same⟩
  · rw [same]
    exact holds
  · rw [same]
    exact drop c rest blank holds
  · rw [same]
    exact drop c rest blank holds

theorem hoistStart_suffix (lineStart : Bool) (buffer : Buffer) (opening content : Text) :
    (hoistStart lineStart buffer opening content).2 <:+ content :=
  hoistStart_kept (fun c rest _ inner => (List.suffix_cons c rest).trans inner)
    (List.suffix_refl content) lineStart buffer opening

theorem noSlash_hoistStart {opening : Text} (noSlash : '\\' ∉ opening) (lineStart : Bool)
    (buffer : Buffer) (content : Text) :
    '\\' ∉ (hoistStart lineStart buffer opening content).1 := by
  rcases hoistStart_eq_or lineStart buffer opening content with
    same | ⟨c, rest, _, blank, same | same⟩
  · rw [same]
    exact noSlash
  · rw [same]
    exact noSlash
  · rw [same, List.mem_cons, not_or]
    refine ⟨?_, noSlash⟩
    rintro rfl
    exact absurd blank (by decide)

/-- A hard break at the end of a content stays there when its start is cut. -/
theorem hardBreak_hoistStart {content : Text} (ends : ['\\', '\n'] <:+ content) (lineStart : Bool)
    (buffer : Buffer) (opening : Text) :
    ['\\', '\n'] <:+ (hoistStart lineStart buffer opening content).2 := by
  refine hoistStart_kept (fun c rest blank atEnd => ?_) ends lineStart buffer opening
  rcases List.suffix_cons_iff.1 atEnd with whole | inside
  · rw [← (List.cons.inj whole).1] at blank
    exact absurd blank (by decide)
  · exact inside

theorem noSlash_markLines {mark : Text} (noMark : '\\' ∉ mark) {t : Text} (noSlash : '\\' ∉ t) :
    '\\' ∉ markLines mark t := by
  induction t with
  | nil => exact List.not_mem_nil
  | cons c rest ih =>
      rw [List.mem_cons, not_or] at noSlash
      obtain ⟨here, later⟩ := noSlash
      by_cases feed : c = '\n'
      · have lead : '\\' ∉ (if rest.head? = some '\n' then Text.trimEnd mark else mark) := by
          split
          · exact fun member => noMark ((Text.trimEnd_prefix mark).subset member)
          · exact noMark
        rw [feed, markLines_feed, List.mem_cons, not_or]
        exact ⟨by decide, noSlash_append lead (ih later)⟩
      · rw [markLines_of_ne feed, List.mem_cons, not_or]
        exact ⟨here, ih later⟩

/-! ### One span -/

section

variable {options : Options} {mark content : Text} {span : Span} {buffer : Buffer}

theorem noSlash_of_chars (chars : ∀ c ∈ mark, c = '>' ∨ c = ' ') : '\\' ∉ mark := by
  intro member
  rcases chars _ member with same | same <;> cases same

theorem noSlash_edges (tidy : span.Tidy) (lineStart : Bool) (buffer : Buffer) (content : Text) :
    '\\' ∉ (edges lineStart buffer span content).1 ∧
      '\\' ∉ (edges lineStart buffer span content).2.2 := by
  unfold edges
  split
  · exact ⟨tidy.opening, tidy.closing⟩
  · refine ⟨noSlash_hoistStart tidy.opening _ _ _, ?_⟩
    dsimp only
    rcases hoistEnd_eq_or (hoistStart lineStart buffer span.opening content).2 span.closing with
      same | ⟨front, c, _, blank, _, same⟩
    · rw [same]
      exact tidy.closing
    · rw [same]
      refine noSlash_append tidy.closing fun member => ?_
      rw [← List.mem_singleton.1 member] at blank
      exact absurd blank (by decide)

theorem edges_content_subset (lineStart : Bool) (buffer : Buffer) (span : Span) (content : Text) :
    (edges lineStart buffer span content).2.1 ⊆ content := by
  unfold edges
  split
  · exact List.Subset.refl _
  · have start := (hoistStart_suffix lineStart buffer span.opening content).subset
    dsimp only
    rcases hoistEnd_eq_or (hoistStart lineStart buffer span.opening content).2 span.closing with
      same | ⟨front, c, shape, _, _, same⟩
    · rw [same]
      exact start
    · rw [same]
      refine List.Subset.trans ?_ start
      rw [shape]
      exact List.subset_append_left _ _

/-- A span that tears no break leaves the breaks of its content whole. -/
theorem breaksWhole_edges (noMark : '\\' ∉ mark) (tidy : span.Tidy) (whole : BreaksWhole content)
    (joined : ¬span.Tears content) (lineStart : Bool) (buffer : Buffer) :
    BreaksWhole ((edges lineStart buffer span content).2.1
      ++ markLines mark (edges lineStart buffer span content).2.2) := by
  have closes := (noSlash_edges tidy lineStart buffer content).2
  have behind := breaksWhole_of_noSlash (noSlash_markLines noMark closes)
  unfold edges at behind ⊢
  cases code : span.isRule .code with
  | true => exact whole.append (breaksWhole_of_noSlash (noSlash_markLines noMark tidy.closing))
  | false =>
      rw [code] at behind
      rw [if_neg Bool.false_ne_true] at behind ⊢
      dsimp only at behind ⊢
      have suffix := hoistStart_suffix lineStart buffer span.opening content
      generalize (hoistStart lineStart buffer span.opening content).2 = start at behind suffix ⊢
      have wholeStart : BreaksWhole start := by
        obtain ⟨before, rfl⟩ := suffix
        exact whole.of_append
      rcases hoistEnd_eq_or start span.closing with same | ⟨front, c, shape, _, filled, same⟩
      · rw [same] at behind ⊢
        exact wholeStart.append behind
      · rw [same] at behind ⊢
        rw [shape] at wholeStart suffix
        by_cases ends : front.getLast? = some '\\'
        · -- The blank is the line feed of a hard break, so the closing text has its own.
          obtain ⟨before, cut⟩ := List.getLast?_eq_some_iff.1 ends
          have feed : c = '\n' := by
            simpa using wholeStart before [c] (by simp [cut])
          subst feed
          have hard : ['\\', '\n'] <:+ content := by
            refine List.IsSuffix.trans ⟨before, ?_⟩ suffix
            simp [cut]
          have ownFeed : span.closing.head? = some '\n' :=
            Decidable.byContradiction fun onLine => joined ⟨code, filled, onLine, hard⟩
          obtain ⟨more, closing⟩ := List.head?_eq_some_iff.1 ownFeed
          rw [closing, List.cons_append, markLines_feed] at behind ⊢
          exact wholeStart.append_feed behind
        · exact (wholeStart.dropEnd ends).append behind

/-- Placing a span breaks no hard break apart, unless the span tears one. -/
theorem breaksWhole_place (chars : ∀ c ∈ mark, c = '>' ∨ c = ' ') (options : Options)
    {marked leaf : Bool} (tidy : span.Tidy) (before : BreaksWhole buffer.reverse)
    (own : leaf = true → '\\' ∉ content) (whole : leaf = false → BreaksWhole content)
    (joined : leaf = false → ¬span.Tears content) :
    BreaksWhole (place options mark marked span leaf content buffer).reverse := by
  have noMark := noSlash_of_chars chars
  have spaced := breaksWhole_addBreaks noMark options span.kindBefore span.breaksBefore before
  rw [place_eq]
  dsimp only
  generalize addBreaks options span.kindBefore mark span.breaksBefore buffer
    = spacedBuffer at spaced ⊢
  generalize startsLine mark marked span spacedBuffer = lineStart
  apply breaksWhole_addBreaks noMark
  rw [List.reverse_append, List.reverse_reverse]
  have lead : '\\' ∉ (if lineStart then mark else []) := by
    split
    · exact noMark
    · exact List.not_mem_nil
  have opens := noSlash_markLines noMark (noSlash_edges tidy lineStart spacedBuffer content).1
  have closes := noSlash_markLines noMark (noSlash_edges tidy lineStart spacedBuffer content).2
  refine spaced.append ?_
  unfold written
  rw [List.append_assoc]
  refine (breaksWhole_of_noSlash (noSlash_append lead opens)).append ?_
  cases leaf with
  | true =>
      have inner : '\\' ∉ (edges lineStart spacedBuffer span content).2.1 := fun member =>
        own rfl (edges_content_subset lineStart spacedBuffer span content member)
      exact breaksWhole_of_noSlash (noSlash_append (noSlash_markLines noMark inner) closes)
  | false => exact breaksWhole_edges noMark tidy (whole rfl) (joined rfl) lineStart spacedBuffer

/-- The lines of a text are marked behind the beginning of a closing text. -/
theorem markLines_closer {closer : Text} (known : closer ∈ closers) (mark rest : Text) :
    markLines mark (closer ++ rest) = closer ++ markLines mark rest := by
  have single : '\n' ∉ closer := by
    revert closer
    decide
  have ends : closer.getLast? ≠ some '\n' := fun feed => single (List.mem_of_getLast? feed)
  rw [markLines_append (.inr ends), markLines_of_feed_free single]

theorem torn_hoistStart (torn : Torn content) (lineStart : Bool) (buffer : Buffer)
    (opening : Text) : Torn (hoistStart lineStart buffer opening content).2 := by
  refine hoistStart_kept (fun c rest blank whole => ?_) torn lineStart buffer opening
  obtain ⟨before, closer, after, known, parts⟩ := whole
  cases before with
  | nil =>
      rw [(List.cons.inj parts).1] at blank
      exact absurd blank (by decide)
  | cons d more => exact ⟨more, closer, after, known, (List.cons.inj parts).2⟩

/-- The closing text of a span that tears a break starts in a known way. -/
theorem exists_closer_of_tears (tears : span.Tears content) (tidy : span.Tidy) :
    ∃ closer ∈ closers, closer <+: span.closing := by
  rcases tidy.ends with code | none | feed | known
  · have isCode : span.isRule .code = true := beq_iff_eq.2 code
    rw [tears.moves] at isCode
    cases isCode
  · exact absurd none tears.closes
  · exact absurd feed tears.onLine
  · exact known

/-- A torn break stays torn, and a span can tear the one at the end of its content. -/
theorem torn_edges (chars : ∀ c ∈ mark, c = '>' ∨ c = ' ') (tidy : span.Tidy)
    (torn : Torn content ∨ span.Tears content) (lineStart : Bool) (buffer : Buffer) :
    Torn ((edges lineStart buffer span content).2.1
      ++ markLines mark (edges lineStart buffer span content).2.2) := by
  unfold edges
  cases code : span.isRule .code with
  | true =>
      refine (torn.resolve_right fun tears => ?_).append_right _
      rw [tears.moves] at code
      cases code
  | false =>
      rw [if_neg Bool.false_ne_true]
      dsimp only
      rcases torn with torn | tears
      · have start := torn_hoistStart torn lineStart buffer span.opening
        generalize (hoistStart lineStart buffer span.opening content).2 = kept at start ⊢
        rcases hoistEnd_eq_or kept span.closing with same | ⟨front, c, shape, blank, _, same⟩
        · rw [same]
          exact start.append_right _
        · rw [shape] at start
          rw [same]
          exact (Torn.outlasts chars (.blank c blank) start).append_right _
      · have start := hardBreak_hoistStart tears.ends lineStart buffer span.opening
        generalize (hoistStart lineStart buffer span.opening content).2 = kept at start ⊢
        obtain ⟨before, rfl⟩ := start
        obtain ⟨closer, known, more, closing⟩ := exists_closer_of_tears tears tidy
        have moved : hoistEnd (before ++ ['\\', '\n']) span.closing
            = (before ++ ['\\'], span.closing ++ ['\n']) := by
          rw [List.append_cons]
          exact hoistEnd_concat (by decide) tears.closes _
        refine ⟨before, closer, markLines mark (more ++ ['\n']), known, ?_⟩
        rw [moved, ← closing, List.append_assoc, List.append_assoc, markLines_closer known]
        rfl

theorem torn_place (chars : ∀ c ∈ mark, c = '>' ∨ c = ' ') (options : Options) {marked leaf : Bool}
    (tidy : span.Tidy)
    (torn : Torn buffer.reverse ∨ leaf = false ∧ (Torn content ∨ span.Tears content)) :
    Torn (place options mark marked span leaf content buffer).reverse := by
  rw [place_eq]
  dsimp only
  apply torn_addBreaks chars
  rw [List.reverse_append, List.reverse_reverse]
  rcases torn with before | ⟨rfl, inner⟩
  · exact (torn_addBreaks chars options span.kindBefore span.breaksBefore before).append_right _
  · refine Torn.append_left ?_ _
    unfold written
    rw [List.append_assoc]
    exact (torn_edges chars tidy inner _ _).append_left _

end

/-! ### Spans inside spans -/

theorem inside_leaf (options : Options) (mark : Text) (span : Span) :
    inside options mark (.node span []) = [] := by
  rw [inside, siblings]
  split
  · exact List.prefix_nil.1 <| stripBreaks_prefix []
  · rfl

theorem chars_under {mark : Text} (chars : ∀ c ∈ mark, c = '>' ∨ c = ' ') {span : Span}
    (tidy : span.Tidy) : ∀ c ∈ mark ++ span.lineMark?.getD [], c = '>' ∨ c = ' ' :=
  List.forall_mem_append.2 ⟨chars, tidy.mark⟩

open SpanTree

mutual

/-- Without a span that tears one, the breaks inside a span are whole. -/
theorem breaksWhole_inside (options : Options) :
    ∀ (mark : Text) (tree : SpanTree), tree.Tidy → (∀ c ∈ mark, c = '>' ∨ c = ' ') →
      (∀ place ∈ spansUnderAll mark tree.children, ¬TearsAt options place) →
      BreaksWhole (inside options mark tree)
  | mark, .node span children, tidy, chars, joined => by
      obtain ⟨_, inner⟩ := tidy
      have filled := breaksWhole_siblings options mark span.lineMark?.isSome children [] inner chars
        joined (breaksWhole_of_noSlash List.not_mem_nil)
      rw [inside]
      split
      · exact breaksWhole_stripBreaks filled
      · exact filled

/-- Where no span tears a break, all breaks are whole. -/
theorem breaksWhole_siblings (options : Options) :
    ∀ (mark : Text) (marked : Bool) (trees : List SpanTree) (buffer : Buffer),
      (∀ tree ∈ trees, tree.Tidy) → (∀ c ∈ mark, c = '>' ∨ c = ' ') →
      (∀ place ∈ spansUnderAll mark trees, ¬TearsAt options place) →
      BreaksWhole buffer.reverse → BreaksWhole (siblings options mark marked buffer trees).reverse
  | mark, marked, [], buffer, _, _, _, before => before
  | mark, marked, .node span children :: rest, buffer, tidy, chars, joined, before => by
      obtain ⟨first, others⟩ := List.forall_mem_cons.1 tidy
      rw [spansUnderAll] at joined
      obtain ⟨here, later⟩ := List.forall_mem_append.1 joined
      rw [spansUnder] at here
      obtain ⟨own, below⟩ := List.forall_mem_cons.1 here
      have within := breaksWhole_inside options (mark ++ span.lineMark?.getD [])
        (.node span children) first
      obtain ⟨tidySpan, _⟩ := first
      rw [siblings]
      refine breaksWhole_siblings options mark marked rest _ others chars later ?_
      -- A leaf writes its own text; only other spans have a content of their own.
      refine breaksWhole_place chars options tidySpan before ?_ ?_ ?_
      · intro isLeaf
        rw [isLeaf, if_pos rfl]
        exact tidySpan.text
      · intro notLeaf
        rw [notLeaf, if_neg Bool.false_ne_true]
        exact within (chars_under chars tidySpan) below
      · intro notLeaf
        rw [notLeaf, if_neg Bool.false_ne_true]
        exact own

end

mutual

/-- A break that is torn deeper inside a span is torn in the text inside that span. -/
theorem torn_inside (options : Options) :
    ∀ (mark : Text) (tree : SpanTree), tree.Tidy → (∀ c ∈ mark, c = '>' ∨ c = ' ') →
      (∃ place ∈ spansUnderAll mark tree.children, TearsAt options place) →
      Torn (inside options mark tree)
  | mark, .node span children, tidy, chars, tears => by
      obtain ⟨_, inner⟩ := tidy
      have filled := torn_siblings options mark span.lineMark?.isSome children [] inner chars
        (.inr tears)
      rw [inside]
      split
      · exact stripBreaks_induction (fun step => Torn.outlasts chars step) filled
      · exact filled

/-- A break that is torn once stays torn: nothing is ever put between its backslash and what
follows. -/
theorem torn_siblings (options : Options) :
    ∀ (mark : Text) (marked : Bool) (trees : List SpanTree) (buffer : Buffer),
      (∀ tree ∈ trees, tree.Tidy) → (∀ c ∈ mark, c = '>' ∨ c = ' ') →
      (Torn buffer.reverse ∨ ∃ place ∈ spansUnderAll mark trees, TearsAt options place) →
      Torn (siblings options mark marked buffer trees).reverse
  | mark, marked, [], buffer, _, _, torn => torn.resolve_right nofun
  | mark, marked, .node span children :: rest, buffer, tidy, chars, torn => by
      obtain ⟨first, others⟩ := List.forall_mem_cons.1 tidy
      have within := torn_inside options (mark ++ span.lineMark?.getD [])
        (.node span children) first
      obtain ⟨tidySpan, _⟩ := first
      rw [siblings]
      refine torn_siblings options mark marked rest _ others chars ?_
      rcases torn with before | ⟨place, member, tears⟩
      · exact .inl (torn_place chars options tidySpan (.inl before))
      · rw [spansUnderAll] at member
        rcases List.mem_append.1 member with here | later
        · left
          have content :
              Torn (inside options (mark ++ span.lineMark?.getD []) (.node span children)) ∨
              span.Tears
                (inside options (mark ++ span.lineMark?.getD []) (.node span children)) := by
            rw [spansUnder] at here
            rcases List.mem_cons.1 here with rfl | below
            · exact .inr tears
            · exact .inl (within (chars_under chars tidySpan) ⟨place, below, tears⟩)
          have filled : (SpanTree.node span children).isLeaf = false := by
            cases children with
            | cons child more => rfl
            | nil =>
                rw [inside_leaf] at content
                rcases content with torn | tears
                · exact absurd (breaksWhole_of_noSlash List.not_mem_nil) torn.not_breaksWhole
                · exact absurd (List.suffix_nil.1 tears.ends) (List.cons_ne_nil _ _)
          rw [filled, if_neg Bool.false_ne_true]
          exact torn_place chars options tidySpan (.inr ⟨rfl, content⟩)
        · exact .inr ⟨place, later, tears⟩

end

/-! ### The Markdown of a post -/

/-- When nothing is known about what a post names, and there is neither a backslash nor an
ampersand in its texts and attributes, every backslash of its Markdown is followed by a
line feed, exactly if no span tears a break at the end of its content. -/
theorem breaksWhole_convertPlain_iff (options : Options) {post : Element}
    (leaves : ∀ leaf ∈ post.leaves, Text.Harmless leaf)
    (values : ∀ element ∈ post.below, ∀ key value,
      element.attributes.get? key = some value → Text.Harmless value) :
    BreaksWhole (post.convertPlain options) ↔
      ∀ place ∈ ((post.plan options).evaluate Lookup.unresolved).spansUnder [],
        ¬TearsAt options place := by
  have tidy := tidy_plan options leaves values
  have rendered : post.convertPlain options
      = ((post.plan options).evaluate Lookup.unresolved).render options :=
    Inquiry.evaluate_bind Lookup.unresolved (post.plan options) _
  obtain ⟨children, planned⟩ : ∃ children,
      (post.plan options).evaluate Lookup.unresolved = .node { origin := .root } children := by
    unfold Element.plan
    dsimp only
    rw [Inquiry.evaluate_bind]
    exact ⟨_, rfl⟩
  have noMark : ∀ c ∈ ([] : Text), c = '>' ∨ c = ' ' := List.forall_mem_nil _
  rw [planned] at tidy rendered ⊢
  rw [rendered]
  show BreaksWhole (stripBreaks [] (inside options [] _).reverse).reverse ↔ _
  rw [spansUnder, List.forall_mem_cons]
  constructor
  · intro whole
    refine ⟨fun tears => tears.closes rfl, fun place member tears => ?_⟩
    have torn : Torn (inside options [] (.node { origin := .root } children)).reverse.reverse := by
      rw [List.reverse_reverse]
      exact torn_inside options [] _ tidy noMark ⟨place, member, tears⟩
    exact (stripBreaks_induction (fun step => Torn.outlasts noMark step) torn).not_breaksWhole whole
  · rintro ⟨_, joined⟩
    apply breaksWhole_stripBreaks
    rw [List.reverse_reverse]
    exact breaksWhole_inside options [] _ tidy noMark joined

theorem values_of_bare {elements : List Element}
    (bare : ∀ element ∈ elements, element.attributes = ∅) :
    ∀ element ∈ elements, ∀ key value,
      element.attributes.get? key = some value → Text.Harmless value := by
  intro element member key value found
  rw [bare element member] at found
  cases found

def boldLines : Element :=
  .post [.bold [.text ['a'], .lineBreak, .text ['b']], .lineBreak, .text ['c']]

theorem breaksWhole_convertPlain_boldLines :
    (∀ leaf ∈ boldLines.leaves, Text.Harmless leaf) ∧
      (∀ element ∈ boldLines.below, ∀ key value,
        element.attributes.get? key = some value → Text.Harmless value) ∧
      boldLines.convertPlain { traditionalBreaks := true } = "**a\\\nb**\\\nc".toList ∧
      ∀ place ∈ ((boldLines.plan { traditionalBreaks := true }).evaluate
        Lookup.unresolved).spansUnder [], ¬TearsAt { traditionalBreaks := true } place := by
  have leaves : ∀ leaf ∈ boldLines.leaves, Text.Harmless leaf := by
    show ∀ leaf ∈ [['a'], ['b'], ['c']], Text.Harmless leaf
    intro leaf member
    simp only [List.mem_cons, List.not_mem_nil, or_false] at member
    rcases member with rfl | rfl | rfl <;> exact ⟨by decide, by decide⟩
  have bare : ∀ element ∈ boldLines.below, element.attributes = ∅ := by
    simp only [boldLines, Element.post, Element.below, Node.lineBreak, Node.bold,
      Node.wrap, Node.elementsOf, Node.elements, List.append_nil, List.nil_append,
      List.cons_append, List.mem_cons, List.not_mem_nil, or_false]
    rintro element (rfl | rfl | rfl) <;> rfl
  have values := values_of_bare bare
  have output : boldLines.convertPlain { traditionalBreaks := true }
      = "**a\\\nb**\\\nc".toList := by decide +kernel
  refine ⟨leaves, values, output, (breaksWhole_convertPlain_iff _ leaves values).1 ?_⟩
  rw [output]
  decide

/-- The line feed of a hard break at the end of emphasis is moved out of it, and the
backslash stays in front of the closing marker. -/
theorem not_breaksWhole_boldBreak :
    let post : Element := .post [.bold [.text ['a'], .lineBreak]]
    (∀ leaf ∈ post.leaves, Text.Harmless leaf) ∧
      (∀ element ∈ post.below, ∀ key value,
        element.attributes.get? key = some value → Text.Harmless value) ∧
      post.convertPlain { traditionalBreaks := true } = "**a\\**".toList ∧
      ¬BreaksWhole (post.convertPlain { traditionalBreaks := true }) := by
  intro post
  have leaves : ∀ leaf ∈ post.leaves, Text.Harmless leaf :=
    List.forall_mem_singleton.2 ⟨by decide, by decide⟩
  have bare : ∀ element ∈ post.below, element.attributes = ∅ := by
    simp only [post, Element.post, Element.below, Node.lineBreak, Node.bold, Node.wrap,
      Node.elementsOf, Node.elements, List.append_nil, List.nil_append, List.mem_cons,
      List.not_mem_nil, or_false]
    rintro element (rfl | rfl) <;> rfl
  have output : post.convertPlain { traditionalBreaks := true } = "**a\\**".toList := by decide +kernel
  refine ⟨leaves, values_of_bare bare, output, ?_⟩
  rw [output]
  decide

end Markdown
end ForumMarkup
