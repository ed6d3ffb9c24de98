import ForumMarkup.Proofs.Element.KeptLeaves
import ForumMarkup.Proofs.Span.Forms
import ForumMarkup.Proofs.Text.Decimal
import ForumMarkup.Proofs.Text.Trim
import ForumMarkup.Span.Plan

/-!
Contract: the plan of a post without backslashes when nothing is known about what it
names.

Owns:
- `Text.Harmless`, texts without backslashes and references, and `Element.Harmless`,
  elements that hold no other texts;
- `closers`, the beginnings of the closing texts that stand on the line of the content;
- `SpanTree.Tidy`, trees of spans without backslashes in their own texts.

Main statement: `tidy_plan`.
-/

set_option autoImplicit false

namespace ForumMarkup

open Decoration Inquiry

/-! ### Texts -/

namespace Text

/-- A text in which there is no backslash, and no ampersand that could stand for one. -/
structure Harmless (t : Text) : Prop where
  noSlash : '\\' ∉ t
  noAmpersand : '&' ∉ t

theorem Harmless.of_subset {t part : Text} (harmless : t.Harmless) (subset : part ⊆ t) :
    part.Harmless where
  noSlash member := harmless.noSlash (subset member)
  noAmpersand member := harmless.noAmpersand (subset member)

theorem harmless_flatten {parts : List Text} (all : ∀ part ∈ parts, Harmless part) :
    Harmless parts.flatten where
  noSlash member := by
    obtain ⟨part, there, inside⟩ := List.mem_flatten.1 member
    exact (all part there).noSlash inside
  noAmpersand member := by
    obtain ⟨part, there, inside⟩ := List.mem_flatten.1 member
    exact (all part there).noAmpersand inside

theorem harmless_decode {t : Text} (harmless : t.Harmless) : Harmless (Entity.decode t) := by
  rw [Entity.decode_eq_self harmless.noAmpersand]
  exact harmless

theorem trim_subset (t : Text) : trim t ⊆ t := by
  intro c member
  obtain ⟨before, after, shape, _⟩ := exists_trim t
  rw [shape]
  exact List.mem_append_right _ (List.mem_append_left _ member)

theorem noSlash_ofNat (n : Nat) : '\\' ∉ ofNat n := by
  intro member
  have digit := isDigit_of_mem_ofNat member
  exact absurd digit (by decide)

end Text

/-- The text leaves below the element and the values of its attributes are harmless. -/
structure Element.Harmless (element : Element) : Prop where
  leaves : ∀ leaf ∈ element.leaves, Text.Harmless leaf
  values : ∀ key value, element.attributes.get? key = some value → Text.Harmless value

namespace Element.Harmless

variable {element : Element}

theorem textContent (harmless : element.Harmless) : Text.Harmless element.textContent := by
  unfold Element.textContent
  rw [Node.textContents_eq_flatten]
  exact Text.harmless_flatten harmless.leaves

theorem nonEmpty (harmless : element.Harmless) {key : String} {value : Text}
    (found : element.attributes.nonEmpty? key = some value) : Text.Harmless value :=
  harmless.values key value (Option.filter_eq_some_iff.1 found).1

theorem getD (harmless : element.Harmless) (key : String) {default : Text}
    (other : default.Harmless) : Text.Harmless ((element.attributes.get? key).getD default) := by
  cases found : element.attributes.get? key with
  | some value => exact harmless.values key value found
  | none => exact other

end Element.Harmless

/-! ### Spans -/

/-- The beginnings of the closing texts that stand on the line of the content. -/
def closers : List Text :=
  [['*'], ['_'], ['['], [']'], ['>'], ['<', '/']]

/-- A span without backslashes in its own texts. Its line mark is that of quotes, and its
closing text stands on a line of its own or starts in a known way. -/
structure Span.Tidy (span : Span) : Prop where
  text : '\\' ∉ span.text
  opening : '\\' ∉ span.opening
  closing : '\\' ∉ span.closing
  mark : ∀ c ∈ span.lineMark?.getD [], c = '>' ∨ c = ' '
  ends : span.origin = .rule .code ∨ span.closing = [] ∨ span.closing.head? = some '\n' ∨
    ∃ closer ∈ closers, closer <+: span.closing

namespace Span.Tidy

theorem new (origin : Origin) : Span.Tidy { origin } where
  text := List.not_mem_nil
  opening := List.not_mem_nil
  closing := List.not_mem_nil
  mark := List.forall_mem_nil _
  ends := .inr (.inl rfl)

variable {span : Span}

theorem enclosed (tidy : span.Tidy) (closer : Text) {opening closing : Text}
    (opens : '\\' ∉ opening) (closes : '\\' ∉ closing) (known : closer ∈ closers)
    (start : closer <+: closing) :
    Span.Tidy { span with opening, closing } :=
  { tidy with
    opening := opens
    closing := closes
    ends := .inr (.inr (.inr ⟨closer, known, start⟩)) }

theorem replaced (tidy : span.Tidy) {text : Text} (noSlash : '\\' ∉ text) :
    (span.replace text).Tidy :=
  { tidy with text := noSlash }

theorem setBreaks (tidy : span.Tidy) (count : Nat) : (span.setBreaks count).Tidy :=
  { tidy with }

end Span.Tidy

/-! ### Rules -/

section

variable {element : Element} {span : Span}

theorem noSlash_append {front back : Text} (first : '\\' ∉ front) (second : '\\' ∉ back) :
    '\\' ∉ front ++ back := by
  rw [List.mem_append, not_or]
  exact ⟨first, second⟩

theorem tidy_emphasis (tidy : span.Tidy) (scope : Scope) (rule : Rule) (closer : Text)
    {opening closing : Text} (opens : '\\' ∉ opening) (closes : '\\' ∉ closing)
    (known : closer ∈ closers) (start : closer <+: closing) :
    (emphasis scope rule opening closing span).Tidy := by
  rcases emphasis_eq_or scope rule opening closing span with same | same
  · rw [same]
    exact tidy
  · rw [same]
    exact tidy.enclosed closer opens closes known start

/-- The language is the only text of the author in the delimiters of code. -/
theorem noSlash_codeDelimiters (options : Options) (harmless : element.Harmless) :
    '\\' ∉ (codeDelimiters options element).1 ∧ '\\' ∉ (codeDelimiters options element).2 := by
  have fence (count : Nat) : '\\' ∉ List.replicate count '\x60' := by
    intro member
    exact absurd (List.eq_of_mem_replicate member) (by decide)
  have language : Text.Harmless (Text.trim ((element.attributes.get? Key.lang).getD [])) :=
    (harmless.getD Key.lang ⟨List.not_mem_nil, List.not_mem_nil⟩).of_subset (Text.trim_subset _)
  unfold codeDelimiters
  dsimp only
  split
  · refine ⟨noSlash_append (noSlash_append (fence _) language.noSlash) (by decide), ?_⟩
    rw [List.mem_cons, not_or]
    exact ⟨by decide, fence _⟩
  · split
    · exact ⟨by decide, by decide⟩
    · exact ⟨by decide, by decide⟩

theorem tidy_code (tidy : span.Tidy) (origin : span.origin = .rule .code) (options : Options)
    (harmless : element.Harmless) : (code options element span).Tidy := by
  have delimiters := noSlash_codeDelimiters options harmless
  have content : Text.Harmless (codeContent element) :=
    (Text.harmless_decode harmless.textContent).of_subset (Text.trimEnd_prefix _).subset
  exact { tidy with
    text := content.noSlash
    opening := delimiters.1
    closing := delimiters.2
    ends := .inl origin }

theorem tidy_list (tidy : span.Tidy) (scope : Scope) : (list scope span).Tidy := by
  rcases list_eq_or scope span with same | same
  · rw [same]
    exact { tidy with }
  · rw [same]
    exact { tidy with }

theorem tidy_item (tidy : span.Tidy) (scope : Scope) (earlier : Nat) :
    (item scope earlier span).Tidy := by
  have indent : '\\' ∉ List.replicate (2 * (scope.lists - 1)) ' ' := by
    intro member
    exact absurd (List.eq_of_mem_replicate member) (by decide)
  have symbol : '\\' ∉ itemSymbol scope earlier := by
    unfold itemSymbol
    split
    · exact noSlash_append (Text.noSlash_ofNat _) (by decide)
    · decide
  exact { tidy with opening := noSlash_append (noSlash_append indent symbol) (by decide) }

theorem tidy_image (tidy : span.Tidy) (harmless : element.Harmless) :
    (image element span).Tidy := by
  have src := harmless.getD Key.src ⟨List.not_mem_nil, List.not_mem_nil⟩
  exact (tidy.replaced (noSlash_append (noSlash_append (by decide) src.noSlash)
    (by decide))).setBreaks 2

/-- A link keeps its address when nothing is known about it. -/
theorem tidy_url (tidy : span.Tidy) (harmless : element.Harmless) :
    ((url element span).evaluate Lookup.unresolved).Tidy := by
  have label : Text.Harmless (Text.trim element.textContent) :=
    harmless.textContent.of_subset (Text.trim_subset _)
  have target := Text.harmless_decode (harmless.getD Key.url label)
  unfold url
  rw [evaluate_bind]
  show Span.Tidy (ite _ _ _)
  split
  · exact tidy.replaced target.noSlash
  · refine tidy.enclosed [']'] (by decide) ?_ (by decide) ?_
    · exact noSlash_append (noSlash_append (by decide) target.noSlash) (by decide)
    · exact ⟨_, rfl⟩

theorem tidy_video (tidy : span.Tidy) (harmless : element.Harmless) :
    (video element span).Tidy := by
  unfold video
  split
  · next id found =>
      have address : '\\' ∉ "https://www.youtube.com/watch?v=".toList := by decide
      exact (tidy.replaced (noSlash_append address (harmless.nonEmpty found).noSlash)).setBreaks 1
  · exact tidy.setBreaks 1

theorem evaluate_quotedPost (element : Element) :
    (quotedPost element).evaluate Lookup.unresolved = none := by
  unfold quotedPost
  split
  · rfl
  · rfl

theorem evaluate_quotedAuthor (element : Element) :
    (quotedAuthor element).evaluate Lookup.unresolved
      = element.attributes.nonEmpty? Key.author := by
  unfold quotedAuthor quotedUser
  split
  · rfl
  · rfl

/-- A quote has the author that its tag names, or a line mark. -/
theorem tidy_quote (tidy : span.Tidy) (harmless : element.Harmless) :
    ((quote element span).evaluate Lookup.unresolved).Tidy := by
  unfold quote
  dsimp only
  rw [evaluate_bind, evaluate_quotedPost]
  dsimp only
  rw [evaluate_bind, evaluate_quotedAuthor]
  cases found : element.attributes.nonEmpty? Key.author with
  | some author =>
      have header := (harmless.nonEmpty found).noSlash
      have start : '\\' ∉ "[quote=\"".toList := by decide
      have stop : '\\' ∉ "\"]\n".toList := by decide
      have closing : '\\' ∉ "\n[/quote]".toList := by decide
      exact { tidy with
        opening := noSlash_append (noSlash_append start header) stop
        closing
        ends := .inr (.inr (.inl rfl)) }
  | none =>
      have mark : ∀ c ∈ quoteMark, c = '>' ∨ c = ' ' := by simp [quoteMark]
      exact { tidy with mark }

theorem evaluate_uploaded (element : Element) :
    (uploaded element).evaluate Lookup.unresolved = none := by
  unfold uploaded
  split
  · rfl
  · rfl

theorem tidy_attachment (tidy : span.Tidy) :
    ((attachment element span).evaluate Lookup.unresolved).Tidy := by
  unfold attachment
  rw [evaluate_bind, evaluate_uploaded]
  exact (tidy.replaced List.not_mem_nil).setBreaks 1

theorem tidy_size (tidy : span.Tidy) (options : Options) : (size options element span).Tidy := by
  have known : ['<', '/'] ∈ closers := by decide
  rcases size_eq_or options element span with same | same | same
  · rw [same]
    exact tidy
  · rw [same]
    exact tidy.enclosed ['<', '/'] (by decide) (by decide) known ⟨_, rfl⟩
  · rw [same]
    exact tidy.enclosed ['<', '/'] (by decide) (by decide) known ⟨_, rfl⟩

end

/-- The rules keep a span tidy when nothing is known about what an element names. -/
theorem tidy_decorate (options : Options) (scope : Scope) (earlier : Nat) {rule : Rule}
    {element : Element} {start : Span} (tidy : start.Tidy) (origin : start.origin = .rule rule)
    (harmless : element.Harmless) :
    ((decorate options scope earlier rule element start).evaluate Lookup.unresolved).Tidy := by
  cases rule with
  | bold =>
      exact tidy_emphasis tidy scope .bold ['*'] (by decide) (by decide) (by decide) ⟨_, rfl⟩
  | italic =>
      exact tidy_emphasis tidy scope .italic ['_'] (by decide) (by decide) (by decide) ⟨_, rfl⟩
  | underline =>
      exact tidy_emphasis tidy scope .underline ['['] (by decide) (by decide) (by decide) ⟨_, rfl⟩
  | code => exact tidy_code tidy origin options harmless
  | list => exact tidy_list tidy scope
  | item => exact tidy_item tidy scope earlier
  | image => exact tidy_image tidy harmless
  | url => exact tidy_url tidy harmless
  | email => exact tidy.enclosed ['>'] (by decide) (by decide) (by decide) ⟨_, rfl⟩
  | lineBreak => exact { tidy with }
  | smilie => exact tidy
  | video => exact tidy_video tidy harmless
  | quote => exact tidy_quote tidy harmless
  | attachment => exact tidy_attachment tidy
  | size => exact tidy_size tidy options

/-! ### Trees of spans -/

inductive SpanTree.Tidy : SpanTree → Prop where
  | node {span : Span} {children : List SpanTree} (tidy : span.Tidy)
      (inner : ∀ child ∈ children, Tidy child) : Tidy (.node span children)

theorem SpanTree.tidy_ofText {text : Text} (noSlash : '\\' ∉ text) : (SpanTree.ofText text).Tidy :=
  .node { Span.Tidy.new .text with text := noSlash } (List.forall_mem_nil _)

def Cursor.Tidy (cursor : Cursor) : Prop :=
  ∀ tree ∈ cursor.before, tree.Tidy

/-- A span begins tidy, also where it goes on with a line break. -/
theorem Cursor.tidy_begin {cursor : Cursor} (tidy : cursor.Tidy) (rule : Rule) :
    ((cursor.begin rule).1.Tidy ∧ (cursor.begin rule).1.origin = .rule rule) ∧
      (∀ tree ∈ (cursor.begin rule).2.1, tree.Tidy) ∧
      ∀ tree ∈ (cursor.begin rule).2.2, tree.Tidy := by
  unfold Cursor.begin
  split
  · next span children before shape =>
      have all : ∀ tree ∈ cursor.before, tree.Tidy := tidy
      rw [shape] at all
      split
      · next continues =>
          obtain ⟨last, others⟩ := List.forall_mem_cons.1 all
          cases last with
          | node tidySpan inner =>
              have within := fun tree member => inner tree (List.mem_reverse.1 member)
              exact ⟨⟨tidySpan, eq_of_beq continues⟩, within, others⟩
      · rw [shape]
        exact ⟨⟨.new _, rfl⟩, List.forall_mem_nil _, all⟩
  · exact ⟨⟨.new _, rfl⟩, List.forall_mem_nil _, tidy⟩

namespace Node

/-- The elements of some nodes hold harmless attributes, and the leaves are harmless. -/
structure AllHarmless (elements : List Element) (leaves : List Text) : Prop where
  leaves : ∀ leaf ∈ leaves, Text.Harmless leaf
  values : ∀ element ∈ elements, ∀ key value,
    element.attributes.get? key = some value → Text.Harmless value

mutual

/-- By induction over the node: backslashes come only from the breaks that are written. -/
theorem tidy_plan (options : Options) (scope : Scope) :
    ∀ (node : Node) (cursor : Cursor), AllHarmless node.elements node.leaves → cursor.Tidy →
      ((node.plan options scope cursor).evaluate Lookup.unresolved).Tidy
  | .text content, cursor, harmless, tidy => by
      have plain := Text.harmless_decode (harmless.leaves content List.mem_cons_self)
      exact List.forall_mem_cons.2 ⟨SpanTree.tidy_ofText plain.noSlash, tidy⟩
  | .element tag attributes children, cursor, harmless, tidy => by
      obtain ⟨leaves, values⟩ := harmless
      rw [elements] at values
      obtain ⟨here, below⟩ := List.forall_mem_cons.1 values
      have inner : AllHarmless (elementsOf children) (leavesOf children) := ⟨leaves, below⟩
      have element : Element.Harmless ⟨tag, attributes, children⟩ := ⟨leaves, here⟩
      rw [plan]
      split
      · exact tidy_planAll options _ children cursor inner tidy
      · next rule _ =>
          obtain ⟨⟨tidyStart, origin⟩, within, before⟩ := Cursor.tidy_begin tidy rule
          generalize cursor.begin rule = begun at tidyStart origin within before ⊢
          obtain ⟨start, inside, prior⟩ := begun
          dsimp only at tidyStart origin within before ⊢
          rw [evaluate_bind]
          have tidySpan := tidy_decorate options scope cursor.items tidyStart origin element
          generalize (decorate options scope cursor.items rule ⟨tag, attributes, children⟩
            start).evaluate Lookup.unresolved = span at tidySpan ⊢
          by_cases replaced : span.replaced = true
          · rw [if_pos replaced]
            refine List.forall_mem_cons.2 ⟨.node tidySpan fun child member => ?_, before⟩
            exact within child (List.mem_reverse.1 member)
          · rw [if_neg replaced, evaluate_bind]
            have opened (items : Nat) : Cursor.Tidy { before := inside, items } := within
            have ending := tidy_planAll options (scope.enter rule ⟨tag, attributes, children⟩)
              children _ inner (opened (if rule = .list then 0
                else if rule = .item then cursor.items + 1 else cursor.items))
            refine List.forall_mem_cons.2 ⟨.node tidySpan fun child member => ?_, before⟩
            exact ending child (List.mem_reverse.1 member)

theorem tidy_planAll (options : Options) (scope : Scope) :
    ∀ (nodes : List Node) (cursor : Cursor), AllHarmless (elementsOf nodes) (leavesOf nodes) →
      cursor.Tidy → ((planAll options scope nodes cursor).evaluate Lookup.unresolved).Tidy
  | [], cursor, _, tidy => tidy
  | node :: rest, cursor, harmless, tidy => by
      obtain ⟨leaves, values⟩ := harmless
      rw [leavesOf] at leaves
      rw [elementsOf] at values
      obtain ⟨leavesHere, leavesLater⟩ := List.forall_mem_append.1 leaves
      obtain ⟨valuesHere, valuesLater⟩ := List.forall_mem_append.1 values
      have next := tidy_plan options scope node cursor ⟨leavesHere, valuesHere⟩ tidy
      rw [planAll, evaluate_bind]
      exact tidy_planAll options scope rest _ ⟨leavesLater, valuesLater⟩ next

end

end Node

/-- The plan of a post without backslashes and references is tidy when nothing is known
about what the post names. -/
theorem tidy_plan (options : Options) {post : Element}
    (leaves : ∀ leaf ∈ post.leaves, Text.Harmless leaf)
    (values : ∀ element ∈ post.below, ∀ key value,
      element.attributes.get? key = some value → Text.Harmless value) :
    ((post.plan options).evaluate Lookup.unresolved).Tidy := by
  have kept : Node.AllHarmless post.clean.below post.clean.leaves := by
    constructor
    · intro leaf member
      obtain ⟨original, there, opens, rfl⟩ := Element.exists_of_mem_leaves_clean member
      exact (leaves original there).of_subset (Node.cleanText_suffix opens original).subset
    · intro element member
      obtain ⟨original, there, rfl⟩ := Element.exists_of_mem_below_clean member
      exact values original there
  have start : Cursor.Tidy {} := List.forall_mem_nil _
  have laid := Node.tidy_planAll options { parent := post.clean.tag } post.clean.children {} kept
    start
  unfold Element.plan
  dsimp only
  rw [evaluate_bind]
  exact .node (.new .root) fun child member => laid child (List.mem_reverse.1 member)

end ForumMarkup
