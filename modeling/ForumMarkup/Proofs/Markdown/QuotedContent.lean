import ForumMarkup.Proofs.Element.Kept
import ForumMarkup.Proofs.Markdown.KeptBreaks
import ForumMarkup.Proofs.Markdown.QuotedSpans
import ForumMarkup.Proofs.Text.Decimal

/-!
Contract: contents that are written the same inside a quote and outside of it.

Owns:
- `Ending`, how what nodes have written in their element ends;
- `Node.Quotable`, trees of text, line breaks, emphasis, code and lists that are not
  inside each other, whose emphasis does not end with a block;
- `Paired`, spans with the same text inside a quote and outside of it, and `CopyTree`,
  a tree that can be put behind them;
- `Proceeds`, the step from one node to the next.

Main statements: `exists_contents`, the run over several nodes, and
`continues_of_quotable`, the step for each kind of node.
-/

set_option autoImplicit false

namespace ForumMarkup

open Decoration

/-- How what nodes have written in their element ends. -/
inductive Ending where
  /-- Nothing is written. -/
  | clear
  /-- Within a line. -/
  | word
  /-- With line breaks behind a line. -/
  | feed
  /-- With a block, or with a line break that stands behind a closing marker. -/
  | block
  deriving DecidableEq, Repr

def Ending.behindBreak : Ending → Ending
  | .word => .feed
  | ending => ending

/-- The ending behind a span that writes nothing. In a quote the mark of its line is
written all the same. -/
def Ending.behindNothing : Ending → Ending
  | .feed => .block
  | ending => ending

namespace Node

mutual

/-- The ending behind a node inside an element of the tag `parent`. -/
def ending (parent : String) (before : Ending) : Node → Ending
  | .text _ => .word
  | .element tag _ children =>
      if tag = Tag.lineBreak then before.behindBreak
      else if tag ∈ Tag.emphasis then
        match endingAll tag .clear children with
        | .clear => if tag = parent then before.behindNothing else .word
        | .word => .word
        | .feed | .block => .block
      else .block

def endingAll (parent : String) (before : Ending) : List Node → Ending
  | [] => before
  | node :: rest => endingAll parent (node.ending parent before) rest

end

/-- A text of one line that starts with no blank and has no reference in it. -/
structure QuotableText (content : Text) : Prop where
  filled : content ≠ []
  single : '\n' ∉ content
  plain : '&' ∉ content
  solid : ∀ c ∈ content.head?, Text.isBlank c = false

/-- Nodes inside an element of the tag `parent`; `inList` says that a list is around
them. -/
inductive Quotable : String → Bool → Node → Prop where
  | text {parent : String} {inList : Bool} {content : Text} (quotable : QuotableText content) :
      Quotable parent inList (.text content)
  | lineBreak {parent : String} {inList : Bool} (attributes : Attributes) :
      Quotable parent inList (.element Tag.lineBreak attributes [])
  | emphasis {parent : String} {inList : Bool} {tag : String} (member : tag ∈ Tag.emphasis)
      (attributes : Attributes) {children : List Node}
      (closes : tag ≠ parent → endingAll tag .clear children ≠ .block)
      (inner : ∀ child ∈ children, Quotable tag inList child) :
      Quotable parent inList (.element tag attributes children)
  | code {parent : String} {inList : Bool} (attributes : Attributes) {content : Text}
      (start : ∃ c rest, Text.trimEnd (Entity.decode (cleanText false content)) = c :: rest ∧
        c ≠ '\n') :
      Quotable parent inList (.element Tag.code attributes [.text content])
  | list {parent : String} (attributes : Attributes) {items : List Node} (filled : items ≠ [])
      (each : ∀ node ∈ items, node.hasTag Tag.item = true)
      (inner : ∀ node ∈ items, Quotable Tag.list true node) :
      Quotable parent false (.element Tag.list attributes items)
  | item (attributes : Attributes) {line : Text} {rest : List Node} (quotable : QuotableText line)
      (inner : ∀ node ∈ rest, Quotable Tag.item true node) :
      Quotable Tag.list true (.element Tag.item attributes (.text line :: rest))

/-- The node does not start with what could be read as a break. -/
def Leads : Node → Prop
  | .text content => ∀ c ∈ content.head?, c ≠ '\\' ∧ c ≠ '<'
  | .element _ _ _ => True

def opening? (nodes : List Node) : Option Node :=
  nodes.find? fun node => !node.hasTag Tag.lineBreak

end Node

/-- The scope stands inside an element of the tag `parent` and in one list or none. -/
structure Scope.Fits (scope : Scope) (parent : String) (inList : Bool) : Prop where
  inside : scope.parent = parent
  lists : scope.lists = if inList then 1 else 0
  emphasised : parent ∈ Tag.emphasis → scope.emphasised = true

theorem Scope.Fits.enter {scope : Scope} {parent : String} {inList : Bool}
    (fits : scope.Fits parent inList) (rule : Rule) (attributes : Attributes)
    (children : List Node) (alone : rule = .list → inList = false) :
    (scope.enter rule ⟨rule.tag, attributes, children⟩).Fits rule.tag
      (inList || rule == .list) := by
  unfold Scope.enter
  by_cases list : rule = .list
  · subst list
    rw [if_pos rfl, alone rfl]
    refine ⟨rfl, ?_, fun member => absurd member (by decide)⟩
    show scope.lists + 1 = 1
    rw [fits.lists, alone rfl]
    rfl
  · have other : (rule == .list) = false := beq_eq_false_iff_ne.2 list
    rw [if_neg list, other, Bool.or_false]
    refine ⟨rfl, fits.lists, fun member => ?_⟩
    show (scope.emphasised || Tag.emphasis.contains rule.tag) = true
    rw [List.contains_iff_mem.2 member, Bool.or_true]

/-- Text behind which nodes and a number of line breaks have the given ending. -/
def Ending.Holds (count : Nat) (t : Text) : Ending → Prop
  | .clear => t = []
  | .word => count = 0 ∧ Markdown.EndsInline t
  | .feed => Markdown.EndsInline t
  | .block => True

theorem Ending.Holds.behindBreak {count : Nat} {t : Text} {ending : Ending}
    (holds : ending.Holds count t) : ending.behindBreak.Holds (count + 1) t := by
  cases ending with
  | clear => exact holds
  | word => exact holds.2
  | feed => exact holds
  | block => trivial

namespace Markdown

open Node

/-! ### Spans in pairs -/

/-- The spans end with no line break, and write twins inside a quote and outside of it. -/
structure Paired (start early : Bool) (prior : List SpanTree) : Prop where
  ends : Cursor.Ends prior
  twin : Twin start early (laid {} [] false prior).reverse (laid {} quoteMark start prior).reverse

variable {start early : Bool} {prior : List SpanTree}

theorem paired_nil (start : Bool) : Paired start false [] where
  ends _ last := nomatch last
  twin := twin_nil start

theorem Paired.run (paired : Paired start early prior) (scope : Scope) (count : Nat) :
    ∃ later, (later = true → early = true) ∧
      Twin start later (laid {} [] false (scope.run count prior)).reverse
        (laid {} quoteMark start (scope.run count prior)).reverse := by
  rw [laid_run, laid_run]
  exact paired.twin.addBreaks {} _ count

theorem Grounded.run (grounded : Grounded (laid {} [] false prior).reverse) (scope : Scope)
    (count : Nat) : Grounded (laid {} [] false (scope.run count prior)).reverse := by
  rw [laid_run]
  exact grounded.addBreaks

theorem laid_run_eq_nil (none : laid {} [] false prior = []) (scope : Scope) (count : Nat) :
    laid {} [] false (scope.run count prior) = [] := by
  rw [laid_run, none, addBreaks_nil]

/-- A tree whose span copies: behind any spans it writes `x`, and a twin of it inside a
quote. -/
structure CopyTree (start : Bool) (tree : SpanTree) (leaf : Bool)
    (content quotedContent x : Text) : Prop where
  outside (before : List SpanTree) : laid {} [] false (tree :: before)
    = place {} [] false tree.span leaf content (laid {} [] false before)
  inside (before : List SpanTree) : laid {} quoteMark start (tree :: before)
    = place {} quoteMark start tree.span leaf quotedContent (laid {} quoteMark start before)
  copies : Copies tree.span leaf content quotedContent x

theorem copyTree_leaf {span : Span} {x : Text} (copies : Copies span true span.text span.text x)
    (start : Bool) : CopyTree start (.node span []) true span.text span.text x where
  outside before := laid_leaf {} [] false span before
  inside before := laid_leaf {} quoteMark start span before
  copies := copies

theorem copyTree_node {span : Span} {trees : List SpanTree} {x : Text} (empty : span.text = [])
    (copies : Copies span trees.isEmpty (laid {} [] false trees).reverse
      (laid {} quoteMark false trees).reverse x) (start : Bool) :
    CopyTree start (.node span trees.reverse) trees.isEmpty (laid {} [] false trees).reverse
      (laid {} quoteMark false trees).reverse x where
  outside before := laid_node {} [] false copies.unmarked empty trees before
  inside before := laid_node {} quoteMark start copies.unmarked empty trees before
  copies := copies

section

variable {tree : SpanTree} {leaf : Bool} {content quotedContent x : Text}

/-- A span of copies behind paired spans and line breaks. -/
theorem Paired.add (paired : Paired start early prior)
    (copy : CopyTree start tree leaf content quotedContent x)
    (ground : start = true → laid {} [] false prior = [] → Grounded x) (scope : Scope)
    (count : Nat) : ∃ later, Paired start later (tree :: scope.run count prior) := by
  obtain ⟨early, -, twin⟩ := paired.run scope count
  have groundRun (starts : start = true)
      (none : laid {} [] false (scope.run count prior) = []) : Grounded x := by
    by_cases filled : laid {} [] false prior = []
    · exact ground starts filled
    · have grounded : Grounded (laid {} [] false prior).reverse :=
        ⟨mt List.reverse_eq_nil_iff.1 filled, starts ▸ paired.twin.rooted⟩
      exact absurd (List.reverse_eq_nil_iff.2 none) (grounded.run scope count).filled
  obtain ⟨later, whole⟩ := twin.place copy.copies groundRun {} false
  refine ⟨later, ?_, ?_⟩
  · rintro last same
    cases same
    exact copy.copies.noBreak
  · rw [copy.outside, copy.inside]
    exact whole

theorem CopyTree.laid_inline (copy : CopyTree start tree leaf content quotedContent x)
    (noBreaks : tree.span.breaksBefore = 0 ∧ tree.span.breaksAfter = 0) (before : List SpanTree) :
    (laid {} [] false (tree :: before)).reverse = (laid {} [] false before).reverse ++ x := by
  rw [copy.outside, place_outside copy.copies.outside, noBreaks.1, noBreaks.2, addBreaks_zero,
    addBreaks_zero, List.reverse_append, List.reverse_reverse]

/-- How a span that writes `x` changes the ending. -/
inductive Adds (x : Text) (before : Ending) (span : Span) : Ending → Prop where
  | block : Adds x before span .block
  | word (noBreaks : span.breaksBefore = 0 ∧ span.breaksAfter = 0) (ends : EndsInline x) :
      Adds x before span .word
  | nothing (noBreaks : span.breaksBefore = 0 ∧ span.breaksAfter = 0) (none : x = []) :
      Adds x before span before.behindNothing

/-- The ending behind one span more, of which a twin stands inside the quote. -/
theorem Adds.holds {before ending : Ending} {count : Nat} (adds : Adds x before tree.span ending)
    (copy : CopyTree start tree leaf content quotedContent x)
    (holds : before.Holds count (laid {} [] false prior).reverse) (scope : Scope) :
    ending.Holds 0 (laid {} [] false (tree :: scope.run count prior)).reverse := by
  cases adds with
  | block => trivial
  | word noBreaks ends =>
      obtain ⟨_, _, _, twin⟩ := copy.copies.inside
      rw [copy.laid_inline noBreaks]
      exact ⟨rfl, ends.behind twin.rooted _⟩
  | nothing noBreaks none =>
      rw [copy.laid_inline noBreaks, none, List.append_nil]
      cases before with
      | clear =>
          have empty := laid_run_eq_nil (List.reverse_eq_nil_iff.1 holds) scope count
          exact List.reverse_eq_nil_iff.2 empty
      | word =>
          rw [holds.1]
          exact ⟨rfl, holds.2⟩
      | feed => trivial
      | block => trivial

end

/-! ### Contents -/

/-- Nodes that open with the given one may stand behind the spans: at the start of a
quote it must write something that no break reaches. -/
def Admits (start : Bool) (parent : String) (prior : List SpanTree) (opening? : Option Node) :
    Prop :=
  start = true → parent ∉ Tag.emphasis ∧
    (laid {} [] false prior = [] → ∀ node ∈ opening?, node.Leads)

/-- From `prior` to `next`, behind nodes that open with the given one, a beginning that no
break reaches stays or is written. -/
def Grounds (parent : String) (opening? : Option Node) (prior next : List SpanTree) : Prop :=
  Grounded (laid {} [] false prior).reverse ∨
      laid {} [] false prior = [] ∧ parent ∉ Tag.emphasis ∧ (∃ node ∈ opening?, node.Leads) →
    Grounded (laid {} [] false next).reverse

theorem Grounds.add {tree : SpanTree} {leaf : Bool} {content quotedContent x : Text}
    {parent : String} {node : Node} (copy : CopyTree start tree leaf content quotedContent x)
    (ground : parent ∉ Tag.emphasis → node.Leads → Grounded x) (scope : Scope) (count : Nat) :
    Grounds parent (some node) prior (tree :: scope.run count prior) := by
  rintro grounded
  rw [copy.outside]
  refine Grounded.place copy.copies.outside ?_ {} false
  rcases grounded with before | ⟨none, outer, opening, first, leads⟩
  · exact .inl (before.run scope count)
  · obtain rfl : node = opening := Option.some.inj first
    exact .inr ⟨laid_run_eq_nil none scope count, ground outer leads⟩

/-- Behind paired spans and line breaks the node adds a span with which they are paired. -/
def Proceeds (parent : String) (inList : Bool) (node : Node) : Prop :=
  ∃ kept, (∀ first, node.clean? first = some kept) ∧
    ∀ {start early : Bool} {prior : List SpanTree} {scope : Scope} (count items : Nat)
      (_ : Paired start early prior) (_ : scope.Fits parent inList)
      (_ : Admits start parent prior (some node)), ∃ tree later nextItems,
        kept.plan {} scope { before := scope.run count prior, items }
          = .done { before := tree :: scope.run count prior, items := nextItems } ∧
        Paired start later (tree :: scope.run count prior) ∧
        (∀ before : Ending, before.Holds count (laid {} [] false prior).reverse →
          (node.ending parent before).Holds 0
            (laid {} [] false (tree :: scope.run count prior)).reverse) ∧
        Grounds parent (some node) prior (tree :: scope.run count prior)

def Continues (parent : String) (inList : Bool) (node : Node) : Prop :=
  (∃ attributes, node = .element Tag.lineBreak attributes []) ∨
    (node.hasTag Tag.lineBreak = false ∧ Proceeds parent inList node)

/-- Nodes that continue one by one do so in a row. -/
theorem exists_contents {parent : String} {inList : Bool} {nodes : List Node}
    (continues : ∀ node ∈ nodes, Continues parent inList node) :
    ∃ kepts, (∀ first, cleanAll first nodes = kepts) ∧
      ∀ {start early : Bool} {prior : List SpanTree} {scope : Scope} (ending : Ending)
        (count items : Nat) (_ : Paired start early prior) (_ : scope.Fits parent inList)
        (_ : ending.Holds count (laid {} [] false prior).reverse)
        (_ : Admits start parent prior (opening? nodes)), ∃ next later nextCount nextItems,
          planAll {} scope kepts { before := scope.run count prior, items }
            = .done { before := scope.run nextCount next, items := nextItems } ∧
          Paired start later next ∧
          (endingAll parent ending nodes).Holds nextCount (laid {} [] false next).reverse ∧
          Grounds parent (opening? nodes) prior next := by
  -- Between two nodes stand paired spans and a run of line breaks: a line break makes the
  -- run longer, and any other node puts a span behind it and begins a new run.
  induction nodes with
  | nil =>
      refine ⟨[], fun _ => rfl, fun {start early prior scope} _ count items paired _ holds _ => ?_⟩
      refine ⟨prior, early, count, items, rfl, paired, holds, ?_⟩
      rintro (grounded | ⟨_, _, node, opens, _⟩)
      · exact grounded
      · cases opens
  | cons node rest ih =>
      obtain ⟨here, later⟩ := List.forall_mem_cons.1 continues
      obtain ⟨kepts, cleaned, contents⟩ := ih later
      rcases here with ⟨attributes, rfl⟩ | ⟨noBreak, kept, cleanedNode, proceeds⟩
      · have same : opening? (.element Tag.lineBreak attributes [] :: rest) = opening? rest := rfl
        refine ⟨.element Tag.lineBreak attributes [] :: kepts, fun first => ?_,
          fun {start early prior scope} ending count items paired fits holds leads => ?_⟩
        · rw [cleanAll, clean?_element rfl rfl attributes first]
          exact congrArg _ (cleaned false)
        · rw [planAll_cons kepts (plan_lineBreak_run paired.ends attributes count items), same]
          exact contents _ (count + 1) items paired fits holds.behindBreak leads
      · have same : opening? (node :: rest) = some node :=
          List.find?_cons_of_pos (by rw [noBreak]; rfl)
        refine ⟨kept :: kepts, fun first => ?_,
          fun {start early prior scope} ending count items paired fits holds leads => ?_⟩
        · rw [cleanAll, cleanedNode first]
          exact congrArg _ (cleaned false)
        · rw [same] at leads
          obtain ⟨tree, early, nextItems, planned, pairedNode, holdsNode, grounds⟩ :=
            proceeds count items paired fits leads
          have leadsRest : Admits start parent (tree :: scope.run count prior) (opening? rest) := by
            intro starts
            obtain ⟨outer, leads⟩ := leads starts
            refine ⟨outer, fun none => absurd (List.reverse_eq_nil_iff.2 none) ?_⟩
            refine (grounds ?_).filled
            by_cases filled : laid {} [] false prior = []
            · exact .inr ⟨filled, outer, node, rfl, leads filled node rfl⟩
            · exact .inl ⟨mt List.reverse_eq_nil_iff.1 filled, starts ▸ paired.twin.rooted⟩
          obtain ⟨next, later, nextCount, lastItems, plannedRest, pairedRest, holdsRest, groundsRest⟩ :=
            contents _ 0 nextItems pairedNode fits (holdsNode ending holds) leadsRest
          refine ⟨next, later, nextCount, lastItems, ?_, pairedRest, holdsRest, fun grounded => ?_⟩
          · rw [planAll_cons kepts planned]
            exact plannedRest
          · rw [same] at grounded
            exact groundsRest (.inl (grounds grounded))

/-! ### Steps -/

/-- A line of text is copied, and ends the run of breaks before it. -/
theorem proceeds_text {parent : String} {inList : Bool} {content : Text}
    (quotable : QuotableText content) : Proceeds parent inList (.text content) := by
  obtain ⟨filled, single, plain, solid⟩ := quotable
  refine ⟨.text content, fun first => ?_,
    fun {start early prior scope} count items paired _ leads => ?_⟩
  · obtain ⟨c, rest, rfl⟩ := List.exists_cons_of_ne_nil filled
    exact clean?_solid (solid c rfl) rest first
  · let span : Span := { origin := .text, text := content }
    have copy : CopyTree start (.node span []) true content content content :=
      copyTree_leaf (copies_text single solid) start
    have ground (leads : Node.Leads (.text content)) : Grounded content :=
      ⟨filled, fun c first => ⟨solid c first, fun _ => leads c first⟩⟩
    obtain ⟨later, next⟩ :=
      paired.add copy (fun starts none => ground ((leads starts).2 none _ rfl)) scope count
    refine ⟨.ofText content, later, items, ?_, next, fun before holds => ?_,
      .add copy (fun _ => ground) scope count⟩
    · rw [plan_text, Entity.decode_eq_self plain]
      rfl
    · have adds : Adds content before span .word :=
        .word ⟨rfl, rfl⟩ (endsInline_of_feed_free filled single)
      exact adds.holds copy holds scope

/-- The delimiters of code are a fence of backticks, the opening one with the language. -/
theorem exists_codeDelimiters (element : Element) :
    ∃ opening closing, codeDelimiters {} element = ('\x60' :: opening, '\n' :: closing) := by
  unfold codeDelimiters
  dsimp only
  rw [if_pos (by rfl), List.replicate_succ]
  exact ⟨_, _, rfl⟩

/-- Code is copied line by line when it does not start with an empty line. -/
theorem proceeds_code {parent : String} {inList : Bool} (attributes : Attributes) {content : Text}
    (start : ∃ c rest, Text.trimEnd (Entity.decode (cleanText false content)) = c :: rest ∧
      c ≠ '\n') : Proceeds parent inList (.element Tag.code attributes [.text content]) := by
  obtain ⟨c, rest, shape, other⟩ := start
  have some : cleanText false content ≠ [] := by
    intro none
    rw [none, Entity.decode_eq_self List.not_mem_nil] at shape
    cases shape
  let kept : List Node := [.text (cleanText false content)]
  let element : Element := ⟨Tag.code, attributes, kept⟩
  let span : Span := code {} element { origin := .rule .code }
  have text : span.text = c :: rest := by
    show Text.trimEnd (Entity.decode (cleanText false content ++ [])) = _
    rw [List.append_nil, shape]
  have finish : endsLine false (c :: rest) = false := by
    rw [← shape]
    rcases Text.trimEnd_eq_nil_or (Entity.decode (cleanText false content)) with
      none | ⟨front, d, last, solid⟩
    · rw [none]
      rfl
    · rw [last]
      exact (endsInline_of_solid solid).within
  obtain ⟨opening, closing, delimiters⟩ := exists_codeDelimiters element
  have opened : span.opening = '\x60' :: opening := congrArg Prod.fst delimiters
  have grounded : Grounded (span.opening ++ (span.text ++ span.closing)) := by
    rw [opened]
    refine ⟨List.cons_ne_nil _ _, ?_⟩
    rintro d first
    cases first
    exact ⟨rfl, by decide⟩
  have copies : Copies span true span.text span.text
      (span.opening ++ (span.text ++ span.closing)) := copies_code rfl rfl
    (fun d first => ⟨(grounded.rooted d first).1, nofun⟩)
    (by rw [text]; exact fun feed => other (Option.some.inj feed)) (by rw [text, finish])
    (by rw [text]; exact List.cons_ne_nil c rest)
  refine ⟨.element Tag.code attributes kept, fun first => ?_,
    fun {start early prior scope} count items paired _ leads => ?_⟩
  · have cleaned : cleanAll (Tag.trimmedStarts.contains Tag.code) [.text content] = kept := by
      rw [show Tag.trimmedStarts.contains Tag.code = false by decide, cleanAll, clean?]
      obtain ⟨d, more, same⟩ := List.exists_cons_of_ne_nil some
      simp only [kept, same, cleanAll]
    exact clean?_element rfl cleaned attributes first
  · have copy := copyTree_leaf copies start
    obtain ⟨later, next⟩ := paired.add copy (fun _ _ => grounded) scope count
    refine ⟨.node span [], later, items, ?_, next, fun _ _ => trivial,
      .add copy (fun _ _ => grounded) scope count⟩
    exact plan_replaced { before := scope.run count prior, items } .code attributes (by decide)
      (by decide) rfl rfl

/-- Unless it ends with a block, what nodes write in emphasis is tight, with its line
breaks. -/
theorem Paired.tight {scope : Scope} {ending : Ending} {count : Nat}
    (paired : Paired false early prior) (emphasised : scope.emphasised = true)
    (holds : ending.Holds count (laid {} [] false prior).reverse) (noBlock : ending ≠ .block) :
    Twin false false (laid {} [] false (scope.run count prior)).reverse
        (laid {} quoteMark false (scope.run count prior)).reverse ∧
      Tight (laid {} [] false (scope.run count prior)).reverse := by
  obtain ⟨later, earlier, twin⟩ := paired.run scope count
  have ends : endsLine false (laid {} [] false prior).reverse = false ∧
      Tight (laid {} [] false prior).reverse := by
    cases ending with
    | clear =>
        rw [show (laid {} [] false prior).reverse = [] from holds]
        exact ⟨rfl, tight_nil⟩
    | word => exact ⟨holds.2.within, holds.2.tight⟩
    | feed => exact ⟨holds.within, holds.tight⟩
    | block => exact absurd rfl noBlock
  have early : early = false := paired.twin.early_of_within ends.1
  have noLater : later = false := by
    cases later with
    | false => rfl
    | true =>
        rw [earlier rfl] at early
        cases early
  rw [noLater] at twin
  refine ⟨twin, ?_⟩
  rw [laid_run]
  exact ends.2.addBreaks emphasised count

/-- What nodes inside an element of the tag `tag` have written there. -/
structure Contents (tag : String) (nodes : List Node) (within : Scope) (trees : List SpanTree) :
    Prop where
  twin : ∃ early, Twin false early (laid {} [] false trees).reverse
    (laid {} quoteMark false trees).reverse
  tight : within.emphasised = true → endingAll tag .clear nodes ≠ .block →
    Twin false false (laid {} [] false trees).reverse (laid {} quoteMark false trees).reverse ∧
      Tight (laid {} [] false trees).reverse
  clear : endingAll tag .clear nodes = .clear → (laid {} [] false trees).reverse = []
  word : endingAll tag .clear nodes = .word → EndsInline (laid {} [] false trees).reverse
  grounded : tag ∉ Tag.emphasis → (∃ node ∈ opening? nodes, node.Leads) →
    Grounded (laid {} [] false trees).reverse

/-- Nodes that all go on are planned alike inside of a quote and outside, behind nothing. -/
theorem exists_inner {tag : String} {inList : Bool} {nodes : List Node}
    (continues : ∀ node ∈ nodes, Continues tag inList node) :
    ∃ kepts, (∀ first, cleanAll first nodes = kepts) ∧
      ∀ {within : Scope} (_ : within.Fits tag inList) (items : Nat), ∃ trees nextItems,
        planAll {} within kepts { items } = .done { before := trees, items := nextItems } ∧
          Contents tag nodes within trees := by
  obtain ⟨kepts, cleaned, contents⟩ := exists_contents continues
  refine ⟨kepts, cleaned, fun {within} fits items => ?_⟩
  obtain ⟨next, early, count, nextItems, planned, paired, holds, grounds⟩ :=
    contents .clear 0 items (paired_nil false) fits rfl nofun
  refine ⟨within.run count next, nextItems, planned, ?_⟩
  obtain ⟨later, -, twin⟩ := paired.run within count
  refine ⟨⟨later, twin⟩, fun emphasised => paired.tight emphasised holds, fun clear => ?_,
    fun word => ?_, fun outer leads => ?_⟩
  · rw [clear] at holds
    exact List.reverse_eq_nil_iff.2 (laid_run_eq_nil (List.reverse_eq_nil_iff.1 holds) within count)
  · rw [word] at holds
    obtain ⟨noBreaks, ends⟩ := holds
    rw [noBreaks]
    exact ends
  · exact (grounds (.inr ⟨rfl, outer, leads⟩)).run within count

theorem laid_empty_of_isEmpty (prior : List SpanTree) (empty : prior.isEmpty = true) :
    (laid {} [] false prior).reverse = [] := by
  rw [List.isEmpty_iff.1 empty]
  rfl

/-- An element proceeds when its span writes copies of its contents. -/
theorem proceeds_element {parent : String} {inList : Bool} (rule : Rule) (attributes : Attributes)
    {children : List Node} (noBreak : rule ≠ .lineBreak)
    (noMarker : Tag.markers.contains rule.tag = false) (alone : rule = .list → inList = false)
    (continues : ∀ child ∈ children, Continues rule.tag (inList || rule == .list) child)
    (writes : ∀ {scope : Scope} (_ : scope.Fits parent inList) (items : Nat) (kepts : List Node),
      ∃ span, decorate {} scope items rule ⟨rule.tag, attributes, kepts⟩ { origin := .rule rule }
          = .done span ∧
        span.text = [] ∧ span.replaced = false ∧ ∀ {within : Scope} {trees : List SpanTree}
          (_ : within.Fits rule.tag (inList || rule == .list))
          (_ : Contents rule.tag children within trees), ∃ x,
            Copies span trees.isEmpty (laid {} [] false trees).reverse
              (laid {} quoteMark false trees).reverse x ∧
            (parent ∉ Tag.emphasis → Grounded x) ∧
            ∀ before, Adds x before span
              ((Node.element rule.tag attributes children).ending parent before)) :
    Proceeds parent inList (.element rule.tag attributes children) := by
  obtain ⟨kepts, cleaned, inner⟩ := exists_inner continues
  refine ⟨.element rule.tag attributes kepts,
    clean?_element noMarker (cleaned _) attributes,
    fun {start early prior scope} count items paired fits leads => ?_⟩
  obtain ⟨span, decorated, empty, open_, copied⟩ := writes fits items kepts
  have fitsInner := fits.enter rule attributes kepts alone
  obtain ⟨trees, nextItems, planned, contents⟩ := inner fitsInner
    (if rule = .list then 0 else if rule = .item then items + 1 else items)
  obtain ⟨x, copies, grounds, ends⟩ := copied fitsInner contents
  have copy := copyTree_node empty copies start
  obtain ⟨later, added⟩ := paired.add copy (fun starts _ => grounds (leads starts).1) scope count
  refine ⟨.node span trees.reverse, later, if rule = .list then items else nextItems, ?_, added,
    fun before holds => (ends before).holds copy holds scope,
    .add copy (fun outer _ => grounds outer) scope count⟩
  exact plan_element { before := scope.run count prior, items } rule attributes noBreak decorated
    open_ planned

theorem facts_of_mem_markers {m : Text} (member : m ∈ markers) :
    '\n' ∉ m ∧ (∀ c ∈ m.head?, c ≠ '<') ∧ ∃ front d, m = front ++ [d] ∧ Text.isBlank d = false := by
  have all : ∀ m ∈ markers, '\n' ∉ m ∧ ∀ c ∈ m.head?, c ≠ '<' := by
    simp [markers]
  obtain ⟨front, d, same, last⟩ := exists_of_mem_markers member
  refine ⟨(all m member).1, (all m member).2, front, d, same, ?_⟩
  rcases last with ⟨-, rfl⟩ | rfl | rfl | rfl <;> rfl

/-- Emphasis around twins writes twins, between markers unless its own kind is around it. -/
theorem exists_copies_emphasis {rule : Rule} (ofEmphasis : rule ∈ emphasisRules)
    {opening closing : Text} (openMarker : opening ∈ markers) (closeMarker : closing ∈ markers)
    (start : ∀ c ∈ opening.head?, Text.isBlank c = false ∧ c ≠ '\\') (scope : Scope)
    {leaf early : Bool} {content quotedContent : Text} (empty : leaf = true → content = [])
    (twin : Twin false early content quotedContent)
    (closes : rule.tag ≠ scope.parent → early = false ∧ Tight content) :
    ∃ x, Copies (Decoration.emphasis scope rule opening closing { origin := .rule rule }) leaf
        content quotedContent x ∧
      (rule.tag ≠ scope.parent → Grounded x) ∧ (rule.tag = scope.parent → x = content) ∧
      (EndsInline content ∨ content = [] ∧ rule.tag ≠ scope.parent → EndsInline x) := by
  obtain ⟨-, noBreak, noCode⟩ := others_of_mem_emphasisRules ofEmphasis
  have other {rule' : Rule} (ne : rule ≠ rule') {span : Span} (same : span.origin = .rule rule) :
      span.isRule rule' = false := by
    rw [Span.isRule, same]
    exact beq_eq_false_iff_ne.2 fun same => ne (Origin.rule.inj same)
  by_cases nested : scope.parent = rule.tag
  · rw [Decoration.emphasis, if_pos nested]
    refine ⟨_, copies_open (other noBreak rfl) (other noCode rfl) rfl List.not_mem_nil
      (fun c none => by cases none) rfl empty twin, fun marked => absurd nested.symm marked, fun _ => rfl, ?_⟩
    rintro (ends | ⟨_, marked⟩)
    · exact ends
    · exact absurd nested.symm marked
  · rw [Decoration.emphasis, if_neg nested]
    have marked : rule.tag ≠ scope.parent := fun same => nested same.symm
    obtain ⟨noEarly, tight⟩ := closes marked
    rw [noEarly] at twin
    obtain ⟨single, noAngle, before, last, shape, _⟩ := facts_of_mem_markers openMarker
    obtain ⟨_, _, front, d, closed, solid⟩ := facts_of_mem_markers closeMarker
    have opened : opening ≠ [] := by simp [shape]
    refine ⟨_, copies_enclosed (other noBreak rfl) (other noCode rfl) rfl single
      (fun c first => (start c first).1) opened (by simp [closed]) empty twin tight, fun _ => ?_,
      fun same => absurd same marked, ?_⟩
    · refine Grounded.append ⟨opened, fun c first => ?_⟩ _
      exact ⟨(start c first).1, fun _ => ⟨(start c first).2, noAngle c first⟩⟩
    · intro ends
      show EndsInline (enclosed opening content closing)
      rw [closed]
      exact endsInline_enclosed solid (ends.elim .inr fun none => .inl none.1)

/-- Emphasis is copied with its markers, unless its content ends with a block. -/
theorem proceeds_emphasis {parent : String} {inList : Bool} {tag : String}
    (member : tag ∈ Tag.emphasis) (attributes : Attributes) {children : List Node}
    (closes : tag ≠ parent → endingAll tag .clear children ≠ .block)
    (inner : ∀ child ∈ children, Continues tag inList child) :
    Proceeds parent inList (.element tag attributes children) := by
  obtain ⟨rule, ofEmphasis, opening, openMarker, closing, closeMarker, rfl, start, decorated⟩ :=
    exists_emphasis member
  obtain ⟨noList, noBreak, -⟩ := others_of_mem_emphasisRules ofEmphasis
  have noMarker : Tag.markers.contains rule.tag = false := by
    have all : ∀ rule ∈ emphasisRules, Tag.markers.contains rule.tag = false := by decide
    exact all rule ofEmphasis
  have continues : ∀ child ∈ children, Continues rule.tag (inList || rule == .list) child := by
    rwa [beq_eq_false_iff_ne.2 noList, Bool.or_false]
  refine proceeds_element rule attributes noBreak noMarker (fun list => absurd list noList)
    continues fun {scope} fits items kepts => ?_
  have plain : ∀ span, span = Decoration.emphasis scope rule opening closing { origin := .rule rule } →
      span.text = [] ∧ span.replaced = false ∧ span.breaksBefore = 0 ∧ span.breaksAfter = 0 := by
    rintro span rfl
    unfold Decoration.emphasis
    split <;> exact ⟨rfl, rfl, rfl, rfl⟩
  obtain ⟨empty, open_, noBreaks⟩ := plain _ rfl
  refine ⟨_, decorated {} scope items _ _, empty, open_,
    fun {within trees} fitsInner contents => ?_⟩
  obtain ⟨early, twin, tight⟩ : ∃ early, Twin false early (laid {} [] false trees).reverse
      (laid {} quoteMark false trees).reverse ∧
        (rule.tag ≠ scope.parent → early = false ∧ Tight (laid {} [] false trees).reverse) := by
    by_cases marked : rule.tag = scope.parent
    · obtain ⟨early, twin⟩ := contents.twin
      exact ⟨early, twin, fun other => absurd marked other⟩
    · obtain ⟨twin, tight⟩ :=
        contents.tight (fitsInner.emphasised member) (closes (fits.inside ▸ marked))
      exact ⟨false, twin, fun _ => ⟨rfl, tight⟩⟩
  obtain ⟨x, copies, grounds, same, ends⟩ := exists_copies_emphasis ofEmphasis openMarker closeMarker
    start scope (laid_empty_of_isEmpty trees) twin tight
  refine ⟨x, copies, fun outer => grounds ?_, fun before => ?_⟩
  · rw [fits.inside]
    rintro rfl
    exact outer member
  · rw [Node.ending, if_neg (ne_lineBreak_of_emphasis member), if_pos member]
    cases ending : endingAll rule.tag .clear children with
    | clear =>
        dsimp only
        by_cases nested : rule.tag = parent
        · rw [if_pos nested]
          exact .nothing noBreaks ((same (nested.trans fits.inside.symm)).trans (contents.clear ending))
        · rw [if_neg nested]
          refine .word noBreaks (ends (.inr ⟨contents.clear ending, ?_⟩))
          rwa [fits.inside]
    | word => exact .word noBreaks (ends (.inl (contents.word ending)))
    | feed => exact .block
    | block => exact .block

/-- The bullet or the number of an item is written on one line and is no part of a break. -/
theorem itemSymbol_facts (scope : Scope) (earlier : Nat) :
    '\n' ∉ itemSymbol scope earlier ∧ Grounded (itemSymbol scope earlier) := by
  unfold itemSymbol
  split
  · refine ⟨fun feed => ?_, Grounded.append ⟨Text.ofNat_ne_nil _, fun c first => ?_⟩ _⟩
    · rcases List.mem_append.1 feed with inDigits | dot
      · exact absurd (Text.isDigit_of_mem_ofNat inDigits) (by decide)
      · exact absurd dot (by decide)
    · have isDigit := Text.isDigit_of_mem_ofNat (List.mem_of_mem_head? first)
      refine ⟨Text.isBlank_of_isDigit isDigit, fun _ => ⟨?_, ?_⟩⟩
      · rintro rfl
        exact absurd isDigit (by decide)
      · rintro rfl
        exact absurd isDigit (by decide)
  · refine ⟨by decide, List.cons_ne_nil _ _, ?_⟩
    rintro c first
    cases first
    exact ⟨rfl, by decide⟩

/-- An item is copied behind its mark. -/
theorem proceeds_item (attributes : Attributes) {children : List Node}
    (inner : ∀ child ∈ children, Continues Tag.item true child) :
    Proceeds Tag.list true (.element Tag.item attributes children) := by
  refine proceeds_element .item attributes (by decide) (by decide) nofun inner
    fun {scope} fits items kepts => ⟨_, rfl, rfl, rfl, fun {within trees} _ contents => ?_⟩
  let span : Span := Decoration.item scope items { origin := .rule .item }
  have opening : span.opening = itemSymbol scope items ++ [' '] := by
    show List.replicate (2 * (scope.lists - 1)) ' ' ++ itemSymbol scope items ++ [' '] = _
    rw [fits.lists]
    rfl
  obtain ⟨symbolSingle, symbol⟩ := itemSymbol_facts scope items
  have grounded : Grounded span.opening := opening ▸ symbol.append _
  have single : '\n' ∉ span.opening := by
    rw [opening, List.mem_append, not_or]
    exact ⟨symbolSingle, by decide⟩
  obtain ⟨early, twin⟩ := contents.twin
  have copies : Copies span trees.isEmpty _ _ (span.opening ++ (laid {} [] false trees).reverse) :=
    copies_open rfl rfl rfl single (fun c first => (grounded.rooted c first).1) rfl
      (laid_empty_of_isEmpty trees) twin
  exact ⟨_, copies, fun _ => grounded.append _, fun _ => .block⟩

/-- A list outside of other lists is copied as a block. -/
theorem proceeds_list {parent : String} (attributes : Attributes) {items : List Node}
    (filled : items ≠ []) (each : ∀ node ∈ items, node.hasTag Tag.item = true)
    (inner : ∀ node ∈ items, Continues Tag.list true node) :
    Proceeds parent false (.element Tag.list attributes items) := by
  have leads : ∃ node ∈ opening? items, node.Leads := by
    obtain ⟨first, rest, rfl⟩ := List.exists_cons_of_ne_nil filled
    have isItem := each first List.mem_cons_self
    cases first with
    | text content => cases isItem
    | element tag attributes children =>
        obtain rfl : tag = Tag.item := Option.some.inj (beq_iff_eq.1 isItem)
        exact ⟨_, rfl, trivial⟩
  refine proceeds_element .list attributes (by decide) (by decide) (fun _ => rfl) inner
    fun {scope} fits items kepts => ?_
  have outermost : Decoration.list scope { origin := .rule .list }
      = { origin := .rule .list, breaksBefore := 2, breaksAfter := 2, kindBefore := .html } := by
    rw [Decoration.list, if_pos (show scope.lists = 0 from fits.lists)]
    rfl
  refine ⟨_, congrArg Inquiry.done outermost, rfl, rfl, fun {within trees} _ contents => ?_⟩
  obtain ⟨early, twin⟩ := contents.twin
  exact ⟨_, copies_open rfl rfl rfl List.not_mem_nil (fun c none => by cases none) rfl
    (laid_empty_of_isEmpty trees) twin,
    fun _ => contents.grounded (by decide) leads, fun _ => .block⟩

/-- By induction over the node: all quotable content goes on. -/
theorem continues_of_quotable {parent : String} {inList : Bool} {node : Node}
    (quotable : node.Quotable parent inList) : Continues parent inList node := by
  induction quotable with
  | text quotable => exact .inr ⟨rfl, proceeds_text quotable⟩
  | lineBreak attributes => exact .inl ⟨attributes, rfl⟩
  | emphasis member attributes closes _ ih =>
      refine .inr ⟨?_, proceeds_emphasis member attributes closes ih⟩
      exact beq_eq_false_iff_ne.2 fun same => ne_lineBreak_of_emphasis member (Option.some.inj same)
  | code attributes start => exact .inr ⟨rfl, proceeds_code attributes start⟩
  | list attributes filled each _ ih => exact .inr ⟨rfl, proceeds_list attributes filled each ih⟩
  | item attributes quotable _ ih =>
      refine .inr ⟨rfl, proceeds_item attributes (List.forall_mem_cons.2 ⟨?_, ih⟩)⟩
      exact .inr ⟨rfl, proceeds_text quotable⟩

end Markdown

end ForumMarkup
