import ForumMarkup.Proofs.Element.Kept
import ForumMarkup.Proofs.Markdown.DirectPost
import ForumMarkup.Proofs.Markdown.Laid
import ForumMarkup.Proofs.Markdown.Spelled
import ForumMarkup.Proofs.Span.Direct
import ForumMarkup.Proofs.Span.Forms

/-!
Contract: the line breaks between words in emphasis.

Owns:
- `Node.Lettered`, trees of words, line breaks and bold, italic and underlined text;
- `Node.flow`, their text with every line break, and `Node.keptFlow`, the same
  without the line breaks before which nothing is written in their element.

Main statement: `filledLines_convertPlain`, the words on each line of the Markdown.
-/

set_option autoImplicit false

namespace ForumMarkup

open Text (Alike filledLines)

namespace Node

/-- Words, line breaks, and emphasis around them. -/
inductive Lettered : Node → Prop where
  | text {content : Text} (filled : content ≠ []) (letters : ∀ c ∈ content, c.isAlpha = true) :
      Lettered (.text content)
  | lineBreak (attributes : Attributes) : Lettered (.element Tag.lineBreak attributes [])
  | emphasis {tag : String} (member : tag ∈ Tag.emphasis) (attributes : Attributes)
      {children : List Node} (inner : ∀ child ∈ children, Lettered child) :
      Lettered (.element tag attributes children)

mutual

/-- The text of a tree with a line feed for each line break. -/
def flow : Node → Text
  | .text content => content
  | .element tag _ children => if tag = Tag.lineBreak then ['\n'] else flowAll children

def flowAll : List Node → Text
  | [] => []
  | node :: rest => node.flow ++ flowAll rest

end

mutual

/-- Whether a node writes nothing inside an element of the tag `parent`: a line break,
or emphasis of the same kind, which has no markers, around nothing else. -/
def silent (parent : String) : Node → Bool
  | .text content => content.isEmpty
  | .element tag _ children => tag == Tag.lineBreak || (tag == parent && silentAll tag children)

def silentAll (parent : String) : List Node → Bool
  | [] => true
  | node :: rest => node.silent parent && silentAll parent rest

end

mutual

/-- The text of a tree with a line feed for each line break that has something
written before it in its element; `started` says that there is something before the
node in the element around it. -/
def keptFlow (started : Bool) : Node → Text
  | .text content => content
  | .element tag _ children =>
      if tag = Tag.lineBreak then (if started then ['\n'] else [])
      else keptFlowAll tag false children

def keptFlowAll (parent : String) (started : Bool) : List Node → Text
  | [] => []
  | node :: rest =>
      node.keptFlow started ++ keptFlowAll parent (started || !node.silent parent) rest

end

theorem ne_lineBreak_of_emphasis {tag : String} (member : tag ∈ Tag.emphasis) :
    tag ≠ Tag.lineBreak := by
  rintro rfl
  exact absurd member (by decide)

/-- Words and breaks are clean already. -/
theorem clean?_lettered {node : Node} (lettered : Lettered node) :
    node.clean? false = some node := by
  induction lettered with
  | text filled letters =>
      obtain ⟨c, rest, rfl⟩ := List.exists_cons_of_ne_nil filled
      exact clean?_solid (Markdown.isBlank_of_isAlpha (letters c List.mem_cons_self)) rest false
  | lineBreak attributes => exact clean?_element rfl rfl attributes false
  | emphasis member attributes _ ih =>
      have plain : ∀ tag ∈ Tag.emphasis, Tag.markers.contains tag = false ∧
          Tag.trimmedStarts.contains tag = false := by decide
      obtain ⟨noMarker, noTrim⟩ := plain _ member
      refine clean?_element noMarker ?_ attributes false
      rw [noTrim]
      exact cleanAll_eq_self nofun ih

end Node

namespace Markdown

/-! ### The text behind a number of nodes -/

/-- The line feeds of a run of line breaks, none where nothing stands before it. -/
def feeds (started : Bool) (count : Nat) : Text :=
  if started then List.replicate count '\n' else []

/-- The spans end with no line break, and `flow` is their text up to the number of line
feeds in a row. -/
structure Flows (options : Options) (prior : List SpanTree) (flow : Text) (started : Bool) :
    Prop where
  ends : Cursor.Ends prior
  reads : ∃ w, Reads (laid options [] false prior).reverse w ∧ Alike w flow
  filled : (laid options [] false prior).isEmpty = !started

variable {options : Options} {prior : List SpanTree} {flow : Text} {started : Bool}

theorem flows_nil (options : Options) : Flows options [] [] false where
  ends _ last := nomatch last
  reads := ⟨[], ⟨.nil, fun _ none => nomatch none⟩, .refl []⟩
  filled := rfl

/-- Behind the spans of a flow a run of breaks adds its line feeds, unless nothing stands before
it. -/
theorem Flows.run (flows : Flows options prior flow started) (scope : Scope) (count : Nat) :
    (∃ w, Reads (laid options [] false (scope.run count prior)).reverse w ∧
        Alike w (flow ++ feeds started count)) ∧
      (laid options [] false (scope.run count prior)).isEmpty = !started := by
  obtain ⟨w, reads, alike⟩ := flows.reads
  rw [laid_run]
  have filled := flows.filled
  cases started with
  | false =>
      have empty : laid options [] false prior = [] := List.isEmpty_iff.1 filled
      rw [empty] at reads ⊢
      rw [addBreaks_nil]
      exact ⟨⟨w, reads, by simpa [feeds] using alike⟩, rfl⟩
  | true =>
      have some : laid options [] false prior ≠ [] := by
        intro none
        rw [none] at filled
        cases filled
      cases count with
      | zero =>
          rw [addBreaks_zero]
          exact ⟨⟨w, reads, by simpa [feeds] using alike⟩, filled⟩
      | succ count =>
          obtain ⟨v, reads, more, some⟩ := reads.addBreaks some (breaks_ne_html scope _) count
          refine ⟨⟨v, reads, more.trans (alike.append (Text.alike_feeds count).symm)⟩, ?_⟩
          simpa using some

/-- What is written behind a run of line breaks. -/
theorem Flows.add (flows : Flows options prior flow started) {scope : Scope} {count : Nat}
    {tree : SpanTree} {added v next : Text} (noBreak : tree.span.isRule .lineBreak = false)
    (behind : laid options [] false (tree :: scope.run count prior)
      = added.reverse ++ laid options [] false (scope.run count prior))
    (reads : Reads added v) (alike : Alike v next) :
    Flows options (tree :: scope.run count prior) (flow ++ feeds started count ++ next)
      (started || !added.isEmpty) := by
  obtain ⟨⟨w, before, alikeBefore⟩, filled⟩ := flows.run scope count
  refine ⟨?_, ⟨w ++ v, ?_, alikeBefore.append alike⟩, ?_⟩
  · rintro last here
    cases here
    exact noBreak
  · rw [behind, List.reverse_append, List.reverse_reverse]
    cases shape : laid options [] false (scope.run count prior) with
    | nil =>
        rw [shape] at before
        have none : w = [] := by
          have := withoutMarkers_of_spells before.spells
          exact this.symm
        rw [none]
        exact reads
    | cons c rest =>
        rw [← shape]
        exact before.append (by simp [shape]) reads.spells
  · rw [behind]
    cases added with
    | nil => simpa using filled
    | cons c rest => simp

/-! ### Emphasis -/

/-- A text between markers, with a line feed at its end moved outside. -/
theorem Reads.enclosed {t w opening closing : Text} (reads : Reads t w) (openMarker : opening ∈ markers)
    (closeMarker : closing ∈ markers)
    (start : ∀ c ∈ opening.head?, Text.isBlank c = false ∧ c ≠ '\\') :
    Reads (enclosed opening t closing) w := by
  have spells : Spells ((hoistEnd t closing).1 ++ (hoistEnd t closing).2) w := by
    unfold hoistEnd
    split
    · next c rest shape =>
        have whole : t = rest.reverse ++ [c] := by
          rw [← List.reverse_reverse t, shape, List.reverse_cons]
        split
        · next hoisted =>
            rw [Bool.and_eq_true] at hoisted
            have spells := reads.spells
            rw [whole] at spells
            obtain ⟨rfl, v, rfl, before⟩ := spells.feed_of_blank hoisted.1
            rw [← List.append_assoc]
            exact (before.marker closeMarker).feed
        · exact reads.spells.marker closeMarker
    · exact reads.spells.marker closeMarker
  obtain ⟨front, d, rfl, _⟩ := exists_of_mem_markers openMarker
  exact Reads.append ⟨Spells.nil.marker openMarker, start⟩ (by simp) spells

theorem exists_emphasis {tag : String} (member : tag ∈ Tag.emphasis) :
    ∃ rule ∈ emphasisRules, ∃ opening ∈ markers, ∃ closing ∈ markers,
      rule.tag = tag ∧ (∀ c ∈ opening.head?, Text.isBlank c = false ∧ c ≠ '\\') ∧
      ∀ options scope items element start, decorate options scope items rule element start
        = .done (Decoration.emphasis scope rule opening closing start) := by
  simp only [Tag.emphasis, List.mem_cons, List.not_mem_nil, or_false] at member
  rcases member with rfl | rfl | rfl
  · exact ⟨.bold, by decide, "**".toList, by decide, "**".toList, by decide, rfl,
      by simp; decide, fun _ _ _ _ _ => rfl⟩
  · exact ⟨.italic, by decide, "_".toList, by decide, "_".toList, by decide, rfl,
      by simp; decide, fun _ _ _ _ _ => rfl⟩
  · exact ⟨.underline, by decide, "[u]".toList, by decide, "[/u]".toList, by decide, rfl,
      by simp; decide, fun _ _ _ _ _ => rfl⟩

/-- An element of emphasis puts its markers around a text, or directly inside its own
kind nothing. -/
theorem exists_span_of_emphasis {tag : String} (member : tag ∈ Tag.emphasis) (scope : Scope) :
    ∃ rule ∈ emphasisRules, ∃ opening closing : Text, rule.tag = tag ∧
      (∀ options items element, decorate options scope items rule element { origin := .rule rule }
        = .done { origin := .rule rule, opening, closing }) ∧
      ∀ {t w : Text}, Reads t w → Reads (enclosed opening t closing) w ∧
        (enclosed opening t closing).isEmpty = (tag == scope.parent && t.isEmpty) := by
  obtain ⟨rule, ofEmphasis, opening, openMarker, closing, closeMarker, rfl, start, decorated⟩ :=
    exists_emphasis member
  by_cases nested : scope.parent = rule.tag
  · refine ⟨rule, ofEmphasis, [], [], rfl, fun options items element => ?_, fun {t w} reads => ?_⟩
    · rw [decorated, Decoration.emphasis, if_pos nested]
    · rw [enclosed_nil, List.nil_append, nested]
      exact ⟨reads, by simp⟩
  · refine ⟨rule, ofEmphasis, opening, closing, rfl, fun options items element => ?_,
      fun {t w} reads => ⟨reads.enclosed openMarker closeMarker start, ?_⟩⟩
    · rw [decorated, Decoration.emphasis, if_neg nested]
    · have other : (rule.tag == scope.parent) = false := beq_eq_false_iff_ne.2 (Ne.symm nested)
      obtain ⟨front, d, rfl, _⟩ := exists_of_mem_markers openMarker
      rw [other, Bool.false_and, List.isEmpty_eq_false_iff, enclosed]
      simp

/-! ### Nodes one after the other -/

/-- Behind spans and a run of line breaks a node is laid out with its kept flow. -/
def Advances (options : Options) (node : Node) : Prop :=
  ∀ {prior : List SpanTree} {flow : Text} {started : Bool} (_ : Flows options prior flow started)
    (scope : Scope) (count items : Nat), ∃ next nextFlow nextCount nextItems,
      node.plan options scope { before := scope.run count prior, items }
        = .done { before := scope.run nextCount next, items := nextItems } ∧
      Flows options next nextFlow (started || !node.silent scope.parent) ∧
      nextFlow ++ feeds (started || !node.silent scope.parent) nextCount
        = flow ++ feeds started count ++ node.keptFlow started

/-- The step for one node, repeated along a list of nodes. -/
theorem exists_planAll {nodes : List Node} (advances : ∀ node ∈ nodes, Advances options node)
    (flows : Flows options prior flow started) (scope : Scope) (count items : Nat) :
    ∃ next nextFlow nextCount nextItems,
      Node.planAll options scope nodes { before := scope.run count prior, items }
        = .done { before := scope.run nextCount next, items := nextItems } ∧
      Flows options next nextFlow (started || !Node.silentAll scope.parent nodes) ∧
      nextFlow ++ feeds (started || !Node.silentAll scope.parent nodes) nextCount
        = flow ++ feeds started count ++ Node.keptFlowAll scope.parent started nodes := by
  induction nodes generalizing prior flow started count items with
  | nil =>
      rw [Node.silentAll, Node.keptFlowAll, Bool.not_true, Bool.or_false, List.append_nil]
      exact ⟨prior, flow, count, items, rfl, flows, rfl⟩
  | cons node rest ih =>
      obtain ⟨here, later⟩ := List.forall_mem_cons.1 advances
      obtain ⟨mid, midFlow, midCount, midItems, planned, flowsMid, same⟩ := here flows scope count items
      obtain ⟨next, nextFlow, nextCount, nextItems, plannedRest, flowsNext, sameRest⟩ :=
        ih later flowsMid midCount midItems
      have silent : (started || !Node.silentAll scope.parent (node :: rest))
          = (started || !node.silent scope.parent || !Node.silentAll scope.parent rest) := by
        rw [Node.silentAll, Bool.not_and, Bool.or_assoc]
      refine ⟨next, nextFlow, nextCount, nextItems, ?_, ?_, ?_⟩
      · rw [Node.planAll_cons rest planned, plannedRest]
      · rw [silent]
        exact flowsNext
      · rw [silent, sameRest, same, Node.keptFlowAll, List.append_assoc]

/-- A word ends the run of breaks before it. -/
theorem advances_text {content : Text}
    (letters : ∀ c ∈ content, c.isAlpha = true) : Advances options (.text content) := by
  intro prior flow started flows scope count items
  have plain : Entity.decode content = content :=
    Entity.decode_eq_self fun ampersand => absurd (letters _ ampersand) (by decide)
  have reads : Reads content content := by
    refine ⟨spells_letters letters, fun c first => ?_⟩
    have letter := letters c (List.mem_of_mem_head? first)
    exact ⟨isBlank_of_isAlpha letter, ne_of_isAlpha letter (by decide)⟩
  have behind := laid_ofText options content (scope.run count prior)
  have silent : Node.silent scope.parent (.text content) = content.isEmpty := by rw [Node.silent]
  refine ⟨.ofText content :: scope.run count prior, _, 0, items, ?_,
    silent ▸ flows.add rfl behind reads (.refl _), ?_⟩
  · rw [Node.plan_text, plain]
    rfl
  · rw [Node.keptFlow]
    simp [feeds]

/-- A line break joins the run before it. -/
theorem advances_lineBreak (attributes : Attributes) :
    Advances options (.element Tag.lineBreak attributes []) := by
  intro prior flow started flows scope count items
  have silent : Node.silent scope.parent (.element Tag.lineBreak attributes []) = true := by
    rw [Node.silent]
    rfl
  refine ⟨prior, flow, count + 1, items, Node.plan_lineBreak_run flows.ends attributes count items,
    ?_, ?_⟩
  · rw [silent, Bool.not_true, Bool.or_false]
    exact flows
  · rw [silent, Bool.not_true, Bool.or_false, Node.keptFlow, if_pos rfl, List.append_assoc]
    cases started with
    | false => rfl
    | true =>
        show flow ++ List.replicate (count + 1) '\n' = flow ++ (List.replicate count '\n' ++ ['\n'])
        rw [List.replicate_succ']

/-- Emphasis starts with a run of its own: a break that opens it has nothing before it there,
and is dropped. -/
theorem advances_emphasis {tag : String} (member : tag ∈ Tag.emphasis) (attributes : Attributes)
    {children : List Node} (advances : ∀ child ∈ children, Advances options child) :
    Advances options (.element tag attributes children) := by
  intro prior flow started flows scope count items
  obtain ⟨rule, ofEmphasis, opening, closing, rfl, decorated, marked⟩ :=
    exists_span_of_emphasis member scope
  obtain ⟨noList, noBreak, noCode⟩ := others_of_mem_emphasisRules ofEmphasis
  let element : Element := ⟨rule.tag, attributes, children⟩
  have parent : (scope.enter rule element).parent = rule.tag := by
    unfold Scope.enter
    rw [if_neg noList]
  obtain ⟨inner, innerFlow, innerCount, innerItems, planned, flowsInner, same⟩ :=
    exists_planAll advances (flows_nil options) (scope.enter rule element) 0
      (if rule = .list then 0 else if rule = .item then items + 1 else items)
  obtain ⟨⟨w, reads, alike⟩, filled⟩ := flowsInner.run (scope.enter rule element) innerCount
  rw [same, parent] at alike
  rw [parent] at filled
  obtain ⟨readsWhole, empty⟩ := marked reads
  let span : Span := { origin := .rule rule, opening, closing }
  have other {rule' : Rule} (ne : rule ≠ rule') : span.isRule rule' = false :=
    beq_eq_false_iff_ne.2 fun same => ne (Origin.rule.inj same)
  let content := (laid options [] false ((scope.enter rule element).run innerCount inner)).reverse
  let tree : SpanTree := .node span ((scope.enter rule element).run innerCount inner).reverse
  have behind : laid options [] false (tree :: scope.run count prior)
      = (enclosed opening content closing).reverse ++ laid options [] false (scope.run count prior) := by
    rw [laid_node options [] false rfl rfl,
      place_of_no_mark (other noCode) fun _ c first => (reads.start c first).1]
    show addBreaks _ _ _ 0 (_ ++ addBreaks _ _ _ 0 _) = _
    rw [addBreaks_zero, addBreaks_zero]
  have silent : Node.silent scope.parent (.element rule.tag attributes children)
      = (enclosed opening content closing).isEmpty := by
    have noBreakTag : (rule.tag == Tag.lineBreak) = false :=
      beq_eq_false_iff_ne.2 (Node.ne_lineBreak_of_emphasis member)
    have same : List.isEmpty content = Node.silentAll rule.tag children := by
      rw [List.isEmpty_reverse, filled]
      simp
    rw [Node.silent, empty, same, noBreakTag, Bool.false_or]
  rw [silent]
  refine ⟨tree :: scope.run count prior, _, 0, innerItems, ?_,
    flows.add (other noBreak) behind readsWhole alike, ?_⟩
  · rw [Node.plan_element { before := scope.run count prior, items } rule attributes noBreak
      (decorated options items element) rfl planned, if_neg noList]
    rfl
  · rw [Node.keptFlow, if_neg (Node.ne_lineBreak_of_emphasis member)]
    simp [feeds]

theorem advances_of_lettered {node : Node} (lettered : node.Lettered) : Advances options node := by
  induction lettered with
  | text _ letters => exact advances_text letters
  | lineBreak attributes => exact advances_lineBreak attributes
  | emphasis member attributes _ ih => exact advances_emphasis member attributes ih

/-- The Markdown is spelled with markers, and without them it has the filled lines of the
kept flow. -/
theorem exists_reads_convertPlain (options : Options) {nodes : List Node}
    (lettered : ∀ node ∈ nodes, node.Lettered) :
    ∃ v, Reads ((Element.post nodes).convertPlain options) v ∧
      filledLines v = filledLines (Node.keptFlowAll Tag.richRoot false nodes) := by
  have clean : (Element.post nodes).clean = .post nodes :=
    clean_post (Node.cleanAll_eq_self nofun fun node member =>
      Node.clean?_lettered (lettered node member))
  have advances : ∀ node ∈ nodes, Advances options node := fun node member =>
    advances_of_lettered (lettered node member)
  let scope : Scope := { parent := Tag.richRoot }
  obtain ⟨prior, flow, count, items, planned, flows, same⟩ :=
    exists_planAll advances (flows_nil options) scope 0 0
  obtain ⟨⟨w, reads, alike⟩, _⟩ := flows.run scope count
  obtain ⟨v, stripped, shorter, _⟩ := reads.stripBreaks
  refine ⟨v, ?_, ?_⟩
  · rw [convertPlain_of_planAll clean planned]
    exact stripped
  · calc filledLines v = filledLines (v ++ ['\n']) := (Text.filledLines_concat_feed v).symm
      _ = filledLines (w ++ ['\n']) := shorter.filledLines
      _ = filledLines w := Text.filledLines_concat_feed w
      _ = filledLines (flow ++ feeds _ count) := alike.filledLines
      _ = filledLines (Node.keptFlowAll Tag.richRoot false nodes) := congrArg filledLines same

/-- Without its markers the Markdown of words, line breaks and emphasis has the words of
the tree on its lines, one line for each stretch between line breaks that have something
written before them in their element. -/
theorem filledLines_convertPlain (options : Options) {nodes : List Node}
    (lettered : ∀ node ∈ nodes, node.Lettered) :
    filledLines (withoutMarkers ((Element.post nodes).convertPlain options))
      = filledLines (Node.keptFlowAll Tag.richRoot false nodes) := by
  obtain ⟨v, reads, same⟩ := exists_reads_convertPlain options lettered
  rw [withoutMarkers_of_spells reads.spells, same]

/-- A word, and a bold one behind a line break that opens the bold text. -/
def openingBreak : List Node :=
  [.text "a".toList, .bold [.lineBreak, .text "b".toList]]

/-- Line breaks with something before them: between two elements and inside one. -/
def innerBreaks : List Node :=
  [.lineBreak, .italic [.text "c".toList, .lineBreak, .text "d".toList]]

theorem lettered_letter {c : Char} (letter : c.isAlpha = true) : (Node.text [c]).Lettered :=
  .text (List.cons_ne_nil c []) (List.forall_mem_singleton.2 letter)

theorem lettered_openingBreak : ∀ node ∈ openingBreak, node.Lettered := by
  have bold : (Node.bold [.lineBreak, .text "b".toList]).Lettered := by
    refine .emphasis (by decide) ∅ (List.forall_mem_cons.2 ⟨.lineBreak ∅, ?_⟩)
    exact List.forall_mem_singleton.2 (lettered_letter rfl)
  exact List.forall_mem_cons.2
    ⟨lettered_letter rfl, List.forall_mem_singleton.2 bold⟩

theorem lettered_innerBreaks : ∀ node ∈ innerBreaks, node.Lettered := by
  have italic : (Node.italic [.text "c".toList, .lineBreak, .text "d".toList]).Lettered := by
    refine .emphasis (by decide) ∅ (List.forall_mem_cons.2 ⟨lettered_letter rfl, ?_⟩)
    exact List.forall_mem_cons.2
      ⟨.lineBreak ∅, List.forall_mem_singleton.2 (lettered_letter rfl)⟩
  exact List.forall_mem_cons.2 ⟨.lineBreak ∅, List.forall_mem_singleton.2 italic⟩

/-- The break that opens the bold text is dropped, the two behind it are kept. -/
theorem filledLines_convertPlain_of_openingBreak :
    (∀ node ∈ openingBreak ++ innerBreaks, node.Lettered) ∧
      filledLines (withoutMarkers ((Element.post (openingBreak ++ innerBreaks)).convertPlain {}))
        = ["ab".toList, "c".toList, "d".toList] := by
  have lettered : ∀ node ∈ openingBreak ++ innerBreaks, node.Lettered :=
    List.forall_mem_append.2 ⟨lettered_openingBreak, lettered_innerBreaks⟩
  refine ⟨lettered, ?_⟩
  rw [filledLines_convertPlain {} lettered]
  decide

/-- The line break that opens the bold text is dropped, and the words meet on a line. -/
theorem filledLines_openingBreak_ne_flow :
    (∀ node ∈ openingBreak, node.Lettered) ∧
      (Element.post openingBreak).convertPlain {} = "a**b**".toList ∧
      filledLines (withoutMarkers ((Element.post openingBreak).convertPlain {}))
        ≠ filledLines (Node.flowAll openingBreak) := by
  have output : (Element.post openingBreak).convertPlain {} = "a**b**".toList := by decide +kernel
  refine ⟨lettered_openingBreak, output, ?_⟩
  rw [output]
  decide

end Markdown

end ForumMarkup
