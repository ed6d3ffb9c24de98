import ForumMarkup.Bbcode
import ForumMarkup.Proofs.Bbcode.Assembly
import ForumMarkup.Proofs.Bbcode.Canonical

/-!
Contract: reading canonical BBCode gives back the tree it was written for.

Owns:
- `Assembly.run`, the tree under construction behind a text;
- `Assembly.Takes`, two trees under construction that differ by some nodes, and
  `Reads`, the nodes whose markup makes just that difference;
- one lemma for each kind of canonical node that its markup is read back.

Main statement: `read_bbcodes`.

Text is collected and becomes a leaf only when the next element starts or ends.
Trees under construction are therefore compared after a flush.
-/

set_option autoImplicit false

namespace ForumMarkup.Bbcode

/-- Without smilie codes the text in front of the reader stays in one leaf. -/
theorem splitFrom_nil (plain t : Text) : splitFrom [] plain t = leaf (plain.reverse ++ t) := by
  induction t generalizing plain with
  | nil => rw [splitFrom, List.append_nil]
  | cons c rest ih =>
      rw [splitFrom]
      split
      · next found => cases found
      · rw [ih]
        simp

theorem splitSmilies_nil {t : Text} (filled : t ≠ []) : splitSmilies [] t = [.text t] := by
  rw [splitSmilies, splitFrom_nil]
  exact if_neg filled

theorem isLayout_eq_false {node : Node} (visible : ¬node.endsLikeLayout) :
    isLayout node = false := by
  rw [Bool.eq_false_iff]
  intro layout
  apply visible
  cases node with
  | text content => exact List.all_eq_true.1 layout
  | element tag attributes children => exact eq_of_beq layout

namespace Assembly

def run (assembly : Assembly) (t : Text) : Assembly :=
  (pieces t).foldl (step []) assembly

theorem run_nil (assembly : Assembly) : assembly.run [] = assembly := by
  rw [run, pieces]
  rfl

theorem run_of_pieces {t rest : Text} {piece : Piece} (first : pieces t = piece :: pieces rest)
    (assembly : Assembly) : assembly.run t = (assembly.step [] piece).run rest := by
  rw [run, first, List.foldl_cons]
  rfl

/-- Outside of a list collected text becomes a leaf. -/
theorem flush_of_top? {assembly : Assembly} (outside : assembly.top? ≠ some .list)
    (filled : assembly.pending ≠ []) :
    assembly.flush []
      = { assembly with pending := [] }.addNode (.text assembly.pending.reverse) := by
  have collected : assembly.pending.reverse ≠ [] := by simpa using filled
  unfold flush
  rw [if_neg, splitSmilies_nil collected]
  · rfl
  · rintro (empty | ⟨inList, _⟩)
    · exact collected empty
    · exact outside inList

/-! ### What markup adds -/

/-- The second tree under construction holds some nodes more than the first one;
text at its end may still be collected. -/
def Takes (assembly : Assembly) (nodes : List Node) (behind : Assembly) : Prop :=
  ∃ offset, behind.flush [] = ((assembly.flush []).addNodes nodes).moved offset

theorem Takes.refl (assembly : Assembly) : assembly.Takes [] assembly :=
  ⟨(assembly.flush []).offset, rfl⟩

theorem Takes.trans {first second third : Assembly} {front back : List Node}
    (before : first.Takes front second) (after : second.Takes back third) :
    first.Takes (front ++ back) third := by
  obtain ⟨here, shapeBefore⟩ := before
  obtain ⟨there, shapeAfter⟩ := after
  refine ⟨there, ?_⟩
  rw [shapeAfter, shapeBefore, addNodes_moved, moved_moved, addNodes_append]

/-- A single node behind what was collected, with nothing collected since. -/
theorem takes_of_eq {assembly behind : Assembly} {node : Node} {offset : Nat}
    (shape : behind = ((assembly.flush []).addNode node).moved offset) :
    assembly.Takes [node] behind ∧ behind.pending = [] := by
  have settled : behind.pending = [] := by
    rw [shape]
    show ((assembly.flush []).addNodes [node]).pending = []
    rw [pending_addNodes, pending_flush]
  refine ⟨⟨offset, ?_⟩, settled⟩
  rw [flush_of_pending_nil [] settled, shape]
  rfl

theorem Takes.top? {assembly behind : Assembly} {nodes : List Node}
    (takes : assembly.Takes nodes behind) : behind.top? = assembly.top? := by
  obtain ⟨offset, shape⟩ := takes
  rw [← top?_flush [] behind, shape, top?_moved, top?_addNodes, top?_flush]

end Assembly

/-- The markup of a node adds that node, wherever elements may stand and whatever
text follows. Text must not be collected already when the node is text itself, and
is collected behind it only then. -/
def Reads (node : Node) : Prop :=
  ∀ (assembly : Assembly) (rest : Text), assembly.top? ≠ some .list →
    (node.isText → assembly.pending = []) →
    ∃ behind, assembly.run (node.bbcode ++ rest) = behind.run rest ∧
      assembly.Takes [node] behind ∧ (¬node.isText → behind.pending = [])

/-- Nodes that are read back one by one are read back in a row. -/
theorem run_bbcodes {nodes : List Node} (reads : ∀ node ∈ nodes, Reads node)
    (apart : Apart nodes) (assembly : Assembly) (rest : Text)
    (outside : assembly.top? ≠ some .list)
    (ready : (∃ node ∈ nodes.head?, node.isText) → assembly.pending = []) :
    ∃ behind, assembly.run (Node.bbcodes nodes ++ rest) = behind.run rest ∧
      assembly.Takes nodes behind := by
  induction nodes generalizing assembly with
  | nil => exact ⟨assembly, rfl, .refl assembly⟩
  | cons node others ih =>
      obtain ⟨middle, ran, takes, settled⟩ :=
        reads node List.mem_cons_self assembly (Node.bbcodes others ++ rest) outside
          fun text => ready ⟨node, rfl, text⟩
      have outsideThere : middle.top? ≠ some .list := by
        rw [takes.top?]
        exact outside
      have readyThere : (∃ next ∈ others.head?, next.isText) → middle.pending = [] := by
        rintro ⟨next, first, text⟩
        by_cases leaf : node.isText
        · exact absurd text (apart.1 leaf next first)
        · exact settled leaf
      obtain ⟨behind, ranOthers, takesOthers⟩ :=
        ih (fun other member => reads other (List.mem_cons_of_mem _ member)) apart.2 middle
          outsideThere readyThere
      refine ⟨behind, ?_, takes.trans takesOthers⟩
      rw [Node.bbcodes, List.append_assoc, ran, ranOthers]

/-! ### One lemma for each kind of node -/

/-- Plain text is collected character by character. -/
theorem run_collect {content : Text} (plain : ∀ c ∈ content, c ≠ '[' ∧ c ≠ '\r' ∧ c ≠ '\n')
    (assembly : Assembly) (rest : Text) :
    ∃ offset, assembly.run (content ++ rest)
      = ((assembly.collect content).moved offset).run rest := by
  induction content generalizing assembly with
  | nil => exact ⟨assembly.offset, rfl⟩
  | cons c later ih =>
      obtain ⟨bracket, returns, feed⟩ := plain c List.mem_cons_self
      obtain ⟨offset, ran⟩ := ih (fun d member => plain d (List.mem_cons_of_mem _ member))
        (assembly.step [] ⟨[c], .char c⟩)
      refine ⟨offset, ?_⟩
      rw [List.cons_append, Assembly.run_of_pieces (pieces_char bracket returns feed _), ran]
      congr 1
      simp [Assembly.step, Assembly.act, Assembly.collect, Assembly.moved]

/-- Text without brackets and line ends is collected and becomes one leaf, at the next tag at
the latest. -/
theorem reads_text {content : Text} (filled : content ≠ [])
    (plain : ∀ c ∈ content, c ≠ '[' ∧ c ≠ '\r' ∧ c ≠ '\n') : Reads (.text content) := by
  intro assembly rest outside ready
  obtain ⟨offset, ran⟩ := run_collect plain assembly rest
  have settled : assembly.pending = [] := ready rfl
  have collected : (assembly.collect content).pending = content.reverse := by
    simp [Assembly.collect, settled]
  have flushed : (assembly.collect content).flush [] = assembly.addNode (.text content) := by
    have outsideThere : (assembly.collect content).top? ≠ some .list := outside
    have filledThere : (assembly.collect content).pending ≠ [] := by
      rw [collected]
      simpa using filled
    rw [Assembly.flush_of_top? outsideThere filledThere, collected, List.reverse_reverse]
    obtain ⟨frames, base, pending, warnings, place⟩ := assembly
    cases settled
    rfl
  refine ⟨(assembly.collect content).moved offset, ?_, ⟨offset, ?_⟩, fun other => absurd rfl other⟩
  · rw [Node.bbcode]
    exact ran
  · rw [Assembly.flush_moved, flushed, Assembly.flush_of_pending_nil [] settled]
    rfl

theorem reads_lineBreak : Reads (.element Tag.lineBreak ∅ []) := by
  intro assembly rest outside _
  have broken : assembly.act [] ['\n'] .lineFeed
      = (assembly.flush []).addNode (.element Tag.lineBreak ∅ []) := if_neg outside
  have stepped : assembly.step [] ⟨['\n'], .lineFeed⟩
      = ((assembly.flush []).addNode (.element Tag.lineBreak ∅ [])).moved
        (assembly.offset + Text.byteLength ['\n']) :=
    congrArg (Assembly.moved · _) broken
  have takes := Assembly.takes_of_eq stepped
  refine ⟨_, ?_, takes.1, fun _ => takes.2⟩
  rw [bbcode_lineBreak]
  exact Assembly.run_of_pieces (pieces_lineFeed rest) assembly

/-- Code is read whole where its content holds no closing tag. -/
theorem reads_code {content : Text} (endless : ¬"[/code]".toList <:+: Text.lower content) :
    Reads (.element Tag.code ∅ [.text content]) := by
  intro assembly rest _ _
  obtain ⟨source, first⟩ := pieces_code endless rest
  have stepped : assembly.step [] ⟨source, .whole (Element.ofText Tag.code content)⟩
      = ((assembly.flush []).addNode (.element Tag.code ∅ [.text content])).moved
        (assembly.offset + Text.byteLength source) := rfl
  have takes := Assembly.takes_of_eq stepped
  refine ⟨_, ?_, takes.1, fun _ => takes.2⟩
  have written : (Node.element Tag.code ∅ [.text content]).bbcode ++ rest
      = openerText "code".toList ++ (content ++ (closerText "code".toList ++ rest)) := by
    show (Node.element Bracket.code.tag ∅ [.text content]).bbcode ++ rest = _
    rw [bbcode_element (by decide), Node.bbcodes, Node.bbcodes, Node.bbcode, List.append_nil,
      List.append_assoc, List.append_assoc]
    rfl
  rw [written]
  exact Assembly.run_of_pieces first assembly

/-- An opening tag flushes what is collected and opens its element. -/
theorem run_opener {bracket : Bracket} (known : bracket ∈ framed) (assembly : Assembly)
    (rest : Text) :
    ∃ offset, assembly.run (openerText (markupName bracket) ++ rest)
      = (((assembly.flush []).openFrame bracket ∅).moved offset).run rest := by
  have bare : openingAttributes bracket (bareToken false (markupName bracket)) = ∅ := by
    simp only [framed, List.mem_cons, List.not_mem_nil, or_false] at known
    rcases known with rfl | rfl | rfl | rfl | rfl | rfl
    · rfl
    · rfl
    · rfl
    · rfl
    · simp [openingAttributes, quoteAttributes, bareToken, Text.trimStart, namedParameters]
    · rfl
  have opens (source : Text) :
      assembly.act [] source (.opener bracket (bareToken false (markupName bracket)))
        = (assembly.flush []).openFrame bracket ∅ := by
    rw [← bare]
    simp only [framed, List.mem_cons, List.not_mem_nil, or_false] at known
    rcases known with rfl | rfl | rfl | rfl | rfl | rfl <;> rfl
  let token := bareToken false (markupName bracket)
  refine ⟨assembly.offset + Text.byteLength token.text, ?_⟩
  rw [Assembly.run_of_pieces (pieces_opener known rest), ← opens token.text]
  rfl

theorem run_closer {bracket : Bracket} (known : bracket ∈ framed) (assembly : Assembly)
    (rest : Text) :
    ∃ offset, assembly.run (closerText (markupName bracket) ++ rest)
      = ((assembly.close [] bracket (bareToken true (markupName bracket))).moved offset).run
        rest := by
  let token := bareToken true (markupName bracket)
  refine ⟨assembly.offset + Text.byteLength token.text, ?_⟩
  rw [Assembly.run_of_pieces (pieces_closer known rest)]
  rfl

/-- Elements whose content is not a list are read back from their content. -/
theorem reads_wrapper {bracket : Bracket} (known : bracket ∈ framed) (list : bracket ≠ .list)
    (item : bracket ≠ .item) {children : List Node} (inner : ∀ child ∈ children, Reads child)
    (apart : Apart children) : Reads (.element bracket.tag ∅ children) := by
  intro assembly rest _ _
  obtain ⟨start, ranOpener⟩ := run_opener known assembly
    (Node.bbcodes children ++ (closerText (markupName bracket) ++ rest))
  let opened := ((assembly.flush []).openFrame bracket ∅).moved start
  have settled : opened.pending = [] := Assembly.pending_flush [] assembly
  have top : opened.top? = some bracket := rfl
  have outside : opened.top? ≠ some .list := by
    rw [top]
    simpa using list
  obtain ⟨middle, ranInner, takes⟩ := run_bbcodes inner apart opened
    (closerText (markupName bracket) ++ rest) outside fun _ => settled
  have topMiddle : middle.top? = some bracket := by
    rw [takes.top?, top]
  obtain ⟨finish, ranCloser⟩ := run_closer known middle rest
  rw [Assembly.close_of_top? topMiddle []] at ranCloser
  obtain ⟨place, shape⟩ := takes
  have closed : (middle.flush []).closeTop.moved finish
      = ((assembly.flush []).addNode (.element bracket.tag ∅ children)).moved finish := by
    rw [shape, Assembly.flush_of_pending_nil [] settled, Assembly.addNodes_moved,
      Assembly.moved_moved, Assembly.closeTop_moved,
      Assembly.closeTop_addNodes_openFrame fun same => absurd same item, Assembly.moved_moved]
  have filled := Assembly.takes_of_eq closed
  refine ⟨_, ?_, filled.1, fun _ => filled.2⟩
  rw [bbcode_element item, List.append_assoc, List.append_assoc, ranOpener, ranInner, ranCloser]

/-- Content that starts an item of a list makes one more item of the list. -/
theorem run_item {children : List Node} (inner : ∀ child ∈ children, Reads child)
    (apart : Apart children) (ends : ∀ last ∈ children.getLast?, ¬last.endsLikeLayout)
    (assembly : Assembly) (rest : Text)
    (inList : (assembly.betweenItems []).top? = some .list) :
    ∃ (behind : Assembly) (offset : Nat),
      assembly.run ((Node.element Tag.item ∅ children).bbcode ++ rest) = behind.run rest ∧
      behind.betweenItems []
        = ((assembly.betweenItems []).addNode (.element Tag.item ∅ children)).moved offset := by
  let token := bareToken false ['*']
  let opened := ((assembly.betweenItems []).openFrame .item ∅).moved
    (assembly.offset + Text.byteLength token.text)
  have stepped : assembly.step [] ⟨token.text, .opener .item token⟩ = opened :=
    congrArg (Assembly.moved · _) (Assembly.openItem_of_betweenItems inList token)
  have settled : opened.pending = [] := Assembly.pending_betweenItems [] assembly
  have top : opened.top? = some .item := rfl
  have outside : opened.top? ≠ some .list := by
    rw [top]
    decide
  obtain ⟨middle, ranInner, place, shape⟩ := run_bbcodes inner apart opened rest outside
    fun _ => settled
  have flushed : middle.flush []
      = (((assembly.betweenItems []).openFrame .item ∅).addNodes children).moved place := by
    rw [shape, Assembly.flush_of_pending_nil [] settled, Assembly.addNodes_moved,
      Assembly.moved_moved]
  have inItem : (middle.flush []).isInItem = true := by
    rw [Assembly.isInItem_iff, flushed]
    show ∃ outer, (((assembly.betweenItems []).openFrame .item ∅).addNodes children).brackets = _
    rw [Assembly.brackets_addNodes]
    rw [Assembly.top?_eq_head?_brackets] at inList
    obtain ⟨outer, shapeList⟩ := List.head?_eq_some_iff.1 inList
    refine ⟨outer, ?_⟩
    show Bracket.item :: (assembly.betweenItems []).brackets = _
    rw [shapeList]
  have visible : ∀ last ∈ children.getLast?, isLayout last = false := by
    intro last final
    exact isLayout_eq_false (ends last final)
  refine ⟨middle, place, ?_, ?_⟩
  · rw [bbcode_item, List.append_assoc, Assembly.run_of_pieces (pieces_item _), stepped, ranInner]
  · have closed : middle.betweenItems [] = (middle.flush []).closeTop := if_pos inItem
    rw [closed, flushed, Assembly.closeTop_moved,
      Assembly.closeTop_addNodes_openFrame fun _ => visible]
    rfl

/-- Each item closes the one before it, so that behind all of them the last one is still
open. -/
theorem run_items {items : List (List Node)}
    (inner : ∀ item ∈ items, ∀ child ∈ item, Reads child)
    (apart : ∀ item ∈ items, Apart item)
    (ends : ∀ item ∈ items, ∀ last ∈ item.getLast?, ¬last.endsLikeLayout)
    (assembly : Assembly) (rest : Text)
    (inList : (assembly.betweenItems []).top? = some .list) :
    ∃ (behind : Assembly) (offset : Nat),
      assembly.run (Node.bbcodes (items.map (Node.element Tag.item ∅)) ++ rest)
        = behind.run rest ∧
      behind.betweenItems [] = ((assembly.betweenItems []).addNodes
        (items.map (Node.element Tag.item ∅))).moved offset := by
  induction items generalizing assembly with
  | nil => exact ⟨assembly, (assembly.betweenItems []).offset, rfl, rfl⟩
  | cons item others ih =>
      obtain ⟨middle, place, ranItem, shape⟩ := run_item (inner item List.mem_cons_self)
        (apart item List.mem_cons_self) (ends item List.mem_cons_self) assembly
        (Node.bbcodes (others.map (Node.element Tag.item ∅)) ++ rest) inList
      have inListThere : (middle.betweenItems []).top? = some .list := by
        rw [shape, Assembly.top?_moved]
        show ((assembly.betweenItems []).addNodes [_]).top? = _
        rw [Assembly.top?_addNodes, inList]
      obtain ⟨behind, offset, ranOthers, shapeOthers⟩ :=
        ih (fun other member => inner other (List.mem_cons_of_mem _ member))
          (fun other member => apart other (List.mem_cons_of_mem _ member))
          (fun other member => ends other (List.mem_cons_of_mem _ member)) middle inListThere
      refine ⟨behind, offset, ?_, ?_⟩
      · rw [List.map_cons, Node.bbcodes, List.append_assoc, ranItem, ranOthers]
      · rw [shapeOthers, shape, Assembly.addNodes_moved]
        rfl

/-- The closing tag of a list closes its last item too, without dropping anything from it. -/
theorem reads_list {items : List (List Node)}
    (inner : ∀ item ∈ items, ∀ child ∈ item, Reads child)
    (apart : ∀ item ∈ items, Apart item)
    (ends : ∀ item ∈ items, ∀ last ∈ item.getLast?, ¬last.endsLikeLayout) :
    Reads (.element Tag.list ∅ (items.map (Node.element Tag.item ∅))) := by
  intro assembly rest _ _
  have known : Bracket.list ∈ framed := by decide
  let nodes := items.map (Node.element Tag.item ∅)
  obtain ⟨start, ranOpener⟩ := run_opener known assembly
    (Node.bbcodes nodes ++ (closerText (markupName .list) ++ rest))
  let opened := ((assembly.flush []).openFrame .list ∅).moved start
  have settled : opened.pending = [] := Assembly.pending_flush [] assembly
  have between : opened.betweenItems [] = opened := by
    unfold Assembly.betweenItems
    rw [Assembly.flush_of_pending_nil [] settled, if_neg]
    rw [Assembly.isInItem_iff]
    rintro ⟨outer, shape⟩
    cases shape
  have inList : (opened.betweenItems []).top? = some .list := by
    rw [between]
    rfl
  obtain ⟨middle, place, ranItems, shape⟩ := run_items inner apart ends opened
    (closerText (markupName .list) ++ rest) inList
  have inListThere : (middle.betweenItems []).top? = some .list := by
    rw [shape, Assembly.top?_moved, Assembly.top?_addNodes, inList]
  obtain ⟨finish, ranCloser⟩ := run_closer known middle rest
  rw [Assembly.close_list inListThere] at ranCloser
  have notItem : Bracket.list = .item → ∀ last ∈ nodes.getLast?, isLayout last = false := by
    intro same
    cases same
  have closed : (middle.betweenItems []).closeTop.moved finish
      = ((assembly.flush []).addNode (.element Tag.list ∅ nodes)).moved finish := by
    rw [shape, between, Assembly.addNodes_moved, Assembly.moved_moved, Assembly.closeTop_moved,
      Assembly.closeTop_addNodes_openFrame notItem, Assembly.moved_moved]
    rfl
  have filled := Assembly.takes_of_eq closed
  refine ⟨_, ?_, filled.1, fun _ => filled.2⟩
  show assembly.run ((Node.element Bracket.list.tag ∅ nodes).bbcode ++ rest) = _
  rw [bbcode_element (by decide), List.append_assoc, List.append_assoc, ranOpener, ranItems,
    ranCloser]

/-! ### Whole posts -/

/-- By induction over the node: every canonical node is read back where it stands. -/
theorem reads_of_canonical {node : Node} (canonical : Canonical node) : Reads node := by
  induction canonical with
  | text filled plain => exact reads_text filled plain
  | lineBreak => exact reads_lineBreak
  | code endless => exact reads_code endless
  | wrapper wraps _ apart ih =>
      obtain ⟨bracket, known, rfl, list, item⟩ := exists_framed_of_mem_wrappers wraps
      exact reads_wrapper known list item ih apart
  | list _ apart ends ih => exact reads_list ih apart ends

theorem addNodes_empty (nodes : List Node) :
    ({} : Assembly).addNodes nodes = { base := nodes.reverse } := by
  have general : ∀ base, ({ base } : Assembly).addNodes nodes
      = { base := nodes.reverse ++ base } := by
    induction nodes with
    | nil => intro base; rfl
    | cons node rest ih =>
        intro base
        rw [List.reverse_cons, List.append_assoc]
        exact ih (node :: base)
  rw [← List.append_nil nodes.reverse]
  exact general []

/-- Reading the canonical markup of a tree gives back that tree, without a warning. -/
theorem read_bbcodes {children : List Node} (canonical : CanonicalContent children) :
    read [] (Node.bbcodes children)
      = { value := { tag := Tag.richRoot, children }, warnings := [] } := by
  have reads : ∀ child ∈ children, Reads child :=
    fun child member => reads_of_canonical (canonical.inner child member)
  have outside : ({} : Assembly).top? ≠ some .list := by decide
  obtain ⟨behind, ran, offset, shape⟩ := run_bbcodes reads canonical.apart {} [] outside
    fun _ => rfl
  have flushed : behind.flush [] = { base := children.reverse, offset } := by
    rw [shape, Assembly.flush_of_pending_nil [] rfl, addNodes_empty]
    rfl
  have finished : behind.finish [] = { base := children.reverse, offset } := by
    unfold Assembly.finish
    rw [flushed]
    rfl
  rw [List.append_nil, Assembly.run_nil] at ran
  have prepared : prepareCodes [] = [] := by simp [prepareCodes]
  unfold read
  rw [prepared]
  show ((Assembly.run {} (Node.bbcodes children)).finish []).toReading = _
  rw [ran]
  show (behind.finish []).toReading = _
  rw [finished]
  unfold Assembly.toReading
  rw [List.reverse_reverse]
  rfl

/-- A list in bold text, with code that holds a bracket in its second item. -/
def boldList : List Node :=
  [.element Tag.bold ∅
    [.text "a".toList, .element Tag.lineBreak ∅ [],
      .element Tag.list ∅ ([[.text " b".toList], [.element Tag.code ∅ [.text "[*]\n".toList]]].map
        (Node.element Tag.item ∅))]]

theorem canonicalContent_boldList : CanonicalContent boldList := by
  have first : Canonical (.text "a".toList) := .text (by decide) (by simp)
  have second : Canonical (.text " b".toList) := .text (by decide) (by simp)
  have code : Canonical (.element Tag.code ∅ [.text "[*]\n".toList]) := .code (by decide)
  have items : Canonical (.element Tag.list ∅
      ([[.text " b".toList], [.element Tag.code ∅ [.text "[*]\n".toList]]].map
        (Node.element Tag.item ∅))) := by
    refine .list ?_ ?_ ?_
    · simp only [List.mem_cons, List.not_mem_nil, or_false, forall_eq_or_imp, forall_eq]
      exact ⟨second, code⟩
    · simp [Apart]
    · simp [Node.endsLikeLayout, Tag.code, Tag.lineBreak, Text.isBlank]
  have bold : Canonical (.element Tag.bold ∅ [.text "a".toList, .element Tag.lineBreak ∅ [],
      .element Tag.list ∅ ([[.text " b".toList], [.element Tag.code ∅ [.text "[*]\n".toList]]].map
        (Node.element Tag.item ∅))]) := by
    refine .wrapper (by decide) ?_ ?_
    · simp only [List.mem_cons, List.not_mem_nil, or_false, forall_eq_or_imp, forall_eq]
      exact ⟨first, .lineBreak, items⟩
    · simp [Apart, Node.isText, Node.tag?]
  constructor
  · intro child member
    rw [List.mem_singleton.1 member]
    exact bold
  · simp [Apart, boldList]

theorem read_bbcodes_boldList :
    CanonicalContent boldList ∧
      Node.bbcodes boldList = "[b]a\n[list][*] b[*][code][*]\n[/code][/list][/b]".toList ∧
      read [] "[b]a\n[list][*] b[*][code][*]\n[/code][/list][/b]".toList
        = { value := { tag := Tag.richRoot, children := boldList }, warnings := [] } := by
  have written : Node.bbcodes boldList
      = "[b]a\n[list][*] b[*][code][*]\n[/code][/list][/b]".toList := by rfl
  refine ⟨canonicalContent_boldList, written, ?_⟩
  rw [← written]
  exact read_bbcodes canonicalContent_boldList

end ForumMarkup.Bbcode
