import ForumMarkup.Format
import ForumMarkup.Proofs.Bbcode.Conservation
import ForumMarkup.Proofs.Bbcode.RoundTrip
import ForumMarkup.Proofs.Element.Below

/-!
Contract: the shape of the trees that BBCode is read to.

Owns:
- `WellShaped`, what holds of every element of such a tree;
- `Fits`, what holds of a node that is added inside an open element;
- `Assembly.Shaped`, the trees under construction whose nodes all fit, with one lemma
  for each operation on them;
- `Lexeme.Regular`, what the cutting into pieces promises about tags and elements.

Main statement: `read_wellShaped`, for every input and every list of smilie codes.

Items may close in many ways: with the next item, with their list, with an element
around the list, by their own tag, at the end.  All of them close the innermost open
element, so it is enough that an open item stands directly in an open list.
-/

set_option autoImplicit false

namespace ForumMarkup.Bbcode

/-- The elements whose content is always taken as plain text. -/
def plainTags : List String :=
  [Tag.code, Tag.image, Tag.video, Tag.attachment]

/-- A link or an address that was written without an argument, so that its content is
taken as plain text. -/
def IsRawLink (element : Element) : Prop :=
  ∃ content, element = valueElement Tag.url Key.url content ∨
    element = valueElement Tag.email Key.email content

/-- What holds of every element that BBCode is read to. -/
structure WellShaped (codes : List Text) (element : Element) : Prop where
  /-- Items stand directly in lists. -/
  item : ∀ child ∈ element.children, child.hasTag Tag.item = true → element.tag = Tag.list
  /-- An item ends neither with a line break nor with blank text. -/
  itemEnd : element.tag = Tag.item → ∀ last ∈ element.children.getLast?,
    last.hasTag Tag.lineBreak = false ∧
      ∀ content, last = .text content → Text.allBlank content = false
  /-- No line break stands directly in a list. -/
  listBreak : element.tag = Tag.list → ∀ child ∈ element.children,
    child.hasTag Tag.lineBreak = false
  /-- Line breaks have neither children nor attributes. -/
  lineBreak : element.tag = Tag.lineBreak → element.children = [] ∧ element.attributes = ∅
  /-- Plain content is one text leaf. -/
  plain : element.tag ∈ plainTags → ∃ content, element.children = [.text content]
  /-- Only plain content may be the empty text. -/
  leaf : ∀ content, .text content ∈ element.children →
    content ≠ [] ∨ element.tag ∈ plainTags ∨ IsRawLink element
  /-- Without smilies no blank text stands directly in a list. -/
  listText : codes = [] → element.tag = Tag.list → ∀ content,
    .text content ∈ element.children → Text.allBlank content = false

/-- What holds of a node in the content of an open element, or of the root. -/
structure Fits (codes : List Text) (around : Option Bracket) (node : Node) : Prop where
  inner : ∀ element ∈ node.elements, WellShaped codes element
  item : node.hasTag Tag.item = true → around = some .list
  lineBreak : around = some .list → node.hasTag Tag.lineBreak = false
  text : ∀ content, node = .text content → content ≠ [] ∧
    (codes = [] → around = some .list → Text.allBlank content = false)

variable {codes : List Text}

theorem wellShaped_of_mem_elementsOf {nodes : List Node}
    (inner : ∀ node ∈ nodes, ∀ element ∈ node.elements, WellShaped codes element) :
    ∀ element ∈ Node.elementsOf nodes, WellShaped codes element := by
  induction nodes with
  | nil => exact List.forall_mem_nil _
  | cons node rest ih =>
      obtain ⟨here, later⟩ := List.forall_mem_cons.1 inner
      exact List.forall_mem_append.2 ⟨here, ih later⟩

/-! ### Nodes that fit -/

theorem fits_text {content : Text} (filled : content ≠ []) {around : Option Bracket}
    (visible : codes = [] → around = some .list → Text.allBlank content = false) :
    Fits codes around (.text content) where
  inner := List.forall_mem_nil _
  item same := by cases same
  lineBreak _ := rfl
  text other same := by
    cases same
    exact ⟨filled, visible⟩

/-- An element around one text leaf fits everywhere. -/
theorem fits_single {element : Element} {content : Text}
    (single : element.children = [.text content])
    (ordinary : element.tag ∉ [Tag.item, Tag.list, Tag.lineBreak])
    (leaf : content ≠ [] ∨ element.tag ∈ plainTags ∨ IsRawLink element)
    (around : Option Bracket) : Fits codes around element.toNode := by
  obtain ⟨tag, attributes, children⟩ := element
  cases single
  simp only [List.mem_cons, List.not_mem_nil, or_false, not_or] at ordinary
  obtain ⟨noItem, noList, noBreak⟩ := ordinary
  refine ⟨List.forall_mem_singleton.2 ?_, fun item => ?_, fun _ => ?_, fun _ same => by cases same⟩
  · exact {
      item := fun child member tagged => by
        rw [List.mem_singleton.1 member] at tagged
        cases tagged
      itemEnd := fun isItem => absurd isItem noItem
      listBreak := fun isList => absurd isList noList
      lineBreak := fun isBreak => absurd isBreak noBreak
      plain := fun _ => ⟨content, rfl⟩
      leaf := fun other member => by
        cases List.mem_singleton.1 member
        exact leaf
      listText := fun _ isList => absurd isList noList }
  · exact absurd (by simpa [Node.hasTag, Node.tag?, Element.toNode] using item) noItem
  · simpa [Node.hasTag, Node.tag?, Element.toNode] using noBreak

theorem fits_lineBreak {around : Option Bracket} (outside : around ≠ some .list) :
    Fits codes around { tag := Tag.lineBreak : Element }.toNode := by
  have noList : Tag.lineBreak ≠ Tag.list := by decide
  have noItem : Tag.lineBreak ≠ Tag.item := by decide
  refine ⟨List.forall_mem_singleton.2 ?_, fun item => ?_, fun inList => absurd inList outside,
    fun _ same => by cases same⟩
  · exact {
      item := List.forall_mem_nil _
      itemEnd := fun isItem => absurd isItem noItem
      listBreak := fun isList => absurd isList noList
      lineBreak := fun _ => ⟨rfl, rfl⟩
      plain := fun isPlain => absurd isPlain (by decide)
      leaf := fun _ none => absurd none List.not_mem_nil
      listText := fun _ isList => absurd isList noList }
  · exact absurd (by simpa [Node.hasTag, Node.tag?, Element.toNode] using item) noItem

theorem fits_leaf (smilies : codes ≠ []) (around : Option Bracket) (t : Text) :
    ∀ node ∈ leaf t, Fits codes around node := by
  unfold leaf
  split
  · exact List.forall_mem_nil _
  · next filled =>
      exact List.forall_mem_singleton.2 (fits_text filled fun none => absurd none smilies)

/-- Where there are codes, the leaves and smilies of a split text fit in any element. -/
theorem fits_splitFrom (smilies : codes ≠ []) (around : Option Bracket) (plain t : Text) :
    ∀ node ∈ splitFrom codes plain t, Fits codes around node := by
  fun_induction splitFrom codes plain t with
  | case1 plain => exact fits_leaf smilies around _
  | case2 plain c rest code after found _ ih =>
      obtain ⟨_, filled, _⟩ := matchCode?_eq_some found
      refine List.forall_mem_append.2 ⟨fits_leaf smilies around _, List.forall_mem_cons.2 ⟨?_, ih⟩⟩
      have ordinary : Tag.smilie ∉ [Tag.item, Tag.list, Tag.lineBreak] := by decide
      exact fits_single rfl ordinary (.inl filled) around
  | case3 plain c rest _ ih => exact ih

/-- Collected text that is not layout of a list makes nodes that fit. -/
theorem fits_splitSmilies {around : Option Bracket} {t : Text} (filled : t ≠ [])
    (visible : around = some .list → Text.allBlank t = false) :
    ∀ node ∈ splitSmilies codes t, Fits codes around node := by
  by_cases smilies : codes = []
  · rw [smilies, splitSmilies_nil filled]
    exact List.forall_mem_singleton.2 (fits_text filled fun _ => visible)
  · exact fits_splitFrom smilies around [] t

/-! ### Open elements -/

theorem Bracket.eq_item_of_tag {bracket : Bracket} (same : bracket.tag = Tag.item) :
    bracket = .item := by
  revert same
  cases bracket <;> decide

theorem Bracket.eq_list_of_tag {bracket : Bracket} (same : bracket.tag = Tag.list) :
    bracket = .list := by
  revert same
  cases bracket <;> decide

theorem Bracket.tag_ne_lineBreak (bracket : Bracket) : bracket.tag ≠ Tag.lineBreak := by
  cases bracket <;> decide

/-- An element with fitting content is well shaped, if as an item it does not end with
layout. -/
theorem wellShaped_of_fits {bracket : Bracket} (attributes : Attributes) {children : List Node}
    (named : bracket.tag ∉ plainTags)
    (fit : ∀ node ∈ children, Fits codes (some bracket) node)
    (ends : bracket = .item → ∀ last ∈ children.getLast?, isLayout last = false) :
    WellShaped codes ⟨bracket.tag, attributes, children⟩ where
  item child member isItem := by
    have inList := (fit child member).item isItem
    rw [Option.some.injEq] at inList
    rw [inList]
    rfl
  itemEnd isItem last final := by
    have visible := ends (Bracket.eq_item_of_tag isItem) last final
    constructor
    · cases last with
      | text content => rfl
      | element tag attributes children =>
          simpa [isLayout, Node.hasTag, Node.tag?] using visible
    · rintro content rfl
      exact visible
  listBreak isList child member :=
    (fit child member).lineBreak (congrArg some (Bracket.eq_list_of_tag isList))
  lineBreak isBreak := absurd isBreak bracket.tag_ne_lineBreak
  plain isPlain := absurd isPlain named
  leaf content member := .inl ((fit _ member).text content rfl).1
  listText none isList content member :=
    ((fit _ member).text content rfl).2 none (congrArg some (Bracket.eq_list_of_tag isList))

/-- Open elements, the innermost one first, whose contents fit; an item stands directly
in a list. -/
inductive Stacked (codes : List Text) : List Frame → Prop where
  | nil : Stacked codes []
  | cons {frame : Frame} {outer : List Frame} (named : frame.bracket.tag ∉ plainTags)
      (inList : frame.bracket = .item → outer.head?.map Frame.bracket = some .list)
      (fit : ∀ node ∈ frame.content, Fits codes (some frame.bracket) node)
      (rest : Stacked codes outer) : Stacked codes (frame :: outer)

/-- The innermost open element fits where it is put when it closes. -/
theorem fits_toNode {frame : Frame} {outer : List Frame}
    (stacked : Stacked codes (frame :: outer)) :
    Fits codes (outer.head?.map Frame.bracket) frame.toNode := by
  obtain _ | ⟨named, inList, fit, _⟩ := stacked
  generalize kept : (if frame.bracket = .item then frame.content.dropWhile isLayout
    else frame.content) = content
  have shape : frame.toNode = .element frame.bracket.tag frame.attributes content.reverse := by
    rw [Frame.toNode, kept]
  have fitKept : ∀ node ∈ content, Fits codes (some frame.bracket) node := by
    rw [← kept]
    split
    · exact fun node member => fit node ((List.dropWhile_sublist _).mem member)
    · exact fit
  have ends : frame.bracket = .item → ∀ last ∈ content.reverse.getLast?, isLayout last = false := by
    intro isItem last final
    rw [List.getLast?_reverse, ← kept, if_pos isItem] at final
    have stopped := List.head?_dropWhile_not isLayout frame.content
    rw [Option.mem_def.1 final] at stopped
    simpa using stopped
  have fitReversed : ∀ node ∈ content.reverse, Fits codes (some frame.bracket) node :=
    fun node member => fitKept node (List.mem_reverse.1 member)
  rw [shape]
  refine ⟨List.forall_mem_cons.2 ⟨wellShaped_of_fits frame.attributes named fitReversed ends,
    wellShaped_of_mem_elementsOf fun node member => (fitReversed node member).inner⟩, ?_, ?_,
    fun _ same => by cases same⟩
  · intro isItem
    exact inList (Bracket.eq_item_of_tag (by simpa [Node.hasTag, Node.tag?] using isItem))
  · intro _
    simpa [Node.hasTag, Node.tag?] using frame.bracket.tag_ne_lineBreak

namespace Assembly

/-- A tree under construction in which every node fits. -/
structure Shaped (codes : List Text) (assembly : Assembly) : Prop where
  frames : Stacked codes assembly.frames
  base : ∀ node ∈ assembly.base, Fits codes none node

variable {assembly : Assembly}

theorem shaped_addNode (shaped : assembly.Shaped codes) {node : Node}
    (fits : Fits codes assembly.top? node) : (assembly.addNode node).Shaped codes := by
  obtain ⟨frames, base, pending, warnings, offset⟩ := assembly
  obtain ⟨stacked, fitBase⟩ := shaped
  cases stacked with
  | nil => exact ⟨.nil, List.forall_mem_cons.2 ⟨fits, fitBase⟩⟩
  | cons named inList fit rest =>
      exact ⟨.cons named inList (List.forall_mem_cons.2 ⟨fits, fit⟩) rest, fitBase⟩

theorem shaped_addNodes (shaped : assembly.Shaped codes) {nodes : List Node}
    (fits : ∀ node ∈ nodes, Fits codes assembly.top? node) :
    (assembly.addNodes nodes).Shaped codes := by
  induction nodes generalizing assembly with
  | nil => exact shaped
  | cons node rest ih =>
      obtain ⟨here, later⟩ := List.forall_mem_cons.1 fits
      have same : (assembly.addNode node).top? = assembly.top? := top?_addNodes assembly [node]
      refine ih (shaped_addNode shaped here) ?_
      rw [same]
      exact later

theorem shaped_flush (shaped : assembly.Shaped codes) : (assembly.flush codes).Shaped codes := by
  have emptied : Shaped codes { assembly with pending := [] } := ⟨shaped.frames, shaped.base⟩
  unfold flush
  dsimp only
  split
  · exact emptied
  · next kept =>
      rw [not_or, not_and] at kept
      exact shaped_addNodes emptied
        (fits_splitSmilies kept.1 fun inList => Bool.eq_false_iff.2 (kept.2 inList))

theorem shaped_addElement (shaped : assembly.Shaped codes) {element : Element}
    (fits : Fits codes assembly.top? element.toNode) :
    (assembly.addElement codes element).Shaped codes := by
  refine shaped_addNode (shaped_flush shaped) ?_
  rw [top?_flush]
  exact fits

theorem shaped_openFrame (shaped : assembly.Shaped codes) {bracket : Bracket}
    (named : bracket.tag ∉ plainTags) (inList : bracket = .item → assembly.top? = some .list)
    (attributes : Attributes) : (assembly.openFrame bracket attributes).Shaped codes :=
  ⟨.cons named inList (List.forall_mem_nil _) shaped.frames, shaped.base⟩

/-- A closed element fits into the one around it, since its own content fits. -/
theorem shaped_closeTop (shaped : assembly.Shaped codes) : assembly.closeTop.Shaped codes := by
  have stacked := shaped.frames
  unfold closeTop
  split
  · exact shaped
  · next frame outer shape =>
      rw [shape] at stacked
      have fits := fits_toNode stacked
      cases stacked with
      | cons named inList fit rest =>
          have without : Shaped codes { assembly with frames := outer } := ⟨rest, shaped.base⟩
          exact shaped_addNode without fits

theorem shaped_warnUnclosed (shaped : assembly.Shaped codes) (expected : Bool) (frame : Frame) :
    (if expected then assembly else assembly.warnUnclosed frame).Shaped codes := by
  split
  · exact shaped
  · exact ⟨shaped.frames, shaped.base⟩

theorem shaped_closeUnclosed (outer : Option Bracket) (count : Nat)
    (shaped : assembly.Shaped codes) : (closeUnclosed outer count assembly).Shaped codes := by
  induction count generalizing assembly with
  | zero => exact shaped
  | succ count ih =>
      rw [closeUnclosed]
      split
      · exact shaped
      · exact ih (shaped_closeTop (shaped_warnUnclosed shaped _ _))

theorem shaped_close (shaped : assembly.Shaped codes) (bracket : Bracket) (token : Token) :
    (assembly.close codes bracket token).Shaped codes := by
  unfold close
  split
  · exact ⟨shaped.frames, shaped.base⟩
  · exact shaped_closeTop (shaped_closeUnclosed _ _ (shaped_flush shaped))

/-- An item is opened directly in a list or kept as text, so that no item stands elsewhere. -/
theorem shaped_openItem (shaped : assembly.Shaped codes) (token : Token) :
    (assembly.openItem codes token).Shaped codes := by
  have flushed := shaped_flush shaped
  have ready : Shaped codes (if (assembly.flush codes).isInItem
      then (assembly.flush codes).closeTop else assembly.flush codes) := by
    split
    · exact shaped_closeTop flushed
    · exact flushed
  have named : Bracket.item.tag ∉ plainTags := by decide
  unfold openItem
  dsimp only
  generalize (if (assembly.flush codes).isInItem
    then (assembly.flush codes).closeTop else assembly.flush codes) = after at ready ⊢
  split
  · next inList => exact shaped_openFrame ready named (fun _ => inList) _
  · exact ⟨ready.frames, ready.base⟩

end Assembly

/-! ### Pieces -/

/-- What is promised about the tags and elements of pieces: content that is always plain
is read with its closing tag, and then it is one text leaf. -/
def Lexeme.Regular : Lexeme → Prop
  | .opener bracket _ => bracket.tag ∉ plainTags
  | .whole element | .endlessCode element =>
      (∃ content, element.children = [.text content]) ∧
        (element.tag ∈ plainTags ∨ IsRawLink element)
  | .char _ | .carriageReturn | .lineFeed | .verbatim | .closer _ _ => True

theorem fits_of_regular {element : Element} (single : ∃ content, element.children = [.text content])
    (plain : element.tag ∈ plainTags ∨ IsRawLink element) (around : Option Bracket) :
    Fits codes around element.toNode := by
  obtain ⟨content, single⟩ := single
  have link : Tag.url ∉ [Tag.item, Tag.list, Tag.lineBreak] := by decide
  have address : Tag.email ∉ [Tag.item, Tag.list, Tag.lineBreak] := by decide
  refine fits_single single ?_ (.inr plain) around
  rcases plain with isPlain | ⟨_, rfl | rfl⟩
  · simp only [plainTags, List.mem_cons, List.not_mem_nil, or_false] at isPlain
    rcases isPlain with same | same | same | same <;> rw [same] <;> decide
  · exact link
  · exact address

theorem regular_codeElement (token : Token) (content : Text) :
    Lexeme.Regular (.whole (codeElement token content)) := by
  have plain : Tag.code ∈ plainTags := by decide
  unfold codeElement
  split <;> exact ⟨⟨content, rfl⟩, .inl plain⟩

theorem regular_of_plainElement? {bracket : Bracket} {token : Token} {build : Text → Element}
    (found : plainElement? bracket token = some build) (content : Text) :
    Lexeme.Regular (.whole (build content)) := by
  have image : Tag.image ∈ plainTags := by decide
  have video : Tag.video ∈ plainTags := by decide
  have attachment : Tag.attachment ∈ plainTags := by decide
  unfold plainElement? at found
  split at found
  · cases found
    exact ⟨⟨content, rfl⟩, .inl image⟩
  · cases found
    unfold videoElement
    split <;> exact ⟨⟨content, rfl⟩, .inl video⟩
  · cases found
    unfold attachmentElement
    split <;> exact ⟨⟨content, rfl⟩, .inl attachment⟩
  · split at found <;> cases found
    exact ⟨⟨content, rfl⟩, .inr ⟨content, .inl rfl⟩⟩
  · split at found <;> cases found
    exact ⟨⟨content, rfl⟩, .inr ⟨content, .inr rfl⟩⟩
  · cases found

/-- A tag whose content is always plain opens no element. -/
theorem not_mem_plainTags {bracket : Bracket} (noCode : bracket ≠ .code) {token : Token}
    (none : plainElement? bracket token = none) : bracket.tag ∉ plainTags := by
  cases bracket with
  | code => exact absurd rfl noCode
  | image | video | attachment => cases none
  | _ => decide

theorem regular_openerLexeme (bracket : Bracket) (token : Token) (rest : Text) :
    (openerLexeme bracket token rest).2.1.Regular := by
  unfold openerLexeme
  split
  · split
    · exact regular_codeElement token _
    · exact regular_codeElement token rest
  · next noCode =>
      split
      · next none => exact not_mem_plainTags noCode none
      · next made =>
          split
          · exact regular_of_plainElement? made _
          · trivial

/-- A tag whose content is always plain is read together with it. -/
theorem regular_nextPiece (c : Char) (rest : Text) : (nextPiece c rest).1.lexeme.Regular := by
  unfold nextPiece
  split
  · split
    · next token behind _ =>
        show (tokenLexeme token behind).2.1.Regular
        unfold tokenLexeme
        split
        · trivial
        · split
          · trivial
          · exact regular_openerLexeme _ token behind
    · trivial
  · split
    · trivial
    · split <;> trivial

theorem regular_of_mem_pieces {t : Text} : ∀ piece ∈ pieces t, piece.lexeme.Regular := by
  fun_induction pieces t with
  | case1 => exact List.forall_mem_nil _
  | case2 c rest _ ih => exact List.forall_mem_cons.2 ⟨regular_nextPiece c rest, ih⟩

namespace Assembly

variable {assembly : Assembly}

/-- One step keeps the shape, whatever the piece. -/
theorem shaped_act (shaped : assembly.Shaped codes) (source : Text) {lexeme : Lexeme}
    (regular : lexeme.Regular) : (assembly.act codes source lexeme).Shaped codes := by
  cases lexeme with
  | char c => exact ⟨shaped.frames, shaped.base⟩
  | carriageReturn => exact shaped
  | lineFeed =>
      rw [act]
      split
      · exact shaped
      · next outside => exact shaped_addElement shaped (fits_lineBreak outside)
  | verbatim => exact ⟨shaped.frames, shaped.base⟩
  | opener bracket token =>
      by_cases item : bracket = .item
      · rw [item]
        exact shaped_openItem shaped token
      · rw [act_opener item]
        exact shaped_openFrame (shaped_flush shaped) regular (fun same => absurd same item) _
  | closer bracket token => exact shaped_close shaped bracket token
  | whole element =>
      exact shaped_addElement shaped (fits_of_regular regular.1 regular.2 _)
  | endlessCode element =>
      have warned : Shaped codes (assembly.warn (.unclosedTag "code")
        "code block runs to end of input" assembly.offset) := ⟨shaped.frames, shaped.base⟩
      exact shaped_addElement warned (fits_of_regular regular.1 regular.2 _)

theorem shaped_step (shaped : assembly.Shaped codes) {piece : Piece}
    (regular : piece.lexeme.Regular) : (assembly.step codes piece).Shaped codes :=
  have acted := shaped_act shaped piece.source regular
  ⟨acted.frames, acted.base⟩

theorem shaped_foldl_step (shaped : assembly.Shaped codes) {pieces : List Piece}
    (regular : ∀ piece ∈ pieces, piece.lexeme.Regular) :
    (pieces.foldl (step codes) assembly).Shaped codes := by
  induction pieces generalizing assembly with
  | nil => exact shaped
  | cons piece rest ih =>
      obtain ⟨here, later⟩ := List.forall_mem_cons.1 regular
      exact ih (shaped_step shaped here) later

theorem shaped_finish (shaped : assembly.Shaped codes) : (assembly.finish codes).Shaped codes :=
  shaped_closeUnclosed none _ (shaped_flush shaped)

/-- The root around the nodes that fit there is well shaped, and so is all below. -/
theorem wellShaped_toReading (shaped : assembly.Shaped codes) :
    ∀ element ∈ assembly.toReading.value :: assembly.toReading.value.below,
      WellShaped codes element := by
  have fit : ∀ node ∈ assembly.base.reverse, Fits codes none node :=
    fun node member => shaped.base node (List.mem_reverse.1 member)
  have plain : Tag.richRoot ∉ plainTags := by decide
  have noItem : Tag.richRoot ≠ Tag.item := by decide
  have noList : Tag.richRoot ≠ Tag.list := by decide
  have noBreak : Tag.richRoot ≠ Tag.lineBreak := by decide
  refine List.forall_mem_cons.2 ⟨?_,
    wellShaped_of_mem_elementsOf fun node member => (fit node member).inner⟩
  exact {
    item := fun child member isItem => nomatch (fit child member).item isItem
    itemEnd := fun isItem => absurd isItem noItem
    listBreak := fun isList => absurd isList noList
    lineBreak := fun isBreak => absurd isBreak noBreak
    plain := fun isPlain => absurd isPlain plain
    leaf := fun content member => .inl ((fit _ member).text content rfl).1
    listText := fun _ isList => absurd isList noList }

end Assembly

/-- The shape hangs on the codes only in whether there are any. -/
theorem WellShaped.of_codes {other : List Text} {element : Element}
    (shaped : WellShaped other element) (none : codes = [] → other = []) :
    WellShaped codes element :=
  { shaped with listText := fun empty => shaped.listText (none empty) }

open Assembly in
/-- Reading succeeds, and its tree has a root without attributes in which every element,
the root included, is well shaped. -/
theorem read_wellShaped (codes : List Text) (input : Text) :
    ∃ reading, Format.bbcode.read codes input = .ok reading ∧
      reading.value.tag = Tag.richRoot ∧ reading.value.attributes = ∅ ∧
      ∀ element ∈ reading.value :: reading.value.below, WellShaped codes element := by
  have start : Assembly.Shaped (prepareCodes codes) {} := ⟨.nil, List.forall_mem_nil _⟩
  have built := shaped_finish (shaped_foldl_step start (regular_of_mem_pieces (t := input)))
  refine ⟨read codes input, rfl, rfl, rfl, fun element member => ?_⟩
  refine (wellShaped_toReading built element member).of_codes ?_
  rintro rfl
  simp [prepareCodes]

end ForumMarkup.Bbcode
