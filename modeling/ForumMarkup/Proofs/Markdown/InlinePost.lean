import ForumMarkup.Element.Post
import ForumMarkup.Markdown
import ForumMarkup.Proofs.Element.Kept
import ForumMarkup.Proofs.Markdown.BareSpans
import ForumMarkup.Proofs.Markdown.Laid
import ForumMarkup.Proofs.Markdown.LineEnds
import ForumMarkup.Proofs.Span.Steps
import ForumMarkup.Proofs.Span.Wraps
import ForumMarkup.Proofs.Text.Core

/-!
Contract: the Markdown of a post with inline markup only.

Owns:
- `Node.Inline`, words, and elements around them that do not stand on lines of their own;
- `Markdown.marks`, the texts around the content of such an element, and `Node.spelling`,
  the content of a node between its marks.

Main statement: `convertPlain_inline`.  Such a post is written as its plain spelling,
whatever lies inside of what.

The spelling knows nothing of spans and buffers.  It has no blank at either end, so that
nothing is moved out of an element and nothing is stripped behind the last one.
-/

set_option autoImplicit false

namespace ForumMarkup

/-! ### The plain spelling -/

namespace Markdown

/-- The texts around the content of an element of a size: those of the first band that holds
its number, and none without a number or a band. -/
def sizeMarks (options : Options) (attributes : Attributes) : Text × Text :=
  match attributes.number? Key.size with
  | none => ([], [])
  | some size =>
      if options.sizeBands.small.contains size then ("<small>".toList, "</small>".toList)
      else if options.sizeBands.big.contains size then ("<big>".toList, "</big>".toList)
      else ([], [])

/-- The texts around bold, italic or underlined content, which an element directly inside one
of its own tag goes without. -/
def emphasisMarks (parent tag : String) (opening closing : Text) : Text × Text :=
  if parent = tag then ([], []) else (opening, closing)

/-- The texts around the content of an element directly inside an element of the tag
`parent`. -/
def marks (options : Options) (parent tag : String) (attributes : Attributes) : Text × Text :=
  match Rule.ofTag? tag with
  | some .bold => emphasisMarks parent tag "**".toList "**".toList
  | some .italic => emphasisMarks parent tag "_".toList "_".toList
  | some .underline => emphasisMarks parent tag "[u]".toList "[/u]".toList
  | some .email => ("<".toList, ">".toList)
  | some .size => sizeMarks options attributes
  | some .url =>
      ("[".toList, "](".toList ++ (attributes.get? Key.url).getD [] ++ ")".toList)
  | _ => ([], [])

end Markdown

namespace Node

mutual

/-- The content of a node between its marks. -/
def spelling (options : Options) (parent : String) : Node → Text
  | .text content => content
  | .element tag attributes children =>
      (Markdown.marks options parent tag attributes).1 ++ spellings options tag children
        ++ (Markdown.marks options parent tag attributes).2

def spellings (options : Options) (parent : String) : List Node → Text
  | [] => []
  | node :: rest => node.spelling options parent ++ spellings options parent rest

end

/-- The tags of inline markup other than links. -/
def inlineTags : List String :=
  [Tag.bold, Tag.italic, Tag.underline, Tag.strike, Tag.color, Tag.email, Tag.size]

/-- Words, and inline markup around them. Links name their address, which is another one
than they show. -/
inductive Inline : Node → Prop where
  | text {content : Text} (solid : ∀ c ∈ content, Text.isBlank c = false)
      (plain : '&' ∉ content) : Inline (.text content)
  | element {tag : String} (isInline : tag ∈ inlineTags) (attributes : Attributes)
      {children : List Node} (inner : ∀ child ∈ children, Inline child) :
      Inline (.element tag attributes children)
  | link {attributes : Attributes} {address : Text} {children : List Node}
      (named : attributes.get? Key.url = some address) (plain : '&' ∉ address)
      (labelled : address ≠ textContents children) (inner : ∀ child ∈ children, Inline child) :
      Inline (.element Tag.url attributes children)

theorem noMarker_of_mem_inlineTags {tag : String} (isInline : tag ∈ inlineTags) :
    Tag.markers.contains tag = false := by
  have all : ∀ tag ∈ inlineTags, Tag.markers.contains tag = false := by decide
  exact all tag isInline

/-! ### What is kept -/

mutual

/-- What is kept of inline markup is inline markup with the same spelling. -/
theorem Inline.clean? (options : Options) (parent : String) (first : Bool) :
    ∀ node : Node, node.Inline →
      (∀ kept ∈ node.clean? first, kept.Inline) ∧
        spellings options parent (node.clean? first).toList = spelling options parent node ∧
        textContents (node.clean? first).toList = textContent node
  | .text [], _ => by
      have none : Node.clean? first (.text []) = none := by cases first <;> rfl
      rw [none]
      exact ⟨nofun, rfl, rfl⟩
  | .text (c :: rest), .text solid plain => by
      rw [clean?_solid (solid c List.mem_cons_self)]
      refine ⟨?_, List.append_nil _, List.append_nil _⟩
      rintro _ ⟨⟩
      exact .text solid plain
  | .element tag _ children, .element isInline attributes inner => by
      obtain ⟨keeps, spelled, content⟩ :=
        inline_cleanAll options tag (Tag.trimmedStarts.contains tag) children inner
      rw [clean?_element (noMarker_of_mem_inlineTags isInline) rfl]
      refine ⟨?_, ?_, ?_⟩
      · rintro _ ⟨⟩
        exact .element isInline attributes keeps
      · simp only [Option.toList_some, spellings, spelling, spelled, List.append_nil]
      · simp only [Option.toList_some, textContents, textContent, content, List.append_nil]
  | .element _ attributes children, .link named plain labelled inner => by
      obtain ⟨keeps, spelled, content⟩ :=
        inline_cleanAll options Tag.url (Tag.trimmedStarts.contains Tag.url) children inner
      rw [clean?_element (by decide) rfl]
      refine ⟨?_, ?_, ?_⟩
      · rintro _ ⟨⟩
        exact .link named plain (by rw [content]; exact labelled) keeps
      · simp only [Option.toList_some, spellings, spelling, spelled, List.append_nil]
      · simp only [Option.toList_some, textContents, textContent, content, List.append_nil]

/-- Cleaning leaves nodes inline and changes nothing of what they spell. -/
theorem inline_cleanAll (options : Options) (parent : String) (first : Bool) :
    ∀ nodes : List Node, (∀ node ∈ nodes, node.Inline) →
      (∀ kept ∈ cleanAll first nodes, kept.Inline) ∧
        spellings options parent (cleanAll first nodes) = spellings options parent nodes ∧
        textContents (cleanAll first nodes) = textContents nodes
  | [], _ => ⟨nofun, rfl, rfl⟩
  | node :: rest, inline => by
      obtain ⟨here, later⟩ := List.forall_mem_cons.1 inline
      obtain ⟨keeps, spelled, content⟩ := Inline.clean? options parent first node here
      rw [cleanAll, spellings, textContents, ← spelled, ← content]
      cases cleaned : node.clean? first with
      | none => exact inline_cleanAll options parent first rest later
      | some kept =>
          obtain ⟨keepsRest, spelledRest, contentRest⟩ :=
            inline_cleanAll options parent false rest later
          refine ⟨List.forall_mem_cons.2 ⟨keeps kept cleaned, keepsRest⟩, ?_, ?_⟩
          · simp only [Option.toList_some, spellings, spelledRest, List.append_nil]
          · simp only [Option.toList_some, textContents, contentRest, List.append_nil]

end

mutual

theorem Inline.solid_textContent :
    ∀ node : Node, node.Inline → ∀ c ∈ textContent node, Text.isBlank c = false
  | .text _, .text solid _ => solid
  | .element _ _ children, .element _ _ inner => inline_solid_textContents children inner
  | .element _ _ children, .link _ _ _ inner => inline_solid_textContents children inner

theorem inline_solid_textContents :
    ∀ nodes : List Node, (∀ node ∈ nodes, node.Inline) →
      ∀ c ∈ textContents nodes, Text.isBlank c = false
  | [], _ => nofun
  | node :: rest, inline => by
      obtain ⟨here, later⟩ := List.forall_mem_cons.1 inline
      rw [textContents]
      exact List.forall_mem_append.2
        ⟨Inline.solid_textContent node here, inline_solid_textContents rest later⟩

end

end Node

/-! ### Marks -/

namespace Markdown

/-- No blank stands at an edge of the marks, so none is moved on account of them. -/
theorem clings_marks (options : Options) (parent tag : String) (attributes : Attributes) :
    (marks options parent tag attributes).1.Clings ∧
      (marks options parent tag attributes).2.Clings := by
  have word {t : Text} (solid : t.all (fun c => !Text.isBlank c) = true) : t.Clings := by
    refine Text.clings_of_solid fun c member => ?_
    simpa using List.all_eq_true.1 solid c member
  have emphasised {opening closing : Text} (opens : opening.Clings) (closes : closing.Clings) :
      (emphasisMarks parent tag opening closing).1.Clings ∧
        (emphasisMarks parent tag opening closing).2.Clings := by
    unfold emphasisMarks
    split
    · exact ⟨word rfl, word rfl⟩
    · exact ⟨opens, closes⟩
  unfold marks
  split
  · exact emphasised (word rfl) (word rfl)
  · exact emphasised (word rfl) (word rfl)
  · exact emphasised (word rfl) (word rfl)
  · exact ⟨word rfl, word rfl⟩
  · unfold sizeMarks
    split
    · exact ⟨word rfl, word rfl⟩
    · split
      · exact ⟨word rfl, word rfl⟩
      · split
        · exact ⟨word rfl, word rfl⟩
        · exact ⟨word rfl, word rfl⟩
  · refine ⟨word rfl, ?_, ?_⟩
    · rintro _ ⟨⟩
      rfl
    · intro c last
      rw [List.getLast?_append] at last
      cases last
      rfl
  · exact ⟨word rfl, word rfl⟩

open Decoration in
/-- The rule of inline markup puts its marks around the content. -/
theorem decorate_inline (options : Options) (scope : Scope) (earlier : Nat) {tag : String}
    {rule : Rule} (isInline : tag ∈ Node.inlineTags) (found : Rule.ofTag? tag = some rule)
    (attributes : Attributes) (children : List Node) :
    decorate options scope earlier rule ⟨tag, attributes, children⟩ { origin := .rule rule }
      = .done { origin := .rule rule,
                opening := (marks options scope.parent tag attributes).1,
                closing := (marks options scope.parent tag attributes).2 } := by
  have emphasised (opening closing : Text) :
      emphasis scope rule opening closing { origin := .rule rule }
        = { origin := .rule rule,
            opening := (emphasisMarks scope.parent tag opening closing).1,
            closing := (emphasisMarks scope.parent tag opening closing).2 } := by
    unfold emphasis emphasisMarks
    rw [Rule.tag_of_ofTag? found]
    split <;> rfl
  rw [marks, found]
  cases rule with
  | bold => exact congrArg Inquiry.done (emphasised _ _)
  | italic => exact congrArg Inquiry.done (emphasised _ _)
  | underline => exact congrArg Inquiry.done (emphasised _ _)
  | email => rfl
  | size =>
      refine congrArg Inquiry.done ?_
      unfold Decoration.size sizeMarks
      cases attributes.number? Key.size with
      | none => rfl
      | some size =>
          dsimp only
          split
          · rfl
          · split <;> rfl
  | _ =>
      have others : ∀ tag ∈ Node.inlineTags, ∀ rule ∈ Rule.ofTag? tag, rule ∈ wrapRules := by decide
      exact absurd (others tag isInline _ found) (by decide)

/-- A link that shows something else than its address puts its marks around what it
shows. -/
theorem evaluate_decorate_link (options : Options) (scope : Scope) (earlier : Nat)
    {attributes : Attributes} {address : Text} {children : List Node}
    (named : attributes.get? Key.url = some address) (plain : '&' ∉ address)
    (labelled : address ≠ Node.textContents children)
    (solid : ∀ c ∈ Node.textContents children, Text.isBlank c = false) :
    (decorate options scope earlier .url ⟨Tag.url, attributes, children⟩
        { origin := .rule .url }).evaluate Lookup.unresolved
      = { origin := .rule .url,
          opening := (marks options scope.parent Tag.url attributes).1,
          closing := (marks options scope.parent Tag.url attributes).2 } := by
  have label : Text.trim (Element.textContent ⟨Tag.url, attributes, children⟩)
      = Node.textContents children := (Text.clings_of_solid solid).trim_eq
  have other : ¬Node.textContents children = address := fun same => labelled same.symm
  rw [decorate, Decoration.url, label]
  dsimp only
  rw [named, Option.getD_some, Inquiry.evaluate_bind, if_neg other, Entity.decode_eq_self plain,
    marks, show Rule.ofTag? Tag.url = some .url by decide]
  dsimp only
  rw [named]
  rfl

/-- A content that does not end with a blank stays before its closing. -/
theorem enclosed_of_clings {content : Text} (clings : content.Clings) (opening closing : Text) :
    enclosed opening content closing = opening ++ content ++ closing := by
  have stays : hoistEnd content closing = (content, closing) := by
    have finish := clings.finish
    rw [List.getLast?_eq_head?_reverse] at finish
    unfold hoistEnd
    cases shape : content.reverse with
    | nil => rfl
    | cons c rest =>
        rw [shape] at finish
        simp [finish c rfl]
  rw [enclosed, stays, List.append_assoc]

end Markdown

/-! ### The plan -/

namespace Node

theorem parent_enter (scope : Scope) (rule : Rule) (element : Element) :
    (scope.enter rule element).parent = element.tag := by
  unfold Scope.enter
  dsimp only
  split <;> rfl

mutual

/-- A spelling neither starts nor ends with a blank. -/
theorem Inline.clings_spelling (options : Options) (parent : String) :
    ∀ node : Node, node.Inline → (spelling options parent node).Clings
  | .text _, .text solid _ => Text.clings_of_solid solid
  | .element tag _ children, .element _ attributes inner => by
      obtain ⟨opens, closes⟩ := Markdown.clings_marks options parent tag attributes
      exact (opens.append (inline_clings_spellings options tag children inner)).append closes
  | .element _ attributes children, .link _ _ _ inner => by
      obtain ⟨opens, closes⟩ := Markdown.clings_marks options parent Tag.url attributes
      exact (opens.append (inline_clings_spellings options Tag.url children inner)).append closes

theorem inline_clings_spellings (options : Options) (parent : String) :
    ∀ nodes : List Node, (∀ node ∈ nodes, node.Inline) → (spellings options parent nodes).Clings
  | [], _ => Text.clings_of_solid nofun
  | node :: rest, inline => by
      obtain ⟨here, later⟩ := List.forall_mem_cons.1 inline
      exact (Inline.clings_spelling options parent node here).append
        (inline_clings_spellings options parent rest later)

end

open Markdown

/-- An element whose span has nothing but marks is written as its content between them. -/
theorem laid_plan_marked {options : Options} {scope : Scope} {cursor : Cursor} {tag : String}
    {rule : Rule} {attributes : Attributes} {children : List Node} {opening closing content : Text}
    (found : Rule.ofTag? tag = some rule) (plain : rule ∉ [.list, .item, .lineBreak, .code])
    (decorated : (decorate options scope cursor.items rule ⟨tag, attributes, children⟩
      { origin := .rule rule }).evaluate Lookup.unresolved
        = { origin := .rule rule, opening, closing })
    (clings : content.Clings)
    (inner : ∀ scope : Scope, scope.parent = tag → ∀ items,
      laid options [] false ((planAll options scope children { items }).evaluate
        Lookup.unresolved).before = content.reverse) :
    laid options [] false ((plan options scope (.element tag attributes children) cursor).evaluate
        Lookup.unresolved).before
      = (opening ++ content ++ closing).reverse ++ laid options [] false cursor.before := by
  simp only [List.mem_cons, List.not_mem_nil, or_false, not_or] at plain
  obtain ⟨noList, noItem, noBreak, noCode⟩ := plain
  let span : Span := { origin := .rule rule, opening, closing }
  have inside := inner (scope.enter rule ⟨tag, attributes, children⟩) (parent_enter _ _ _)
    cursor.items
  have planned : ((plan options scope (.element tag attributes children) cursor).evaluate
      Lookup.unresolved).before
        = .node span ((planAll options (scope.enter rule ⟨tag, attributes, children⟩) children
            { items := cursor.items }).evaluate Lookup.unresolved).before.reverse
          :: cursor.before := by
    rw [plan, found]
    dsimp only
    rw [Cursor.begin_of_ne noBreak]
    dsimp only
    rw [Inquiry.evaluate_bind, decorated, if_neg noItem, if_neg noList, if_neg Bool.false_ne_true,
      Inquiry.evaluate_bind]
    rfl
  have other : span.isRule .code = false := by
    rw [Span.isRule, beq_eq_false_iff_ne]
    exact fun same => noCode (Origin.rule.inj same)
  rw [planned, laid_node _ _ _ rfl rfl, inside, List.reverse_reverse,
    place_of_no_mark other fun _ => clings.start, enclosed_of_clings clings, addBreaks_zero,
    addBreaks_zero]

mutual

/-- Behind what is written already, inline markup is written as its spelling. -/
theorem Inline.laid_plan (options : Options) :
    ∀ node : Node, node.Inline → ∀ (scope : Scope) (cursor : Cursor),
      laid options [] false ((plan options scope node cursor).evaluate Lookup.unresolved).before
        = (spelling options scope.parent node).reverse ++ laid options [] false cursor.before
  | .text content, .text _ plain, scope, cursor => by
      rw [plan, Entity.decode_eq_self plain]
      exact laid_ofText options content cursor.before
  | .element tag _ children, .element isInline attributes inner, scope, cursor => by
      have clings := inline_clings_spellings options tag children inner
      cases found : Rule.ofTag? tag with
      | none =>
          have bare : marks options scope.parent tag attributes = ([], []) := by rw [marks, found]
          rw [plan, found, spelling, bare, List.nil_append, List.append_nil]
          exact inline_laid_planAll options children inner { scope with parent := tag } cursor
      | some rule =>
          have others : ∀ tag ∈ inlineTags, ∀ rule ∈ Rule.ofTag? tag,
              rule ∉ [.list, .item, .lineBreak, .code] := by decide
          refine laid_plan_marked found (others tag isInline rule found)
            (congrArg _ (decorate_inline options scope cursor.items isInline found _ _)) clings ?_
          rintro within rfl items
          rw [inline_laid_planAll options children inner within { items }]
          exact List.append_nil _
  | .element _ attributes children, .link named plain labelled inner, scope, cursor => by
      have clings := inline_clings_spellings options Tag.url children inner
      have found : Rule.ofTag? Tag.url = some .url := by decide
      refine laid_plan_marked found (by decide)
        (evaluate_decorate_link options scope cursor.items named plain labelled
          (inline_solid_textContents children inner)) clings ?_
      intro within parent items
      rw [inline_laid_planAll options children inner within { items }, parent]
      exact List.append_nil _

theorem inline_laid_planAll (options : Options) :
    ∀ nodes : List Node, (∀ node ∈ nodes, node.Inline) → ∀ (scope : Scope) (cursor : Cursor),
      laid options [] false ((planAll options scope nodes cursor).evaluate Lookup.unresolved).before
        = (spellings options scope.parent nodes).reverse ++ laid options [] false cursor.before
  | [], _, _, _ => rfl
  | node :: rest, inline, scope, cursor => by
      obtain ⟨here, later⟩ := List.forall_mem_cons.1 inline
      rw [planAll, Inquiry.evaluate_bind, inline_laid_planAll options rest later,
        Inline.laid_plan options node here, spellings, List.reverse_append, List.append_assoc]

end

end Node

open Markdown

/-- Without answers the Markdown of a post is what its spans write, without the breaks at the
end. -/
theorem convertPlain_eq_laid (options : Options) (post : Element) :
    post.convertPlain options
      = (stripBreaks [] (laid options [] false ((Node.planAll options { parent := post.clean.tag }
          post.clean.children {}).evaluate Lookup.unresolved).before)).reverse := by
  unfold Element.convertPlain Element.toMarkdown Element.plan
  rw [Inquiry.evaluate_bind, Inquiry.evaluate_bind]
  show (stripBreaks [] (inside options [] (.node { origin := .root } _)).reverse).reverse = _
  rw [inside_of_none options [] rfl, List.reverse_reverse]
  rfl

theorem stripBreaks_of_clings {t : Text} (clings : t.Clings) :
    stripBreaks [] t.reverse = t.reverse := by
  have finish := clings.finish
  rw [List.getLast?_eq_head?_reverse] at finish
  cases shape : t.reverse with
  | nil => exact stripBreaks_of_none rfl
  | cons c rest =>
      rw [shape] at finish
      exact stripBreaks_of_solid (finish c rfl) rest

/-- A post with inline markup only is written as its plain spelling. -/
theorem convertPlain_inline (options : Options) (attributes : Attributes) {children : List Node}
    (inline : ∀ node ∈ children, node.Inline) :
    Element.convertPlain options ⟨Tag.richRoot, attributes, children⟩
      = Node.spellings options Tag.richRoot children := by
  obtain ⟨keeps, spelled, _⟩ := Node.inline_cleanAll options Tag.richRoot
    (Tag.trimmedStarts.contains Tag.richRoot) children inline
  have clings := Node.inline_clings_spellings options Tag.richRoot children inline
  rw [convertPlain_eq_laid]
  show (stripBreaks [] (laid options [] false ((Node.planAll options _ (Node.cleanAll
    (Tag.trimmedStarts.contains Tag.richRoot) children) {}).evaluate _).before)).reverse = _
  rw [Node.inline_laid_planAll options _ keeps]
  show (stripBreaks [] ((Node.spellings options Tag.richRoot _).reverse ++ [])).reverse = _
  rw [spelled, List.append_nil, stripBreaks_of_clings clings, List.reverse_reverse]

def nestedMarkup : List Node :=
  [.bold [.text "a".toList, .bold [.wrap Tag.strike [.bold [.text "b\\".toList]]]],
    .link " x)y".toList [.text [], .underline [.email "c@d".toList],
      .size "20".toList [.text "e".toList]],
    .color "red".toList [.size "120".toList [.italic []], .size "900".toList [.text "<br>".toList]]]

theorem convertPlain_inline_nestedMarkup :
    (∀ node ∈ nestedMarkup, node.Inline) ∧
      Element.convertPlain {} ⟨Tag.richRoot, ∅, nestedMarkup⟩
        = "**a**b\\****[[u]<c@d>[/u]<small>e</small>]( x)y)<big>__</big><br>".toList := by
  have word {t : Text} (solid : t.all (fun c => !Text.isBlank c) = true) (plain : '&' ∉ t) :
      Node.Inline (.text t) :=
    .text (fun c member => by simpa using List.all_eq_true.1 solid c member) plain
  have bold : Node.Inline (.bold [.text "a".toList,
      .bold [.wrap Tag.strike [.bold [.text "b\\".toList]]]]) := by
    have struck : Node.Inline (.wrap Tag.strike [.bold [.text "b\\".toList]]) :=
      .element (by decide) _ (List.forall_mem_singleton.2
        (.element (by decide) _ (List.forall_mem_singleton.2 (word rfl (by decide)))))
    exact .element (by decide) _ (List.forall_mem_cons.2 ⟨word rfl (by decide),
      List.forall_mem_singleton.2 (.element (by decide) _ (List.forall_mem_singleton.2 struck))⟩)
  have link : Node.Inline (.link " x)y".toList [.text [], .underline [.email "c@d".toList],
      .size "20".toList [.text "e".toList]]) := by
    refine .link rfl (by decide) (by decide) (List.forall_mem_cons.2 ⟨word rfl (by decide),
      List.forall_mem_cons.2 ⟨?_, List.forall_mem_singleton.2 ?_⟩⟩)
    · exact .element (by decide) _ (List.forall_mem_singleton.2
        (.element (by decide) _ (List.forall_mem_singleton.2 (word rfl (by decide)))))
    · exact .element (by decide) _ (List.forall_mem_singleton.2 (word rfl (by decide)))
  have colour : Node.Inline (.color "red".toList [.size "120".toList [.italic []],
      .size "900".toList [.text "<br>".toList]]) := by
    refine .element (by decide) _ (List.forall_mem_cons.2 ⟨?_, List.forall_mem_singleton.2 ?_⟩)
    · exact .element (by decide) _ (List.forall_mem_singleton.2
        (.element (by decide) _ (List.forall_mem_nil _)))
    · exact .element (by decide) _ (List.forall_mem_singleton.2 (word rfl (by decide)))
  have inline : ∀ node ∈ nestedMarkup, node.Inline :=
    List.forall_mem_cons.2 ⟨bold, List.forall_mem_cons.2 ⟨link, List.forall_mem_singleton.2 colour⟩⟩
  exact ⟨inline, (convertPlain_inline {} ∅ inline).trans rfl⟩

end ForumMarkup
