import ForumMarkup.Bbcode.Assembly
import ForumMarkup.Proofs.Bbcode.Groups

/-!
Contract: the trees that BBCode can say exactly, and the markup that says them.

Owns:
- `Node.bbcode`, the canonical markup of a node;
- `Canonical`, the nodes that this markup stands for without loss, and
  `CanonicalContent`, the contents they may have;
- the lemmas that tell the first piece of each kind of canonical markup.

Every lemma on pieces leaves open what text follows, because an element is read in
the middle of whatever comes behind it.
-/

set_option autoImplicit false

namespace ForumMarkup

namespace Node

mutual

/-- The canonical BBCode of a node. -/
def bbcode : Node → Text
  | .text content => content
  | .element tag _ children =>
      if tag = Tag.lineBreak then ['\n']
      else if tag = Tag.item then "[*]".toList ++ bbcodes children
      else
        "[".toList ++ Text.lower tag.toList ++ "]".toList ++ bbcodes children
          ++ "[/".toList ++ Text.lower tag.toList ++ "]".toList

def bbcodes : List Node → Text
  | [] => []
  | node :: rest => node.bbcode ++ bbcodes rest

end

def isText (node : Node) : Prop :=
  node.tag? = none

/-- Whether a node at the end of an item could not be told from the layout of the
list: a line break, or text of blanks only. -/
def endsLikeLayout : Node → Prop
  | .text content => ∀ c ∈ content, Text.isBlank c = true
  | .element tag _ _ => tag = Tag.lineBreak

end Node

namespace Bbcode

/-- The tags of elements that hold any content and are written alike. -/
def wrappers : List String :=
  [Tag.bold, Tag.italic, Tag.underline, Tag.strike, Tag.quote]

/-- No two text leaves stand side by side. -/
def Apart : List Node → Prop
  | [] => True
  | node :: rest => (node.isText → ∀ next ∈ rest.head?, ¬next.isText) ∧ Apart rest

theorem apart_concat {nodes : List Node} {node : Node} :
    Apart (nodes ++ [node])
      ↔ Apart nodes ∧ (node.isText → ∀ last ∈ nodes.getLast?, ¬last.isText) := by
  induction nodes with
  | nil => simp [Apart]
  | cons first rest ih =>
      rw [List.cons_append, Apart, Apart, ih, and_assoc]
      cases rest with
      | nil => simp [Apart, imp_not_comm]
      | cons second more => simp

theorem Apart.reverse {nodes : List Node} (apart : Apart nodes) : Apart nodes.reverse := by
  induction nodes with
  | nil => exact apart
  | cons node rest ih =>
      obtain ⟨first, later⟩ := apart
      rw [List.reverse_cons, apart_concat, List.getLast?_reverse]
      exact ⟨ih later, first⟩

/-- The nodes that canonical BBCode stands for without loss. -/
inductive Canonical : Node → Prop where
  | text {content : Text} (filled : content ≠ [])
      (plain : ∀ c ∈ content, c ≠ '[' ∧ c ≠ '\r' ∧ c ≠ '\n') : Canonical (.text content)
  | lineBreak : Canonical (.element Tag.lineBreak ∅ [])
  | code {content : Text} (endless : ¬"[/code]".toList <:+: Text.lower content) :
      Canonical (.element Tag.code ∅ [.text content])
  | wrapper {tag : String} (wraps : tag ∈ wrappers) {children : List Node}
      (inner : ∀ child ∈ children, Canonical child) (apart : Apart children) :
      Canonical (.element tag ∅ children)
  | list {items : List (List Node)}
      (inner : ∀ item ∈ items, ∀ child ∈ item, Canonical child)
      (apart : ∀ item ∈ items, Apart item)
      (ends : ∀ item ∈ items, ∀ last ∈ item.getLast?, ¬last.endsLikeLayout) :
      Canonical (.element Tag.list ∅ (items.map (Node.element Tag.item ∅)))

/-- The contents of an element that canonical BBCode stands for without loss. -/
structure CanonicalContent (children : List Node) : Prop where
  inner : ∀ child ∈ children, Canonical child
  apart : Apart children

/-! ### The markup of each kind of node -/

def openerText (name : Text) : Text :=
  '[' :: (name ++ [']'])

/-- The name by which canonical markup calls an element. -/
def markupName (bracket : Bracket) : Text :=
  Text.lower bracket.tag.toList

theorem bbcode_element {bracket : Bracket} (other : bracket ≠ .item) (children : List Node) :
    (Node.element bracket.tag ∅ children).bbcode
      = openerText (markupName bracket)
        ++ (Node.bbcodes children ++ closerText (markupName bracket)) := by
  have breaks : bracket.tag ≠ Tag.lineBreak := by cases bracket <;> decide
  have item : bracket.tag ≠ Tag.item := by
    revert other
    cases bracket <;> decide
  rw [Node.bbcode, if_neg breaks, if_neg item]
  simp [openerText, closerText, markupName]

theorem bbcode_item (children : List Node) :
    (Node.element Tag.item ∅ children).bbcode = openerText ['*'] ++ Node.bbcodes children := by
  rw [Node.bbcode, if_neg (by decide), if_pos rfl]
  rfl

theorem bbcode_lineBreak : (Node.element Tag.lineBreak ∅ []).bbcode = ['\n'] := by
  rw [Node.bbcode, if_pos rfl]

/-! ### The first piece -/

theorem pieces_cons (c : Char) (rest : Text) :
    pieces (c :: rest) = (nextPiece c rest).1 :: pieces (nextPiece c rest).2 := by
  rw [pieces]

theorem pieces_char {c : Char} (bracket : c ≠ '[') (returns : c ≠ '\r') (feed : c ≠ '\n')
    (rest : Text) : pieces (c :: rest) = ⟨[c], .char c⟩ :: pieces rest := by
  have next : nextPiece c rest = (⟨[c], .char c⟩, rest) := by
    unfold nextPiece
    rw [if_neg bracket, if_neg feed, if_neg fun line => returns line.1]
  rw [pieces_cons, next]

theorem pieces_lineFeed (rest : Text) :
    pieces ('\n' :: rest) = ⟨['\n'], .lineFeed⟩ :: pieces rest := by
  have next : nextPiece '\n' rest = (⟨['\n'], .lineFeed⟩, rest) := by
    unfold nextPiece
    rw [if_neg (by decide), if_pos rfl]
  rw [pieces_cons, next]

theorem scan?_append {body : Text} (inside : body.all Token.isInside = true) (rest : Text) :
    Token.scan? (body ++ ']' :: rest)
      = (Token.ofBody? body).map fun token => (token, rest) := by
  have everywhere := List.all_eq_true.1 inside
  have closes : Token.isInside ']' = false := by decide
  have taken : (body ++ ']' :: rest).takeWhile Token.isInside = body := by
    rw [List.takeWhile_append_of_pos everywhere, List.takeWhile_cons, closes]
    simp
  have left : (body ++ ']' :: rest).dropWhile Token.isInside = ']' :: rest := by
    rw [List.dropWhile_append_of_pos everywhere, List.dropWhile_cons, closes]
    simp
  unfold Token.scan?
  rw [left, taken]
  rfl

/-- A group with a known body is one piece with what its tag takes. -/
theorem pieces_group {body : Text} (inside : body.all Token.isInside = true) {token : Token}
    (reads : Token.ofBody? body = some token) (rest : Text) :
    pieces ('[' :: (body ++ ']' :: rest))
      = ⟨token.text ++ (tokenLexeme token rest).1, (tokenLexeme token rest).2.1⟩
        :: pieces (tokenLexeme token rest).2.2 := by
  have next : nextPiece '[' (body ++ ']' :: rest)
      = (⟨token.text ++ (tokenLexeme token rest).1, (tokenLexeme token rest).2.1⟩,
        (tokenLexeme token rest).2.2) := by
    unfold nextPiece
    rw [if_pos rfl, scan?_append inside, reads]
    rfl
  rw [pieces_cons, next]

def bareToken (closing : Bool) (name : Text) : Token :=
  { closing, spelling := name, parameters := [] }

/-- The brackets whose tags are written without reading the text behind them. -/
def framed : List Bracket :=
  [.bold, .italic, .underline, .strike, .quote, .list]

theorem exists_framed_of_mem_wrappers {tag : String} (wraps : tag ∈ wrappers) :
    ∃ bracket ∈ framed, bracket.tag = tag ∧ bracket ≠ .list ∧ bracket ≠ .item := by
  simp only [wrappers, List.mem_cons, List.not_mem_nil, or_false] at wraps
  rcases wraps with rfl | rfl | rfl | rfl | rfl
  · exact ⟨.bold, by decide⟩
  · exact ⟨.italic, by decide⟩
  · exact ⟨.underline, by decide⟩
  · exact ⟨.strike, by decide⟩
  · exact ⟨.quote, by decide⟩

/-- A canonical opening tag is read as a piece of its own. -/
theorem pieces_opener {bracket : Bracket} (known : bracket ∈ framed) (rest : Text) :
    pieces (openerText (markupName bracket) ++ rest)
      = ⟨(bareToken false (markupName bracket)).text,
          .opener bracket (bareToken false (markupName bracket))⟩ :: pieces rest := by
  have shape : openerText (markupName bracket) ++ rest
      = '[' :: (markupName bracket ++ ']' :: rest) := by simp [openerText]
  have lexeme : tokenLexeme (bareToken false (markupName bracket)) rest
      = ([], .opener bracket (bareToken false (markupName bracket)), rest) := by
    simp only [framed, List.mem_cons, List.not_mem_nil, or_false] at known
    rcases known with rfl | rfl | rfl | rfl | rfl | rfl <;> rfl
  have group : (markupName bracket).all Token.isInside = true
      ∧ Token.ofBody? (markupName bracket) = some (bareToken false (markupName bracket)) := by
    cases bracket <;> decide
  rw [shape, pieces_group group.1 group.2, lexeme, List.append_nil]

theorem pieces_closer {bracket : Bracket} (known : bracket ∈ framed) (rest : Text) :
    pieces (closerText (markupName bracket) ++ rest)
      = ⟨(bareToken true (markupName bracket)).text,
          .closer bracket (bareToken true (markupName bracket))⟩ :: pieces rest := by
  have shape : closerText (markupName bracket) ++ rest
      = '[' :: ('/' :: markupName bracket ++ ']' :: rest) := by simp [closerText]
  have lexeme : tokenLexeme (bareToken true (markupName bracket)) rest
      = ([], .closer bracket (bareToken true (markupName bracket)), rest) := by
    simp only [framed, List.mem_cons, List.not_mem_nil, or_false] at known
    rcases known with rfl | rfl | rfl | rfl | rfl | rfl <;> rfl
  have group : ('/' :: markupName bracket).all Token.isInside = true
      ∧ Token.ofBody? ('/' :: markupName bracket)
        = some (bareToken true (markupName bracket)) := by
    cases bracket <;> decide
  rw [shape, pieces_group group.1 group.2, lexeme, List.append_nil]

theorem pieces_item (rest : Text) :
    pieces (openerText ['*'] ++ rest)
      = ⟨(bareToken false ['*']).text, .opener .item (bareToken false ['*'])⟩
        :: pieces rest := by
  have lexeme : tokenLexeme (bareToken false ['*']) rest
      = ([], .opener .item (bareToken false ['*']), rest) := rfl
  have group : Token.ofBody? ['*'] = some (bareToken false ['*']) := by decide
  show pieces ('[' :: (['*'] ++ ']' :: rest)) = _
  rw [pieces_group (by decide) group, lexeme, List.append_nil]

/-! ### Code -/

/-- A text that starts with `beginning` up to the case of its letters does so in
lower case. -/
theorem prefix_lower_of_afterFold? {beginning t rest : Text}
    (found : Text.afterFold? beginning t = some rest) : beginning <+: Text.lower t := by
  have start := Text.map_toLower_take_of_afterFold? found
  rw [List.map_take] at start
  rw [← start]
  exact List.take_prefix _ _

/-- A closing tag has one bracket that opens, so it does not start inside what is
itself followed by a closing tag, unless it stands there as a whole. -/
theorem infix_of_prefix_append {tail front behind : Text} (single : '[' ∉ tail)
    (filled : front ≠ []) (start : '[' :: tail <+: front ++ '[' :: behind) :
    '[' :: tail <:+: front := by
  rcases List.prefix_or_prefix_of_prefix start (List.prefix_append _ _) with within | crossing
  · exact within.isInfix
  · obtain ⟨left, whole⟩ := crossing
    cases left with
    | nil =>
        rw [List.append_nil] at whole
        exact ⟨[], [], by rw [whole, List.nil_append, List.append_nil]⟩
    | cons c more =>
        rw [← whole, List.prefix_append_right_inj] at start
        have opens : c = '[' := (List.cons_prefix_cons.1 start).1
        obtain ⟨first, others, rfl⟩ := List.exists_cons_of_ne_nil filled
        rw [List.cons_append, List.cons.injEq] at whole
        have second : '[' ∈ tail := by
          rw [← whole.2, opens]
          exact List.mem_append_right _ List.mem_cons_self
        exact absurd second single

/-- At no place before its end does a content without a closing tag start one, not even together
with the closing tag behind it. -/
theorem afterFold?_code_eq_none {content : Text} (filled : content ≠ [])
    (endless : ¬"[/code]".toList <:+: Text.lower content) (rest : Text) :
    Text.afterFold? (closerText "code".toList) (content ++ (closerText "code".toList ++ rest))
      = none := by
  cases found : Text.afterFold? (closerText "code".toList)
      (content ++ (closerText "code".toList ++ rest)) with
  | none => rfl
  | some behind =>
      have start := prefix_lower_of_afterFold? found
      have lowered : Text.lower (content ++ (closerText "code".toList ++ rest))
          = Text.lower content ++ '[' :: Text.lower ("/code]".toList ++ rest) := by
        rw [Text.lower, List.map_append]
        rfl
      have lowerFilled : Text.lower content ≠ [] := by
        simpa [Text.lower] using filled
      rw [lowered] at start
      have single : '[' ∉ "/code]".toList := by decide
      have inside : '[' :: "/code]".toList <:+: Text.lower content :=
        infix_of_prefix_append single lowerFilled start
      exact absurd inside endless

theorem cut?_code {content : Text} (endless : ¬"[/code]".toList <:+: Text.lower content)
    (rest : Text) :
    Text.cut? (Text.afterFold? (closerText "code".toList))
      (content ++ (closerText "code".toList ++ rest)) = some (content, rest) := by
  induction content with
  | nil => rfl
  | cons c later ih =>
      have shorter : ¬"[/code]".toList <:+: Text.lower later := by
        intro inside
        exact endless (inside.trans (List.suffix_cons _ _).isInfix)
      have here := afterFold?_code_eq_none (List.cons_ne_nil c later) endless rest
      rw [List.cons_append] at here ⊢
      rw [Text.cut?, here, ih shorter]
      rfl

theorem findCloser?_code {content : Text}
    (endless : ¬"[/code]".toList <:+: Text.lower content) (rest : Text) :
    findCloser? "code".toList (content ++ (closerText "code".toList ++ rest))
      = some (content, closerText "code".toList, rest) := by
  unfold findCloser?
  rw [cut?_code endless, Option.map_some]
  show some (content, ((content ++ _).drop content.length).take _, rest) = _
  rw [List.drop_left, List.take_left]

/-- Code is read as one piece up to its closing tag, whatever stands behind that. -/
theorem pieces_code {content : Text} (endless : ¬"[/code]".toList <:+: Text.lower content)
    (rest : Text) :
    ∃ source, pieces (openerText "code".toList
        ++ (content ++ (closerText "code".toList ++ rest)))
      = ⟨source, .whole (Element.ofText Tag.code content)⟩ :: pieces rest := by
  have group : Token.ofBody? "code".toList = some (bareToken false "code".toList) := by decide
  have lexeme : tokenLexeme (bareToken false "code".toList)
        (content ++ (closerText "code".toList ++ rest))
      = (content ++ closerText "code".toList, .whole (Element.ofText Tag.code content), rest) := by
    have known : Bracket.ofName? (bareToken false "code".toList).name = some .code := by decide
    unfold tokenLexeme openerLexeme
    rw [known]
    simp only [bareToken, if_pos, findCloser?_code endless]
    rfl
  refine ⟨(bareToken false "code".toList).text ++ (content ++ closerText "code".toList), ?_⟩
  show pieces ('[' :: ("code".toList
    ++ ']' :: (content ++ (closerText "code".toList ++ rest)))) = _
  rw [pieces_group (by decide) group, lexeme]

end Bbcode
end ForumMarkup
