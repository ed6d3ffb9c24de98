import Mathlib.Data.List.Induction
import Mathlib.Data.List.Nodup
import ForumMarkup.Proofs.Bbcode.OpenTags

/-!
Contract: the warnings of the BBCode reader and the tags they are about.

Owns:
- `TokenAt`, where the bracket tokens of a text stand, and `SitsOn`, what the cause of a
  warning says about the token there;
- `Ends`, how the element of a tag ends, told from the open tags before and after each
  piece and from the warnings;
- `Ledger`, what is known when some of the pieces are read.

Main statement: `read_warnings`.

The ledger keeps the tags that are no longer open together with the way they ended, so
that a tag never gets lost.  As every piece stands behind the ones before it, no two
entries of it share a place.
-/

set_option autoImplicit false

open scoped List

namespace ForumMarkup.Bbcode

/-! ### Tokens -/

/-- A bracket token starts at a byte of the text. -/
def TokenAt (input : Text) (offset : Nat) (token : Token) : Prop :=
  ∃ before rest behind, input = before ++ '[' :: rest ∧ Text.byteLength before = offset ∧
    Token.scan? rest = some (token, behind)

/-- What a warning of the given cause says about the token it stands on. -/
def SitsOn (token : Token) : Cause → Prop
  | .unclosedTag name =>
      token.closing = false ∧
        ∃ bracket, Bracket.ofName? token.name = some bracket ∧ name = bracket.warningName
  | .unmatchedClose name => token.closing = true ∧ name = String.ofList token.name
  | .misplaced name => token.closing = false ∧ token.name = ['*'] ∧ name = "*"

/-- A warning stands on a token that fits its cause. -/
def Warned (input : Text) (warning : Warning) : Prop :=
  ∃ offset token, warning.offset? = some offset ∧ TokenAt input offset token ∧
    SitsOn token warning.cause

/-- A tag was opened by a token of its kind. -/
def OpenedIn (input : Text) (tag : OpenTag) : Prop :=
  ∃ token, TokenAt input tag.offset token ∧ token.closing = false ∧
    Bracket.ofName? token.name = some tag.bracket

theorem warned_unclosedWarning {input : Text} {tag : OpenTag} (opened : OpenedIn input tag) :
    Warned input tag.unclosedWarning := by
  obtain ⟨token, here, opening, named⟩ := opened
  exact ⟨tag.offset, token, rfl, here, opening, tag.bracket, named, rfl⟩

/-- The token that a lexeme at a byte of the text was read from. -/
def Lexeme.StandsAt (input : Text) (offset : Nat) : Lexeme → Prop
  | .opener bracket token =>
      TokenAt input offset token ∧ token.closing = false ∧
        Bracket.ofName? token.name = some bracket
  | .closer _ token => TokenAt input offset token ∧ token.closing = true
  | .endlessCode _ => OpenedIn input ⟨.code, offset⟩
  | .char _ | .carriageReturn | .lineFeed | .verbatim | .whole _ => True

/-- What a bracket group becomes still tells the token at its place. -/
theorem standsAt_tokenLexeme {input : Text} {offset : Nat} {token : Token}
    (here : TokenAt input offset token) (rest : Text) :
    (tokenLexeme token rest).2.1.StandsAt input offset := by
  unfold tokenLexeme
  split
  · trivial
  · next bracket named =>
      split
      · next closes => exact ⟨here, closes⟩
      · next opens =>
          have opening : token.closing = false := Bool.eq_false_iff.2 opens
          unfold openerLexeme
          split
          · next isCode =>
              split
              · trivial
              · exact ⟨token, here, opening, isCode ▸ named⟩
          · split
            · exact ⟨here, opening, named⟩
            · split <;> trivial

/-- Every piece knows the token at its place in the whole input. -/
theorem standsAt_nextPiece (before : Text) (c : Char) (rest : Text) :
    (nextPiece c rest).1.lexeme.StandsAt (before ++ c :: rest) (Text.byteLength before) := by
  unfold nextPiece
  split
  · next bracket =>
      split
      · next token behind found =>
          exact standsAt_tokenLexeme ⟨before, rest, behind, by rw [bracket], rfl, found⟩ behind
      · trivial
  · split
    · trivial
    · split <;> trivial

/-- A piece is the first one of the text behind the pieces before it. -/
theorem exists_nextPiece_of_pieces {t : Text} {front back : List Piece} {piece : Piece}
    (split : pieces t = front ++ piece :: back) :
    ∃ c rest, t = front.flatMap Piece.source ++ c :: rest ∧ piece = (nextPiece c rest).1 := by
  induction front generalizing t with
  | nil =>
      cases t with
      | nil => simp [pieces] at split
      | cons c rest =>
          rw [pieces] at split
          exact ⟨c, rest, rfl, (List.cons.inj split).1.symm⟩
  | cons first front ih =>
      cases t with
      | nil => simp [pieces] at split
      | cons c rest =>
          rw [pieces] at split
          obtain ⟨rfl, later⟩ := List.cons.inj split
          obtain ⟨next, behind, shape, same⟩ := ih later
          refine ⟨next, behind, ?_, same⟩
          rw [List.flatMap_cons, List.append_assoc, ← shape, nextPiece_source]

/-- A piece with a tag stands on the token of that tag. -/
theorem standsAt_of_pieces {t : Text} {front back : List Piece} {piece : Piece}
    (split : pieces t = front ++ piece :: back) :
    piece.lexeme.StandsAt t (Text.byteLength (front.flatMap Piece.source)) := by
  obtain ⟨c, rest, shape, rfl⟩ := exists_nextPiece_of_pieces split
  rw [shape]
  exact standsAt_nextPiece _ c rest

/-- A tag with a single spelling is found by this one only. -/
theorem Bracket.name_of_ofName? {name : Text} {bracket : Bracket} {spelling : String}
    (found : Bracket.ofName? name = some bracket)
    (single : ∀ entry ∈ Bracket.names, entry.2 = bracket → entry.1 = spelling) :
    name = spelling.toList := by
  obtain ⟨before, behind, shape, _⟩ := List.lookup_eq_some_iff.1 found
  have listed : (String.ofList name, bracket) ∈ Bracket.names := by
    rw [shape]
    exact List.mem_append_right before List.mem_cons_self
  have called : String.ofList name = spelling := single _ listed rfl
  rw [← called, String.toList_ofList]

/-- The warnings that a piece raises stand on its token, and so does a tag that it
opens. -/
theorem Moves.standsAt {input : Text} {offset : Nat} {rest : List OpenTag} {lexeme : Lexeme}
    {closed : List (OpenTag × Ending)} {opened : List OpenTag} {raised : List Warning}
    (moves : Moves offset rest lexeme closed opened raised)
    (here : lexeme.StandsAt input offset) :
    (∀ tag ∈ opened, OpenedIn input tag) ∧ ∀ warning ∈ raised, Warned input warning := by
  cases moves with
  | quiet => exact ⟨List.forall_mem_nil _, List.forall_mem_nil _⟩
  | opens other token => exact ⟨List.forall_mem_singleton.2 ⟨token, here⟩, List.forall_mem_nil _⟩
  | firstItem token => exact ⟨List.forall_mem_singleton.2 ⟨token, here⟩, List.forall_mem_nil _⟩
  | nextItem isItem token =>
      exact ⟨List.forall_mem_singleton.2 ⟨token, here⟩, List.forall_mem_nil _⟩
  | misplaced token =>
      obtain ⟨here, opening, named⟩ := here
      have called : token.name = "*".toList := Bracket.name_of_ofName? named (by decide)
      exact ⟨List.forall_mem_nil _, List.forall_mem_singleton.2
        ⟨offset, token, rfl, here, opening, called, rfl⟩⟩
  | unmatched bracket token =>
      obtain ⟨here, closes⟩ := here
      exact ⟨List.forall_mem_nil _, List.forall_mem_singleton.2
        ⟨offset, token, rfl, here, closes, rfl⟩⟩
  | closes others token => exact ⟨List.forall_mem_nil _, List.forall_mem_nil _⟩
  | endless element =>
      obtain ⟨token, here, opening, named⟩ := here
      have called : "code" = Bracket.code.warningName := by decide
      exact ⟨List.forall_mem_nil _, List.forall_mem_singleton.2
        ⟨offset, token, rfl, here, opening, .code, named, called⟩⟩

/-! ### How elements end -/

def reached (codes : List Text) (done : List Piece) : Assembly :=
  done.foldl (Assembly.step (prepareCodes codes)) {}

/-- The tags that are open once the given pieces are read, the innermost one first. -/
def openAfter (codes : List Text) (done : List Piece) : List OpenTag :=
  (reached codes done).skeleton.openTags

/-- The element of a tag is open before a piece and no longer open behind it. -/
def ClosesAt (codes : List Text) (before : List Piece) (piece : Piece) (tag : OpenTag) : Prop :=
  tag ∈ openAfter codes before ∧ tag ∉ openAfter codes (before ++ [piece])

/-- The ways in which a piece ends the element of a tag. -/
inductive EndsAt (codes : List Text) (before : List Piece) (piece : Piece) (tag : OpenTag) :
    Ending → Prop where
  /-- By a closing tag of its own. -/
  | ownTag (token : Token) (closer : piece.lexeme = .closer tag.bracket token)
      (closes : ClosesAt codes before piece tag) : EndsAt codes before piece tag .ownTag
  /-- As the innermost element, an item, by the next item. -/
  | nextItem (token : Token) (isItem : tag.bracket = .item)
      (next : piece.lexeme = .opener .item token)
      (innermost : (openAfter codes before).head? = some tag)
      (closes : ClosesAt codes before piece tag) : EndsAt codes before piece tag .implicit
  /-- As an item, by the closing tag of the list directly around it. -/
  | list (token : Token) (list : OpenTag) (isItem : tag.bracket = .item)
      (isList : list.bracket = .list) (closer : piece.lexeme = .closer .list token)
      (around : [tag, list] <:+: openAfter codes before)
      (closes : ClosesAt codes before piece tag) (closesList : ClosesAt codes before piece list) :
      EndsAt codes before piece tag .implicit

def isUnclosedAt (offset : Nat) (warning : Warning) : Bool :=
  warning.offset? == some offset &&
    match warning.cause with
    | .unclosedTag _ => true
    | _ => false

/-- The ways in which the element of a tag ends. -/
inductive Ends (codes : List Text) (input : Text) (tag : OpenTag) : Ending → Prop where
  /-- By one of the pieces. -/
  | piece {before after : List Piece} {piece : Piece} {ending : Ending}
      (split : pieces input = before ++ piece :: after)
      (ends : EndsAt codes before piece tag ending) :
      Ends codes input tag ending
  /-- As an item that is open at the end of the input. -/
  | atEnd (isItem : tag.bracket = .item) (stays : tag ∈ openAfter codes (pieces input)) :
      Ends codes input tag .implicit
  /-- With exactly one report that it was never closed. -/
  | reported (once : (read codes input).warnings.countP (isUnclosedAt tag.offset) = 1) :
      Ends codes input tag .reported

theorem reached_concat (codes : List Text) (done : List Piece) (piece : Piece) :
    reached codes (done ++ [piece]) = (reached codes done).step (prepareCodes codes) piece := by
  unfold reached
  rw [List.foldl_append]
  rfl

/-- What a piece does to the open tags and the warnings; `raised` are the warnings that
are not about the elements it closes. -/
structure Turn (codes : List Text) (done : List Piece) (piece : Piece)
    (closed : List (OpenTag × Ending)) (rest opened : List OpenTag) (raised : List Warning) :
    Prop where
  moves : Moves (reached codes done).skeleton.offset rest piece.lexeme closed opened raised
  tags : openAfter codes done = closed.map Prod.fst ++ rest
  after : openAfter codes (done ++ [piece]) = opened ++ rest
  warnings : (reached codes (done ++ [piece])).skeleton.warnings
    = raised ++ ((reports closed).reverse ++ (reached codes done).skeleton.warnings)
  place : (reached codes (done ++ [piece])).skeleton.offset
    = (reached codes done).skeleton.offset + Text.byteLength piece.source

theorem exists_turn (codes : List Text) (done : List Piece) (piece : Piece) :
    ∃ closed rest opened raised, Turn codes done piece closed rest opened raised := by
  obtain ⟨closed, rest, opened, raised, moves, tags, next⟩ :=
    Assembly.exists_moves_step (prepareCodes codes) (reached codes done) piece
  rw [← reached_concat] at next
  exact ⟨closed, rest, opened, raised, moves, tags,
    congrArg Assembly.Skeleton.openTags next, congrArg Assembly.Skeleton.warnings next,
    congrArg Assembly.Skeleton.offset next⟩

namespace Turn

variable {codes : List Text} {done : List Piece} {piece : Piece}
  {closed : List (OpenTag × Ending)} {rest opened : List OpenTag} {raised : List Warning}

/-- The tags that a piece closes are those that it takes from the top. -/
theorem closesAt_iff (turn : Turn codes done piece closed rest opened raised)
    (distinct : (openAfter codes done).Nodup)
    (new : ∀ tag ∈ opened, tag ∉ openAfter codes done) (tag : OpenTag) :
    ClosesAt codes done piece tag ↔ tag ∈ closed.map Prod.fst := by
  unfold ClosesAt
  rw [turn.after, List.mem_append, not_or]
  constructor
  · rintro ⟨stood, _, gone⟩
    rw [turn.tags, List.mem_append] at stood
    exact stood.resolve_right gone
  · intro member
    have stood : tag ∈ openAfter codes done := by
      rw [turn.tags]
      exact List.mem_append_left _ member
    rw [turn.tags] at distinct
    exact ⟨stood, fun again => new tag again stood,
      fun stays => (List.nodup_append.1 distinct).2.2 tag member tag stays rfl⟩

/-- A piece ends an element in the way that its move says. -/
theorem mem_closed_of_endsAt (turn : Turn codes done piece closed rest opened raised)
    (distinct : (openAfter codes done).Nodup)
    (closes : ∀ tag, ClosesAt codes done piece tag ↔ tag ∈ closed.map Prod.fst)
    {tag : OpenTag} {ending : Ending} (ends : EndsAt codes done piece tag ending) :
    (tag, ending) ∈ closed := by
  have moves := turn.moves
  have tags := turn.tags
  -- A closing tag closes a `target` with all that is open inside of it.
  have targeted : ∀ bracket token, piece.lexeme = .closer bracket token →
      ∀ target, target.bracket = bracket → ClosesAt codes done piece target →
        ∃ inner, closed = endingsInside bracket inner ++ [(target, .ownTag)] := by
    intro bracket token closer target same gone
    rw [closer] at moves
    have gone := (closes target).1 gone
    obtain rfl | ⟨inner, final, rfl, others, rfl⟩ := moves.of_closer
    · cases gone
    · rw [List.map_append, map_fst_endingsInside, List.mem_append] at gone
      have here := gone.resolve_left fun inside => others target inside same
      exact ⟨inner, by rw [List.mem_singleton.1 here]⟩
  cases ends with
  | ownTag token closer gone =>
      obtain ⟨inner, rfl⟩ := targeted tag.bracket token closer tag rfl gone
      exact List.mem_append_right _ (List.mem_singleton_self _)
  | nextItem token isItem next innermost gone =>
      rw [next] at moves
      obtain ⟨⟨_, ending⟩, member, rfl⟩ := List.mem_map.1 ((closes tag).1 gone)
      exact moves.of_opener_item _ member ▸ member
  | list token list isItem isList closer around gone goneList =>
      obtain ⟨inner, rfl⟩ := targeted .list token closer list isList goneList
      apply List.mem_append_left
      refine mem_endingsInside_implicit.2 ⟨rfl, isItem, ?_⟩
      obtain ⟨deeper, outer, shape⟩ := around
      rw [List.map_append, map_fst_endingsInside] at tags
      have same : inner ++ list :: rest = (deeper ++ [tag]) ++ list :: outer := by
        simpa using (shape.trans tags).symm
      have tags : openAfter codes done = inner ++ list :: rest := by simpa using tags
      rw [tags, List.nodup_middle, List.nodup_cons, List.mem_append, not_or] at distinct
      obtain ⟨⟨notInside, notAround⟩, _⟩ := distinct
      exact ⟨deeper, ((List.append_cons_inj_of_notMem notInside notAround).1 same).1⟩

/-- An element that a piece closes and does not report ends with it. -/
theorem endsAt_of_mem_closed (turn : Turn codes done piece closed rest opened raised)
    (closes : ∀ tag, ClosesAt codes done piece tag ↔ tag ∈ closed.map Prod.fst)
    {tag : OpenTag} {ending : Ending} (member : (tag, ending) ∈ closed)
    (other : ending ≠ .reported) : EndsAt codes done piece tag ending := by
  have gone := (closes tag).2 (List.mem_map_of_mem member)
  have moves := turn.moves
  have tags := turn.tags
  obtain ⟨source, lexeme⟩ := piece
  cases moves with
  | quiet | opens | firstItem | misplaced | unmatched | endless => cases member
  | nextItem isItem token =>
      cases List.mem_singleton.1 member
      exact .nextItem token isItem rfl (by rw [tags]; rfl) gone
  | @closes inner target others token =>
      rcases List.mem_append.1 member with inside | same
      · cases ending with
        | reported => exact absurd rfl other
        | ownTag => exact absurd inside (not_mem_endingsInside_ownTag _ _ _)
        | implicit =>
            obtain ⟨isList, isItem, deeper, rfl⟩ := mem_endingsInside_implicit.1 inside
            refine .list token target isItem isList (by rw [← isList]) ?_ gone
              ((closes target).2 (by simp))
            rw [tags, List.map_append, map_fst_endingsInside]
            exact ⟨deeper, rest, by simp⟩
      · cases List.mem_singleton.1 same
        exact .ownTag token rfl gone

end Turn

/-! ### The ledger -/

/-- What is known when some of the pieces are read: the elements that have ended, with how
they did, and the warnings that are not about them. -/
structure Ledger (codes : List Text) (input : Text) (done : List Piece)
    (ended : List (OpenTag × Ending)) (raised : List Warning) : Prop where
  place : (reached codes done).skeleton.offset = Text.byteLength (done.flatMap Piece.source)
  warnings : (reached codes done).skeleton.warnings ~ raised ++ reports ended
  /-- No two warnings or tags share a place. -/
  distinct : (raised.map Warning.offset?
    ++ offsets (openAfter codes done ++ ended.map Prod.fst)).Nodup
  earlier : ∀ offset? ∈ raised.map Warning.offset?
      ++ offsets (openAfter codes done ++ ended.map Prod.fst),
    ∃ offset < (reached codes done).skeleton.offset, offset? = some offset
  /-- A tag that was open is still open or has ended. -/
  met : ∀ before, before <+: done → ∀ tag ∈ openAfter codes before,
    tag ∈ openAfter codes done ++ ended.map Prod.fst
  opened : ∀ tag ∈ openAfter codes done ++ ended.map Prod.fst, OpenedIn input tag
  warned : ∀ warning ∈ raised, Warned input warning
  ends : ∀ tag ending, ((tag, ending) ∈ ended ∧ ending ≠ .reported)
    ↔ ∃ before piece after, done = before ++ piece :: after ∧ EndsAt codes before piece tag ending

theorem ledger_nil (codes : List Text) (input : Text) : Ledger codes input [] [] [] where
  place := rfl
  warnings := List.Perm.refl _
  distinct := List.nodup_nil
  earlier := List.forall_mem_nil _
  met before isPrefix tag member := by
    rw [List.prefix_nil.1 isPrefix] at member
    cases member
  opened := List.forall_mem_nil _
  warned := List.forall_mem_nil _
  ends tag ending := by simp

/-- The places in a list of pieces are those in front of the last one and that one. -/
theorem exists_split_concat {P : List Piece → Piece → Prop} {done : List Piece} {last : Piece} :
    (∃ before piece after, done ++ [last] = before ++ piece :: after ∧ P before piece)
      ↔ (∃ before piece after, done = before ++ piece :: after ∧ P before piece)
        ∨ P done last := by
  constructor
  · rintro ⟨before, piece, after, split, holds⟩
    rcases List.eq_nil_or_concat after with rfl | ⟨front, final, rfl⟩
    · obtain ⟨rfl, same⟩ := List.append_inj' split rfl
      exact .inr (List.singleton_inj.1 same ▸ holds)
    · rw [List.concat_eq_append, ← List.cons_append, ← List.append_assoc] at split
      obtain ⟨rfl, _⟩ := List.append_inj' split rfl
      exact .inl ⟨before, piece, front, rfl, holds⟩
  · rintro (⟨before, piece, after, rfl, holds⟩ | holds)
    · exact ⟨before, piece, after ++ [last], by simp, holds⟩
    · exact ⟨done, last, [], rfl, holds⟩

theorem byteLength_source_pos {t : Text} :
    ∀ piece ∈ pieces t, 0 < Text.byteLength piece.source := by
  fun_induction pieces t with
  | case1 => exact List.forall_mem_nil _
  | case2 c rest _ ih =>
      refine List.forall_mem_cons.2 ⟨?_, ih⟩
      have filled := nextPiece_source_ne_nil c rest
      obtain ⟨first, more, shape⟩ := List.exists_cons_of_ne_nil filled
      rw [shape]
      exact Nat.add_pos_left (Char.utf8Size_pos first) _

namespace Ledger

variable {codes : List Text} {input : Text} {done : List Piece} {piece : Piece}
  {ended closed : List (OpenTag × Ending)} {rest opened : List OpenTag} {raised new : List Warning}

theorem nodup_openAfter (ledger : Ledger codes input done ended raised) :
    (openAfter codes done).Nodup := by
  have tags := (List.nodup_append.1 ledger.distinct).2.1.of_map
  exact (List.nodup_append.1 tags).1

/-- The old entries stay, and what is new joins them. -/
theorem entries_perm (turn : Turn codes done piece closed rest opened new) :
    (new ++ raised).map Warning.offset?
        ++ offsets (openAfter codes (done ++ [piece]) ++ (ended ++ closed).map Prod.fst)
      ~ (new.map Warning.offset? ++ offsets opened) ++ (raised.map Warning.offset?
        ++ offsets (openAfter codes done ++ ended.map Prod.fst)) := by
  rw [turn.after, turn.tags, List.perm_iff_count]
  intro place
  simp only [offsets, List.map_append, List.count_append]
  omega

/-- A piece opens an element or raises a warning at its own place, where nothing stood
before. -/
theorem distinct_step (ledger : Ledger codes input done ended raised)
    (turn : Turn codes done piece closed rest opened new) :
    ((new ++ raised).map Warning.offset?
      ++ offsets (openAfter codes (done ++ [piece]) ++ (ended ++ closed).map Prod.fst)).Nodup := by
  rw [(entries_perm turn).nodup_iff]
  rcases turn.moves.places with none | one
  · rw [none, List.nil_append]
    exact ledger.distinct
  · rw [one, List.singleton_append, List.nodup_cons]
    refine ⟨fun again => ?_, ledger.distinct⟩
    obtain ⟨offset, before, same⟩ := ledger.earlier _ again
    cases same
    exact Nat.lt_irrefl _ before

/-- All that is known stands before the place that has been reached. -/
theorem earlier_step (ledger : Ledger codes input done ended raised)
    (turn : Turn codes done piece closed rest opened new)
    (wide : 0 < Text.byteLength piece.source) :
    ∀ offset? ∈ (new ++ raised).map Warning.offset?
        ++ offsets (openAfter codes (done ++ [piece]) ++ (ended ++ closed).map Prod.fst),
      ∃ offset < (reached codes (done ++ [piece])).skeleton.offset, offset? = some offset := by
  intro offset? member
  rw [(entries_perm turn).mem_iff, List.mem_append] at member
  rw [turn.place]
  rcases member with fresh | old
  · rcases turn.moves.places with none | one
    · rw [none] at fresh
      cases fresh
    · rw [one] at fresh
      exact ⟨_, Nat.lt_add_of_pos_right wide, List.mem_singleton.1 fresh⟩
  · obtain ⟨offset, before, same⟩ := ledger.earlier offset? old
    exact ⟨offset, Nat.lt_add_right _ before, same⟩

/-- A tag that a piece opens was not open before. -/
theorem not_mem_openAfter (ledger : Ledger codes input done ended raised)
    (turn : Turn codes done piece closed rest opened new) :
    ∀ tag ∈ opened, tag ∉ openAfter codes done := by
  intro tag isNew stood
  have fresh : some tag.offset ∈ new.map Warning.offset? ++ offsets opened :=
    List.mem_append_right _ (List.mem_map_of_mem isNew)
  have old : some tag.offset ∈ raised.map Warning.offset?
      ++ offsets (openAfter codes done ++ ended.map Prod.fst) :=
    List.mem_append_right _ (List.mem_map_of_mem (List.mem_append_left _ stood))
  have apart := (entries_perm turn).nodup_iff.1 (ledger.distinct_step turn)
  exact (List.nodup_append.1 apart).2.2 _ fresh _ old rfl

/-- One more piece. -/
theorem step (ledger : Ledger codes input done ended raised) {todo : List Piece}
    (split : pieces input = done ++ piece :: todo)
    (turn : Turn codes done piece closed rest opened new) :
    Ledger codes input (done ++ [piece]) (ended ++ closed) (new ++ raised) := by
  have here := standsAt_of_pieces split
  rw [← ledger.place] at here
  obtain ⟨openedHere, warnedHere⟩ := turn.moves.standsAt here
  have closes := turn.closesAt_iff ledger.nodup_openAfter (ledger.not_mem_openAfter turn)
  have wide : 0 < Text.byteLength piece.source := by
    apply byteLength_source_pos (t := input)
    rw [split]
    exact List.mem_append_right _ List.mem_cons_self
  have kept : ∀ tag, tag ∈ openAfter codes (done ++ [piece]) ++ (ended ++ closed).map Prod.fst
      ↔ tag ∈ opened ∨ tag ∈ openAfter codes done ++ ended.map Prod.fst := by
    intro tag
    rw [turn.after, turn.tags, List.map_append]
    simp only [List.mem_append]
    tauto
  exact {
    place := by
      rw [turn.place, ledger.place, List.flatMap_append, Text.byteLength_append]
      simp
    warnings := by
      rw [turn.warnings, reports_append]
      have flipped := List.reverse_perm (reports closed)
      rw [List.append_assoc, List.perm_iff_count]
      intro warning
      have same := ledger.warnings.count_eq warning
      rw [List.count_append] at same
      simp only [List.count_append, List.count_reverse]
      omega
    distinct := ledger.distinct_step turn
    earlier := ledger.earlier_step turn wide
    met := by
      intro before isPrefix tag stood
      rw [List.prefix_concat_iff] at isPrefix
      rcases isPrefix with rfl | isPrefix
      · exact List.mem_append_left _ stood
      · exact (kept tag).2 (.inr (ledger.met before isPrefix tag stood))
    opened := by
      intro tag member
      rcases (kept tag).1 member with isNew | old
      · exact openedHere tag isNew
      · exact ledger.opened tag old
    warned := List.forall_mem_append.2 ⟨warnedHere, ledger.warned⟩
    ends := by
      intro tag ending
      rw [exists_split_concat, ← ledger.ends, List.mem_append, or_and_right]
      refine or_congr_right ⟨fun ⟨member, other⟩ => turn.endsAt_of_mem_closed closes member other,
        fun ends => ⟨turn.mem_closed_of_endsAt ledger.nodup_openAfter closes ends, ?_⟩⟩
      cases ends <;> exact Ending.noConfusion }

end Ledger

/-- The ledger of any beginning of the pieces. -/
theorem exists_ledger (codes : List Text) {input : Text} {done todo : List Piece}
    (split : pieces input = done ++ todo) :
    ∃ ended raised, Ledger codes input done ended raised := by
  induction done using List.reverseRecOn generalizing todo with
  | nil => exact ⟨[], [], ledger_nil codes input⟩
  | append_singleton done piece ih =>
      rw [List.append_assoc] at split
      obtain ⟨ended, raised, ledger⟩ := ih split
      obtain ⟨closed, rest, opened, new, turn⟩ := exists_turn codes done piece
      exact ⟨_, _, ledger.step split turn⟩

/-! ### The whole input -/

/-- What is known of all elements of an input once it is read: how each of them ended, and
the warnings that are not about them. -/
structure Account (codes : List Text) (input : Text) (ended : List (OpenTag × Ending))
    (raised : List Warning) : Prop where
  warnings : (read codes input).warnings ~ raised ++ reports ended
  distinct : (raised.map Warning.offset? ++ offsets (ended.map Prod.fst)).Nodup
  met : ∀ done, done <+: pieces input → ∀ tag ∈ openAfter codes done, tag ∈ ended.map Prod.fst
  opened : ∀ tag ∈ ended.map Prod.fst, OpenedIn input tag
  warned : ∀ warning ∈ raised, Warned input warning
  ends : ∀ tag ending, ending ≠ .reported → ((tag, ending) ∈ ended ↔ Ends codes input tag ending)

theorem itemsInLists_reached (codes : List Text) (input : Text) :
    ItemsInLists (openAfter codes (pieces input)) := by
  have start : Assembly.Shaped (prepareCodes codes) {} := ⟨.nil, List.forall_mem_nil _⟩
  exact itemsInLists_of_stacked
    (Assembly.shaped_foldl_step start (regular_of_mem_pieces (t := input))).frames

/-- At the end of the input exactly the items end without a report. -/
theorem mem_endingsAtEnd {tags : List OpenTag} {tag : OpenTag} {ending : Ending}
    (other : ending ≠ .reported) :
    (tag, ending) ∈ endingsAtEnd tags
      ↔ tag.bracket = .item ∧ tag ∈ tags ∧ ending = .implicit := by
  simp only [endingsAtEnd, List.mem_map, Prod.mk.injEq]
  constructor
  · rintro ⟨_, member, rfl, rfl⟩
    split at other
    · next isItem => exact ⟨isItem, member, if_pos isItem⟩
    · exact absurd rfl other
  · rintro ⟨isItem, member, rfl⟩
    exact ⟨tag, member, rfl, if_pos isItem⟩

/-- From one piece to the next the ledger is kept, and at the end of the input it becomes the
account. -/
theorem exists_account (codes : List Text) (input : Text) :
    ∃ ended raised, Account codes input ended raised := by
  obtain ⟨ended, raised, ledger⟩ := exists_ledger codes (List.append_nil (pieces input)).symm
  refine ⟨ended ++ endingsAtEnd (openAfter codes (pieces input)), raised, ?_⟩
  have tags : (ended ++ endingsAtEnd (openAfter codes (pieces input))).map Prod.fst
      = ended.map Prod.fst ++ openAfter codes (pieces input) := by
    rw [List.map_append, map_fst_endingsAtEnd]
  exact {
    warnings := by
      have finished := Assembly.warnings_finish (prepareCodes codes)
        (itemsInLists_reached codes input)
      have reversed : (read codes input).warnings
          = ((reached codes (pieces input)).finish (prepareCodes codes)).warnings.reverse := rfl
      rw [reversed, finished, List.reverse_append, List.reverse_reverse, reports_append,
        ← List.append_assoc]
      exact ((List.reverse_perm _).trans ledger.warnings).append_right _
    distinct := by
      rw [tags, offsets, List.map_append]
      have entries := ledger.distinct
      rw [offsets, List.map_append] at entries
      exact (List.perm_append_comm.append_left _).nodup_iff.1 entries
    met := fun done isPrefix tag stood => by
      rw [tags, List.mem_append, or_comm, ← List.mem_append]
      exact ledger.met done isPrefix tag stood
    opened := fun tag member => by
      rw [tags, List.mem_append, or_comm, ← List.mem_append] at member
      exact ledger.opened tag member
    warned := ledger.warned
    ends := fun tag ending other => by
      have byPiece := ledger.ends tag ending
      rw [List.mem_append, mem_endingsAtEnd other]
      constructor
      · rintro (member | ⟨isItem, stays, rfl⟩)
        · obtain ⟨before, piece, after, split, ends⟩ := byPiece.1 ⟨member, other⟩
          exact .piece split ends
        · exact .atEnd isItem stays
      · intro ends
        cases ends with
        | piece split ends => exact .inl (byPiece.2 ⟨_, _, _, split, ends⟩).1
        | atEnd isItem stays => exact .inr ⟨isItem, stays, rfl⟩
        | reported => exact absurd rfl other }

/-- Where no two warnings share a place, there is exactly one report about a tag as soon as
there is one. -/
theorem countP_isUnclosedAt_eq_one {warnings : List Warning}
    (distinct : (warnings.map Warning.offset?).Nodup) (offset : Nat) :
    warnings.countP (isUnclosedAt offset) = 1
      ↔ ∃ warning ∈ warnings, isUnclosedAt offset warning = true := by
  have most : warnings.countP (isUnclosedAt offset) ≤ 1 := calc
    warnings.countP (isUnclosedAt offset)
      ≤ warnings.countP (fun warning => warning.offset? == some offset) :=
        List.countP_mono_left fun warning _ unclosed => (Bool.and_eq_true_iff.1 unclosed).1
    _ = (warnings.map Warning.offset?).count (some offset) := by
        rw [List.count, List.countP_map]
        rfl
    _ ≤ 1 := List.nodup_iff_count_le_one.1 distinct _
  rw [← List.countP_pos_iff]
  omega

namespace Account

variable {codes : List Text} {input : Text} {ended : List (OpenTag × Ending)}
  {raised : List Warning}

theorem nodup_offsets (account : Account codes input ended raised) :
    ((read codes input).warnings.map Warning.offset?).Nodup := by
  rw [(account.warnings.map Warning.offset?).nodup_iff, List.map_append]
  exact account.distinct.sublist ((offsets_reports_sublist ended).append_left _)

/-- Tags that share a place are the same, with the same ending. -/
theorem eq_of_offset_eq (account : Account codes input ended raised)
    {first second : OpenTag × Ending} (firstEnds : first ∈ ended) (secondEnds : second ∈ ended)
    (same : first.1.offset = second.1.offset) : first = second := by
  have distinct := (List.nodup_append.1 account.distinct).2.1
  rw [offsets, List.map_map] at distinct
  exact List.inj_on_of_nodup_map distinct firstEnds secondEnds (congrArg some same)

/-- An element was never closed exactly when there is one report about it. -/
theorem reported_iff (account : Account codes input ended raised) {tag : OpenTag}
    (member : tag ∈ ended.map Prod.fst) :
    (tag, .reported) ∈ ended ↔ Ends codes input tag .reported := by
  have once := countP_isUnclosedAt_eq_one account.nodup_offsets tag.offset
  constructor
  · intro reported
    refine .reported (once.2 ⟨tag.unclosedWarning, ?_, by
      simp [isUnclosedAt, OpenTag.unclosedWarning]⟩)
    rw [account.warnings.mem_iff, List.mem_append]
    exact .inr (mem_reports.2 ⟨tag, reported, rfl⟩)
  · intro ends
    cases ends with
    | piece _ ends => cases ends
    | reported count =>
        obtain ⟨warning, raisedIt, unclosed⟩ := once.1 count
        have place := beq_iff_eq.1 (Bool.and_eq_true_iff.1 unclosed).1
        obtain ⟨⟨same, ending⟩, ends, rfl⟩ := List.mem_map.1 member
        rw [account.warnings.mem_iff, List.mem_append] at raisedIt
        rcases raisedIt with other | reported
        · have here : some same.offset ∈ raised.map Warning.offset? := by
            rw [← place]
            exact List.mem_map_of_mem other
          exact absurd rfl ((List.nodup_append.1 account.distinct).2.2 _ here _
            (List.mem_map_of_mem member))
        · obtain ⟨found, foundEnds, rfl⟩ := mem_reports.1 reported
          have equal := account.eq_of_offset_eq foundEnds ends (Option.some.inj place)
          cases equal
          exact ends

/-- The element of a tag ends in exactly one way. -/
theorem existsUnique_ends (account : Account codes input ended raised) {tag : OpenTag}
    (member : tag ∈ ended.map Prod.fst) : ∃! ending, Ends codes input tag ending := by
  have told : ∀ ending, (tag, ending) ∈ ended ↔ Ends codes input tag ending := by
    intro ending
    by_cases other : ending = .reported
    · rw [other]
      exact account.reported_iff member
    · exact account.ends tag ending other
  obtain ⟨⟨_, ending⟩, ends, rfl⟩ := List.mem_map.1 member
  refine ⟨ending, (told ending).1 ends, fun second secondEnds => ?_⟩
  have same := account.eq_of_offset_eq ((told second).2 secondEnds) ends rfl
  exact (Prod.mk.inj same).2

end Account

/-- Reading succeeds.  Every warning stands on a token of the input that fits its cause, and
no two of them on the same one.  Every element that was ever open was opened by a token of
its kind, and ends in exactly one way: by a closing tag of its own, implicitly as an item,
or never, and then with exactly one report at its tag. -/
theorem read_warnings (codes : List Text) (input : Text) :
    ∃ reading, Format.bbcode.read codes input = .ok reading ∧
      (∀ warning ∈ reading.warnings, Warned input warning) ∧
      (reading.warnings.map Warning.offset?).Nodup ∧
      ∀ done, done <+: pieces input → ∀ tag ∈ openAfter codes done,
        OpenedIn input tag ∧ ∃! ending, Ends codes input tag ending := by
  obtain ⟨ended, raised, account⟩ := exists_account codes input
  refine ⟨read codes input, rfl, ?_, account.nodup_offsets, ?_⟩
  · intro warning member
    rw [account.warnings.mem_iff, List.mem_append] at member
    rcases member with other | reported
    · exact account.warned warning other
    · obtain ⟨tag, ends, rfl⟩ := mem_reports.1 reported
      exact warned_unclosedWarning (account.opened tag (List.mem_map_of_mem ends))
  · intro done isPrefix tag stood
    have member := account.met done isPrefix tag stood
    exact ⟨account.opened tag member, account.existsUnique_ends member⟩

/-- The second `[*]` stands inside bold text and is no item; the first one ends with its
list, so that only `[b]` and `[i]` were never closed. -/
example : (read [] "[list][*]a[b]x[*]y[/list][i]z[/s]".toList).warnings.map
      (fun warning => (warning.cause, warning.offset?))
    = [(.misplaced "*", some 14), (.unclosedTag "b", some 10),
      (.unmatchedClose "s", some 29), (.unclosedTag "i", some 25)] := by
  decide +kernel

end ForumMarkup.Bbcode
