import ForumMarkup.Proofs.Bbcode.Groups
import ForumMarkup.Proofs.Bbcode.Warnings
import ForumMarkup.Proofs.Text.Places

/-!
Contract: the closing tags of elements whose content is taken as it is written.

Owns:
- `closerPlaces?`, where the first closing tag of a name stands at or behind a byte, and
  `lowerCloserPlaces?`, where it stands in the copy of the text in lower case;
- `TakesContent`, what an opening tag makes of the text from its place to the next one;
- `Advances`, what is known of the places before and behind a piece.

Main statement: `closing_tags_found_in_place`.
-/

set_option autoImplicit false

namespace ForumMarkup.Bbcode

/-- Where the first closing tag of a name, at or behind a byte, starts and ends. -/
def closerPlaces? (input : Text) (start : Nat) (name : Text) : Option (Nat × Nat) :=
  (Text.behind? input start).bind fun rest =>
    (findCloser? name rest).map fun found =>
      (start + Text.byteLength found.1,
        start + Text.byteLength found.1 + Text.byteLength found.2.1)

/-- The same places, looked for in a copy of the rest in lower case. -/
def lowerCloserPlaces? (input : Text) (start : Nat) (name : Text) : Option (Nat × Nat) :=
  (Text.behind? input start).bind fun rest =>
    (Text.cutAt? (closerText name) (Text.lower rest)).map fun found =>
      (start + Text.byteLength found.1,
        start + Text.byteLength found.1 + Text.byteLength (closerText name))

/-- An opening tag whose content is taken as it is written. -/
def TakesPlain (token : Token) : Prop :=
  token.closing = false ∧ ∃ bracket, Bracket.ofName? token.name = some bracket ∧
    (bracket = .code ∨ (plainElement? bracket token).isSome)

/-- What such a tag, which stands at `start`, makes of the text up to `next`. -/
inductive TakesContent (input : Text) (start next : Nat) (token : Token) : Lexeme → Prop where
  /-- It takes the text up to the first closing tag. -/
  | closed (element : Element) (first : Nat)
      (found : closerPlaces? input (start + Text.byteLength token.text) token.name
        = some (first, next))
      (slice : Text.IsSlice input (start + Text.byteLength token.text) first element.textContent)
      (bare : ∀ offset, ¬Text.Spells (closerText token.name) element.textContent offset) :
      TakesContent input start next token (.whole element)
  /-- Code without a closing tag takes all that follows. -/
  | endless (element : Element) (isCode : token.name = "code".toList)
      (missing : closerPlaces? input (start + Text.byteLength token.text) token.name = none)
      (slice : Text.IsSlice input (start + Text.byteLength token.text) next element.textContent)
      (ends : next = Text.byteLength input)
      (bare : ∀ offset, ¬Text.Spells (closerText token.name) element.textContent offset) :
      TakesContent input start next token (.endlessCode element)
  /-- Any other tag without a closing tag is text. -/
  | verbatim (other : token.name ≠ "code".toList)
      (missing : closerPlaces? input (start + Text.byteLength token.text) token.name = none)
      (ends : next = start + Text.byteLength token.text) :
      TakesContent input start next token .verbatim

/-- The piece between two places of a text goes forward to a character boundary, and a tag
in it that takes its content takes it up to the closing tag. -/
structure Advances (input : Text) (start next : Nat) (lexeme : Lexeme) : Prop where
  forward : start < next
  boundary : Text.IsBoundary input next
  within : next ≤ Text.byteLength input
  takes : ∀ token, TokenAt input start token → TakesPlain token →
    TakesContent input start next token lexeme

/-! ### The search -/

variable {input rest name : Text} {start first next : Nat}

theorem lower_closerText (low : Text.lower name = name) :
    Text.lower (closerText name) = closerText name := by
  have named : name.map Char.toLower = name := low
  simp only [Text.lower, closerText, List.map_cons, List.map_append, List.map_nil, named]
  rfl

theorem findCloser?_eq_none_iff (low : Text.lower name = name) :
    findCloser? name rest = none ↔ ∀ offset, ¬Text.Spells (closerText name) rest offset := by
  rw [findCloser?, Option.map_eq_none_iff]
  exact Text.cut?_afterFold?_eq_none_iff (lower_closerText low)

/-- A closing tag is as long as it is in lower case. -/
theorem byteLength_closer {content closer after : Text}
    (found : findCloser? name rest = some (content, closer, after)) :
    Text.byteLength closer = Text.byteLength (closerText name) := by
  obtain ⟨⟨before, tail⟩, cut, same⟩ := Option.map_eq_some_iff.1 found
  cases same
  obtain ⟨there, rfl, recognised⟩ := Text.exists_of_cut? cut
  have spells := Text.map_toLower_take_of_afterFold? recognised
  rw [List.drop_left, ← Text.byteLength_lower, Text.lower, spells]

theorem firstSpelled_of_findCloser? (low : Text.lower name = name) {content closer after : Text}
    (found : findCloser? name rest = some (content, closer, after)) :
    Text.FirstSpelled (closerText name) rest 0 (Text.byteLength content) := by
  obtain ⟨⟨before, tail⟩, cut, same⟩ := Option.map_eq_some_iff.1 found
  cases same
  exact Text.firstSpelled_of_cut?_afterFold? (lower_closerText low) cut

theorem closerPlaces?_of_behind? (here : Text.behind? input start = some rest) :
    closerPlaces? input start name
      = (findCloser? name rest).map fun found =>
        (start + Text.byteLength found.1,
          start + Text.byteLength found.1 + Text.byteLength found.2.1) := by
  rw [closerPlaces?, here, Option.bind_some]

theorem closerPlaces?_eq_none_iff (low : Text.lower name = name)
    (here : Text.IsBoundary input start) :
    closerPlaces? input start name = none
      ↔ ∀ offset, start ≤ offset → ¬Text.Spells (closerText name) input offset := by
  obtain ⟨rest, here⟩ := Option.isSome_iff_exists.1 here
  rw [closerPlaces?_of_behind? here, Option.map_eq_none_iff, findCloser?_eq_none_iff low,
    Text.forall_spells_iff here]

/-- The search finds the first place where a closing tag is spelled, and nothing else. -/
theorem closerPlaces?_eq_some_iff (low : Text.lower name = name)
    (here : Text.IsBoundary input start) :
    closerPlaces? input start name = some (first, next)
      ↔ Text.FirstSpelled (closerText name) input start first ∧
        next = first + Text.byteLength (closerText name) := by
  obtain ⟨rest, here⟩ := Option.isSome_iff_exists.1 here
  rw [closerPlaces?_of_behind? here]
  constructor
  · intro places
    obtain ⟨⟨content, closer, after⟩, found, same⟩ := Option.map_eq_some_iff.1 places
    cases same
    refine ⟨(Text.firstSpelled_add_iff here _).2 (firstSpelled_of_findCloser? low found), ?_⟩
    rw [byteLength_closer found]
  · rintro ⟨place, rfl⟩
    obtain ⟨offset, rfl⟩ := Nat.exists_eq_add_of_le place.behind
    have inside := (Text.firstSpelled_add_iff here offset).1 place
    cases found : findCloser? name rest with
    | none => exact absurd inside.spells ((findCloser?_eq_none_iff low).1 found offset)
    | some parts =>
        obtain ⟨content, closer, after⟩ := parts
        obtain rfl := (firstSpelled_of_findCloser? low found).unique inside
        rw [Option.map_some, ← byteLength_closer found]

/-- The closing tag starts and ends at character boundaries. -/
theorem isBoundary_of_closerPlaces?
    (places : closerPlaces? input start name = some (first, next)) :
    Text.IsBoundary input first ∧ Text.IsBoundary input next := by
  obtain ⟨rest, here, behind⟩ := Option.bind_eq_some_iff.1 places
  obtain ⟨⟨content, closer, after⟩, found, same⟩ := Option.map_eq_some_iff.1 behind
  cases same
  obtain ⟨front, rfl, rfl⟩ := Text.exists_of_behind? here
  rw [findCloser?_eq_some found, ← Text.byteLength_append, ← Text.byteLength_append]
  constructor
  · have cut := Text.isBoundary_append (front ++ content) (closer ++ after)
    simpa only [List.append_assoc] using cut
  · have cut := Text.isBoundary_append (front ++ content ++ closer) after
    simpa only [List.append_assoc] using cut

/-- The copy in lower case has its closing tags where the text has them. -/
theorem lowerCloserPlaces?_eq (input : Text) (start : Nat) (name : Text) :
    lowerCloserPlaces? input start name = closerPlaces? input start name := by
  unfold lowerCloserPlaces? closerPlaces?
  cases Text.behind? input start with
  | none => rfl
  | some rest =>
      rw [Option.bind_some, Option.bind_some, Text.cutAt?_lower]
      cases found : findCloser? name rest with
      | none =>
          rw [findCloser?, Option.map_eq_none_iff] at found
          rw [found]
          rfl
      | some parts =>
          obtain ⟨content, closer, after⟩ := parts
          have width := byteLength_closer found
          obtain ⟨⟨before, tail⟩, cut, same⟩ := Option.map_eq_some_iff.1 found
          cases same
          rw [cut, Option.map_some, Option.map_some, Option.map_some, Text.byteLength_lower,
            ← width]

/-! ### The pieces -/

theorem Bracket.name_ne_code {bracket : Bracket} (found : Bracket.ofName? name = some bracket)
    (other : bracket ≠ .code) : name ≠ "code".toList := by
  rintro rfl
  have code : Bracket.ofName? "code".toList = some .code := by decide
  exact other (Option.some.inj (found.symm.trans code))

theorem lower_name (token : Token) : Text.lower token.name = token.name :=
  Text.lower_lower token.spelling

variable {token : Token}

/-- A closing tag that is found ends an element with the text before it. -/
theorem takesContent_closed (here : Text.behind? input (start + Text.byteLength token.text)
      = some rest) {content closer after : Text}
    (found : findCloser? token.name rest = some (content, closer, after)) {element : Element}
    (holds : element.textContent = content) :
    TakesContent input start
      (start + Text.byteLength (token.text ++ (content ++ closer))) token (.whole element) := by
  have shape := findCloser?_eq_some found
  have place := firstSpelled_of_findCloser? (lower_name token) found
  have width : start + Text.byteLength (token.text ++ (content ++ closer))
      = start + Text.byteLength token.text + Text.byteLength content
        + Text.byteLength closer := by
    rw [Text.byteLength_append, Text.byteLength_append]
    omega
  refine .closed element (start + Text.byteLength token.text + Text.byteLength content) ?_ ?_ ?_
  · rw [closerPlaces?_of_behind? here, found, Option.map_some, width]
  · refine ⟨closer ++ after, ?_, by rw [holds]⟩
    rw [here, shape, holds, List.append_assoc]
  · rw [shape, List.append_assoc] at place
    rw [holds]
    exact place.not_spells (List.cons_ne_nil _ _)

theorem closerPlaces?_eq_none (here : Text.behind? input start = some rest)
    (missing : findCloser? name rest = none) : closerPlaces? input start name = none := by
  rw [closerPlaces?_of_behind? here, missing, Option.map_none]

theorem takesContent_endless (here : Text.behind? input (start + Text.byteLength token.text)
      = some rest) (called : token.name = "code".toList)
    (missing : findCloser? token.name rest = none) {element : Element}
    (holds : element.textContent = rest) :
    TakesContent input start (start + Text.byteLength (token.text ++ rest)) token
      (.endlessCode element) := by
  have width : start + Text.byteLength (token.text ++ rest)
      = start + Text.byteLength token.text + Text.byteLength rest := by
    rw [Text.byteLength_append, Nat.add_assoc]
  refine .endless element called (closerPlaces?_eq_none here missing) ?_ ?_ ?_
  · refine ⟨[], ?_, ?_⟩
    · rw [here, holds, List.append_nil]
    · rw [width, holds]
  · obtain ⟨front, shape, size⟩ := Text.exists_of_behind? here
    rw [width, shape, Text.byteLength_append, size]
  · rw [holds]
    exact (findCloser?_eq_none_iff (lower_name token)).1 missing

/-- An opening tag takes the text up to its closing tag, or all of it for code that is never
closed. -/
theorem takesContent_tokenLexeme (here : Text.behind? input (start + Text.byteLength token.text)
      = some rest) (plain : TakesPlain token) :
    TakesContent input start
      (start + Text.byteLength (token.text ++ (tokenLexeme token rest).1)) token
      (tokenLexeme token rest).2.1 := by
  obtain ⟨opens, bracket, named, takes⟩ := plain
  rw [tokenLexeme, named]
  simp only [opens, Bool.false_eq_true, if_false, openerLexeme]
  by_cases isCode : bracket = .code
  · subst isCode
    have called : token.name = "code".toList := Bracket.name_of_ofName? named (by decide)
    rw [if_pos rfl, ← called]
    cases found : findCloser? token.name rest with
    | some parts => exact takesContent_closed here found (holds_codeElement token _).1
    | none =>
        exact takesContent_endless here called found (holds_codeElement token rest).1
  · rw [if_neg isCode]
    obtain ⟨build, made⟩ := Option.isSome_iff_exists.1 (takes.resolve_left isCode)
    rw [made]
    cases found : findCloser? token.name rest with
    | some parts => exact takesContent_closed here found (holds_of_plainElement? made _).1
    | none =>
        refine .verbatim (Bracket.name_ne_code named isCode) (closerPlaces?_eq_none here found) ?_
        rw [List.append_nil]

/-- Where a token stands, the next piece is read from it. -/
theorem exists_nextPiece_of_tokenAt {c : Char} (here : Text.behind? input start = some (c :: rest))
    (stands : TokenAt input start token) :
    ∃ behind, (nextPiece c rest).1
        = ⟨token.text ++ (tokenLexeme token behind).1, (tokenLexeme token behind).2.1⟩ ∧
      Text.behind? input (start + Text.byteLength token.text) = some behind := by
  obtain ⟨before, inner, behind, rfl, rfl, scanned⟩ := stands
  -- both texts follow the same place
  rw [Text.behind?_append] at here
  obtain ⟨rfl, rfl⟩ := List.cons.inj (Option.some.inj here)
  have group : '[' :: inner = token.text ++ behind := by
    rw [Token.scan?_eq_some scanned, Token.text]
    simp
  refine ⟨behind, ?_, ?_⟩
  · rw [nextPiece, if_pos rfl, scanned]
  · rw [Text.behind?_append_add, group, Text.behind?_append]

/-- The reader goes on from every piece, to a character boundary. -/
theorem advances_of_pieces {earlier later : List Piece} {piece : Piece}
    (split : pieces input = earlier ++ piece :: later) :
    Advances input (Text.byteLength (earlier.flatMap Piece.source))
      (Text.byteLength ((earlier ++ [piece]).flatMap Piece.source)) piece.lexeme := by
  have whole : input = (earlier ++ [piece]).flatMap Piece.source ++ later.flatMap Piece.source := by
    rw [← List.flatMap_append, List.append_assoc, List.singleton_append, ← split,
      flatMap_source_pieces]
  have width : Text.byteLength ((earlier ++ [piece]).flatMap Piece.source)
      = Text.byteLength (earlier.flatMap Piece.source) + Text.byteLength piece.source := by
    rw [List.flatMap_append, Text.byteLength_append, List.flatMap_singleton]
  refine ⟨?_, ?_, ?_, ?_⟩
  · have wide : 0 < Text.byteLength piece.source := by
      apply byteLength_source_pos (t := input)
      rw [split]
      exact List.mem_append_right _ List.mem_cons_self
    omega
  · rw [whole]
    exact Text.isBoundary_append _ _
  · rw [whole, Text.byteLength_append]
    exact Nat.le_add_right _ _
  · intro token stands plain
    obtain ⟨c, rest, shape, same⟩ := exists_nextPiece_of_pieces split
    have here := Text.behind?_append (earlier.flatMap Piece.source) (c :: rest)
    rw [← shape] at here
    obtain ⟨behind, read, afterToken⟩ := exists_nextPiece_of_tokenAt here stands
    rw [width, same, read]
    exact takesContent_tokenLexeme afterToken plain

/-- The search for a closing tag finds nothing only if none stands at or behind the place
where it starts, and otherwise the first one, with its places in the text as it was given.
So an element that takes its content as it is written takes none of its closing tags, and
every piece ends at a character boundary behind its start. -/
theorem closing_tags_found_in_place (input : Text) :
    (∀ start name, Text.IsBoundary input start → Text.lower name = name →
      (closerPlaces? input start name = none
        ↔ ∀ offset, start ≤ offset → ¬Text.Spells (closerText name) input offset) ∧
      (∀ first next, closerPlaces? input start name = some (first, next)
        ↔ Text.FirstSpelled (closerText name) input start first ∧
          next = first + Text.byteLength (closerText name)) ∧
      (∀ first next, closerPlaces? input start name = some (first, next)
        → Text.IsBoundary input first ∧ Text.IsBoundary input next) ∧
      lowerCloserPlaces? input start name = closerPlaces? input start name) ∧
    ∀ earlier piece later, pieces input = earlier ++ piece :: later →
      Advances input (Text.byteLength (earlier.flatMap Piece.source))
        (Text.byteLength ((earlier ++ [piece]).flatMap Piece.source)) piece.lexeme := by
  constructor
  · intro start name here low
    exact ⟨closerPlaces?_eq_none_iff low here, fun _ _ => closerPlaces?_eq_some_iff low here,
      fun _ _ => isBoundary_of_closerPlaces?, lowerCloserPlaces?_eq input start name⟩
  · intro earlier piece later split
    exact advances_of_pieces split

/-- The content is a capital outside ASCII, which takes more bytes in lower case. -/
theorem closing_tags_found_in_place_dottedCapital :
    Text.FirstSpelled (closerText "url".toList) "é[Url]İ[/URL]x".toList 7 9 ∧
      Advances "é[Url]İ[/URL]x".toList 2 15 (.whole (valueElement Tag.url Key.url ['İ'])) := by
  have found := closing_tags_found_in_place "é[Url]İ[/URL]x".toList
  constructor
  · have places := (found.1 7 "url".toList (by decide) (by decide)).2.1 9 15
    exact (places.1 (by decide)).1
  · exact found.2 [⟨['é'], .char 'é'⟩]
      ⟨"[Url]İ[/URL]".toList, .whole (valueElement Tag.url Key.url ['İ'])⟩ [⟨['x'], .char 'x'⟩]
      (by with_unfolding_all rfl)

end ForumMarkup.Bbcode
