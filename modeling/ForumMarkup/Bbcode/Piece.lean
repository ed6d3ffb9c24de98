import ForumMarkup.Bbcode.Bracket
import ForumMarkup.Bbcode.Parameters
import ForumMarkup.Bbcode.Token
import ForumMarkup.Element

/-!
Contract: BBCode cut into the pieces that a reader acts on one by one.

Owns:
- `Lexeme`, what a piece says, and `Piece`, a lexeme with the text it was read
  from;
- the elements whose content is taken as plain text;
- `pieces`, the pieces of a text.

Main statement: `flatMap_source_pieces`, the sources of the pieces make up the
text.

How a text is cut does not hang on which tags are open.
-/

set_option autoImplicit false

namespace ForumMarkup.Bbcode

/-- What a piece of BBCode says. -/
inductive Lexeme where
  /-- A character of text. -/
  | char (c : Char)
  /-- The carriage return of a line end, which has no effect. -/
  | carriageReturn
  /-- The line feed of a line end. -/
  | lineFeed
  /-- A bracket group that is kept as text. -/
  | verbatim
  /-- A tag that opens. -/
  | opener (bracket : Bracket) (token : Token)
  /-- A tag that closes. -/
  | closer (bracket : Bracket) (token : Token)
  /-- An element that was read with its content and its closing tag. -/
  | whole (element : Element)
  /-- Code without a closing tag, which runs to the end of the input. -/
  | endlessCode (element : Element)

/-- A lexeme and the text it was read from. -/
structure Piece where
  source : Text
  lexeme : Lexeme

/-- The identifier in the address of a video, or in what stands for one. -/
def videoId? (content : Text) : Option Text :=
  let id :=
    match Text.cutAt? "v=".toList content with
    | some (_, query) => query.takeWhile fun c => c != '&' && c != '#'
    | none =>
        match Text.cutAt? "youtu.be/".toList content with
        | some (_, path) => path.takeWhile fun c => c != '?' && c != '&' && c != '#'
        | none => content
  if !id.isEmpty && id.all fun c => c.isAlphanum || c == '-' || c == '_' then some id else none

/-- An element around a plain content, with the trimmed content as an attribute. -/
def valueElement (tag key : String) (content : Text) : Element :=
  (Element.ofText tag content).set key (Text.trim content)

def codeElement (token : Token) (content : Text) : Element :=
  let code := Element.ofText Tag.code content
  match token.filledArgument? with
  | some language => code.set Key.lang language
  | none => code

def videoElement (content : Text) : Element :=
  let video := Element.ofText Tag.video content
  match videoId? (Text.trim content) with
  | some id => video.set Key.id id
  | none => video

/-- An attachment with its content, a file name, and the index it gives. -/
def attachmentElement (token : Token) (content : Text) : Element :=
  let attachment := valueElement Tag.attachment Key.filename content
  match token.argument? with
  | some index => attachment.set Key.index index
  | none => attachment

/-- How a tag makes an element of the plain content up to its closing tag, if it
does so: always, or when the tag has no argument. -/
def plainElement? (bracket : Bracket) (token : Token) : Option (Text → Element) :=
  match bracket with
  | .image => some (valueElement Tag.image Key.src)
  | .video => some videoElement
  | .attachment => some (attachmentElement token)
  | .url => if token.argument?.isNone then some (valueElement Tag.url Key.url) else none
  | .email => if token.argument?.isNone then some (valueElement Tag.email Key.email) else none
  | _ => none

def closerText (name : Text) : Text :=
  '[' :: '/' :: (name ++ [']'])

/-- The text before the first closing tag of a name, in letters of any case, the
closing tag as written, and the text behind it. -/
def findCloser? (name t : Text) : Option (Text × Text × Text) :=
  (Text.cut? (Text.afterFold? (closerText name)) t).map fun (content, rest) =>
    (content, (t.drop content.length).take (closerText name).length, rest)

theorem findCloser?_eq_some {name t content closer rest : Text}
    (found : findCloser? name t = some (content, closer, rest)) :
    t = content ++ closer ++ rest := by
  simp only [findCloser?, Option.map_eq_some_iff, Prod.mk.injEq] at found
  obtain ⟨⟨before, tail⟩, cut, rfl, rfl, rfl⟩ := found
  obtain ⟨there, rfl, recognised⟩ := Text.exists_of_cut? cut
  simp [Text.take_append_of_afterFold? recognised]

/-- What an opening tag makes of the text behind it: the text it takes, the
lexeme, and the rest. -/
def openerLexeme (bracket : Bracket) (token : Token) (rest : Text) : Text × Lexeme × Text :=
  if bracket = .code then
    match findCloser? "code".toList rest with
    | some (content, closer, after) =>
        (content ++ closer, .whole (codeElement token content), after)
    | none => (rest, .endlessCode (codeElement token rest), [])
  else
    match plainElement? bracket token with
    | none => ([], .opener bracket token, rest)
    | some build =>
        match findCloser? token.name rest with
        | some (content, closer, after) => (content ++ closer, .whole (build content), after)
        | none => ([], .verbatim, rest)

/-- What a bracket group makes of the text behind it: the text it takes, the
lexeme, and the rest. -/
def tokenLexeme (token : Token) (rest : Text) : Text × Lexeme × Text :=
  match Bracket.ofName? token.name with
  | none => ([], .verbatim, rest)
  | some bracket =>
      if token.closing then ([], .closer bracket token, rest)
      else openerLexeme bracket token rest

/-- What a bracket group takes of the text behind it and what it leaves are that text. -/
theorem tokenLexeme_source (token : Token) (rest : Text) :
    (tokenLexeme token rest).1 ++ (tokenLexeme token rest).2.2 = rest := by
  unfold tokenLexeme openerLexeme
  split
  · rfl
  · split
    · rfl
    · split
      · split
        · next found => simp [findCloser?_eq_some found]
        · simp
      · split
        · rfl
        · split
          · next found => simp [findCloser?_eq_some found]
          · rfl

/-- The first piece of a text that is not empty, and the text behind it. -/
def nextPiece (c : Char) (rest : Text) : Piece × Text :=
  if c = '[' then
    match Token.scan? rest with
    | some (token, behind) =>
        let (taken, lexeme, after) := tokenLexeme token behind
        (⟨token.text ++ taken, lexeme⟩, after)
    | none => (⟨[c], .char c⟩, rest)
  else if c = '\n' then (⟨[c], .lineFeed⟩, rest)
  else if c = '\r' ∧ rest.head? = some '\n' then (⟨[c], .carriageReturn⟩, rest)
  else (⟨[c], .char c⟩, rest)

/-- The sources of the pieces of a text follow one another without a gap. -/
theorem nextPiece_source (c : Char) (rest : Text) :
    (nextPiece c rest).1.source ++ (nextPiece c rest).2 = c :: rest := by
  unfold nextPiece
  split
  · next bracket =>
      split
      · next token behind found =>
          have shape := Token.scan?_eq_some found
          have taken := tokenLexeme_source token behind
          simp [Token.text, shape, taken, bracket]
      · rfl
  · split
    · rfl
    · split <;> rfl

theorem nextPiece_source_ne_nil (c : Char) (rest : Text) :
    (nextPiece c rest).1.source ≠ [] := by
  unfold nextPiece
  split
  · split <;> simp [Token.text]
  · split
    · simp
    · split <;> simp

theorem nextPiece_length (c : Char) (rest : Text) :
    (nextPiece c rest).2.length < rest.length + 1 := by
  have parts := congrArg List.length (nextPiece_source c rest)
  have filled := List.length_pos_iff.2 (nextPiece_source_ne_nil c rest)
  simp only [List.length_append, List.length_cons] at parts
  omega

def pieces : Text → List Piece
  | [] => []
  | c :: rest =>
      have := nextPiece_length c rest
      (nextPiece c rest).1 :: pieces (nextPiece c rest).2
termination_by t => t.length

theorem flatMap_source_pieces (t : Text) : (pieces t).flatMap Piece.source = t := by
  fun_induction pieces t with
  | case1 => rfl
  | case2 c rest _ ih => rw [List.flatMap_cons, ih, nextPiece_source]

end ForumMarkup.Bbcode
