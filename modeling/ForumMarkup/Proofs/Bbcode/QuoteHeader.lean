import ForumMarkup.Bbcode.Parameters
import ForumMarkup.Proofs.Text.Core
import ForumMarkup.Proofs.Text.Decimal
import ForumMarkup.Proofs.Text.Trim
import Mathlib.Data.List.TakeWhile

/-!
Contract: what the header of a quote says about its source.

Owns:
- `numberParameter`, a named parameter with a number, and `sourceParameters`, the post,
  the time and the user behind an author;
- `PlainAuthor`, names that can be written without quotes;
- `Tells`, attributes with an author and some numbers, and nothing else.

Main statement: `quoteAttributes_header`.  An author is read back between quotes and, if
plain, without them, and so are the numbers behind.

Without quotes only the first blank in front of a named parameter ends the author.  Up to
there every blank is followed by a word and another blank before the next equals sign,
which is what `startsParameter_behind` says.
-/

set_option autoImplicit false

namespace ForumMarkup.Bbcode

/-- The attributes tell an author, unless it is empty, and the given numbers, and nothing
else. -/
structure Tells (author : Text) (given : List (String × Nat)) (attributes : Attributes) : Prop where
  author : attributes.get? Key.author = if author = [] then none else some author
  numbers : ∀ pair ∈ given, Attributes.number? attributes pair.1 = some pair.2
  only : ∀ key, attributes.contains key = true → key = Key.author ∨ key ∈ given.map Prod.fst

def authorAttributes (author : Text) : Attributes :=
  if author = [] then ∅ else .set ∅ Key.author author

/-- An author alone tells no number. -/
theorem tells_authorAttributes (author : Text) : Tells author [] (authorAttributes author) where
  author := by
    rw [authorAttributes]
    split
    · rfl
    · exact Dictionary.get?_set_self _ _ _
  numbers := List.forall_mem_nil _
  only key held := by
    rw [authorAttributes] at held
    split at held
    · cases held
    · refine .inl (Decidable.byContradiction fun other => ?_)
      rw [Dictionary.contains, Dictionary.get?_set_of_ne _ _ other] at held
      cases held

/-- A number more is told besides the author and the other numbers. -/
theorem Tells.setNumber {attributes : Attributes} {author : Text} {given : List (String × Nat)}
    (tells : Tells author given attributes) {key : String} {number : Nat}
    (small : number < Text.wordBound) (noAuthor : Key.author ≠ key)
    (fresh : key ∉ given.map Prod.fst) :
    Tells author (given ++ [(key, number)]) (attributes.set key (Text.ofNat number)) where
  author := by
    rw [Dictionary.get?_set_of_ne _ _ noAuthor]
    exact tells.author
  numbers := by
    intro pair member
    rcases List.mem_append.1 member with before | last
    · have other : pair.1 ≠ key := by
        rintro rfl
        exact fresh (List.mem_map_of_mem before)
      rw [Attributes.number?, Dictionary.get?_set_of_ne _ _ other]
      exact tells.numbers pair before
    · rw [List.mem_singleton.1 last, Attributes.number?, Dictionary.get?_set_self]
      exact Text.word?_ofNat small
  only := by
    intro other held
    rw [List.map_append]
    by_cases same : other = key
    · subst same
      exact .inr (List.mem_append_right _ List.mem_cons_self)
    · rw [Dictionary.contains, Dictionary.get?_set_of_ne _ _ same] at held
      exact (tells.only other held).imp id (List.mem_append_left _)

theorem bne_of_not_mem {t : Text} {stop : Char} (absent : stop ∉ t) :
    ∀ c ∈ t, (c != stop) = true := by
  intro c member
  rw [bne_iff_ne]
  rintro rfl
  exact absent member

/-! ### The author -/

/-- A name that can be written without quotes: it has no equals sign, does not start with
a quote, and neither starts nor ends with a blank. -/
structure PlainAuthor (author : Text) : Prop where
  filled : author ≠ []
  noEquals : '=' ∉ author
  unquoted : ∀ c ∈ author.head?, c ≠ '\x22' ∧ c ≠ '\x27'
  clings : author.Clings

instance (author : Text) : Decidable (PlainAuthor author) :=
  decidable_of_iff
    (author ≠ [] ∧ '=' ∉ author ∧ author.head?.all (fun c => c != '\x22' && c != '\x27') = true ∧
      author.head?.all (fun c => !Text.isBlank c) = true ∧
      author.getLast?.all (fun c => !Text.isBlank c) = true) <| by
    simp only [Option.all_eq_true, Bool.and_eq_true, bne_iff_ne, Bool.not_eq_true']
    constructor
    · rintro ⟨filled, noEquals, unquoted, start, finish⟩
      exact ⟨filled, noEquals, unquoted, start, finish⟩
    · rintro ⟨filled, noEquals, unquoted, start, finish⟩
      exact ⟨filled, noEquals, unquoted, start, finish⟩

theorem quotedValue?_eq_none {t : Text} (unquoted : ∀ c ∈ t.head?, c ≠ '\x22' ∧ c ≠ '\x27') :
    quotedValue? t = none := by
  cases t with
  | nil => rfl
  | cons c rest =>
      have other := unquoted c rfl
      rw [quotedValue?, if_neg (by simp [other])]

/-- A value in double quotes ends at the next one. -/
theorem quotedValue?_quoted {value : Text} (inner : '\x22' ∉ value) (rest : Text) :
    quotedValue? ('\x22' :: (value ++ '\x22' :: rest)) = some (value, rest) := by
  have inside := bne_of_not_mem inner
  rw [quotedValue?, if_pos (.inl rfl), List.takeWhile_append_of_pos inside,
    List.dropWhile_append_of_pos inside]
  simp

theorem startsParameter_of_noEquals {t : Text} (noEquals : '=' ∉ t) :
    startsParameter t = false := by
  have none : t.dropWhile (· != '=') = [] :=
    List.dropWhile_eq_nil_iff.2 (bne_of_not_mem noEquals)
  rw [startsParameter, none]

/-- The name of a parameter does not reach over a blank. -/
theorem startsParameter_of_blank {front : Text} (noEquals : '=' ∉ front) (rest : Text) :
    startsParameter (front ++ ' ' :: rest) = false := by
  have key : ' ' ∈ (front ++ ' ' :: rest).takeWhile (· != '=') := by
    rw [List.takeWhile_append_of_pos (bne_of_not_mem noEquals)]
    exact List.mem_append_right _ List.mem_cons_self
  have noKey : ((front ++ ' ' :: rest).takeWhile (· != '=')).all isInKey = false :=
    List.all_eq_false.2 ⟨' ', key, by decide⟩
  rw [startsParameter]
  split
  · rfl
  · dsimp only
    rw [noKey, Bool.and_false]

/-- Behind a blank inside of a name no parameter starts, even when one starts behind the
name. -/
theorem startsParameter_behind {word : Text} (filled : word ≠ []) (noEquals : '=' ∉ word)
    (solid : ∀ c ∈ word.getLast?, Text.isBlank c = false) (rest : Text) :
    startsParameter (Text.trimStart (word ++ ' ' :: rest)) = false := by
  have shown : (word.dropWhile Text.isBlank).isEmpty = false := by
    rw [List.isEmpty_eq_false_iff]
    intro none
    have blank := List.dropWhile_eq_nil_iff.1 none (word.getLast filled) (List.getLast_mem filled)
    rw [solid _ (List.getLast?_eq_some_getLast filled)] at blank
    cases blank
  rw [Text.trimStart, List.dropWhile_append, shown, if_neg Bool.false_ne_true]
  apply startsParameter_of_blank
  exact fun member => noEquals ((List.dropWhile_suffix _).subset member)

/-- Without an equals sign all of a text is the value. -/
theorem cutParameter_of_noEquals {t : Text} (noEquals : '=' ∉ t) : cutParameter t = (t, []) := by
  induction t with
  | nil => rfl
  | cons c rest ih =>
      have later : '=' ∉ rest := fun member => noEquals (List.mem_cons_of_mem _ member)
      have none : startsParameter (Text.trimStart rest) = false :=
        startsParameter_of_noEquals fun member =>
          later ((List.dropWhile_suffix _).subset member)
      rw [cutParameter, none, Bool.and_false, if_neg Bool.false_ne_true, ih later]

/-- A name is cut off in front of the first parameter behind it. -/
theorem cutParameter_append {author rest : Text} (noEquals : '=' ∉ author)
    (solid : ∀ c ∈ author.getLast?, Text.isBlank c = false)
    (follows : startsParameter (Text.trimStart rest) = true) :
    cutParameter (author ++ ' ' :: rest) = (author, ' ' :: rest) := by
  induction author with
  | nil =>
      rw [List.nil_append, cutParameter, follows]
      rfl
  | cons c more ih =>
      have noEqualsMore : '=' ∉ more := fun member => noEquals (List.mem_cons_of_mem _ member)
      have solidMore : ∀ d ∈ more.getLast?, Text.isBlank d = false := by
        intro d last
        cases more with
        | nil => cases last
        | cons next others => exact solid d last
      -- A blank inside of the name does not end it.
      have goesOn : (Text.isBlank c
          && startsParameter (Text.trimStart (more ++ ' ' :: rest))) = false := by
        by_cases last : more = []
        · subst last
          rw [solid c rfl, Bool.false_and]
        · rw [startsParameter_behind last noEqualsMore solidMore, Bool.and_false]
      rw [List.cons_append, cutParameter, goesOn, if_neg Bool.false_ne_true,
        ih noEqualsMore solidMore]

/-- The default value behind an author without quotes is the author. -/
theorem defaultValue_plain {author t rest : Text} (plain : PlainAuthor author)
    (cut : cutParameter (author ++ t) = (author, rest)) :
    defaultValue (author ++ t) = (author, rest) := by
  have bare : quotedValue? (author ++ t) = none := by
    apply quotedValue?_eq_none
    obtain ⟨c, more, shape⟩ := List.exists_cons_of_ne_nil plain.filled
    intro d first
    apply plain.unquoted
    rw [shape] at first ⊢
    exact first
  rw [defaultValue, bare, cut]
  dsimp only
  rw [plain.clings.trim_eq]

/-! ### The numbers -/

def numberParameter (name : Text) (number : Nat) : Text :=
  ' ' :: (name ++ '=' :: Text.ofNat number)

/-- The parameters of a quote that tell the post, the time and the user it is from. -/
def sourceParameters (post time user : Nat) : Text :=
  numberParameter "post_id".toList post ++ (numberParameter "time".toList time
    ++ numberParameter "user_id".toList user)

theorem namedParameters_nil : namedParameters [] = [] := by
  rw [namedParameters]
  rfl

/-- A parameter is a name up to the first equals sign and a value. -/
theorem namedParameters_append {name : Text} (noEquals : '=' ∉ name) (behind : Text) {key : Text}
    (named : Text.lower (Text.trim name) = key) (filled : key ≠ []) :
    namedParameters (name ++ '=' :: behind)
      = (key, (namedValue behind).1) :: namedParameters (namedValue behind).2 := by
  have inside := bne_of_not_mem noEquals
  have front : (name ++ '=' :: behind).takeWhile (· != '=') = name := by
    rw [List.takeWhile_append_of_pos inside]
    simp
  have back : (name ++ '=' :: behind).dropWhile (· != '=') = '=' :: behind := by
    rw [List.dropWhile_append_of_pos inside]
    rfl
  rw [namedParameters]
  split
  · next none =>
      rw [back] at none
      cases none
  · next found =>
      rw [back] at found
      cases found
      dsimp only
      rw [front, named, if_neg filled]

/-- The digits of a number are read up to the end or to a blank. -/
theorem namedValue_ofNat (number : Nat) {rest : Text}
    (ends : ∀ c ∈ rest.head?, Text.isBlank c = true) :
    namedValue (Text.ofNat number ++ rest) = (Text.ofNat number, rest) := by
  have bare : quotedValue? (Text.ofNat number ++ rest) = none := by
    apply quotedValue?_eq_none
    obtain ⟨d, more, shape⟩ := List.exists_cons_of_ne_nil (Text.ofNat_ne_nil number)
    have digit : d.isDigit = true :=
      Text.isDigit_of_mem_ofNat (n := number) (by rw [shape]; exact List.mem_cons_self)
    intro c first
    rw [shape] at first
    cases first
    constructor
    · rintro rfl
      cases digit
    · rintro rfl
      cases digit
  have solid : ∀ c ∈ Text.ofNat number, (!Text.isBlank c) = true := by
    intro c member
    rw [Text.isBlank_of_isDigit (Text.isDigit_of_mem_ofNat member), Bool.not_false]
  have stops : rest.takeWhile (fun c => !Text.isBlank c) = [] ∧
      rest.dropWhile (fun c => !Text.isBlank c) = rest := by
    cases rest with
    | nil => exact ⟨rfl, rfl⟩
    | cons c more => simp [ends c rfl]
  rw [namedValue, bare]
  dsimp only
  rw [List.takeWhile_append_of_pos solid, List.dropWhile_append_of_pos solid, stops.1, stops.2,
    List.append_nil]

/-- A number is read back with its name, and reading goes on behind it. -/
theorem namedParameters_number {name : Text} (noEquals : '=' ∉ name)
    (lower : Text.lower (Text.trim name) = name) (filled : name ≠ []) (number : Nat)
    {rest : Text} (ends : ∀ c ∈ rest.head?, Text.isBlank c = true) :
    namedParameters (numberParameter name number ++ rest)
      = (name, Text.ofNat number) :: namedParameters rest := by
  have spaced : '=' ∉ ' ' :: name := by simp [noEquals]
  have named : Text.lower (Text.trim (' ' :: name)) = name := by
    rw [Text.trim_cons_of_blank rfl, lower]
  have shape : numberParameter name number ++ rest
      = ' ' :: name ++ '=' :: (Text.ofNat number ++ rest) := by
    simp [numberParameter]
  rw [shape, namedParameters_append spaced _ named filled, namedValue_ofNat number ends]

theorem head?_numberParameter (name rest : Text) (number : Nat) :
    ∀ c ∈ (numberParameter name number ++ rest).head?, Text.isBlank c = true := by
  rintro c ⟨⟩
  rfl

/-- The three numbers behind an author, in the order in which they are written. -/
theorem namedParameters_source (post time user : Nat) :
    namedParameters (sourceParameters post time user)
      = [("post_id".toList, Text.ofNat post), ("time".toList, Text.ofNat time),
        ("user_id".toList, Text.ofNat user)] := by
  have last : namedParameters (numberParameter "user_id".toList user ++ [])
      = ("user_id".toList, Text.ofNat user) :: namedParameters [] :=
    namedParameters_number (by decide) (by decide) (by decide) user nofun
  rw [List.append_nil, namedParameters_nil] at last
  have timed := head?_numberParameter "time".toList (numberParameter "user_id".toList user) time
  have named := head?_numberParameter "user_id".toList [] user
  rw [List.append_nil] at named
  rw [sourceParameters, namedParameters_number (by decide) (by decide) (by decide) post timed,
    namedParameters_number (by decide) (by decide) (by decide) time named, last]

/-- The numbers behind an author are told besides it. -/
theorem tells_foldl_source (author : Text) {post user : Nat} (time : Nat)
    (postSmall : post < Text.wordBound) (userSmall : user < Text.wordBound) :
    Tells author [(Key.postId, post), (Key.userId, user)]
      ((namedParameters (sourceParameters post time user)).foldl setQuoteParameter
        (authorAttributes author)) := by
  have setPost (attributes : Attributes) (value : Text) :
      setQuoteParameter attributes ("post_id".toList, value) = attributes.set Key.postId value := by
    rw [setQuoteParameter, show quoteKey? "post_id".toList = some Key.postId by decide]
  have setTime (attributes : Attributes) (value : Text) :
      setQuoteParameter attributes ("time".toList, value) = attributes := by
    rw [setQuoteParameter, show quoteKey? "time".toList = none by decide]
  have setUser (attributes : Attributes) (value : Text) :
      setQuoteParameter attributes ("user_id".toList, value) = attributes.set Key.userId value := by
    rw [setQuoteParameter, show quoteKey? "user_id".toList = some Key.userId by decide]
  rw [namedParameters_source, List.foldl_cons, List.foldl_cons, List.foldl_cons, List.foldl_nil,
    setPost, setTime, setUser]
  have posted : Tells author [(Key.postId, post)] _ :=
    (tells_authorAttributes author).setNumber postSmall (by decide) (by decide)
  exact posted.setNumber userSmall (by decide) (show Key.userId ∉ [Key.postId] by decide)

theorem quoteAttributes_of_defaultValue {value author rest : Text}
    (cut : defaultValue value = (author, rest)) :
    quoteAttributes ('=' :: value)
      = (namedParameters rest).foldl setQuoteParameter (authorAttributes author) := by
  have start : Text.trimStart ('=' :: value) = '=' :: value := by
    rw [Text.trimStart, List.dropWhile_cons_of_neg (by decide)]
  have opened : quoteAttributes ('=' :: value)
      = (namedParameters (defaultValue value).2).foldl setQuoteParameter
          (authorAttributes (defaultValue value).1) := by
    rw [quoteAttributes, start]
    rfl
  rw [opened, cut]

/-- The author in the header of a quote is read as it was written, between quotes or, where
it can do without, alone, and so are the numbers of the post and the user behind it. -/
theorem quoteAttributes_header {post user : Nat} (time : Nat)
    (postSmall : post < Text.wordBound) (userSmall : user < Text.wordBound) :
    (∀ author : Text, '\x22' ∉ author →
      Tells author [(Key.postId, post), (Key.userId, user)]
        (quoteAttributes ("=\x22".toList ++ author ++ "\x22".toList
          ++ sourceParameters post time user))) ∧
    ∀ author, PlainAuthor author →
      Tells author [(Key.postId, post), (Key.userId, user)]
        (quoteAttributes ("=".toList ++ author ++ sourceParameters post time user)) ∧
      Tells author [] (quoteAttributes ("=".toList ++ author)) := by
  refine ⟨fun author inner => ?_, fun author plain => ⟨?_, ?_⟩⟩
  · have cut : defaultValue ('\x22' :: (author ++ '\x22' :: sourceParameters post time user))
        = (author, sourceParameters post time user) := by
      rw [defaultValue, quotedValue?_quoted inner]
    have shape : "=\x22".toList ++ author ++ "\x22".toList ++ sourceParameters post time user
        = '=' :: '\x22' :: (author ++ '\x22' :: sourceParameters post time user) := by simp
    rw [shape, quoteAttributes_of_defaultValue cut]
    exact tells_foldl_source author time postSmall userSmall
  · obtain ⟨rest, shape, follows⟩ : ∃ rest, sourceParameters post time user = ' ' :: rest ∧
        startsParameter (Text.trimStart rest) = true := ⟨_, rfl, rfl⟩
    have cut : cutParameter (author ++ sourceParameters post time user)
        = (author, sourceParameters post time user) := by
      rw [shape]
      exact cutParameter_append plain.noEquals plain.clings.finish follows
    show Tells _ _ (quoteAttributes ('=' :: (author ++ _)))
    rw [quoteAttributes_of_defaultValue (defaultValue_plain plain cut)]
    exact tells_foldl_source author time postSmall userSmall
  · have cut : cutParameter (author ++ []) = (author, []) := by
      rw [List.append_nil]
      exact cutParameter_of_noEquals plain.noEquals
    have read := defaultValue_plain plain cut
    rw [List.append_nil] at read
    show Tells _ _ (quoteAttributes ('=' :: author))
    rw [quoteAttributes_of_defaultValue read, namedParameters_nil]
    exact tells_authorAttributes author

/-- An author with quotes, an equals sign and what looks like another parameter, which needs
the quotes around it, and one with several blanks and a word that is the name of a
parameter, which does not. -/
theorem quoteAttributes_header_wordyAuthors :
    18446744073709551615 < Text.wordBound ∧ 7 < Text.wordBound ∧
      '\x22' ∉ "it's x=1 post_id=3 ".toList ∧ PlainAuthor "Ann \t\n time [B] post_id".toList ∧
      Tells "it's x=1 post_id=3 ".toList [(Key.postId, 18446744073709551615), (Key.userId, 7)]
        (quoteAttributes ("=\x22it's x=1 post_id=3 \x22 post_id=18446744073709551615 ".toList
          ++ "time=1700000000 user_id=7".toList)) ∧
      Tells "Ann \t\n time [B] post_id".toList
        [(Key.postId, 18446744073709551615), (Key.userId, 7)]
        (quoteAttributes ("=Ann \t\n time [B] post_id post_id=18446744073709551615 ".toList
          ++ "time=1700000000 user_id=7".toList)) ∧
      Tells "Ann \t\n time [B] post_id".toList []
        (quoteAttributes "=Ann \t\n time [B] post_id".toList) := by
  have post : 18446744073709551615 < Text.wordBound := by decide
  have user : 7 < Text.wordBound := by decide
  have inner : '\x22' ∉ "it's x=1 post_id=3 ".toList := by decide
  have plain : PlainAuthor "Ann \t\n time [B] post_id".toList := by decide
  obtain ⟨quoted, bare⟩ := quoteAttributes_header 1700000000 post user
  exact ⟨post, user, inner, plain, quoted _ inner, (bare _ plain).1, (bare _ plain).2⟩

end ForumMarkup.Bbcode
