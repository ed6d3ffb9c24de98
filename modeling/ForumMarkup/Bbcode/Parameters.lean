import ForumMarkup.Attributes
import ForumMarkup.Vocabulary

/-!
Contract: the parameters of a quote tag, such as `="name" post_id=1 user_id=2`.

Owns:
- `defaultValue` and `namedValue`, the two ways in which a value is read;
- `namedParameters`, the pairs of a name and a value;
- `quoteAttributes`, the attributes of a quote.

The value right behind the tag's name is an author.  Without quotes it may hold
blanks, and ends where a blank and a named parameter follow.
-/

set_option autoImplicit false

namespace ForumMarkup.Bbcode

/-- The value in quotes at the start of a text, and the text behind it. Without a
closing quote the value takes the rest of the text. -/
def quotedValue? : Text → Option (Text × Text)
  | [] => none
  | quote :: inner =>
      if quote = '\x22' ∨ quote = '\x27' then
        some (inner.takeWhile (· != quote), (inner.dropWhile (· != quote)).drop 1)
      else none

/-- Whether a character may stand in the name of a parameter. -/
def isInKey (c : Char) : Bool :=
  c.isAlphanum || c == '_'

def startsParameter (t : Text) : Bool :=
  match t.dropWhile (· != '=') with
  | [] => false
  | _ => let key := t.takeWhile (· != '='); !key.isEmpty && key.all isInKey

/-- Cuts a text before the first blank that a named parameter follows. -/
def cutParameter : Text → Text × Text
  | [] => ([], [])
  | c :: rest =>
      if Text.isBlank c && startsParameter (Text.trimStart rest) then ([], c :: rest)
      else
        let (value, remaining) := cutParameter rest
        (c :: value, remaining)

/-- The value right behind the name of a tag, and the text behind it. -/
def defaultValue (t : Text) : Text × Text :=
  match quotedValue? t with
  | some cut => cut
  | none =>
      let (value, remaining) := cutParameter t
      (Text.trim value, remaining)

def namedValue (t : Text) : Text × Text :=
  match quotedValue? t with
  | some cut => cut
  | none =>
      (t.takeWhile fun c => !Text.isBlank c, t.dropWhile fun c => !Text.isBlank c)

/-- Reading the value of a parameter never lengthens what is left, so `namedParameters` ends. -/
theorem namedValue_length (t : Text) : (namedValue t).2.length ≤ t.length := by
  unfold namedValue quotedValue?
  cases t with
  | nil => simp
  | cons quote inner =>
      simp only
      split
      · next cut shape =>
          split at shape
          · cases shape
            have := (List.dropWhile_suffix (l := inner) (· != quote)).length_le
            simp only [List.length_drop, List.length_cons]
            omega
          · simp at shape
      · exact (List.dropWhile_suffix _).length_le

/-- The named parameters of a text, each with its name in lower case. A pair whose
name is empty is passed over. -/
def namedParameters (t : Text) : List (Text × Text) :=
  match found : t.dropWhile (· != '=') with
  | [] => []
  | _ :: behind =>
      let key := Text.lower (Text.trim (t.takeWhile (· != '=')))
      have : (namedValue behind).2.length < t.length := by
        have bound := (List.dropWhile_suffix (l := t) (· != '=')).length_le
        have rest := namedValue_length behind
        simp only [found, List.length_cons] at bound
        omega
      let more := namedParameters (namedValue behind).2
      if key = [] then more else (key, (namedValue behind).1) :: more
termination_by t.length

/-- The attribute that a named parameter of a quote sets. -/
def quoteKey? (name : Text) : Option String :=
  [("post_id", Key.postId), ("user_id", Key.userId), ("author", Key.author),
    ("name", Key.author)].lookup (String.ofList name)

/-- The attributes with one named parameter more; others than those of quotes have
no effect. -/
def setQuoteParameter (attributes : Attributes) (pair : Text × Text) : Attributes :=
  match quoteKey? pair.1 with
  | some key => attributes.set key pair.2
  | none => attributes

def quoteAttributes (parameters : Text) : Attributes :=
  match Text.trimStart parameters with
  | '=' :: value =>
      let (author, rest) := defaultValue value
      let start : Attributes := if author = [] then ∅ else .set ∅ Key.author author
      (namedParameters rest).foldl setQuoteParameter start
  | rest => (namedParameters rest).foldl setQuoteParameter ∅

end ForumMarkup.Bbcode
