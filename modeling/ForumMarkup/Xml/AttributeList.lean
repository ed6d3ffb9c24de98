import ForumMarkup.Xml.Event

/-!
Contract: the attributes in the content of a tag.

Owns:
- `AttributeFault`, the ways in which attributes are malformed, with their
  messages;
- `RawAttribute`, a key and a value as they are written;
- `attributeList`, the attributes of a tag, or the first fault with its place.

Places are byte offsets into the content of the tag.
-/

set_option autoImplicit false

namespace ForumMarkup.Xml

inductive AttributeFault where
  | missingEquals
  | duplicated (previous : Nat)
  | missingValue
  | unquotedValue
  | missingQuote (quote : Char)
  deriving DecidableEq, Repr

def AttributeFault.message : AttributeFault → String
  | missingEquals => "attribute key must be directly followed by `=` or space"
  | duplicated previous =>
      "duplicated attribute, previous declaration at position " ++ Nat.repr previous
  | missingValue => "`=` must be followed by an attribute value"
  | unquotedValue => "attribute value must be enclosed in `\"` or `'`"
  | missingQuote quote =>
      "missing closing quote `" ++ String.singleton quote ++ "` in attribute value"

structure RawAttribute where
  key : Text
  value : Text
  deriving DecidableEq, Repr

abbrev AttributeFailure := Nat × AttributeFault

def isInKey (c : Char) : Bool :=
  c != '=' && !isSpace c

/-- The value behind an equals sign and the text behind it. Places are counted back
from `total`, the length of the content. -/
def attributeValue (total : Nat) (t : Text) : Except AttributeFailure (Text × Text) :=
  match t.dropWhile isSpace with
  | [] => .error (total, .missingValue)
  | quote :: inner =>
      if quote = '\x22' ∨ quote = '\x27' then
        match inner.dropWhile (· != quote) with
        | [] => .error (total, .missingQuote quote)
        | _ :: rest => .ok (inner.takeWhile (· != quote), rest)
      else .error (total - Text.byteLength (quote :: inner), .unquotedValue)

theorem attributeValue_length {total : Nat} {t value rest : Text}
    (found : attributeValue total t = .ok (value, rest)) : rest.length ≤ t.length := by
  unfold attributeValue at found
  have blank := (List.dropWhile_suffix (l := t) isSpace).length_le
  split at found
  · simp at found
  · next quote inner shape =>
      split at found
      · have bound := (List.dropWhile_suffix (l := inner) (· != quote)).length_le
        split at found
        · simp at found
        · next behind =>
            simp only [Except.ok.injEq, Prod.mk.injEq] at found
            obtain ⟨_, rfl⟩ := found
            simp only [shape, behind, List.length_cons] at blank bound
            omega
      · simp at found

/-- The attributes at the start of what remains of a content of `total` bytes;
`seen` lists the keys before with their places. -/
def attributesFrom (total : Nat) (seen : List (Text × Nat)) (t : Text) :
    Except AttributeFailure (List RawAttribute) :=
  match begins : t.dropWhile isSpace with
  | [] => .ok []
  | c :: more =>
      let key := c :: more.takeWhile isInKey
      let place := total - Text.byteLength (c :: more)
      match equals : (more.dropWhile isInKey).dropWhile isSpace with
      | '=' :: behind =>
          match seen.lookup key with
          | some previous => .error (place, .duplicated previous)
          | none =>
              match read : attributeValue total behind with
              | .error failure => .error failure
              | .ok (value, rest) =>
                  have : rest.length < t.length := by
                    have first := (List.dropWhile_suffix (l := t) isSpace).length_le
                    have second := (List.dropWhile_suffix (l := more) isInKey).length_le
                    have third :=
                      (List.dropWhile_suffix (l := more.dropWhile isInKey) isSpace).length_le
                    have fourth := attributeValue_length read
                    simp only [begins, equals, List.length_cons] at first third
                    omega
                  match attributesFrom total ((key, place) :: seen) rest with
                  | .error failure => .error failure
                  | .ok others => .ok (⟨key, value⟩ :: others)
      | other => .error (total - Text.byteLength other, .missingEquals)
termination_by t.length

/-- The attributes of a tag with the given content. -/
def attributeList (content : Text) : Except AttributeFailure (List RawAttribute) :=
  attributesFrom (Text.byteLength content) [] (content.dropWhile fun c => !isSpace c)

end ForumMarkup.Xml
