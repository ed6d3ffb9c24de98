import ForumMarkup.Text.Search

/-!
Contract: one bracket group, such as `[b]`, `[/b]` or `[quote="name" post_id=3]`.

Owns:
- `Token`, the parts of a group, and `Token.text`, the group as written;
- `Token.scan?`, the group at the start of a text;
- `Token.argument?`, the value behind the equals sign that follows the name.

Main statement: `scan?_eq_some`, a scanned group and the rest make up the text.

A group holds no bracket and no line feed between its brackets.
-/

set_option autoImplicit false

namespace ForumMarkup.Bbcode

structure Token where
  closing : Bool
  /-- The name as it is written. -/
  spelling : Text
  /-- All that follows the name. -/
  parameters : Text
  deriving DecidableEq, Repr

namespace Token

def name (token : Token) : Text :=
  Text.lower token.spelling

def body (token : Token) : Text :=
  (if token.closing then ['/'] else []) ++ token.spelling ++ token.parameters

/-- The group as it is written. -/
def text (token : Token) : Text :=
  '[' :: (token.body ++ [']'])

def isInside (c : Char) : Bool :=
  c != ']' && c != '[' && c != '\n'

def isInName (c : Char) : Bool :=
  c != '=' && !Text.isBlank c

/-- The token of a name and what follows it; the name is not empty. -/
def ofNamed? (closing : Bool) (named : Text) : Option Token :=
  let spelling := named.takeWhile isInName
  if spelling = [] then none
  else some { closing, spelling, parameters := named.dropWhile isInName }

/-- The token with the given text between its brackets. -/
def ofBody? : Text → Option Token
  | '/' :: named => ofNamed? true named
  | named => ofNamed? false named

/-- The group that starts with the opening bracket just before the text, and the
text behind it. -/
def scan? (t : Text) : Option (Token × Text) :=
  match t.dropWhile isInside with
  | ']' :: rest => (ofBody? (t.takeWhile isInside)).map fun token => (token, rest)
  | _ => none

/-- The text between two equal quotes, or the text itself. -/
def unquote (value : Text) : Text :=
  match value with
  | '\x22' :: inner => if inner.getLast? = some '\x22' then inner.dropLast else value
  | '\x27' :: inner => if inner.getLast? = some '\x27' then inner.dropLast else value
  | _ => value

/-- The value behind the equals sign that follows the name, without the blanks
around it and the quotes it stands in. -/
def argument? (token : Token) : Option Text :=
  match token.parameters with
  | '=' :: value => some (unquote (Text.trim value))
  | _ => none

def filledArgument? (token : Token) : Option Text :=
  token.argument?.filter fun value => !value.isEmpty

theorem body_of_ofNamed? {closing : Bool} {named : Text} {token : Token}
    (found : ofNamed? closing named = some token) :
    token.body = (if closing then ['/'] else []) ++ named := by
  simp only [ofNamed?, Option.ite_none_left_eq_some, Option.some.injEq] at found
  obtain ⟨_, rfl⟩ := found
  simp [Token.body]

theorem body_of_ofBody? {body : Text} {token : Token} (found : ofBody? body = some token) :
    token.body = body := by
  unfold ofBody? at found
  split at found <;> simpa using body_of_ofNamed? found

theorem scan?_eq_some {t rest : Text} {token : Token} (found : scan? t = some (token, rest)) :
    t = token.body ++ ']' :: rest := by
  unfold scan? at found
  split at found
  · next tail shape =>
      simp only [Option.map_eq_some_iff, Prod.mk.injEq] at found
      obtain ⟨_, inner, rfl, rfl⟩ := found
      rw [body_of_ofBody? inner, ← shape, List.takeWhile_append_dropWhile]
  · simp at found

end Token
end ForumMarkup.Bbcode
