import ForumMarkup.Text.Decimal
import ForumMarkup.Text.Search

/-!
Contract: blanks, comments, strings and keys of TOML.

Owns:
- `skipBlanks`, `skipComment` and `afterLineEnd?`, what may stand between values;
- `stringLiteral?`, a string in any of its four forms;
- `key?`, a key with dots, and `depthBound`, the number of its parts.

Strings and keys come with the text behind them.
-/

set_option autoImplicit false

namespace ForumMarkup.Toml

def isBlank (c : Char) : Bool :=
  c == ' ' || c == '\t'

def skipBlanks (t : Text) : Text :=
  t.dropWhile isBlank

/-- Whether a character may stand in a comment or a string: no control character but
the tab. -/
def isPrintable (c : Char) : Bool :=
  c == '\t' || (0x20 ≤ c.toNat && c.toNat != 0x7F)

/-- The text behind a line end. -/
def afterLineEnd? : Text → Option Text
  | '\n' :: rest => some rest
  | '\r' :: '\n' :: rest => some rest
  | _ => none

/-- The text behind a comment, if it starts with one. -/
def skipComment : Text → Text
  | '#' :: rest => rest.dropWhile isPrintable
  | t => t

def hexChar? (digits : Text) : Option Char := do
  let code ← Text.numeral? 16 Text.hexDigit? digits
  if code.isValidChar then return Char.ofNat code else none

/-- The character that a letter behind a backslash stands for. -/
def escapeChar? : Char → Option Char
  | 'b' => some '\x08'
  | 'f' => some '\x0c'
  | 'n' => some '\n'
  | 'r' => some '\r'
  | 't' => some '\t'
  | '\x22' => some '\x22'
  | '\\' => some '\\'
  | _ => none

/-- The escape behind a backslash: its character, and the text behind it. -/
def escape? : Text → Option (Char × Text)
  | [] => none
  | c :: rest =>
      match (if c = 'u' then 4 else if c = 'U' then 8 else 0) with
      | 0 => (escapeChar? c).map fun char => (char, rest)
      | count =>
          if rest.length < count then none
          else (hexChar? (rest.take count)).map fun char => (char, rest.drop count)

def basicString? : (fuel : Nat) → Text → Option (Text × Text)
  | 0, _ => none
  | fuel + 1, t =>
      match t with
      | [] => none
      | '\x22' :: rest => some ([], rest)
      | '\\' :: rest => do
          let (c, after) ← escape? rest
          let (value, behind) ← basicString? fuel after
          return (c :: value, behind)
      | c :: rest =>
          if isPrintable c then
            (basicString? fuel rest).map fun (value, behind) => (c :: value, behind)
          else none

def literalString? (t : Text) : Option (Text × Text) :=
  let inside := fun c => isPrintable c && c != '\x27'
  match t.dropWhile inside with
  | '\x27' :: rest => some (t.takeWhile inside, rest)
  | _ => none

/-- The quotes at the end of a string of several lines: how many of them, at most two,
belong to the string, and the text behind them. -/
def closingQuotes? (quote : Char) (t : Text) : Option (Nat × Text) :=
  let count := min (t.takeWhile (· == quote)).length 5
  if count < 3 then none else some (count - 3, t.drop count)

/-- The text without the blanks and line ends it starts with. -/
def skipBlankLines : Text → Text
  | '\r' :: '\n' :: rest => skipBlankLines rest
  | c :: rest => if isBlank c || c == '\n' then skipBlankLines rest else c :: rest
  | [] => []

/-- The text behind line ends and blanks, of which the first comes at the end of a
line. -/
def afterContinuation? (t : Text) : Option Text :=
  (afterLineEnd? (skipBlanks t)).map skipBlankLines

/-- A string of several lines behind its opening quotes; `escapes` tells a basic one
from a literal one. -/
def multilineString? (quote : Char) (escapes : Bool) : (fuel : Nat) → Text → Option (Text × Text)
  | 0, _ => none
  | fuel + 1, t =>
      match closingQuotes? quote t with
      | some (count, rest) => some (List.replicate count quote, rest)
      | none =>
          let more := multilineString? quote escapes fuel
          match t with
          | [] => none
          | '\\' :: rest =>
              if !escapes then (more rest).map fun (value, behind) => ('\\' :: value, behind)
              else
                match afterContinuation? rest with
                | some after => more after
                | none => do
                    let (c, after) ← escape? rest
                    let (value, behind) ← more after
                    return (c :: value, behind)
          | c :: rest =>
              match afterLineEnd? t with
              | some after => (more after).map fun (value, behind) => ('\n' :: value, behind)
              | none =>
                  if isPrintable c then
                    (more rest).map fun (value, behind) => (c :: value, behind)
                  else none

/-- A string in any of its four forms. A line end right behind three quotes is not part
of the string. -/
def stringLiteral? (t : Text) : Option (Text × Text) :=
  let fuel := t.length + 1
  let body := fun rest => (afterLineEnd? rest).getD rest
  match t with
  | '\x22' :: '\x22' :: '\x22' :: rest => multilineString? '\x22' true fuel (body rest)
  | '\x27' :: '\x27' :: '\x27' :: rest => multilineString? '\x27' false fuel (body rest)
  | '\x22' :: rest => basicString? fuel rest
  | '\x27' :: rest => literalString? rest
  | _ => none

/-- Whether a character may stand in a key without quotes. -/
def isBareKey (c : Char) : Bool :=
  c.isAlphanum || c == '_' || c == '-'

/-- A key without dots: bare, or a string on one line. -/
def simpleKey? (t : Text) : Option (Text × Text) :=
  match t with
  | '\x22' :: rest => basicString? (rest.length + 1) rest
  | '\x27' :: rest => literalString? rest
  | _ =>
      match t.takeWhile isBareKey with
      | [] => none
      | key => some (key, t.dropWhile isBareKey)

/-- How many parts a key may have, and how deep arrays and tables on one line may be
nested. -/
def depthBound : Nat := 79

/-- A key of at most so many parts, with dots between its parts and blanks around
them. -/
def keyWithin? : (parts : Nat) → Text → Option (List Text × Text)
  | 0, _ => none
  | parts + 1, t => do
      let (part, behind) ← simpleKey? (skipBlanks t)
      match skipBlanks behind with
      | '.' :: more =>
          let (others, after) ← keyWithin? parts more
          return (part :: others, after)
      | rest => return ([part], rest)

def key? : Text → Option (List Text × Text) :=
  keyWithin? depthBound

end ForumMarkup.Toml
