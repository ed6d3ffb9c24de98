import ForumMarkup.Config.Datum
import ForumMarkup.Text.Decimal
import ForumMarkup.Text.Search

/-!
Contract: configuration in JSON.

Owns: `Json.parse?`, which takes exactly the texts of the grammar, and
`Json.render`, which writes a datum.

A number counts as an integer when it is written without a fraction and an
exponent; minus zero is none.  A string with half a surrogate pair is well written
but has no text, and a table with such a key has no entries that could be asked
for.
-/

set_option autoImplicit false

namespace ForumMarkup.Json

def isSpace (c : Char) : Bool :=
  c == ' ' || c == '\t' || c == '\n' || c == '\r'

def skipSpace (t : Text) : Text :=
  t.dropWhile isSpace

def hexCode? (digits : Text) : Option Nat :=
  Text.numeral? 16 Text.hexDigit? digits

/-- The code of a character that stands behind a backslash. -/
def escapeCode? : Char → Option Nat
  | '\x22' => some 0x22
  | '\\' => some 0x5C
  | '/' => some 0x2F
  | 'b' => some 0x08
  | 'f' => some 0x0C
  | 'n' => some 0x0A
  | 'r' => some 0x0D
  | 't' => some 0x09
  | _ => none

/-- The codes of a string up to its closing quote, and the text behind it. -/
def stringCodes? : Text → Option (List Nat × Text)
  | [] => none
  | '\x22' :: rest => some ([], rest)
  | '\\' :: 'u' :: a :: b :: c :: d :: rest => do
      let code ← hexCode? [a, b, c, d]
      let (codes, after) ← stringCodes? rest
      return (code :: codes, after)
  | '\\' :: c :: rest => do
      let code ← escapeCode? c
      let (codes, after) ← stringCodes? rest
      return (code :: codes, after)
  | c :: rest =>
      if c.toNat < 0x20 ∨ c = '\\' then none
      else do
        let (codes, after) ← stringCodes? rest
        return (c.toNat :: codes, after)

/-- The text of a list of codes, in which two halves of a surrogate pair make one
character. -/
def textOfCodes? : List Nat → Option Text
  | [] => some []
  | [code] => if code.isValidChar then some [Char.ofNat code] else none
  | high :: low :: rest =>
      if high.isValidChar then (textOfCodes? (low :: rest)).map (Char.ofNat high :: ·)
      else if high < 0xDC00 ∧ 0xDC00 ≤ low ∧ low < 0xE000 then
        (textOfCodes? rest).map
          (Char.ofNat (0x10000 + (high - 0xD800) * 0x400 + (low - 0xDC00)) :: ·)
      else none

def digits? (t : Text) : Option (Text × Text) :=
  match t.takeWhile Char.isDigit with
  | [] => none
  | digits => some (digits, t.dropWhile Char.isDigit)

def skipFraction? : Text → Option (Bool × Text)
  | '.' :: rest => (digits? rest).map fun cut => (true, cut.2)
  | t => some (false, t)

def skipExponent? : Text → Option (Bool × Text)
  | 'e' :: rest | 'E' :: rest =>
      let unsigned :=
        match rest with
        | '+' :: more | '-' :: more => more
        | more => more
      (digits? unsigned).map fun cut => (true, cut.2)
  | t => some (false, t)

def number? (t : Text) : Option (Datum × Text) := do
  let (negative, unsigned) :=
    match t with
    | '-' :: rest => (true, rest)
    | rest => (false, rest)
  let (digits, afterDigits) ← digits? unsigned
  if digits.length > 1 ∧ digits.head? = some '0' then none
  else
    let (fraction, afterFraction) ← skipFraction? afterDigits
    let (exponent, rest) ← skipExponent? afterFraction
    let value := Text.digitsValue digits
    if fraction || exponent || (negative && value == 0) then return (.other, rest)
    else return (.integer (if negative then -(value : Int) else value), rest)

def tableOf (entries : List (Option Text × Datum)) : Datum :=
  match entries.mapM fun entry => entry.1.map fun key => (key, entry.2) with
  | some keyed => .table keyed
  | none => .other

mutual

/-- A value at the start of a text, and the text behind it. -/
def value? : (fuel : Nat) → Text → Option (Datum × Text)
  | 0, _ => none
  | fuel + 1, t =>
      match t with
      | '\x22' :: rest =>
          (stringCodes? rest).map fun (codes, after) =>
            (((textOfCodes? codes).map Datum.string).getD .other, after)
      | '[' :: rest =>
          match skipSpace rest with
          | ']' :: after => some (.list [], after)
          | items => (items? fuel items).map fun (values, after) => (.list values, after)
      | '\x7b' :: rest =>
          match skipSpace rest with
          | '\x7d' :: after => some (.table [], after)
          | members => (members? fuel members).map fun (entries, after) => (tableOf entries, after)
      | _ =>
          ((Text.after? "null".toList t).map fun rest => (Datum.null, rest)).or <|
          ((Text.after? "true".toList t).map fun rest => (Datum.bool true, rest)).or <|
          ((Text.after? "false".toList t).map fun rest => (Datum.bool false, rest)).or <|
          number? t

def items? : (fuel : Nat) → Text → Option (List Datum × Text)
  | 0, _ => none
  | fuel + 1, t => do
      let (value, rest) ← value? fuel t
      match skipSpace rest with
      | ']' :: after => return ([value], after)
      | ',' :: more =>
          let (values, after) ← items? fuel (skipSpace more)
          return (value :: values, after)
      | _ => none

def members? : (fuel : Nat) → Text → Option (List (Option Text × Datum) × Text)
  | 0, _ => none
  | fuel + 1, t =>
      match t with
      | '\x22' :: start => do
          let (codes, afterKey) ← stringCodes? start
          match skipSpace afterKey with
          | ':' :: behind =>
              let (value, rest) ← value? fuel (skipSpace behind)
              let entry := (textOfCodes? codes, value)
              match skipSpace rest with
              | '\x7d' :: after => return ([entry], after)
              | ',' :: more =>
                  let (entries, after) ← members? fuel (skipSpace more)
                  return (entry :: entries, after)
              | _ => none
          | _ => none
      | _ => none

end

/-- The datum of a text that holds one value and space around it. -/
def parse? (t : Text) : Option Datum := do
  let (value, rest) ← value? (2 * t.length + 1) (skipSpace t)
  if skipSpace rest = [] then return value else none

def hexDigit (n : Nat) : Char :=
  Nat.digitChar n

/-- A character inside a string. -/
def renderChar (c : Char) : Text :=
  if c = '\x22' then ['\\', '\x22']
  else if c = '\\' then ['\\', '\\']
  else if c.toNat < 0x20 then
    ['\\', 'u', '0', '0', hexDigit (c.toNat / 16), hexDigit (c.toNat % 16)]
  else [c]

def renderString (t : Text) : Text :=
  '\x22' :: (t.flatMap renderChar ++ ['\x22'])

mutual

/-- A datum in JSON; one that nothing asks for is written as null. -/
def render : Datum → Text
  | .null | .other => "null".toList
  | .bool value => (if value then "true" else "false").toList
  | .integer value => (toString value).toList
  | .string value => renderString value
  | .list values => '[' :: renderItems true values
  | .table entries => '\x7b' :: renderMembers true entries

def renderItems (first : Bool) : List Datum → Text
  | [] => [']']
  | value :: rest => (if first then [] else [',']) ++ render value ++ renderItems false rest

def renderMembers (first : Bool) : List (Text × Datum) → Text
  | [] => ['\x7d']
  | (key, value) :: rest =>
      (if first then [] else [',']) ++ renderString key ++ ':' :: render value
        ++ renderMembers false rest

end

end ForumMarkup.Json
