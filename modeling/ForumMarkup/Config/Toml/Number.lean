import ForumMarkup.Config.Datum
import ForumMarkup.Text.Decimal
import ForumMarkup.Text.Search

/-!
Contract: integers and floats of TOML.

Owns:
- `digitRun?`, digits with underscores between them;
- `numberLiteral?`, an integer in any base or a float, and the text behind it;
- `roundsToInfinity`, whether a decimal number is too large for a float.

An integer has to fit in 64 bits with a sign.  The value of a float is not kept, since
nothing asks for one.
-/

set_option autoImplicit false

namespace ForumMarkup.Toml

/-- Digits with single underscores between them, and the text behind them. -/
def digitRun? (isDigit : Char → Bool) : Text → Option (Text × Text)
  | [] => none
  | c :: '_' :: more =>
      if isDigit c then (digitRun? isDigit more).map fun (digits, after) => (c :: digits, after)
      else none
  | c :: rest =>
      if !isDigit c then none
      else
        match digitRun? isDigit rest with
        | some (digits, after) => some (c :: digits, after)
        | none => if (rest.head?.map isDigit).getD false then none else some ([c], rest)

/-- An integer that fits in 64 bits with a sign. -/
def signedWord? (value : Int) : Option Datum :=
  let bound : Int := Nat.pow 2 63
  if -bound ≤ value ∧ value < bound then some (.integer value) else none

/-- An integer behind the mark of its base. -/
def basedInteger? (base : Nat) (t : Text) : Option (Datum × Text) := do
  let digit? := fun c => (Text.hexDigit? c).filter (· < base)
  let (digits, rest) ← digitRun? (fun c => (digit? c).isSome) t
  let value ← Text.numeral? base digit? digits
  return (← signedWord? value, rest)

/-- Whether a minus stands before a number, and the text behind its sign. -/
def cutSign : Text → Bool × Text
  | '-' :: rest => (true, rest)
  | '+' :: rest => (false, rest)
  | t => (false, t)

def fraction? : Text → Option (Option Text × Text)
  | '.' :: rest => (digitRun? Char.isDigit rest).map fun (digits, after) => (some digits, after)
  | t => some (none, t)

/-- The power of ten of an exponent, if the text starts with one, and the text behind
it. -/
def exponent? : Text → Option (Option Int × Text)
  | 'e' :: rest | 'E' :: rest =>
      let (negative, unsigned) := cutSign rest
      (digitRun? Char.isDigit unsigned).map fun (digits, after) =>
        let power : Int := Text.digitsValue digits
        (some (if negative then -power else power), after)
  | t => some (none, t)

/-- The least number that is rounded to infinity: it is as far from the greatest float
as from the power of two behind that. -/
def floatBound : Nat := Nat.pow 2 1024 - Nat.pow 2 970

/-- Whether digits times a power of ten are rounded to infinity. The bound has 309
digits, so that a number with fewer or more of them before its point is never brought
to one scale with it. -/
def roundsToInfinity (digits : Text) (power : Int) : Bool :=
  let significant := digits.dropWhile (· == '0')
  let places : Int := significant.length + power
  if significant = [] ∨ places < 309 then false
  else if 309 < places then true
  else
    floatBound * Nat.pow 10 (-power).toNat
      ≤ Text.digitsValue significant * Nat.pow 10 power.toNat

def float? (negative : Bool) (digits : Text) (power : Int) : Option Datum :=
  if !negative && roundsToInfinity digits power then none else some .other

def decimalLiteral? (t : Text) : Option (Datum × Text) := do
  let (negative, unsigned) := cutSign t
  match (Text.after? "inf".toList unsigned).or (Text.after? "nan".toList unsigned) with
  | some rest => return (.other, rest)
  | none =>
      let (digits, afterDigits) ← digitRun? Char.isDigit unsigned
      if digits.length > 1 ∧ digits.head? = some '0' then none
      else
        let (fraction?, afterFraction) ← fraction? afterDigits
        let (power?, rest) ← exponent? afterFraction
        if fraction?.isNone && power?.isNone then
          let value : Int := Text.digitsValue digits
          return (← signedWord? (if negative then -value else value), rest)
        else
          let fraction := fraction?.getD []
          return (← float? negative (digits ++ fraction) (power?.getD 0 - fraction.length), rest)

def numberLiteral? (t : Text) : Option (Datum × Text) :=
  match t with
  | '0' :: 'x' :: digits => basedInteger? 16 digits
  | '0' :: 'o' :: digits => basedInteger? 8 digits
  | '0' :: 'b' :: digits => basedInteger? 2 digits
  | _ => decimalLiteral? t

end ForumMarkup.Toml
