import ForumMarkup.Text.Blank

/-!
Contract: decimal numbers in text.

Owns:
- `Text.natural?`, the number a text of ASCII digits denotes;
- `Text.word?`, the same for numbers that fit in 64 bits;
- `Text.ofNat`, the canonical digits of a number.
-/

set_option autoImplicit false

namespace ForumMarkup
namespace Text

/-- Numbers of users, posts, uploads and sizes stay below this bound. -/
def wordBound : Nat := Nat.pow 2 64

def digitsValue (digits : Text) : Nat :=
  digits.foldl (fun value d => 10 * value + (d.toNat - '0'.toNat)) 0

/-- The number denoted by a text that is a non-empty run of ASCII digits. -/
def natural? (t : Text) : Option Nat :=
  if !t.isEmpty && t.all Char.isDigit then some (digitsValue t) else none

/-- The number denoted by a non-empty run of ASCII digits, when it is below
`wordBound`; leading zeros do not matter. -/
def word? (t : Text) : Option Nat :=
  (natural? t).filter (· < wordBound)

def ofNat (n : Nat) : Text :=
  Nat.toDigits 10 n

/-- The value of a hexadecimal digit of either case. -/
def hexDigit? (c : Char) : Option Nat :=
  if c.isDigit then some (c.toNat - '0'.toNat)
  else if 'a' ≤ c && c ≤ 'f' then some (c.toNat - 'a'.toNat + 10)
  else if 'A' ≤ c && c ≤ 'F' then some (c.toNat - 'A'.toNat + 10)
  else none

/-- The number denoted by a non-empty run of digits of the given base, each
valued by `digit?`. -/
def numeral? (base : Nat) (digit? : Char → Option Nat) (t : Text) : Option Nat :=
  if t.isEmpty then none
  else t.foldl (fun value? c => do
    let value ← value?
    let d ← digit? c
    return base * value + d) (some 0)

end Text
end ForumMarkup
