import ForumMarkup.Text.Decimal
import ForumMarkup.Entity.UpperNames
import ForumMarkup.Entity.LowerNamesToM
import ForumMarkup.Entity.LowerNamesFromN

/-!
Contract: the meaning of one character reference.

Owns:
- `Entity.named?`, the character a name stands for, exactly as spelled;
- `Entity.numbered?`, the character a number stands for;
- `Entity.value?`, the meaning of what stands between an ampersand and the next
  semicolon.

Does not own: where references occur in a text; see `ForumMarkup.Entity.Decode`.
-/

set_option autoImplicit false

namespace ForumMarkup.Entity

/-- The characters that markup itself escapes. -/
def basic? : Text → Option Char
  | ['a', 'm', 'p'] => some '&'
  | ['l', 't'] => some '<'
  | ['g', 't'] => some '>'
  | ['q', 'u', 'o', 't'] => some '\x22'
  | _ => none

/-- The names that start with the given letter. -/
def namesFrom : Char → List (String × Char)
  | 'A' => upperA | 'B' => upperB | 'C' => upperC | 'D' => upperD | 'E' => upperE
  | 'F' => upperF | 'G' => upperG | 'H' => upperH | 'I' => upperI | 'J' => upperJ
  | 'K' => upperK | 'L' => upperL | 'M' => upperM | 'N' => upperN | 'O' => upperO
  | 'P' => upperP | 'Q' => upperQ | 'R' => upperR | 'S' => upperS | 'T' => upperT
  | 'U' => upperU | 'V' => upperV | 'W' => upperW | 'X' => upperX | 'Y' => upperY
  | 'Z' => upperZ
  | 'a' => lowerA | 'b' => lowerB | 'c' => lowerC | 'd' => lowerD | 'e' => lowerE
  | 'f' => lowerF | 'g' => lowerG | 'h' => lowerH | 'i' => lowerI | 'j' => lowerJ
  | 'k' => lowerK | 'l' => lowerL | 'm' => lowerM | 'n' => lowerN | 'o' => lowerO
  | 'p' => lowerP | 'q' => lowerQ | 'r' => lowerR | 's' => lowerS | 't' => lowerT
  | 'u' => lowerU | 'v' => lowerV | 'w' => lowerW | 'x' => lowerX | 'y' => lowerY
  | 'z' => lowerZ
  | _ => []

def named? (name : Text) : Option Char :=
  match basic? name, name with
  | some c, _ => some c
  | none, [] => none
  | none, initial :: _ => (namesFrom initial).lookup (String.ofList name)

/-- Control characters below the space that a number may stand for. -/
def isReadableControl (n : Nat) : Bool :=
  n == 0x09 || n == 0x0A || n == 0x0C || n == 0x0D

/-- The character with the given number, unless it is an unreadable control. -/
def scalar? (n : Nat) : Option Char :=
  if n.isValidChar && (0x20 ≤ n || isReadableControl n) then some (Char.ofNat n) else none

/-- The character a number stands for, written in decimal or, behind an `x`, in
hexadecimal digits. -/
def numbered? : Text → Option Char
  | 'x' :: digits | 'X' :: digits => (Text.numeral? 16 Text.hexDigit? digits).bind scalar?
  | digits => (Text.natural? digits).bind scalar?

/-- The meaning of what stands between an ampersand and a semicolon. -/
def value? : Text → Option Char
  | '#' :: number => numbered? number
  | name => named? name

end ForumMarkup.Entity
