/-!
Contract: the text of posts as a list of characters, and the two classes of
blank characters that decide where text may be cut.

Owns:
- `Text`, the representation of every piece of text that is scanned or written;
- `Text.isBlank`, the property `White_Space` of Unicode, and `Text.isAsciiBlank`,
  the five blanks that separate words in HTML;
- trimming at either end, and the byte length of a text.

Main statement: an ASCII blank is a blank.
-/

set_option autoImplicit false

namespace ForumMarkup

/-- The characters of a piece of text, in reading order. -/
abbrev Text := List Char

namespace Text

/-- The characters with the Unicode property `White_Space`. -/
def isBlank (c : Char) : Bool :=
  let n := c.toNat
  (9 ≤ n && n ≤ 13) || n == 0x20 || n == 0x85 || n == 0xA0 || n == 0x1680
    || (0x2000 ≤ n && n ≤ 0x200A) || n == 0x2028 || n == 0x2029 || n == 0x202F
    || n == 0x205F || n == 0x3000

/-- Space, tab, line feed, form feed and carriage return. -/
def isAsciiBlank (c : Char) : Bool :=
  c == ' ' || c == '\t' || c == '\n' || c == '\x0c' || c == '\r'

def trimStart (t : Text) : Text :=
  t.dropWhile isBlank

def trimEnd (t : Text) : Text :=
  (t.reverse.dropWhile isBlank).reverse

def trim (t : Text) : Text :=
  trimEnd (trimStart t)

def allBlank (t : Text) : Bool :=
  t.all isBlank

def byteLength : Text → Nat
  | [] => 0
  | c :: rest => c.utf8Size + byteLength rest

/-- The text with the letters `A` to `Z` in lower case and all else kept. -/
def lower (t : Text) : Text :=
  t.map Char.toLower

theorem isBlank_of_isAsciiBlank {c : Char} (blank : isAsciiBlank c = true) :
    isBlank c = true := by
  simp only [isAsciiBlank, Bool.or_eq_true, beq_iff_eq] at blank
  rcases blank with (((rfl | rfl) | rfl) | rfl) | rfl <;> decide

theorem byteLength_append (s t : Text) :
    byteLength (s ++ t) = byteLength s + byteLength t := by
  induction s with
  | nil => simp [byteLength]
  | cons c rest ih => simp [byteLength, ih, Nat.add_assoc]

end Text

end ForumMarkup
