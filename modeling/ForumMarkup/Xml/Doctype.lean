import ForumMarkup.Text.Search
import ForumMarkup.Xml.Event

/-!
Contract: where a document type declaration ends.

Owns: `doctypeRest?`, the text behind the bracket that closes a declaration.

The declaration ends at the first closing bracket that stands neither in quotes
nor in the internal subset.  In the subset, comments, instructions and all other
markup are passed over as a whole; quotes count only in declarations of entities,
attributes and notations.
-/

set_option autoImplicit false

namespace ForumMarkup.Xml

/-- What a place inside a document type declaration belongs to. -/
inductive DoctypePart where
  /-- The part before the internal subset, inside a quote or not. -/
  | head (quote? : Option Char)
  /-- The internal subset. -/
  | subset
  /-- A comment of the subset. -/
  | comment
  /-- An instruction of the subset. -/
  | instruction
  /-- A declaration of the subset in which quotes count, inside a quote or not. -/
  | declaration (quote? : Option Char)
  /-- Any other markup of the subset. -/
  | plainMarkup
  /-- The part behind the subset. -/
  | tail

/-- What an opening bracket in the subset begins, by the text behind it, unless it is
plain markup. -/
def subsetParts : List (String × DoctypePart) :=
  [("?", .instruction), ("!--", .comment), ("!ENTITY", .declaration none),
    ("!ATTLIST", .declaration none), ("!NOTATION", .declaration none)]

/-- The part that an opening bracket in the subset begins, and the number of
characters that belong to the bracket. -/
def subsetPart (t : Text) : DoctypePart × Nat :=
  match subsetParts.find? fun part => Text.startsWith t part.1.toList with
  | some (beginning, part) => (part, beginning.length)
  | none => (.plainMarkup, 0)

/-- The quote that a character leaves open, when `quote?` is open before it. -/
def quoteAfter (quote? : Option Char) (c : Char) : Option Char :=
  match quote? with
  | none => if c = '\x22' ∨ c = '\x27' then some c else none
  | some quote => if c = quote then none else some quote

/-- The part of the declaration that goes on behind a character, and the number of
characters to pass over there; nothing where the declaration ends. -/
def doctypeStep (part : DoctypePart) (c : Char) (rest : Text) : Option (DoctypePart × Nat) :=
  match part with
  | .head none =>
      if c = '>' then none
      else if c = '[' then some (.subset, 0)
      else some (.head (quoteAfter none c), 0)
  | .head quote? => some (.head (quoteAfter quote? c), 0)
  | .subset =>
      if c = ']' then some (.tail, 0)
      else if c = '<' then some (subsetPart rest)
      else some (.subset, 0)
  | .comment =>
      if Text.startsWith (c :: rest) "-->".toList then some (.subset, 2) else some (.comment, 0)
  | .instruction =>
      if Text.startsWith (c :: rest) "?>".toList then some (.subset, 1)
      else some (.instruction, 0)
  | .plainMarkup => some (if c = '>' then .subset else .plainMarkup, 0)
  | .declaration none =>
      if c = '>' then some (.subset, 0) else some (.declaration (quoteAfter none c), 0)
  | .declaration quote? => some (.declaration (quoteAfter quote? c), 0)
  | .tail => if c = '>' then none else some (.tail, 0)

/-- The text behind the closing bracket of a declaration. -/
def doctypeRest? (part : DoctypePart) : Text → Option Text
  | [] => none
  | c :: rest =>
      match doctypeStep part c rest with
      | none => some rest
      | some (next, passed) => doctypeRest? next (rest.drop passed)
termination_by t => t.length
decreasing_by simp only [List.length_drop, List.length_cons]; omega

theorem doctypeRest?_suffix {part : DoctypePart} {t rest : Text}
    (found : doctypeRest? part t = some rest) : rest <:+ t := by
  fun_induction doctypeRest? part t with
  | case1 => simp at found
  | case2 part c tail => simp_all [List.suffix_cons]
  | case3 part c tail next passed _ ih =>
      exact ((ih found).trans (List.drop_suffix passed tail)).trans (List.suffix_cons c tail)

end ForumMarkup.Xml
