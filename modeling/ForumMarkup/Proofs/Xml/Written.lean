import ForumMarkup.Element
import ForumMarkup.Entity.Decode
import ForumMarkup.Proofs.Bbcode.Canonical

/-!
Contract: the XML that a tree is written as.

Owns:
- `Entity.escape`, a text with the characters that markup uses written as
  references;
- `tagText`, what stands in the start tag of an element;
- `Writes`, the documents for nodes: childless elements may be written in one tag or
  in two, and attributes in any order;
- `Node.Storable`, the trees that XML stands for without loss.

Main statement: `decode_escape`.
-/

set_option autoImplicit false

namespace ForumMarkup

/-! ### Escaped text -/

namespace Entity

def escapeChar (c : Char) : Text :=
  if c = '&' then "&amp;".toList
  else if c = '<' then "&lt;".toList
  else if c = '>' then "&gt;".toList
  else if c = '\x22' then "&quot;".toList
  else [c]

def escape (t : Text) : Text :=
  t.flatMap escapeChar

structure Names (name : Text) (c : Char) : Prop where
  letters : ∀ d ∈ name, d.isAlpha = true
  meaning : value? name = some c

/-- A character is written as itself or as a reference by a name. -/
theorem escapeChar_eq_or (c : Char) :
    (escapeChar c = [c] ∧ c ≠ '&' ∧ c ≠ '<' ∧ c ≠ '>' ∧ c ≠ '\x22') ∨
      ∃ name, escapeChar c = '&' :: (name ++ [';']) ∧ Names name c := by
  unfold escapeChar
  split
  · next same =>
      exact .inr ⟨"amp".toList, rfl, List.all_eq_true.1 (by decide), by rw [same]; rfl⟩
  split
  · next same =>
      exact .inr ⟨"lt".toList, rfl, List.all_eq_true.1 (by decide), by rw [same]; rfl⟩
  split
  · next same =>
      exact .inr ⟨"gt".toList, rfl, List.all_eq_true.1 (by decide), by rw [same]; rfl⟩
  split
  · next same =>
      exact .inr ⟨"quot".toList, rfl, List.all_eq_true.1 (by decide), by rw [same]; rfl⟩
  · next amp lt gt quot => exact .inl ⟨rfl, amp, lt, gt, quot⟩

theorem ne_of_isAlpha {c d : Char} (letter : c.isAlpha = true) (other : d.isAlpha = false) :
    c ≠ d := by
  rintro rfl
  rw [letter] at other
  cases other

theorem reference?_name {name : Text} {c : Char} (names : Names name c) (rest : Text) :
    reference? (name ++ ';' :: rest) = some (c, rest) := by
  have inside : ∀ d ∈ name, isInside d = true := by
    intro d member
    have letter := names.letters d member
    simp [isInside, ne_of_isAlpha letter (d := ';') (by decide),
      ne_of_isAlpha letter (d := '&') (by decide)]
  unfold reference?
  rw [List.dropWhile_append_of_pos inside, List.takeWhile_append_of_pos inside,
    List.dropWhile_cons_of_neg (by decide), List.takeWhile_cons_of_neg (by decide),
    List.append_nil, names.meaning]
  rfl

theorem decode_reference {t rest : Text} {c : Char} (found : reference? t = some (c, rest)) :
    decode ('&' :: t) = c :: decode rest := by
  rw [decode, if_pos rfl]
  split
  · next meaning after other =>
      rw [found, Option.some.injEq, Prod.mk.injEq] at other
      rw [other.1, other.2]
  · next none =>
      rw [found] at none
      cases none

theorem escape_cons (c : Char) (rest : Text) : escape (c :: rest) = escapeChar c ++ escape rest :=
  List.flatMap_cons

/-- Written text is decoded to the text, whatever that looks like. -/
theorem decode_escape (t : Text) : decode (escape t) = t := by
  induction t with
  | nil => rw [escape, List.flatMap_nil, decode]
  | cons c rest ih =>
      rw [escape_cons]
      rcases escapeChar_eq_or c with ⟨plain, noReference, _⟩ | ⟨name, written, names⟩
      · rw [plain, List.singleton_append, decode_cons_of_ne noReference, ih]
      · rw [written, List.cons_append, List.append_assoc, List.singleton_append,
          decode_reference (reference?_name names _), ih]

/-- No bracket and no quote is left in written text. -/
theorem of_mem_escape {t : Text} {d : Char} (member : d ∈ escape t) :
    d ≠ '<' ∧ d ≠ '>' ∧ d ≠ '\x22' := by
  obtain ⟨c, _, written⟩ := List.mem_flatMap.1 member
  rcases escapeChar_eq_or c with ⟨plain, _, lt, gt, quot⟩ | ⟨name, shape, names⟩
  · rw [plain, List.mem_singleton] at written
    rw [written]
    exact ⟨lt, gt, quot⟩
  · rw [shape, List.mem_cons, List.mem_append, List.mem_singleton] at written
    rcases written with rfl | inName | rfl
    · decide
    · have letter := names.letters d inName
      exact ⟨ne_of_isAlpha letter (by decide), ne_of_isAlpha letter (by decide),
        ne_of_isAlpha letter (by decide)⟩
    · decide

theorem quote_not_mem_escape (t : Text) : '\x22' ∉ escape t :=
  fun quote => (of_mem_escape quote).2.2 rfl

theorem escape_ne_nil {t : Text} (filled : t ≠ []) : escape t ≠ [] := by
  obtain ⟨c, rest, rfl⟩ := List.exists_cons_of_ne_nil filled
  rw [escape_cons]
  rcases escapeChar_eq_or c with ⟨plain, _⟩ | ⟨name, written, _⟩
  · simp [plain]
  · simp [written]

end Entity

/-! ### Written trees -/

namespace Xml

structure IsName (name : String) : Prop where
  filled : name.toList ≠ []
  letters : ∀ c ∈ name.toList, c.isAlpha = true

def attributeText (entry : String × Text) : Text :=
  ' ' :: (entry.1.toList ++ '=' :: '\x22' :: (Entity.escape entry.2 ++ ['\x22']))

def tagText (tag : String) (entries : List (String × Text)) : Text :=
  tag.toList ++ entries.flatMap attributeText

/-- The text is a way to write the nodes. -/
inductive Writes : List Node → Text → Prop where
  | nil : Writes [] []
  | text {content : Text} {nodes : List Node} {t : Text} (later : Writes nodes t) :
      Writes (.text content :: nodes) (Entity.escape content ++ t)
  | short {tag : String} {attributes : Attributes} {entries : List (String × Text)}
      {nodes : List Node} {t : Text} (listed : entries.Perm attributes.entries)
      (later : Writes nodes t) :
      Writes (.element tag attributes [] :: nodes) ('<' :: (tagText tag entries ++ '/' :: '>' :: t))
  | element {tag : String} {attributes : Attributes} {entries : List (String × Text)}
      {children nodes : List Node} {inner t : Text} (listed : entries.Perm attributes.entries)
      (within : Writes children inner) (later : Writes nodes t) :
      Writes (.element tag attributes children :: nodes)
        ('<' :: (tagText tag entries
          ++ '>' :: (inner ++ '<' :: '/' :: (tag.toList ++ '>' :: t))))

end Xml

/-- The trees that XML stands for without loss. -/
inductive Node.Storable : Node → Prop where
  | text {content : Text} (filled : content ≠ []) : Storable (.text content)
  | element {tag : String} {attributes : Attributes} {children : List Node}
      (named : Xml.IsName tag) (keyed : ∀ entry ∈ attributes.entries, Xml.IsName entry.1)
      (inner : ∀ child ∈ children, Storable child) (apart : Bbcode.Apart children) :
      Storable (.element tag attributes children)

end ForumMarkup
