import ForumMarkup.Bbcode
import ForumMarkup.Proofs.Bbcode.Conservation

/-!
Contract: which smilies are found in a text.

Owns:
- `LongestCode`, the longest code that a text starts with;
- `Tagged`, the leaves and smilies of a text, found from the left without any order
  among the codes.

Main statement: `read_smilies`.  The nodes of a text are the ones that `Tagged` allows,
and reading hangs on the codes only in which ones there are.

Codes are tried in the order of their lengths in bytes.  Of two codes that one text starts
with, one begins the other, so the longer one has more characters as well as more bytes.
-/

set_option autoImplicit false

open scoped List

namespace ForumMarkup.Bbcode

/-- The longest code that a text starts with; the empty code is none. -/
structure LongestCode (codes : List Text) (t code : Text) : Prop where
  known : code ∈ codes
  filled : code ≠ []
  fits : code <+: t
  longest : ∀ other ∈ codes, other <+: t → other.length ≤ code.length

/-- The text leaves and smilies of a text, from the left: a smilie where a code fits, with
the longest such code, and a leaf over the places where none does. -/
inductive Tagged (codes : List Text) : Text → List Node → Prop where
  | nil : Tagged codes [] []
  | smilie {code rest : Text} {nodes : List Node}
      (longest : LongestCode codes (code ++ rest) code) (behind : Tagged codes rest nodes) :
      Tagged codes (code ++ rest) ((Element.ofText Tag.smilie code).toNode :: nodes)
  | plain {plain rest : Text} {nodes : List Node} (filled : plain ≠ [])
      (none : ∀ front back, plain = front ++ back → back ≠ [] →
        ∀ code, ¬LongestCode codes (back ++ rest) code)
      (stops : rest = [] ∨ ∃ code, LongestCode codes rest code)
      (behind : Tagged codes rest nodes) : Tagged codes (plain ++ rest) (.text plain :: nodes)

variable {codes others : List Text} {t code other rest : Text}

/-! ### The first code that fits -/

/-- Of two beginnings of a text the one with more bytes has more characters. -/
theorem length_le_of_byteLength_le (fits : code <+: t) (otherFits : other <+: t)
    (bytes : Text.byteLength other ≤ Text.byteLength code) : other.length ≤ code.length := by
  rcases List.prefix_or_prefix_of_prefix fits otherFits with ⟨more, rfl⟩ | shorter
  · cases more with
    | nil => simp
    | cons c tail =>
        have size : 0 < c.utf8Size := c.utf8Size_pos
        rw [Text.byteLength_append, Text.byteLength] at bytes
        omega
  · exact shorter.length_le

theorem LongestCode.unique (first : LongestCode codes t code)
    (second : LongestCode codes t other) : code = other := by
  have shorter := second.longest code first.known first.fits
  have longer := first.longest other second.known second.fits
  exact (List.prefix_of_prefix_length_le first.fits second.fits shorter).eq_of_length
    (Nat.le_antisymm shorter longer)

theorem mem_prepareCodes : code ∈ prepareCodes codes ↔ code ∈ codes ∧ code ≠ [] := by
  simp [prepareCodes]

theorem pairwise_prepareCodes (codes : List Text) :
    (prepareCodes codes).Pairwise fun left right =>
      Text.byteLength right ≤ Text.byteLength left := by
  let atMost (left right : Text) : Bool := decide (Text.byteLength right ≤ Text.byteLength left)
  have transitive : ∀ first second third : Text,
      atMost first second = true → atMost second third = true → atMost first third = true := by
    intro first second third
    simp only [atMost, decide_eq_true_eq]
    omega
  have total : ∀ first second : Text, (atMost first second || atMost second first) = true := by
    intro first second
    simp only [atMost, Bool.or_eq_true, decide_eq_true_eq]
    omega
  have sorted := List.pairwise_mergeSort transitive total (codes.filter fun code => !code.isEmpty)
  simpa [prepareCodes, atMost] using sorted

theorem matchCode?_eq_none_iff :
    matchCode? codes t = none ↔ ∀ code ∈ codes, code <+: t → code = [] := by
  simp only [matchCode?, List.findSome?_eq_none_iff, ite_eq_left_iff, Option.map_eq_none_iff]
  refine forall₂_congr fun code _ => ?_
  constructor
  · rintro none ⟨rest, rfl⟩
    refine Decidable.byContradiction fun filled => ?_
    have fits := none filled
    rw [Text.after?_append] at fits
    cases fits
  · intro unfit filled
    refine Option.eq_none_iff_forall_ne_some.2 fun rest fits => filled (unfit ?_)
    exact ⟨rest, (Text.eq_append_of_after? fits).symm⟩

/-- The first of the prepared codes that fits is the longest. -/
theorem longest_of_matchCode? (found : matchCode? (prepareCodes codes) t = some (code, rest)) :
    LongestCode codes t code := by
  obtain ⟨member, filled, shape⟩ := matchCode?_eq_some found
  refine ⟨(mem_prepareCodes.1 member).1, filled, ⟨rest, shape.symm⟩, ?_⟩
  intro other known fits
  by_cases empty : other = []
  · simp [empty]
  have prepared : other ∈ prepareCodes codes := mem_prepareCodes.2 ⟨known, empty⟩
  have sorted := pairwise_prepareCodes codes
  rw [matchCode?, List.findSome?_eq_some_iff] at found
  obtain ⟨earlier, first, later, parts, here, before⟩ := found
  have same : first = code := by
    simp only [Option.ite_none_left_eq_some, Option.map_eq_some_iff, Prod.mk.injEq] at here
    obtain ⟨_, _, _, rfl, _⟩ := here
    rfl
  rw [parts, same] at prepared sorted
  rcases List.mem_append.1 prepared with passed | remaining
  · exact absurd (matchCode?_eq_none_iff.1 (List.findSome?_eq_none_iff.2 before) other passed fits)
      empty
  · rcases List.mem_cons.1 remaining with rfl | behind
    · exact Nat.le_refl _
    · have bytes := (List.pairwise_append.1 sorted).2.1
      rw [List.pairwise_cons] at bytes
      exact length_le_of_byteLength_le ⟨rest, shape.symm⟩ fits (bytes.1 other behind)

/-- A text starts with no code that is tried, if with no code at all. -/
theorem matchCode?_prepareCodes_eq_none :
    matchCode? (prepareCodes codes) t = none ↔ ∀ code, ¬LongestCode codes t code := by
  constructor
  · intro none code longest
    exact longest.filled (matchCode?_eq_none_iff.1 none code
      (mem_prepareCodes.2 ⟨longest.known, longest.filled⟩) longest.fits)
  · intro none
    refine Option.eq_none_iff_forall_ne_some.2 fun found fits => ?_
    exact none found.1 (longest_of_matchCode? fits)

/-- With the codes in order the first code that fits is the longest one. -/
theorem matchCode?_prepareCodes :
    matchCode? (prepareCodes codes) t = some (code, rest) ↔
      LongestCode codes t code ∧ t = code ++ rest := by
  constructor
  · intro found
    exact ⟨longest_of_matchCode? found, (matchCode?_eq_some found).2.2⟩
  · rintro ⟨longest, rfl⟩
    cases found : matchCode? (prepareCodes codes) (code ++ rest) with
    | none => exact absurd longest (matchCode?_prepareCodes_eq_none.1 found code)
    | some pair =>
        obtain ⟨other, behind⟩ := pair
        have same := longest.unique (longest_of_matchCode? found)
        have shape := (matchCode?_eq_some found).2.2
        rw [← same, List.append_cancel_left_eq] at shape
        rw [same, shape]

/-! ### The nodes of a text -/

/-- Behind plain text without a smilie inside, the nodes of the rest are the same ones. -/
theorem tagged_splitFrom (plain t : Text)
    (none : ∀ front back, plain.reverse = front ++ back → back ≠ [] →
      ∀ code, ¬LongestCode codes (back ++ t) code) :
    Tagged codes (plain.reverse ++ t) (splitFrom (prepareCodes codes) plain t) := by
  have leafBefore : ∀ {plain t : Text} {nodes : List Node},
      (∀ front back, plain.reverse = front ++ back → back ≠ [] →
        ∀ code, ¬LongestCode codes (back ++ t) code) →
      (t = [] ∨ ∃ code, LongestCode codes t code) → Tagged codes t nodes →
      Tagged codes (plain.reverse ++ t) (leaf plain.reverse ++ nodes) := by
    intro plain t nodes none stops behind
    unfold leaf
    split
    · next empty =>
        rw [empty]
        exact behind
    · next filled => exact .plain filled none stops behind
  fun_induction splitFrom (prepareCodes codes) plain t with
  | case1 plain =>
      rw [← List.append_nil (leaf plain.reverse)]
      exact leafBefore none (.inl rfl) .nil
  | case2 plain c rest code after found _ ih =>
      obtain ⟨longest, shape⟩ := matchCode?_prepareCodes.1 found
      refine leafBefore none (.inr ⟨code, longest⟩) ?_
      rw [shape] at longest ⊢
      refine .smilie longest (ih fun front back empty filled => ?_)
      rw [List.reverse_nil, List.nil_eq_append_iff] at empty
      exact absurd empty.2 filled
  | case3 plain c rest unfit ih =>
      have longer : plain.reverse ++ c :: rest = (c :: plain).reverse ++ rest := by simp
      rw [longer]
      refine ih fun front back parts filled => ?_
      obtain ⟨inner, final, rfl⟩ := (List.eq_nil_or_concat back).resolve_left filled
      rw [List.reverse_cons, List.concat_eq_append, ← List.append_assoc] at parts
      obtain ⟨before, same⟩ := List.append_inj' parts rfl
      rw [List.concat_eq_append, List.append_assoc, ← same]
      cases inner with
      | nil => exact matchCode?_prepareCodes_eq_none.1 unfit
      | cons d more => exact none front (d :: more) before (List.cons_ne_nil d more)

theorem splitFrom_of_some (found : matchCode? codes t = some (code, rest)) (plain : Text) :
    splitFrom codes plain t
      = leaf plain.reverse
        ++ (Element.ofText Tag.smilie code).toNode :: splitFrom codes [] rest := by
  cases t with
  | nil => exact absurd (matchCode?_length found) (Nat.not_lt_zero _)
  | cons c tail =>
      rw [splitFrom]
      split
      · next found' =>
          rw [found, Option.some.injEq, Prod.mk.injEq] at found'
          rw [found'.1, found'.2]
      · next none =>
          rw [found] at none
          cases none

theorem splitFrom_of_none {c : Char} (none : matchCode? codes (c :: rest) = none) (plain : Text) :
    splitFrom codes plain (c :: rest) = splitFrom codes (c :: plain) rest := by
  rw [splitFrom]
  split
  · next found =>
      rw [none] at found
      cases found
  · rfl

/-- Plain text without a smilie inside is collected. -/
theorem splitFrom_append {plain : Text}
    (none : ∀ front back, plain = front ++ back → back ≠ [] →
      ∀ code, ¬LongestCode codes (back ++ rest) code) (before : Text) :
    splitFrom (prepareCodes codes) before (plain ++ rest)
      = splitFrom (prepareCodes codes) (plain.reverse ++ before) rest := by
  induction plain generalizing before with
  | nil => rfl
  | cons c tail ih =>
      have here := matchCode?_prepareCodes_eq_none.2 (none [] (c :: tail) rfl (by simp))
      have later : ∀ front back, tail = front ++ back → back ≠ [] →
          ∀ code, ¬LongestCode codes (back ++ rest) code :=
        fun front back parts => none (c :: front) back (congrArg (c :: ·) parts)
      rw [List.cons_append] at here ⊢
      rw [splitFrom_of_none here, ih later]
      simp

/-- The described division of a text is unique. -/
theorem Tagged.eq_splitSmilies {nodes : List Node} (tagged : Tagged codes t nodes) :
    nodes = splitSmilies (prepareCodes codes) t := by
  induction tagged with
  | nil => rw [splitSmilies, splitFrom, leaf, if_pos List.reverse_nil]
  | smilie longest behind ih =>
      rw [splitSmilies, splitFrom_of_some (matchCode?_prepareCodes.2 ⟨longest, rfl⟩), ih]
      rfl
  | @plain plain rest nodes filled none stops behind ih =>
      have collected : leaf (plain.reverse ++ []).reverse = [.text plain] := by
        rw [List.append_nil, List.reverse_reverse, leaf, if_neg filled]
      rw [splitSmilies, splitFrom_append none]
      rcases stops with rfl | ⟨code, longest⟩
      · rw [ih, splitSmilies, splitFrom, splitFrom, collected]
        rfl
      · obtain ⟨after, rfl⟩ := longest.fits
        have found := matchCode?_prepareCodes.2 ⟨longest, rfl⟩
        rw [ih, splitSmilies, splitFrom_of_some found, splitFrom_of_some found, collected]
        rfl

/-- The nodes of a text are the ones found from the left with the longest code each. -/
theorem tagged_iff (nodes : List Node) :
    Tagged codes t nodes ↔ nodes = splitSmilies (prepareCodes codes) t := by
  refine ⟨Tagged.eq_splitSmilies, ?_⟩
  rintro rfl
  refine tagged_splitFrom [] t fun front back empty filled => ?_
  exact absurd (List.nil_eq_append_iff.1 empty).2 filled

theorem Tagged.text_nil_not_mem {nodes : List Node} (tagged : Tagged codes t nodes) :
    .text [] ∉ nodes := by
  induction tagged with
  | nil => exact List.not_mem_nil
  | smilie _ _ ih =>
      rw [List.mem_cons, not_or]
      exact ⟨nofun, ih⟩
  | plain filled _ _ _ ih =>
      rw [List.mem_cons, not_or]
      exact ⟨fun same => filled (Node.text.inj same).symm, ih⟩

/-! ### Reading with other codes -/

theorem LongestCode.of_codes (same : ∀ code, code ≠ [] → (code ∈ others ↔ code ∈ codes))
    (longest : LongestCode codes t code) : LongestCode others t code where
  known := (same code longest.filled).2 longest.known
  filled := longest.filled
  fits := longest.fits
  longest other known fits := by
    by_cases empty : other = []
    · simp [empty]
    · exact longest.longest other ((same other empty).1 known) fits

/-- The nodes of a text hang only on which codes there are. -/
theorem splitSmilies_of_codes (same : ∀ code, code ≠ [] → (code ∈ others ↔ code ∈ codes))
    (t : Text) :
    splitSmilies (prepareCodes others) t = splitSmilies (prepareCodes codes) t := by
  have back : ∀ code, code ≠ [] → (code ∈ codes ↔ code ∈ others) :=
    fun code filled => (same code filled).symm
  have tagged : Tagged codes t (splitSmilies (prepareCodes codes) t) := (tagged_iff _).2 rfl
  generalize splitSmilies (prepareCodes codes) t = nodes at tagged
  refine ((tagged_iff _).1 ?_).symm
  induction tagged with
  | nil => exact .nil
  | smilie longest _ ih => exact .smilie (longest.of_codes same) ih
  | plain filled none stops _ ih =>
      refine .plain filled (fun front rear parts rest code longest => ?_) ?_ ih
      · exact none front rear parts rest code (longest.of_codes back)
      · exact stops.imp id fun ⟨code, longest⟩ => ⟨code, longest.of_codes same⟩

namespace Assembly

/-- The codes matter to a tree under construction only where text becomes nodes. -/
theorem flush_of_split (same : ∀ t, splitSmilies others t = splitSmilies codes t)
    (assembly : Assembly) : assembly.flush others = assembly.flush codes := by
  unfold flush
  simp only [same]

/-- Codes only matter through the way they divide texts. -/
theorem step_of_split (same : ∀ t, splitSmilies others t = splitSmilies codes t)
    (assembly : Assembly) (piece : Piece) :
    assembly.step others piece = assembly.step codes piece := by
  have flushed := flush_of_split same
  have added (assembly : Assembly) (element : Element) :
      assembly.addElement others element = assembly.addElement codes element := by
    rw [addElement, addElement, flushed]
  have acted : assembly.act others piece.source piece.lexeme
      = assembly.act codes piece.source piece.lexeme := by
    unfold act openItem close
    simp only [flushed, added]
  rw [step, step, acted]

end Assembly

/-- Reading hangs on the smilie codes only in which ones there are, not in their order or
how often they are given, and the empty code has no effect. The nodes of a text make it up
without empty leaves; they are exactly those that are found from the left, where a smilie
stands wherever some code fits and is the longest code that fits there. -/
theorem read_smilies (codes : List Text) :
    (∀ others : List Text, (∀ code, code ≠ [] → (code ∈ others ↔ code ∈ codes)) →
      ∀ input, read others input = read codes input) ∧
    ∀ t, t ≠ [] →
      Node.textContents (splitSmilies (prepareCodes codes) t) = t ∧
      .text [] ∉ splitSmilies (prepareCodes codes) t ∧
      ∀ nodes, Tagged codes t nodes ↔ nodes = splitSmilies (prepareCodes codes) t := by
  constructor
  · intro others same input
    have split := splitSmilies_of_codes same
    have built : (pieces input).foldl (Assembly.step (prepareCodes others)) {}
        = (pieces input).foldl (Assembly.step (prepareCodes codes)) {} :=
      congrArg (fun step => (pieces input).foldl step {})
        (funext fun assembly => funext (Assembly.step_of_split split assembly))
    rw [read, read, built, Assembly.finish, Assembly.finish, Assembly.flush_of_split split]
  · intro t _
    refine ⟨?_, ((tagged_iff _).2 rfl).text_nil_not_mem, tagged_iff⟩
    exact textContents_splitFrom _ [] t

def faceCodes : List Text :=
  [":-".toList, ":-)".toList, ":)".toList]

theorem read_smilies_faceCodes :
    let others : List Text := [":)".toList, [], ":-)".toList, ":-".toList, ":)".toList]
    (∀ code, code ≠ [] → (code ∈ others ↔ code ∈ faceCodes)) ∧
      read others ":-)[b]:-|[/b]".toList = read faceCodes ":-)[b]:-|[/b]".toList ∧
      "a:-):-|".toList ≠ [] ∧
      Tagged faceCodes "a:-):-|".toList
        [.text ['a'], (Element.ofText Tag.smilie ":-)".toList).toNode,
          (Element.ofText Tag.smilie ":-".toList).toNode, .text ['|']] := by
  intro others
  have same : ∀ code, code ≠ [] → (code ∈ others ↔ code ∈ faceCodes) := by
    intro code filled
    simp only [others, faceCodes, List.mem_cons, List.not_mem_nil, or_false]
    constructor
    · rintro (rfl | rfl | rfl | rfl | rfl)
      · exact .inr (.inr rfl)
      · exact absurd rfl filled
      · exact .inr (.inl rfl)
      · exact .inl rfl
      · exact .inr (.inr rfl)
    · rintro (rfl | rfl | rfl)
      · exact .inr (.inr (.inr (.inl rfl)))
      · exact .inr (.inr (.inl rfl))
      · exact .inl rfl
  have filled : "a:-):-|".toList ≠ [] := by decide
  have prepared : prepareCodes [":-)".toList, ":-".toList, ":)".toList]
      = [":-)".toList, ":-".toList, ":)".toList] :=
    List.mergeSort_of_pairwise (by decide)
  have reordered : ∀ code, code ≠ [] →
      (code ∈ faceCodes ↔ code ∈ [":-)".toList, ":-".toList, ":)".toList]) :=
    fun _ _ => (List.Perm.swap _ _ _).mem_iff
  have split : splitSmilies (prepareCodes faceCodes) "a:-):-|".toList
      = [.text ['a'], (Element.ofText Tag.smilie ":-)".toList).toNode,
          (Element.ofText Tag.smilie ":-".toList).toNode, .text ['|']] := by
    rw [splitSmilies_of_codes reordered, prepared]
    with_unfolding_all rfl
  exact ⟨same, (read_smilies faceCodes).1 others same _, filled,
    (((read_smilies faceCodes).2 _ filled).2.2 _).2 split.symm⟩

end ForumMarkup.Bbcode
