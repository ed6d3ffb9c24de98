import ForumMarkup.Proofs.Dictionary
import ForumMarkup.Proofs.Xml.Written
import ForumMarkup.Xml.Document
import ForumMarkup.Xml.Scan

/-!
Contract: reading the tags of a written tree.

Main statements:
- `nextEvent_start`, `nextEvent_empty` and `nextEvent_stop`, the event of each kind of
  tag;
- `startElement_tagText`, the element that a tag starts.
-/

set_option autoImplicit false

namespace ForumMarkup.Xml

/-! ### Letters -/

variable {c : Char}

theorem isSpace_of_isAlpha (letter : c.isAlpha = true) : isSpace c = false := by
  simp [isSpace, Entity.ne_of_isAlpha letter (d := ' ') (by decide),
    Entity.ne_of_isAlpha letter (d := '\t') (by decide),
    Entity.ne_of_isAlpha letter (d := '\n') (by decide),
    Entity.ne_of_isAlpha letter (d := '\r') (by decide)]

theorem isInKey_of_isAlpha (letter : c.isAlpha = true) : isInKey c = true := by
  simp [isInKey, isSpace_of_isAlpha letter, Entity.ne_of_isAlpha letter (d := '=') (by decide)]

/-- A name starts with a letter. -/
theorem IsName.exists_cons {name : String} (isName : IsName name) :
    ∃ initial more, name.toList = initial :: more ∧ initial.isAlpha = true ∧
      ∀ c ∈ more, c.isAlpha = true := by
  obtain ⟨initial, more, shape⟩ := List.exists_cons_of_ne_nil isName.filled
  have letters := isName.letters
  rw [shape, List.forall_mem_cons] at letters
  exact ⟨initial, more, shape, letters⟩

theorem IsName.plain {name : String} (isName : IsName name) :
    ∀ c ∈ name.toList, c ≠ '>' ∧ c ≠ '\x22' ∧ c ≠ '\x27' := by
  intro c member
  have letter := isName.letters c member
  exact ⟨Entity.ne_of_isAlpha letter (by decide), Entity.ne_of_isAlpha letter (by decide),
    Entity.ne_of_isAlpha letter (by decide)⟩

/-! ### Where a tag ends -/

theorem tagContent_append {front t content rest : Text}
    (plain : ∀ c ∈ front, c ≠ '>' ∧ c ≠ '\x22' ∧ c ≠ '\x27')
    (found : tagContent none t = .ok (content, rest)) :
    tagContent none (front ++ t) = .ok (front ++ content, rest) := by
  induction front with
  | nil => exact found
  | cons c more ih =>
      obtain ⟨⟨open_, double, single⟩, plainMore⟩ := List.forall_mem_cons.1 plain
      have outside : quoteAfter none c = none := by simp [quoteAfter, double, single]
      rw [List.cons_append, tagContent, if_neg (by simp [open_]), outside, ih plainMore]
      rfl

theorem tagContent_quoted {value t content rest : Text} (plain : '\x22' ∉ value)
    (found : tagContent none t = .ok (content, rest)) :
    tagContent (some '\x22') (value ++ '\x22' :: t) = .ok (value ++ '\x22' :: content, rest) := by
  induction value with
  | nil =>
      have closes : quoteAfter (some '\x22') '\x22' = none := rfl
      rw [List.nil_append, tagContent, if_neg (by simp), closes, found]
      rfl
  | cons c more ih =>
      rw [List.mem_cons, not_or] at plain
      have inside : quoteAfter (some '\x22') c = some '\x22' := if_neg (Ne.symm plain.1)
      rw [List.cons_append, tagContent, if_neg (by simp), inside, ih plain.2]
      rfl

/-- No bracket inside a quoted value ends the tag. -/
theorem tagContent_attributes {entries : List (String × Text)}
    (keyed : ∀ entry ∈ entries, IsName entry.1) {t content rest : Text}
    (found : tagContent none t = .ok (content, rest)) :
    tagContent none (entries.flatMap attributeText ++ t)
      = .ok (entries.flatMap attributeText ++ content, rest) := by
  induction entries with
  | nil => exact found
  | cons entry more ih =>
      obtain ⟨named, keyedMore⟩ := List.forall_mem_cons.1 keyed
      have written (u : Text) : (entry :: more).flatMap attributeText ++ u
          = (' ' :: (entry.1.toList ++ ['='])) ++ '\x22' :: (Entity.escape entry.2
            ++ '\x22' :: (more.flatMap attributeText ++ u)) := by
        simp [attributeText]
      have plain : ∀ c ∈ ' ' :: (entry.1.toList ++ ['=']), c ≠ '>' ∧ c ≠ '\x22' ∧ c ≠ '\x27' := by
        intro c member
        rw [List.mem_cons, List.mem_append, List.mem_singleton] at member
        rcases member with rfl | inKey | rfl
        · decide
        · exact named.plain c inKey
        · decide
      have quoted := tagContent_quoted (Entity.quote_not_mem_escape entry.2) (ih keyedMore)
      have opens : tagContent none ('\x22' :: (Entity.escape entry.2
            ++ '\x22' :: (more.flatMap attributeText ++ t)))
          = .ok ('\x22' :: (Entity.escape entry.2
            ++ '\x22' :: (more.flatMap attributeText ++ content)), rest) := by
        rw [tagContent, if_neg (by simp), show quoteAfter none '\x22' = some '\x22' from rfl,
          quoted]
      rw [written, written]
      exact tagContent_append plain opens

theorem tagContent_tagText {tag : String} (named : IsName tag) {entries : List (String × Text)}
    (keyed : ∀ entry ∈ entries, IsName entry.1) {t content rest : Text}
    (found : tagContent none t = .ok (content, rest)) :
    tagContent none (tagText tag entries ++ t) = .ok (tagText tag entries ++ content, rest) := by
  rw [tagText, List.append_assoc, List.append_assoc]
  exact tagContent_append named.plain (tagContent_attributes keyed found)

/-! ### The event of a tag -/

theorem nextEvent_of_tagContent {initial : Char} (noDeclaration : initial ≠ '!')
    (noInstruction : initial ≠ '?') {more content rest : Text}
    (found : tagContent none (initial :: more) = .ok (content, rest)) :
    nextEvent '<' (initial :: more) = .ok (tagEvent content, content ++ ['>'], rest) := by
  have markup : scanMarkup (initial :: more) = scanTag (initial :: more) := by
    unfold scanMarkup
    split
    · next same => exact absurd (List.cons.inj same).1 noDeclaration
    · next same => exact absurd (List.cons.inj same).1 noDeclaration
    · next same => exact absurd (List.cons.inj same).1 noDeclaration
    · next same => exact absurd (List.cons.inj same).1 noDeclaration
    · next same => exact absurd (List.cons.inj same).1 noDeclaration
    · next same => exact absurd (List.cons.inj same).1 noInstruction
    · rfl
  rw [nextEvent, if_pos rfl, markup, scanTag, found]

/-- Attributes end with a quote. -/
theorem getLast?_attributes (entries : List (String × Text)) :
    (entries.flatMap attributeText).getLast? = none ∨
      (entries.flatMap attributeText).getLast? = some '\x22' := by
  induction entries with
  | nil => exact .inl rfl
  | cons entry more ih =>
      right
      have shape : attributeText entry
          = (' ' :: (entry.1.toList ++ '=' :: '\x22' :: Entity.escape entry.2)) ++ ['\x22'] := by
        simp [attributeText]
      have last : (attributeText entry).getLast? = some '\x22' := by
        rw [shape]
        exact List.getLast?_concat
      rw [List.flatMap_cons, List.getLast?_append, last]
      rcases ih with none | quote
      · rw [none]
        rfl
      · rw [quote]
        rfl

theorem getLast?_tagText {tag : String} (named : IsName tag) (entries : List (String × Text)) :
    (tagText tag entries).getLast? ≠ some '/' := by
  rw [tagText, List.getLast?_append]
  rcases getLast?_attributes entries with none | quote
  · rw [none, Option.none_or]
    intro slash
    exact Entity.ne_of_isAlpha (named.letters _ (List.mem_of_getLast? slash)) (by decide) rfl
  · rw [quote]
    simp

/-- What stands in a start tag begins with a letter. -/
theorem exists_tagText_cons {tag : String} (named : IsName tag) (entries : List (String × Text)) :
    ∃ initial more, tagText tag entries = initial :: more ∧ initial.isAlpha = true := by
  obtain ⟨initial, more, shape, letter, _⟩ := named.exists_cons
  refine ⟨initial, more ++ entries.flatMap attributeText, ?_, letter⟩
  rw [tagText, shape, List.cons_append]

theorem nextEvent_tagText {tag : String} (named : IsName tag) {entries : List (String × Text)}
    (keyed : ∀ entry ∈ entries, IsName entry.1) {t content rest : Text}
    (found : tagContent none t = .ok (content, rest)) :
    nextEvent '<' (tagText tag entries ++ t)
      = .ok (tagEvent (tagText tag entries ++ content), tagText tag entries ++ content ++ ['>'],
          rest) := by
  have whole := tagContent_tagText named keyed found
  obtain ⟨initial, more, shape, letter⟩ := exists_tagText_cons named entries
  rw [shape] at whole ⊢
  exact nextEvent_of_tagContent (Entity.ne_of_isAlpha letter (by decide))
    (Entity.ne_of_isAlpha letter (by decide)) whole

theorem nextEvent_start {tag : String} (named : IsName tag) {entries : List (String × Text)}
    (keyed : ∀ entry ∈ entries, IsName entry.1) (rest : Text) :
    nextEvent '<' (tagText tag entries ++ '>' :: rest)
      = .ok (.start (tagText tag entries), tagText tag entries ++ ['>'], rest) := by
  have closes : tagContent none ('>' :: rest) = .ok ([], rest) := rfl
  have event : tagEvent (tagText tag entries) = .start (tagText tag entries) := by
    obtain ⟨initial, more, shape, letter⟩ := exists_tagText_cons named entries
    have open_ := getLast?_tagText named entries
    unfold tagEvent
    split
    · next same =>
        rw [shape] at same
        exact absurd (List.cons.inj same).1 (Entity.ne_of_isAlpha letter (by decide))
    · exact if_neg open_
  rw [nextEvent_tagText named keyed closes, List.append_nil, event]

theorem nextEvent_empty {tag : String} (named : IsName tag) {entries : List (String × Text)}
    (keyed : ∀ entry ∈ entries, IsName entry.1) (rest : Text) :
    nextEvent '<' (tagText tag entries ++ '/' :: '>' :: rest)
      = .ok (.empty (tagText tag entries), tagText tag entries ++ ['/'] ++ ['>'], rest) := by
  have closes : tagContent none ('/' :: '>' :: rest) = .ok (['/'], rest) := rfl
  have event : tagEvent (tagText tag entries ++ ['/']) = .empty (tagText tag entries) := by
    obtain ⟨initial, more, shape, letter⟩ := exists_tagText_cons named entries
    unfold tagEvent
    split
    · next same =>
        rw [shape] at same
        exact absurd (List.cons.inj same).1 (Entity.ne_of_isAlpha letter (by decide))
    · rw [if_pos List.getLast?_concat, List.dropLast_concat]
  rw [nextEvent_tagText named keyed closes, event]

theorem endName_of_isName {tag : String} (named : IsName tag) :
    endName tag.toList = tag.toList := by
  obtain ⟨initial, more, shape, letter, _⟩ := named.exists_cons
  have solid : ∀ c ∈ tag.toList, isSpace c = false := fun c member =>
    isSpace_of_isAlpha (named.letters c member)
  have filled : tag.toList.all isSpace ≠ true := by
    rw [shape, List.all_cons, isSpace_of_isAlpha letter]
    exact Bool.false_ne_true
  obtain ⟨last, before, reversed⟩ :=
    List.exists_cons_of_ne_nil (mt List.reverse_eq_nil_iff.1 named.filled)
  have final : isSpace last = false := by
    refine solid last (List.mem_reverse.1 ?_)
    rw [reversed]
    exact List.mem_cons_self
  rw [endName, if_neg filled, reversed, List.dropWhile_cons_of_neg (by simp [final]), ← reversed,
    List.reverse_reverse]

theorem nextEvent_stop {tag : String} (named : IsName tag) (rest : Text) :
    nextEvent '<' ('/' :: (tag.toList ++ '>' :: rest))
      = .ok (.stop tag.toList, '/' :: tag.toList ++ ['>'], rest) := by
  have closes : tagContent none ('>' :: rest) = .ok ([], rest) := rfl
  have name := tagContent_append named.plain closes
  rw [List.append_nil] at name
  have slash : tagContent none ('/' :: (tag.toList ++ '>' :: rest))
      = .ok ('/' :: tag.toList, rest) := by
    rw [tagContent, if_neg (by simp), show quoteAfter none '/' = none from rfl, name]
  rw [nextEvent_of_tagContent (by decide) (by decide) slash, tagEvent, endName_of_isName named]

/-! ### The attributes of a tag -/

theorem attributeValue_quoted (total : Nat) {value : Text} (plain : '\x22' ∉ value) (rest : Text) :
    attributeValue total ('\x22' :: (value ++ '\x22' :: rest)) = .ok (value, rest) := by
  have inside : ∀ c ∈ value, (c != '\x22') = true := by
    intro c member
    exact bne_iff_ne.2 fun quote => plain (quote ▸ member)
  unfold attributeValue
  rw [List.dropWhile_cons_of_neg (by decide)]
  dsimp only
  rw [if_pos (.inl rfl), List.dropWhile_append_of_pos inside, List.takeWhile_append_of_pos inside,
    List.dropWhile_cons_of_neg (by decide), List.takeWhile_cons_of_neg (by decide),
    List.append_nil]

/-- One attribute is read from the start of the text, when its key is new. -/
theorem exists_attributesFrom_cons (total : Nat) {seen : List (Text × Nat)} {key : String}
    (named : IsName key) {value : Text} (plain : '\x22' ∉ value)
    (fresh : seen.lookup key.toList = none) (rest : Text) :
    ∃ place, ∀ others, attributesFrom total ((key.toList, place) :: seen) rest = .ok others →
      attributesFrom total seen (' ' :: (key.toList ++ '=' :: '\x22' :: (value ++ '\x22' :: rest)))
        = .ok (⟨key.toList, value⟩ :: others) := by
  obtain ⟨initial, more, shape, letter, letters⟩ := named.exists_cons
  let behind := '=' :: '\x22' :: (value ++ '\x22' :: rest)
  have begins :
      (' ' :: (key.toList ++ behind)).dropWhile isSpace = initial :: (more ++ behind) := by
    rw [List.dropWhile_cons_of_pos (by decide), shape, List.cons_append,
      List.dropWhile_cons_of_neg (by simp [isSpace_of_isAlpha letter])]
  have inKey : ∀ c ∈ more, isInKey c = true := fun c member => isInKey_of_isAlpha (letters c member)
  have keyEnds : (more ++ behind).takeWhile isInKey = more := by
    rw [List.takeWhile_append_of_pos inKey, List.takeWhile_cons_of_neg (by decide), List.append_nil]
  have equals : ((more ++ behind).dropWhile isInKey).dropWhile isSpace = behind := by
    rw [List.dropWhile_append_of_pos inKey, List.dropWhile_cons_of_neg (by decide),
      List.dropWhile_cons_of_neg (by decide)]
  refine ⟨total - Text.byteLength (initial :: (more ++ behind)), fun others read => ?_⟩
  rw [attributesFrom]
  split
  · next none =>
      rw [begins] at none
      cases none
  · next c tail here =>
      rw [begins] at here
      obtain ⟨rfl, rfl⟩ := List.cons.inj here
      dsimp only
      rw [keyEnds, ← shape]
      split
      · next quoted same =>
          rw [equals] at same
          obtain rfl := (List.cons.inj same).2
          rw [fresh]
          dsimp only
          split
          · next failure other =>
              rw [attributeValue_quoted total plain] at other
              cases other
          · next found after other =>
              rw [attributeValue_quoted total plain] at other
              cases other
              rw [read]
      · next other => exact absurd equals (other _)

def rawAttribute (entry : String × Text) : RawAttribute where
  key := entry.1.toList
  value := Entity.escape entry.2

/-- Attributes with distinct names are read in the order in which they are written. -/
theorem attributesFrom_attributes (total : Nat) {entries : List (String × Text)}
    (keyed : ∀ entry ∈ entries, IsName entry.1)
    (distinct : entries.Pairwise fun left right => left.1 ≠ right.1) {seen : List (Text × Nat)}
    (fresh : ∀ entry ∈ entries, seen.lookup entry.1.toList = none) :
    attributesFrom total seen (entries.flatMap attributeText) = .ok (entries.map rawAttribute) := by
  induction entries generalizing seen with
  | nil =>
      rw [List.flatMap_nil, attributesFrom]
      rfl
  | cons entry more ih =>
      obtain ⟨named, keyedMore⟩ := List.forall_mem_cons.1 keyed
      obtain ⟨others, distinctMore⟩ := List.pairwise_cons.1 distinct
      obtain ⟨freshEntry, freshMore⟩ := List.forall_mem_cons.1 fresh
      obtain ⟨place, step⟩ := exists_attributesFrom_cons total named
        (Entity.quote_not_mem_escape entry.2) freshEntry (more.flatMap attributeText)
      have freshThere : ∀ next ∈ more,
          ((entry.1.toList, place) :: seen).lookup next.1.toList = none := by
        intro next later
        have other : (next.1.toList == entry.1.toList) = false :=
          beq_false_of_ne fun same => others next later (String.toList_inj.1 same).symm
        rw [List.lookup_cons, other]
        exact freshMore next later
      have whole := step _ (ih keyedMore distinctMore freshThere)
      rw [List.flatMap_cons, List.map_cons]
      rw [show attributeText entry ++ more.flatMap attributeText
          = ' ' :: (entry.1.toList ++ '=' :: '\x22' :: (Entity.escape entry.2
            ++ '\x22' :: more.flatMap attributeText)) by simp [attributeText]]
      exact whole

/-- The attributes behind a name are nothing or start with a space. -/
theorem attributes_eq_nil_or (entries : List (String × Text)) :
    entries.flatMap attributeText = [] ∨ ∃ rest, entries.flatMap attributeText = ' ' :: rest := by
  cases entries with
  | nil => exact .inl rfl
  | cons entry more => exact .inr ⟨_, List.flatMap_cons⟩

theorem cut_tagText {tag : String} (named : IsName tag) (entries : List (String × Text)) :
    tagName (tagText tag entries) = tag.toList ∧
      (tagText tag entries).dropWhile (fun c => !isSpace c) = entries.flatMap attributeText := by
  have solid : ∀ c ∈ tag.toList, (!isSpace c) = true := by
    intro c member
    rw [isSpace_of_isAlpha (named.letters c member)]
    rfl
  unfold tagName tagText
  rw [List.takeWhile_append_of_pos solid, List.dropWhile_append_of_pos solid]
  rcases attributes_eq_nil_or entries with none | ⟨rest, some⟩
  · rw [none]
    exact ⟨List.append_nil _, rfl⟩
  · rw [some, List.takeWhile_cons_of_neg (by decide), List.dropWhile_cons_of_neg (by decide)]
    exact ⟨List.append_nil _, rfl⟩

/-- A tag starts the element that it was written for. -/
theorem startElement_tagText {tag : String} (named : IsName tag) {attributes : Attributes}
    (keyed : ∀ entry ∈ attributes.entries, IsName entry.1) {entries : List (String × Text)}
    (listed : entries.Perm attributes.entries) :
    Builder.startElement (tagText tag entries) = .ok { tag, attributes } := by
  have keyedHere : ∀ entry ∈ entries, IsName entry.1 :=
    fun entry member => keyed entry (listed.mem_iff.1 member)
  have distinct : entries.Pairwise fun left right => left.1 ≠ right.1 :=
    listed.symm.pairwise attributes.distinct_entries Ne.symm
  have read : attributeList (tagText tag entries) = .ok (entries.map rawAttribute) := by
    rw [attributeList, (cut_tagText named entries).2]
    exact attributesFrom_attributes _ keyedHere distinct fun _ _ => rfl
  have decoded : (entries.map rawAttribute).map (fun raw =>
      (String.ofList raw.key, Entity.decode raw.value)) = entries := by
    rw [List.map_map]
    refine List.map_id'' (fun entry => ?_) entries
    show (String.ofList entry.1.toList, Entity.decode (Entity.escape entry.2)) = entry
    rw [String.ofList_toList, Entity.decode_escape]
  unfold Builder.startElement
  rw [read]
  dsimp only
  rw [decoded, Dictionary.ofList_of_perm listed, (cut_tagText named entries).1,
    String.ofList_toList]

end ForumMarkup.Xml
