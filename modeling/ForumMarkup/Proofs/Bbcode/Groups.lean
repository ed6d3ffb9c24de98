import ForumMarkup.Bbcode.Piece
import ForumMarkup.Proofs.Text.Places

/-!
Contract: the bracket groups of BBCode, and what each piece of it is read from.

Owns:
- `IsGroup`, an opening bracket, a body without brackets and line feeds, and a
  closing bracket;
- `withoutGroups`, a text without its groups;
- `Lexeme.ReadFrom`, the texts a lexeme can be read from.

Main statement: `readFrom_of_mem_pieces`.  Apart from the text it keeps, a piece is
read from bracket groups and the two characters of a line end only.
-/

set_option autoImplicit false

open scoped List

namespace ForumMarkup.Bbcode

/-- An opening bracket, a body without brackets and line feeds, a closing bracket. -/
def IsGroup (t : Text) : Prop :=
  ∃ body : Text, body.all Token.isInside = true ∧ t = '[' :: (body ++ [']'])

/-- The text behind the bracket group whose opening bracket stands just before. -/
def behindGroup? (t : Text) : Option Text :=
  match t.dropWhile Token.isInside with
  | ']' :: behind => some behind
  | _ => none

theorem behindGroup?_eq_some {t behind : Text} (found : behindGroup? t = some behind) :
    ∃ body : Text, body.all Token.isInside = true ∧ t = body ++ ']' :: behind := by
  unfold behindGroup? at found
  split at found
  · next tail shape =>
      simp only [Option.some.injEq] at found
      refine ⟨t.takeWhile Token.isInside, List.all_takeWhile, ?_⟩
      rw [← found, ← shape, List.takeWhile_append_dropWhile]
  · simp at found

theorem behindGroup?_append {body : Text} (inside : body.all Token.isInside = true)
    (behind : Text) : behindGroup? (body ++ ']' :: behind) = some behind := by
  have closes : Token.isInside ']' = false := by decide
  unfold behindGroup?
  rw [List.dropWhile_append_of_pos (List.all_eq_true.1 inside), List.dropWhile_cons, closes]
  rfl

theorem behindGroup?_length {t behind : Text} (found : behindGroup? t = some behind) :
    behind.length < t.length := by
  obtain ⟨body, _, rfl⟩ := behindGroup?_eq_some found
  simp only [List.length_append, List.length_cons]
  omega

/-- The text without its bracket groups. -/
def withoutGroups : Text → Text
  | [] => []
  | c :: rest =>
      if c = '[' then
        match found : behindGroup? rest with
        | some behind =>
            have := behindGroup?_length found
            withoutGroups behind
        | none => c :: withoutGroups rest
      else c :: withoutGroups rest
termination_by t => t.length

@[simp]
theorem withoutGroups_nil : withoutGroups [] = [] := by
  rw [withoutGroups]

theorem withoutGroups_cons_of_ne {c : Char} (plain : c ≠ '[') (rest : Text) :
    withoutGroups (c :: rest) = c :: withoutGroups rest := by
  rw [withoutGroups, if_neg plain]

theorem withoutGroups_group {body : Text} (inside : body.all Token.isInside = true)
    (behind : Text) : withoutGroups ('[' :: (body ++ ']' :: behind)) = withoutGroups behind := by
  rw [withoutGroups, if_pos rfl]
  split
  · next found =>
      rw [behindGroup?_append inside] at found
      cases found
      rfl
  · next found =>
      rw [behindGroup?_append inside] at found
      cases found

theorem withoutGroups_of_isGroup {t : Text} (group : IsGroup t) : withoutGroups t = [] := by
  obtain ⟨body, inside, rfl⟩ := group
  rw [withoutGroups_group inside [], withoutGroups_nil]

theorem withoutGroups_sublist (t : Text) : withoutGroups t <+ t := by
  fun_induction withoutGroups t with
  | case1 => exact List.Sublist.slnil
  | case2 rest behind found _ ih =>
      obtain ⟨body, _, rfl⟩ := behindGroup?_eq_some found
      apply List.Sublist.cons
      apply List.Sublist.trans ih
      exact (List.sublist_cons_self _ _).trans (List.sublist_append_right _ _)
  | case3 rest _ ih => exact ih.cons_cons _
  | case4 c rest _ ih => exact ih.cons_cons _

/-- What a body without brackets is followed by loses the same groups behind it. -/
theorem withoutGroups_sublist_body {body : Text} (inside : body.all Token.isInside = true)
    (behind : Text) : withoutGroups behind <+ withoutGroups (body ++ ']' :: behind) := by
  induction body with
  | nil =>
      rw [List.nil_append, withoutGroups_cons_of_ne (by decide)]
      exact List.sublist_cons_self _ _
  | cons c rest ih =>
      simp only [List.all_cons, Bool.and_eq_true] at inside
      have plain : c ≠ '[' := by
        rintro rfl
        exact absurd inside.1 (by decide)
      rw [List.cons_append, withoutGroups_cons_of_ne plain]
      exact (ih inside.2).cons _

/-- Cutting a text in two can only tear groups apart, never make new ones. -/
theorem withoutGroups_append_sublist (front back : Text) :
    withoutGroups (front ++ back) <+ withoutGroups front ++ withoutGroups back := by
  fun_induction withoutGroups front with
  | case1 => exact List.Sublist.refl _
  | case2 rest behind found _ ih =>
      obtain ⟨body, inside, rfl⟩ := behindGroup?_eq_some found
      have joined : '[' :: (body ++ ']' :: behind) ++ back
          = '[' :: (body ++ ']' :: (behind ++ back)) := by simp
      rw [joined, withoutGroups_group inside]
      exact ih
  | case3 rest _ ih =>
      rw [List.cons_append, withoutGroups, if_pos rfl]
      split
      · next behind crossing =>
          obtain ⟨body, inside, shape⟩ := behindGroup?_eq_some crossing
          have kept := withoutGroups_sublist_body inside behind
          rw [← shape] at kept
          exact (kept.trans ih).cons _
      · exact ih.cons_cons _
  | case4 c rest plain ih =>
      rw [List.cons_append, withoutGroups_cons_of_ne plain]
      exact ih.cons_cons _

/-! ### What the pieces are read from -/

/-- The texts that a lexeme can be read from. -/
inductive Lexeme.ReadFrom : Text → Lexeme → Prop where
  | char (c : Char) : ReadFrom [c] (.char c)
  | carriageReturn : ReadFrom ['\r'] .carriageReturn
  | lineFeed : ReadFrom ['\n'] .lineFeed
  | verbatim (source : Text) : ReadFrom source .verbatim
  | opener (bracket : Bracket) (token : Token) (group : IsGroup token.text) :
      ReadFrom token.text (.opener bracket token)
  | closer (bracket : Bracket) (token : Token) (group : IsGroup token.text) :
      ReadFrom token.text (.closer bracket token)
  | whole (opening closing : Text) (element : Element) (opens : IsGroup opening)
      (closes : IsGroup closing) (content : element.tag ≠ Tag.lineBreak) :
      ReadFrom (opening ++ (element.textContent ++ closing)) (.whole element)
  | endlessCode (opening : Text) (element : Element) (opens : IsGroup opening)
      (content : element.tag ≠ Tag.lineBreak) :
      ReadFrom (opening ++ element.textContent) (.endlessCode element)

theorem isGroup_of_scan? {t rest : Text} {token : Token}
    (found : Token.scan? t = some (token, rest)) : IsGroup token.text := by
  refine ⟨token.body, ?_, rfl⟩
  unfold Token.scan? at found
  split at found
  · simp only [Option.map_eq_some_iff, Prod.mk.injEq] at found
    obtain ⟨_, inner, rfl, _⟩ := found
    rw [Token.body_of_ofBody? inner]
    exact List.all_takeWhile
  · simp at found

theorem isInside_of_toLower {c : Char} (inside : Token.isInside c.toLower = true) :
    Token.isInside c = true := by
  cases outside : Token.isInside c with
  | true => rfl
  | false =>
      simp only [Token.isInside, Bool.and_eq_false_iff, bne_eq_false_iff_eq] at outside
      rcases outside with (rfl | rfl) | rfl <;> exact absurd inside (by decide)

/-- A text that is a closing tag up to the case of its letters is a group. -/
theorem isGroup_of_map_toLower {name closer : Text} (inside : name.all Token.isInside = true)
    (spells : closer.map Char.toLower = closerText name) : IsGroup closer := by
  obtain ⟨opening, tail, rfl, opens, spellsTail⟩ := List.map_eq_cons_iff.1 spells
  obtain ⟨slash, named, rfl, slashes, spellsNamed⟩ := List.map_eq_cons_iff.1 spellsTail
  obtain ⟨written, last, rfl, writes, closes⟩ := List.map_eq_append_iff.1 spellsNamed
  obtain ⟨closing, none, rfl, closes, ends⟩ := List.map_eq_cons_iff.1 closes
  rw [List.map_eq_nil_iff] at ends
  rw [Text.eq_of_toLower_eq opens (by decide), Text.eq_of_toLower_eq slashes (by decide),
    Text.eq_of_toLower_eq closes (by decide), ends]
  refine ⟨'/' :: written, ?_, rfl⟩
  rw [List.all_cons, Bool.and_eq_true]
  refine ⟨by decide, List.all_eq_true.2 fun c member => ?_⟩
  apply isInside_of_toLower
  apply List.all_eq_true.1 inside
  rw [← writes]
  exact List.mem_map_of_mem member

theorem isGroup_of_findCloser? {name t content closer rest : Text}
    (inside : name.all Token.isInside = true)
    (found : findCloser? name t = some (content, closer, rest)) : IsGroup closer := by
  simp only [findCloser?, Option.map_eq_some_iff, Prod.mk.injEq] at found
  obtain ⟨⟨before, tail⟩, cut, rfl, rfl, rfl⟩ := found
  obtain ⟨there, rfl, recognised⟩ := Text.exists_of_cut? cut
  apply isGroup_of_map_toLower inside
  rw [List.drop_left]
  exact Text.map_toLower_take_of_afterFold? recognised

/-! ### Elements read with their content -/

/-- The element holds exactly the given text and is no line break. -/
def Holds (element : Element) (content : Text) : Prop :=
  element.textContent = content ∧ element.tag ≠ Tag.lineBreak

theorem holds_ofText {tag : String} (other : tag ≠ Tag.lineBreak) (content : Text) :
    Holds (Element.ofText tag content) content := by
  refine ⟨?_, other⟩
  simp [Element.textContent, Element.ofText, Node.textContents, Node.textContent]

theorem Holds.set {element : Element} {content : Text} (holds : Holds element content)
    (key : String) (value : Text) : Holds (element.set key value) content :=
  holds

theorem holds_codeElement (token : Token) (content : Text) :
    Holds (codeElement token content) content := by
  have plain : Holds (Element.ofText Tag.code content) content := holds_ofText (by decide) content
  unfold codeElement
  split
  · exact plain.set _ _
  · exact plain

theorem holds_videoElement (content : Text) : Holds (videoElement content) content := by
  have plain : Holds (Element.ofText Tag.video content) content := holds_ofText (by decide) content
  unfold videoElement
  split
  · exact plain.set _ _
  · exact plain

theorem holds_attachmentElement (token : Token) (content : Text) :
    Holds (attachmentElement token content) content := by
  have named : Holds (valueElement Tag.attachment Key.filename content) content :=
    (holds_ofText (by decide) content).set _ _
  unfold attachmentElement
  split
  · exact named.set _ _
  · exact named

/-- The element of a plain content holds all of it, also where a part of it became an
attribute. -/
theorem holds_of_plainElement? {bracket : Bracket} {token : Token} {build : Text → Element}
    (found : plainElement? bracket token = some build) (content : Text) :
    Holds (build content) content := by
  unfold plainElement? at found
  split at found
  · cases found
    exact (holds_ofText (by decide) content).set _ _
  · cases found
    exact holds_videoElement content
  · cases found
    exact holds_attachmentElement token content
  · split at found <;> cases found
    exact (holds_ofText (by decide) content).set _ _
  · split at found <;> cases found
    exact (holds_ofText (by decide) content).set _ _
  · cases found

theorem readFrom_whole {opening content closing : Text} {element : Element}
    (opens : IsGroup opening) (closes : IsGroup closing) (holds : Holds element content) :
    Lexeme.ReadFrom (opening ++ (content ++ closing)) (.whole element) := by
  rw [← holds.1]
  exact .whole opening closing element opens closes holds.2

/-- The tag of a bracket group is read together with the content it takes as plain text. -/
theorem readFrom_openerLexeme {token : Token} (group : IsGroup token.text)
    (inside : token.name.all Token.isInside = true) (bracket : Bracket) (rest : Text) :
    Lexeme.ReadFrom (token.text ++ (openerLexeme bracket token rest).1)
      (openerLexeme bracket token rest).2.1 := by
  unfold openerLexeme
  split
  · split
    · next found =>
        exact readFrom_whole group (isGroup_of_findCloser? (by decide) found)
          (holds_codeElement token _)
    · have holds := holds_codeElement token rest
      have whole := Lexeme.ReadFrom.endlessCode token.text (codeElement token rest) group holds.2
      rw [holds.1] at whole
      exact whole
  · split
    · rw [List.append_nil]
      exact .opener bracket token group
    · next made =>
        split
        · next found =>
            exact readFrom_whole group (isGroup_of_findCloser? inside found)
              (holds_of_plainElement? made _)
        · exact .verbatim _

theorem readFrom_tokenLexeme {token : Token} (group : IsGroup token.text)
    (inside : token.name.all Token.isInside = true) (rest : Text) :
    Lexeme.ReadFrom (token.text ++ (tokenLexeme token rest).1) (tokenLexeme token rest).2.1 := by
  unfold tokenLexeme
  split
  · exact .verbatim _
  · split
    · rw [List.append_nil]
      exact .closer _ token group
    · exact readFrom_openerLexeme group inside _ rest

/-- The name of a token stands inside its group. -/
theorem all_isInside_name {token : Token} (group : IsGroup token.text) :
    token.name.all Token.isInside = true := by
  obtain ⟨body, inside, shape⟩ := group
  have same : token.body = body := by simpa [Token.text] using shape
  apply List.all_eq_true.2
  intro lowered member
  obtain ⟨c, spelled, rfl⟩ := List.mem_map.1 member
  have here : c ∈ body := by
    rw [← same]
    simp [Token.body, spelled]
  rcases Text.toLower_eq_or_letter c with kept | letter
  · rw [kept]
    exact List.all_eq_true.1 inside c here
  · have notSpecial : ∀ special : Char, ¬('a' ≤ special ∧ special ≤ 'z') → c.toLower ≠ special :=
      fun special none same => none (same ▸ letter)
    simp only [Token.isInside, Bool.and_eq_true, bne_iff_ne]
    exact ⟨⟨notSpecial _ (by decide), notSpecial _ (by decide)⟩, notSpecial _ (by decide)⟩

/-- Every piece is read from its source: a bracket group, a content with its tags, or
characters. -/
theorem readFrom_nextPiece (c : Char) (rest : Text) :
    Lexeme.ReadFrom (nextPiece c rest).1.source (nextPiece c rest).1.lexeme := by
  unfold nextPiece
  split
  · split
    · next found =>
        have group := isGroup_of_scan? found
        exact readFrom_tokenLexeme group (all_isInside_name group) _
    · exact .char c
  · split
    · next feed =>
        rw [feed]
        exact .lineFeed
    · split
      · next returns =>
          rw [returns.1]
          exact .carriageReturn
      · exact .char c

/-- Every piece of a text is read from what its lexeme can be read from. -/
theorem readFrom_of_mem_pieces {t : Text} {piece : Piece} (member : piece ∈ pieces t) :
    piece.lexeme.ReadFrom piece.source := by
  fun_induction pieces t with
  | case1 => cases member
  | case2 c rest _ ih =>
      rcases List.mem_cons.1 member with rfl | later
      · exact readFrom_nextPiece c rest
      · exact ih later

end ForumMarkup.Bbcode
