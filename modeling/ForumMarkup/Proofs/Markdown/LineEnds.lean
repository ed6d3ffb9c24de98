import ForumMarkup.Proofs.Markdown.BareSpans
import ForumMarkup.Proofs.Markdown.MarkedText
import ForumMarkup.Proofs.Text.Trim

/-!
Contract: the end of a text outside of quotes, where lines have no mark.

Owns:
- `Closes`, an end behind which a line feed is written unless there is one;
- `EndsPlain`, an end that a line feed does not turn into another break;
- `Settled`, an end from which line feeds are taken off without a trace.

Main statements: `stripBreaks_line`, stripping behind a line takes the blanks at
its end, and `addBreaks_line`, breaks behind a line replace these blanks.
-/

set_option autoImplicit false

namespace ForumMarkup.Markdown

variable {options : Options} {kind : BreakKind} {buffer : Buffer}

/-- Without a line mark there is no line that holds only the mark. -/
theorem stripMarkLine?_of_no_mark (buffer : Buffer) : stripMarkLine? [] buffer = none := by
  simp only [stripMarkLine?]
  rw [if_neg]
  rintro ⟨_, filled, isMark⟩
  rcases isMark with none | none
  · exact filled none
  · exact filled none

theorem stripUnit?_of_ne_feed {c : Char} (other : c ≠ '\n') (rest : Buffer) :
    stripUnit? (c :: rest) = none := by
  unfold stripUnit?
  split
  · next same => exact absurd (List.cons.inj same).1 other
  · next same => exact absurd (List.cons.inj same).1 other
  · next same => exact absurd (List.cons.inj same).1 other
  · rfl

/-- Nothing is stripped behind a character that is not blank. -/
theorem stripLast?_of_solid {c : Char} (solid : Text.isBlank c = false) (rest : Buffer) :
    stripLast? [] (c :: rest) = none := by
  rw [stripLast?, stripUnit?_of_ne_feed (Text.ne_lineFeed_of_solid solid),
    stripMarkLine?_of_no_mark, stripBlank?, solid]
  rfl

theorem stripBreaks_of_solid {c : Char} (solid : Text.isBlank c = false) (rest : Buffer) :
    stripBreaks [] (c :: rest) = c :: rest :=
  stripBreaks_of_none (stripLast?_of_solid solid rest)

/-- A blank that is no line feed is stripped alone. -/
theorem stripBreaks_of_blank {c : Char} (blank : Text.isBlank c = true) (other : c ≠ '\n')
    (rest : Buffer) : stripBreaks [] (c :: rest) = stripBreaks [] rest := by
  refine stripBreaks_of_some ?_
  rw [stripLast?, stripUnit?_of_ne_feed other, stripMarkLine?_of_no_mark, stripBlank?, blank]
  rfl

/-- Blanks of one line are stripped like nothing. -/
theorem stripBreaks_blanks {blanks : Buffer} (single : '\n' ∉ blanks)
    (blank : Text.allBlank blanks = true) (buffer : Buffer) :
    stripBreaks [] (blanks ++ buffer) = stripBreaks [] buffer := by
  induction blanks with
  | nil => rfl
  | cons last front ih =>
      rw [List.mem_cons, not_or] at single
      rw [Text.allBlank, List.all_cons, Bool.and_eq_true] at blank
      rw [List.cons_append, stripBreaks_of_blank blank.1 (Ne.symm single.1)]
      exact ih single.2 blank.2

theorem countBreaks_of_ne_feed {c : Char} (other : c ≠ '\n') (rest : Buffer) :
    countBreaks [] (c :: rest) = 0 :=
  countBreaks_of_none (stripUnit?_of_ne_feed other rest) (stripMarkLine?_of_no_mark _)

/-- Stripping ends at a line that shows something, of which only the blanks at its end go. -/
theorem stripBreaks_append {line : Buffer} (single : '\n' ∉ line)
    (solid : ∃ c ∈ line, Text.isBlank c = false) (buffer : Buffer) :
    stripBreaks [] (line ++ buffer) = line.dropWhile Text.isBlank ++ buffer ∧
      line.dropWhile Text.isBlank ≠ [] := by
  induction line with
  | nil =>
      obtain ⟨c, member, _⟩ := solid
      cases member
  | cons last front ih =>
      rw [List.mem_cons, not_or] at single
      cases blank : Text.isBlank last with
      | false =>
          rw [List.dropWhile_cons_of_neg (by simp [blank]), List.cons_append]
          exact ⟨stripBreaks_of_solid blank _, List.cons_ne_nil _ _⟩
      | true =>
          have within : ∃ c ∈ front, Text.isBlank c = false := by
            obtain ⟨c, member, solidThere⟩ := solid
            rcases List.mem_cons.1 member with rfl | inFront
            · rw [blank] at solidThere
              cases solidThere
            · exact ⟨c, inFront, solidThere⟩
          rw [List.dropWhile_cons_of_pos blank, List.cons_append,
            stripBreaks_of_blank blank (Ne.symm single.1)]
          exact ih single.2 within

theorem reverse_trimEnd (t : Text) :
    (Text.trimEnd t).reverse = t.reverse.dropWhile Text.isBlank :=
  List.reverse_reverse _

/-- Stripping behind a line that is not blank takes the blanks at its end. -/
theorem stripBreaks_line {line : Text} (single : '\n' ∉ line)
    (solid : ∃ c ∈ line, Text.isBlank c = false) (buffer : Buffer) :
    stripBreaks [] (line.reverse ++ buffer) = (Text.trimEnd line).reverse ++ buffer ∧
      (Text.trimEnd line).reverse ≠ [] := by
  rw [reverse_trimEnd]
  refine stripBreaks_append (fun feed => single (List.mem_reverse.1 feed)) ?_ buffer
  obtain ⟨c, member, solidThere⟩ := solid
  exact ⟨c, List.mem_reverse.2 member, solidThere⟩

/-- Breaks behind what ends with none take the place of the blanks at its end, and of the
breaks before these. -/
theorem addBreaks_of_ne_feed {buffer : Buffer} (unbroken : buffer.head? ≠ some '\n')
    (noBlock : kind ≠ .html) {required : Nat} (asked : required ≠ 0) :
    addBreaks options kind [] required buffer
      = if stripBreaks [] buffer = [] then []
        else (breakRun options kind [] required).reverse ++ stripBreaks [] buffer := by
  cases buffer with
  | nil =>
      have none : stripBreaks [] ([] : Buffer) = [] := stripBreaks_of_none rfl
      rw [none, if_pos rfl]
      exact if_pos (.inr rfl)
  | cons last front =>
      have other : last ≠ '\n' := fun feed => unbroken (congrArg some feed)
      have needed : breaksNeeded kind required 0 = required := by
        cases kind with
        | html => exact absurd rfl noBlock
        | auto => rfl
        | hard => rfl
      unfold addBreaks
      rw [if_neg (by simp [asked]), countBreaks_of_ne_feed other]
      dsimp only
      rw [needed, if_neg (by omega)]
      cases stripBreaks [] (last :: front) with
      | nil => rfl
      | cons c rest => rfl

theorem head?_reverse_append {line : Text} (single : '\n' ∉ line) (filled : line ≠ [])
    (buffer : Buffer) : (line.reverse ++ buffer).head? ≠ some '\n' := by
  obtain ⟨last, front, shape⟩ := List.exists_cons_of_ne_nil (mt List.reverse_eq_nil_iff.1 filled)
  rw [shape, List.cons_append, List.head?_cons]
  rintro ⟨⟩
  refine single (List.mem_reverse.1 ?_)
  rw [shape]
  exact List.mem_cons_self

/-- Breaks behind a line that is not blank take the place of the blanks at its end. -/
theorem addBreaks_line {line : Text} (single : '\n' ∉ line)
    (solid : ∃ c ∈ line, Text.isBlank c = false) (noBlock : kind ≠ .html) {required : Nat}
    (asked : required ≠ 0) (buffer : Buffer) :
    addBreaks options kind [] required (line.reverse ++ buffer)
      = (breakRun options kind [] required).reverse ++ ((Text.trimEnd line).reverse ++ buffer) := by
  have filled : line ≠ [] := by
    rintro rfl
    obtain ⟨c, member, _⟩ := solid
    cases member
  obtain ⟨stripped, kept⟩ := stripBreaks_line single solid buffer
  rw [addBreaks_of_ne_feed (head?_reverse_append single filled buffer) noBlock asked, stripped,
    if_neg (by simp [List.append_eq_nil_iff, kept])]

theorem breakPiece_of_no_mark (options : Options) (kind : BreakKind) (count place : Nat) :
    breakPiece options kind [] count place = (breakUnit options kind count place).text := by
  have noLead : breakLead [] place (breakUnit options kind count place) = [] := by
    unfold breakLead
    split
    · rfl
    · split <;> rfl
  rw [breakPiece, noLead, List.nil_append]

/-! ### Lines that are closed or can be -/

/-- The buffer ends with a line feed or with a character that is not blank. -/
def Closes (buffer : Buffer) : Prop :=
  ∃ c rest, buffer = c :: rest ∧ (c = '\n' ∨ Text.isBlank c = false)

theorem addBreaks_feed (buffer : Buffer) : addBreaks {} .auto [] 1 ('\n' :: buffer) = '\n' :: buffer := by
  have counted : ∃ rest, stripUnit? ('\n' :: buffer) = some rest := by
    unfold stripUnit?
    split
    · exact ⟨_, rfl⟩
    · exact ⟨_, rfl⟩
    · exact ⟨_, rfl⟩
    · next other => exact absurd rfl (other buffer)
  obtain ⟨rest, unit⟩ := counted
  have enough : breaksNeeded .auto 1 (countBreaks [] rest + 1) ≤ countBreaks [] rest + 1 :=
    Nat.le_add_left 1 _
  unfold addBreaks
  rw [if_neg (by simp), countBreaks_of_unit unit]
  exact if_pos enough

/-- A closed line is ended by a line feed unless it has one. -/
theorem addBreaks_of_closes {buffer : Buffer} (closes : Closes buffer) :
    addBreaks {} .auto [] 1 buffer = if buffer.head? = some '\n' then buffer else '\n' :: buffer := by
  obtain ⟨c, rest, rfl, rfl | solid⟩ := closes
  · rw [addBreaks_feed]
    rfl
  · have other : (c :: rest).head? ≠ some '\n' := by
      rw [List.head?_cons, ne_eq, Option.some.injEq]
      exact Text.ne_lineFeed_of_solid solid
    rw [addBreaks_of_none (List.cons_ne_nil c rest) (stripLast?_of_solid solid rest) (by decide)
      (by decide), if_neg other]
    rfl

theorem addBreaks_append_of_closes {buffer : Buffer} (closes : Closes buffer) (more : Buffer) :
    addBreaks {} .auto [] 1 (buffer ++ more) = addBreaks {} .auto [] 1 buffer ++ more := by
  rw [addBreaks_of_closes closes]
  obtain ⟨c, rest, rfl, close⟩ := closes
  rw [List.cons_append, addBreaks_of_closes ⟨c, rest ++ more, rfl, close⟩]
  show (if some c = some '\n' then _ else _) = (if some c = some '\n' then _ else _) ++ more
  split <;> rfl

theorem getLast?_addBreaks {buffer : Buffer} (closes : Closes buffer) :
    (addBreaks {} .auto [] 1 buffer).getLast? = buffer.getLast? := by
  rw [addBreaks_of_closes closes]
  obtain ⟨c, rest, rfl, _⟩ := closes
  split
  · rfl
  · exact List.getLast?_cons_cons

/-- The buffer ends with a character that is not blank, and not with the beginning of
a hard or an HTML break. -/
structure Settled (buffer : Buffer) : Prop where
  solid : ∃ c rest, buffer = c :: rest ∧ Text.isBlank c = false
  noHard : buffer.head? ≠ some '\\'
  noHtml : ¬"<br>".toList.reverse <+: buffer

/-- An HTML break does not reach across a character that it does not hold. -/
theorem not_html_append {c : Char} (other : c ∉ "<br>".toList) {buffer : Buffer}
    (noHtml : ¬"<br>".toList.reverse <+: buffer) (more : Buffer) :
    ¬"<br>".toList.reverse <+: buffer ++ c :: more := by
  intro html
  rcases List.prefix_or_prefix_of_prefix html (List.prefix_append buffer (c :: more)) with
    inside | ⟨beyond, across⟩
  · exact noHtml inside
  · obtain ⟨after, whole⟩ := html
    rw [← across, List.append_assoc] at whole
    have next := List.append_cancel_left whole
    cases beyond with
    | nil =>
        rw [List.append_nil] at across
        exact noHtml (across ▸ List.prefix_rfl)
    | cons d others =>
        have same : d = c := (List.cons.inj next).1
        refine other (List.mem_reverse.1 ?_)
        rw [← across, same]
        exact List.mem_append_right _ List.mem_cons_self

theorem not_html_append_blank {buffer : Buffer} (noHtml : ¬"<br>".toList.reverse <+: buffer)
    (more : Buffer) : ¬"<br>".toList.reverse <+: buffer ++ ' ' :: more :=
  not_html_append (by decide) noHtml more

theorem Settled.append_blank {buffer : Buffer} (settled : Settled buffer) (more : Buffer) :
    Settled (buffer ++ ' ' :: more) := by
  obtain ⟨c, rest, rfl, solid⟩ := settled.solid
  exact ⟨⟨c, _, rfl, solid⟩, settled.noHard, not_html_append_blank settled.noHtml more⟩

/-- A line feed behind neither a backslash nor an HTML break goes alone. -/
theorem stripUnit?_soft {buffer : Buffer} (noHard : buffer.head? ≠ some '\\')
    (noHtml : ¬"<br>".toList.reverse <+: buffer) : stripUnit? ('\n' :: buffer) = some buffer := by
  unfold stripUnit?
  split
  · next rest same =>
      rw [(List.cons.inj same).2] at noHtml
      exact absurd ⟨rest, rfl⟩ noHtml
  · next rest same =>
      rw [(List.cons.inj same).2] at noHard
      exact absurd rfl noHard
  · next rest _ _ same => rw [(List.cons.inj same).2]
  · next other => exact absurd rfl (other buffer)

/-- A buffer behind which a line feed is a break of its own. -/
structure EndsPlain (buffer : Buffer) : Prop where
  noHard : buffer.head? ≠ some '\\'
  noHtml : ¬"<br>".toList.reverse <+: buffer

theorem stripUnit?_unit {buffer : Buffer} (unit : BreakUnit)
    (plain : unit = .soft → EndsPlain buffer) :
    stripUnit? (unit.text.reverse ++ buffer) = some buffer := by
  cases unit with
  | soft => exact stripUnit?_soft (plain rfl).noHard (plain rfl).noHtml
  | hard => rfl
  | html => rfl

theorem stripUnit?_of_settled {buffer : Buffer} (settled : Settled buffer) :
    stripUnit? ('\n' :: buffer) = some buffer :=
  stripUnit?_soft settled.noHard settled.noHtml

theorem stripBreaks_of_settled {buffer : Buffer} (settled : Settled buffer) :
    stripBreaks [] buffer = buffer := by
  obtain ⟨c, rest, rfl, solid⟩ := settled.solid
  exact stripBreaks_of_solid solid rest

/-- A spelled break is taken off as a whole, behind a settled end or another break. -/
theorem stripBreaks_unit (unit : BreakUnit) {buffer : Buffer}
    (ready : Settled buffer ∨ ∃ more, buffer = '\n' :: more) :
    stripBreaks [] (unit.text.reverse ++ buffer) = stripBreaks [] buffer := by
  refine stripBreaks_of_stripUnit? ?_
  cases unit with
  | soft =>
      rcases ready with settled | ⟨more, rfl⟩
      · exact stripUnit?_of_settled settled
      · rfl
  | hard => rfl
  | html => rfl

/-- A run of breaks behind a settled end is taken off again. -/
theorem stripBreaks_breakRun (options : Options) (kind : BreakKind) (count : Nat) {buffer : Buffer}
    (settled : Settled buffer) :
    stripBreaks [] ((breakRun options kind [] count).reverse ++ buffer) = buffer := by
  have pieces (places : List Nat) : ∀ {buffer : Buffer},
      (Settled buffer ∨ ∃ more, buffer = '\n' :: more) →
      stripBreaks [] ((places.flatMap (breakPiece options kind [] count)).reverse ++ buffer)
        = stripBreaks [] buffer := by
    induction places with
    | nil => exact fun _ => rfl
    | cons place rest ih =>
        intro buffer ready
        rw [List.flatMap_cons, List.reverse_append, List.append_assoc, breakPiece_of_no_mark, ih,
          stripBreaks_unit _ ready]
        right
        cases breakUnit options kind count place with
        | soft => exact ⟨_, rfl⟩
        | hard => exact ⟨_, rfl⟩
        | html => exact ⟨_, rfl⟩
  rw [breakRun_eq, pieces _ (.inl settled), stripBreaks_of_settled settled]

theorem stripBreaks_addBreaks_of_settled (options : Options) {kind : BreakKind}
    (noBlock : kind ≠ .html) {required : Nat} (asked : required ≠ 0) {buffer : Buffer}
    (settled : Settled buffer) :
    stripBreaks [] (addBreaks options kind [] required buffer) = buffer := by
  have ends : stripLast? [] buffer = none := by
    obtain ⟨c, rest, rfl, solid⟩ := settled.solid
    exact stripLast?_of_solid solid rest
  have filled : buffer ≠ [] := by
    obtain ⟨c, rest, rfl, _⟩ := settled.solid
    exact List.cons_ne_nil c rest
  rw [addBreaks_of_none filled ends noBlock asked, stripBreaks_breakRun options kind _ settled]

/-- Breaks behind a line are taken off again at the end of the text. -/
theorem stripBreaks_addBreaks_settled {buffer : Buffer} (settled : Settled buffer) :
    stripBreaks [] (addBreaks {} .auto [] 2 ('\n' :: buffer)) = buffer := by
  have count : countBreaks [] ('\n' :: buffer) = 1 := by
    obtain ⟨c, rest, shape, solid⟩ := settled.solid
    rw [countBreaks_of_unit (stripUnit?_of_settled settled), shape,
      countBreaks_of_ne_feed (Text.ne_lineFeed_of_solid solid)]
  have stripped : stripBreaks [] ('\n' :: buffer) = buffer := by
    rw [stripBreaks_of_stripUnit? (stripUnit?_of_settled settled), stripBreaks_of_settled settled]
  have two : addBreaks {} .auto [] 2 ('\n' :: buffer) = '\n' :: '\n' :: buffer := by
    obtain ⟨c, rest, shape, _⟩ := settled.solid
    unfold addBreaks
    rw [if_neg (by simp), count, stripped]
    dsimp only
    rw [if_neg (by decide), shape]
    rfl
  have last : stripUnit? ('\n' :: '\n' :: buffer) = some ('\n' :: buffer) := rfl
  rw [two, stripBreaks_of_stripUnit? last, stripped]

end ForumMarkup.Markdown
