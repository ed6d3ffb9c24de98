import ForumMarkup.Proofs.Markdown.Quoted

/-!
Contract: the end of a text inside a quote and outside of it.

Main statements: `countBreaks_quoted` and `stripBreaks_quoted`, the breaks at the
end of a quoted text are those of the text.

A text that starts a line of its own must not be stripped to nothing there, since
the mark before it would stay: it is `Rooted`.
-/

set_option autoImplicit false

namespace ForumMarkup.Markdown

open Decoration

/-- A text starts with no blank and, where it starts a line, with no part of a break. -/
def Rooted (start : Bool) (t : Text) : Prop :=
  ∀ c ∈ t.head?, Text.isBlank c = false ∧ (start = true → c ≠ '\\' ∧ c ≠ '<')

/-- The mark of a quote, or what is left of it, behind a text that ends with a line
feed. -/
def LeadOf (t lead : Text) : Prop :=
  lead = [] ∨ (endsLine false t = true ∧ (lead = ['>'] ∨ lead = quoteMark))

variable {start : Bool} {t : Text}

theorem Rooted.of_append {removed : Text} (rooted : Rooted start (t ++ removed)) :
    Rooted start t := by
  intro c first
  refine rooted c ?_
  cases t with
  | nil => cases first
  | cons d rest => exact first

theorem endsLine_false_of_endsLine (inner : start = true → t ≠ []) (ends : endsLine start t = true) :
    endsLine false t = true := by
  cases start with
  | false => exact ends
  | true => rwa [endsLine_of_ne_nil (inner rfl), ← endsLine_false] at ends

theorem getLast?_quoted (start : Bool) (t : Text) : (quoted start t).getLast? = t.getLast? := by
  induction t generalizing start with
  | nil => rfl
  | cons c rest ih =>
      rw [quoted, List.getLast?_append, List.getLast?_cons, ih, List.getLast?_cons]
      rfl

/-! ### The last line -/

/-- The last line of a text that ends within it, with and without the mark. -/
theorem exists_quoted_line (filled : t ≠ []) (within : endsLine false t = false) (start : Bool) :
    ∃ front line, line ≠ [] ∧ '\n' ∉ line ∧ t = front ++ line ∧
      ((front = [] ∧ quoted start t = line) ∨
        ∃ before, quoted start t = before ++ (quoteMark ++ line) ∧
          (before = [] ∨ ∃ more, before = more ++ ['\n'])) := by
  by_cases several : '\n' ∈ t
  · obtain ⟨front, line, rfl, single⟩ := exists_last_line several
    have some : line ≠ [] := by
      rintro rfl
      rw [endsLine_concat] at within
      cases within
    have parts : front ++ '\n' :: line = front ++ ['\n'] ++ line := by simp
    refine ⟨front ++ ['\n'], line, some, single, parts, .inr ⟨quoted start (front ++ ['\n']), ?_, ?_⟩⟩
    · rw [parts, quoted_append, endsLine_concat, beq_self_eq_true, quoted_line some single]
    · right
      refine ⟨quoted start front ++ (if endsLine start front then ['>'] else []), ?_⟩
      rw [quoted_append]
      cases endsLine start front <;> simp [quoted, lineLead]
  · refine ⟨[], t, filled, several, rfl, ?_⟩
    cases start with
    | false => exact .inl ⟨rfl, quoted_of_feed_free several⟩
    | true => exact .inr ⟨[], quoted_line filled several, .inl rfl⟩

theorem stripMarkLine?_of_single {mark line : Text} (single : '\n' ∉ line) :
    stripMarkLine? mark line.reverse = none := by
  have inLine := isInLine_of_mem fun feed => single (List.mem_reverse.1 feed)
  have whole : line.reverse.dropWhile isInLine = [] := by
    rw [← List.append_nil line.reverse, List.dropWhile_append_of_pos inLine]
    rfl
  simp only [stripMarkLine?, whole]
  exact if_neg fun stands => stands.1 rfl

theorem stripMarkLine?_of_other {mark line : Text} (single : '\n' ∉ line)
    (other : line ≠ mark ∧ line ≠ Text.trimEnd mark) (buffer : Buffer) :
    stripMarkLine? mark (line.reverse ++ '\n' :: buffer) = none := by
  have inLine := isInLine_of_mem fun feed => single (List.mem_reverse.1 feed)
  have feed : ¬isInLine '\n' = true := by decide
  simp only [stripMarkLine?]
  rw [List.takeWhile_append_of_pos inLine, List.takeWhile_cons_of_neg feed, List.append_nil,
    List.reverse_reverse, if_neg]
  rintro ⟨_, _, same | same⟩
  · exact other.1 same
  · exact other.2 same

/-- A quoted text that ends within a line does not end with a line of the mark alone. -/
theorem stripMarkLine?_quoted (start : Bool) (within : endsLine false t = false) :
    stripMarkLine? quoteMark (quoted start t).reverse = none := by
  by_cases filled : t = []
  · rw [filled]
    rfl
  obtain ⟨front, line, some, single, _, ⟨_, alone⟩ | ⟨before, behind, ends⟩⟩ :=
    exists_quoted_line filled within start
  · rw [alone]
    exact stripMarkLine?_of_single single
  · have markSingle : '\n' ∉ quoteMark ++ line := by
      rw [List.mem_append, not_or]
      exact ⟨by decide, single⟩
    have other : quoteMark ++ line ≠ quoteMark ∧ quoteMark ++ line ≠ Text.trimEnd quoteMark := by
      obtain ⟨c, rest, rfl⟩ := List.exists_cons_of_ne_nil some
      have trimmed : Text.trimEnd quoteMark = ['>'] := rfl
      rw [trimmed]
      exact ⟨by simp [quoteMark], by simp [quoteMark]⟩
    rw [behind]
    rcases ends with rfl | ⟨more, rfl⟩
    · exact stripMarkLine?_of_single markSingle
    · rw [List.reverse_append, List.reverse_concat]
      exact stripMarkLine?_of_other markSingle other more.reverse

/-- Quoting spells no break at the end of a text. -/
theorem not_html_quoted (noHtml : ¬"<br>".toList.reverse <+: t.reverse)
    (within : endsLine false t = false) :
    ¬"<br>".toList.reverse <+: (quoted start t).reverse := by
  by_cases filled : t = []
  · rw [filled]
    show ¬"<br>".toList.reverse <+: []
    decide
  obtain ⟨front, line, some, single, rfl, ⟨rfl, alone⟩ | ⟨before, behind, _⟩⟩ :=
    exists_quoted_line filled within start
  · rw [alone]
    exact noHtml
  · have inLine : ¬"<br>".toList.reverse <+: line.reverse := by
      intro html
      apply noHtml
      rw [List.reverse_append]
      exact html.trans (List.prefix_append _ _)
    rw [behind, List.reverse_append, List.reverse_append, List.append_assoc]
    exact not_html_append_blank inLine _

/-! ### The break at the end -/

/-- A text that ends at the start of a line ends with a spelled break. -/
theorem exists_unit (ends : endsLine false t = true) :
    ∃ shorter, ∃ unit : BreakUnit, t = shorter ++ unit.text ∧
      (unit = .soft → EndsPlain shorter.reverse) := by
  by_cases html : BreakUnit.html.text <:+ t
  · obtain ⟨shorter, shape⟩ := html
    exact ⟨shorter, .html, shape.symm, nofun⟩
  by_cases hard : BreakUnit.hard.text <:+ t
  · obtain ⟨shorter, shape⟩ := hard
    exact ⟨shorter, .hard, shape.symm, nofun⟩
  rw [endsLine_false, beq_iff_eq] at ends
  obtain ⟨shorter, rfl⟩ := List.getLast?_eq_some_iff.1 ends
  refine ⟨shorter, .soft, rfl, fun _ => ⟨fun last => ?_, fun inside => ?_⟩⟩
  · rw [List.head?_reverse] at last
    obtain ⟨front, rfl⟩ := List.getLast?_eq_some_iff.1 last
    exact hard ⟨front, by simp [BreakUnit.text]⟩
  · obtain ⟨front, rfl⟩ := List.reverse_prefix.1 inside
    exact html ⟨front, by simp [BreakUnit.text]⟩

/-- The mark before a break that stands on a line of its own. -/
def BreakUnit.leadMark : BreakUnit → Text
  | .soft => ['>']
  | .hard | .html => quoteMark

theorem quoted_unit (start : Bool) (unit : BreakUnit) :
    quoted start unit.text = (if start then unit.leadMark else []) ++ unit.text := by
  cases start <;> cases unit <;> rfl

/-- Quoting keeps the end of a text plain, also where only an arrow follows it. -/
theorem endsPlain_quoted (plain : EndsPlain t.reverse) :
    EndsPlain (quoted start t ++ (if endsLine start t then ['>'] else [])).reverse := by
  cases opens : endsLine start t with
  | true =>
      have last : t.getLast? ≠ some 'r' := by
        intro last
        obtain ⟨front, rfl⟩ := List.getLast?_eq_some_iff.1 last
        rw [endsLine_concat] at opens
        cases opens
      rw [if_pos rfl, List.reverse_concat]
      refine ⟨fun same => absurd (Option.some.inj same) (by decide), fun html => last ?_⟩
      obtain ⟨rest, shape⟩ := (List.cons_prefix_cons.1 html).2
      rw [← getLast?_quoted start t, ← List.head?_reverse, ← shape]
      rfl
  | false =>
      have within : endsLine false t = false := by
        cases start with
        | false => exact opens
        | true =>
            have filled : t ≠ [] := by
              rintro rfl
              cases opens
            rwa [endsLine_of_ne_nil filled, ← endsLine_false] at opens
      rw [if_neg Bool.false_ne_true, List.append_nil]
      refine ⟨?_, not_html_quoted plain.noHtml within⟩
      rw [List.head?_reverse, getLast?_quoted, ← List.head?_reverse]
      exact plain.noHard

/-- The break a text ends with is the one its quoted text ends with; the mark before it
is left over. -/
theorem exists_stripUnit?_quoted (rooted : Rooted start t) (ends : endsLine false t = true) :
    ∃ shorter lead removed, t = shorter ++ removed ∧ removed ≠ [] ∧
      stripUnit? t.reverse = some shorter.reverse ∧
      stripUnit? (quoted start t).reverse = some (quoted start shorter ++ lead).reverse ∧
      LeadOf shorter lead := by
  obtain ⟨shorter, unit, rfl, plain⟩ := exists_unit ends
  refine ⟨shorter, if endsLine start shorter then unit.leadMark else [], unit.text, rfl,
    by cases unit <;> decide, ?_, ?_, ?_⟩
  · rw [List.reverse_append]
    exact stripUnit?_unit unit plain
  · rw [quoted_append, quoted_unit, ← List.append_assoc, List.reverse_append]
    refine stripUnit?_unit unit ?_
    rintro rfl
    exact endsPlain_quoted (plain rfl)
  · -- A rooted text is no break, so where a mark is left over a line feed stands before it.
    cases opens : endsLine start shorter with
    | false => exact .inl rfl
    | true =>
        have filled : start = true → shorter ≠ [] := by
          rintro starts rfl
          cases unit with
          | soft => exact absurd (rooted '\n' rfl).1 (by decide)
          | hard => exact absurd rfl ((rooted '\\' rfl).2 starts).1
          | html => exact absurd rfl ((rooted '<' rfl).2 starts).2
        refine .inr ⟨endsLine_false_of_endsLine filled opens, ?_⟩
        cases unit with
        | soft => exact .inl rfl
        | hard => exact .inr rfl
        | html => exact .inr rfl

/-! ### All breaks at the end -/

/-- What is left of a mark goes as a line of its own. -/
theorem stripLast?_lead (start : Bool) {lead : Text} (ends : endsLine false t = true)
    (filled : lead = ['>'] ∨ lead = quoteMark) :
    stripUnit? (quoted start t ++ lead).reverse = none ∧
      stripMarkLine? quoteMark (quoted start t ++ lead).reverse = some (quoted start t).reverse := by
  have last : (quoted start t).getLast? = some '\n' := by
    rw [getLast?_quoted]
    rwa [endsLine_false, beq_iff_eq] at ends
  obtain ⟨front, shape⟩ := List.getLast?_eq_some_iff.1 last
  rw [shape, List.reverse_append, List.reverse_concat]
  rcases filled with rfl | rfl
  · exact ⟨rfl, stripMarkLine?_of_line (by decide) (by decide) (.inr rfl)⟩
  · exact ⟨rfl, stripMarkLine?_of_line (by decide) (by decide) (.inl rfl)⟩

theorem countBreaks_lead {lead : Text} (isLead : LeadOf t lead) :
    countBreaks quoteMark (quoted start t ++ lead).reverse
      = countBreaks quoteMark (quoted start t).reverse := by
  rcases isLead with rfl | ⟨ends, filled⟩
  · rw [List.append_nil]
  · obtain ⟨noUnit, line⟩ := stripLast?_lead start ends filled
    exact countBreaks_of_markLine noUnit line

theorem stripBreaks_lead {lead : Text} (isLead : LeadOf t lead) :
    stripBreaks quoteMark (quoted start t ++ lead).reverse
      = stripBreaks quoteMark (quoted start t).reverse := by
  rcases isLead with rfl | ⟨ends, filled⟩
  · rw [List.append_nil]
  · obtain ⟨noUnit, line⟩ := stripLast?_lead start ends filled
    refine stripBreaks_of_some ?_
    rw [stripLast?, noUnit, line]
    rfl

theorem stripUnit?_of_within {buffer : Buffer} (within : endsLine false buffer.reverse = false) :
    stripUnit? buffer = none := by
  cases buffer with
  | nil => rfl
  | cons c rest =>
      rw [List.reverse_cons, endsLine_concat, beq_eq_false_iff_ne] at within
      exact stripUnit?_of_ne_feed within rest

theorem stripUnit?_quoted_of_within (start : Bool) (within : endsLine false t = false) :
    stripUnit? t.reverse = none ∧ stripUnit? (quoted start t).reverse = none := by
  constructor
  · exact stripUnit?_of_within (by rwa [List.reverse_reverse])
  · refine stripUnit?_of_within ?_
    rw [List.reverse_reverse, endsLine_false, getLast?_quoted, ← endsLine_false]
    exact within

theorem length_lt_of_removed (shorter : Text) {removed : Text} (some : removed ≠ []) :
    shorter.length < (shorter ++ removed).length := by
  have := List.length_pos_iff.2 some
  rw [List.length_append]
  omega

/-- As many breaks are counted inside a quote as outside of it. -/
theorem countBreaks_quoted {t : Text} (rooted : Rooted start t) :
    countBreaks quoteMark (quoted start t).reverse = countBreaks [] t.reverse := by
  cases ends : endsLine false t with
  | true =>
      obtain ⟨shorter, lead, removed, rfl, some, unit, unitQuoted, isLead⟩ :=
        exists_stripUnit?_quoted rooted ends
      have := length_lt_of_removed shorter some
      rw [countBreaks_of_unit unit, countBreaks_of_unit unitQuoted, countBreaks_lead isLead,
        countBreaks_quoted rooted.of_append]
  | false =>
      obtain ⟨noUnit, noUnitQuoted⟩ := stripUnit?_quoted_of_within start ends
      rw [countBreaks_of_none noUnit (stripMarkLine?_of_no_mark _),
        countBreaks_of_none noUnitQuoted (stripMarkLine?_quoted start ends)]
termination_by t.length

theorem quoted_concat (start : Bool) (t : Text) (c : Char) :
    quoted start (t ++ [c]) = quoted start t ++ (if endsLine start t then lineLead c else []) ++ [c] := by
  rw [quoted_append, quoted, quoted, List.append_assoc]

theorem stripLast?_of_within {mark : Text} {buffer : Buffer} {c : Char}
    (noUnit : stripUnit? (c :: buffer) = none) (noLine : stripMarkLine? mark (c :: buffer) = none) :
    stripLast? mark (c :: buffer) = if Text.isBlank c then some buffer else none := by
  rw [stripLast?, noUnit, noLine]
  rfl

/-- What is taken off the end inside a quote is what is taken off outside of it, with the
marks in it. -/
theorem stripBreaks_quoted {t : Text} (rooted : Rooted start t) :
    stripBreaks quoteMark (quoted start t).reverse
      = (quoted start (stripBreaks [] t.reverse).reverse).reverse := by
  cases ends : endsLine false t with
  | true =>
      obtain ⟨shorter, lead, removed, rfl, some, unit, unitQuoted, isLead⟩ :=
        exists_stripUnit?_quoted rooted ends
      have := length_lt_of_removed shorter some
      rw [stripBreaks_of_stripUnit? unit, stripBreaks_of_stripUnit? unitQuoted,
        stripBreaks_lead isLead, stripBreaks_quoted rooted.of_append]
  | false =>
      obtain ⟨noUnit, noUnitQuoted⟩ := stripUnit?_quoted_of_within start ends
      have noLine := stripMarkLine?_of_no_mark t.reverse
      have noLineQuoted := stripMarkLine?_quoted start ends
      rcases List.eq_nil_or_concat t with rfl | ⟨shorter, c, shape⟩
      · rw [stripBreaks_of_none rfl, stripBreaks_of_none rfl]
        rfl
      rw [List.concat_eq_append] at shape
      subst shape
      rw [quoted_concat, List.reverse_concat] at noUnitQuoted noLineQuoted
      rw [List.reverse_concat] at noUnit noLine
      have last := stripLast?_of_within noUnit noLine
      have lastQuoted := stripLast?_of_within noUnitQuoted noLineQuoted
      rw [quoted_concat, List.reverse_concat, List.reverse_concat]
      cases blank : Text.isBlank c with
      | true =>
          -- A blank alone on its line leaves the mark, which goes next.
          rw [blank, if_pos rfl] at last lastQuoted
          have isLead : LeadOf shorter (if endsLine start shorter then lineLead c else []) := by
            cases opens : endsLine start shorter with
            | false => exact .inl rfl
            | true =>
                have filled : start = true → shorter ≠ [] := by
                  rintro - rfl
                  rw [(rooted c rfl).1] at blank
                  cases blank
                refine .inr ⟨endsLine_false_of_endsLine filled opens, ?_⟩
                exact lineLead_eq_or c
          have := length_lt_of_removed shorter (List.cons_ne_nil c [])
          rw [stripBreaks_of_some last, stripBreaks_of_some lastQuoted, stripBreaks_lead isLead,
            stripBreaks_quoted rooted.of_append]
      | false =>
          rw [blank, if_neg Bool.false_ne_true] at last lastQuoted
          rw [stripBreaks_of_none last, stripBreaks_of_none lastQuoted, List.reverse_cons,
            List.reverse_reverse, quoted_concat, List.reverse_concat]
termination_by t.length

end ForumMarkup.Markdown
