import ForumMarkup.Proofs.Markdown.PlainPost
import ForumMarkup.Proofs.Text.SpacedLines

/-!
Contract: posts without markup, whatever their lines are.

Owns:
- `linesText` and `laterText`, the Markdown of lines, of which some may be blank;
- `Lasting`, an end from which a run of breaks is taken off without a trace, and
  `Remains`, what the spans in place have written that outlasts the next breaks.

Main statements: `toMarkdown_read_lines`, the Markdown of a text without markup, and
`exists_convert_emptySpaced_iff`, when lines of spaces and tabs count as empty lines.

A blank line that is not empty is a text of its own.  The breaks behind it are not
added to the ones before it: these are taken off together with the blanks, and only
the breaks behind the line are written.
-/

set_option autoImplicit false

namespace ForumMarkup

open Node

/-! ### The Markdown of lines -/

/-- The Markdown of lines behind one that shows something; `gap` is the number of line
feeds since the last line that is not empty, without the one before the first of them. -/
def laterText (options : Options) (gap : Nat) : List Text → Text
  | [] => []
  | line :: more =>
      if line = [] then laterText options (gap + 1) more
      else if Text.allBlank line then laterText options 0 more
      else gapText options (gap + 1) ++ (Text.trimEnd line ++ laterText options 0 more)

def linesText (options : Options) : List Text → Text
  | [] => []
  | line :: more =>
      if Text.allBlank line then linesText options more
      else Text.trimEnd line ++ laterText options 0 more

section

variable {options : Options} {line : Text} {more : List Text}

theorem laterText_nil_cons (gap : Nat) :
    laterText options gap ([] :: more) = laterText options (gap + 1) more :=
  if_pos rfl

theorem laterText_blank_cons (filled : line ≠ []) (blank : Text.allBlank line = true) (gap : Nat) :
    laterText options gap (line :: more) = laterText options 0 more := by
  rw [laterText, if_neg filled, if_pos blank]

theorem laterText_shown_cons (shown : Text.allBlank line = false) (gap : Nat) :
    laterText options gap (line :: more)
      = gapText options (gap + 1) ++ (Text.trimEnd line ++ laterText options 0 more) := by
  have filled : line ≠ [] := by
    rintro rfl
    cases shown
  rw [laterText, if_neg filled, if_neg (by simp [shown])]

theorem linesText_blank_cons (blank : Text.allBlank line = true) :
    linesText options (line :: more) = linesText options more :=
  if_pos blank

theorem linesText_shown_cons (shown : Text.allBlank line = false) :
    linesText options (line :: more) = Text.trimEnd line ++ laterText options 0 more :=
  if_neg (by simp [shown])

end

/-! ### Lines without the lines of spaces and tabs -/

/-- More line feeds are written as a longer text. -/
theorem gapText_length_lt (options : Options) {gap wider : Nat} (less : gap < wider) :
    (gapText options gap).length < (gapText options wider).length := by
  have pairs (count : Nat) : ((List.replicate count ['\\', '\n']).flatten).length = 2 * count := by
    simp [Nat.mul_comm]
  have length (count : Nat) : (gapText options count).length
      = if options.traditionalBreaks then 2 * count
        else if count ≤ 2 then count else 1 + 2 * (count - 1) := by
    unfold gapText
    split
    · exact pairs count
    · split
      · exact List.length_replicate
      · rw [List.length_cons, pairs, Nat.add_comm]
  rw [length, length]
  split
  · omega
  · split <;> split <;> omega

/-- Emptied lines are never written as a shorter text, since a gap can only grow. -/
theorem laterText_length_le (options : Options) (rows : List Text) {gap wider : Nat}
    (le : gap ≤ wider) :
    (laterText options gap rows).length
      ≤ (laterText options wider (rows.map Text.emptied)).length := by
  induction rows generalizing gap wider with
  | nil => exact Nat.le_refl _
  | cons line more ih =>
      rw [List.map_cons]
      by_cases empty : line = []
      · rw [empty, show Text.emptied [] = [] from rfl, laterText_nil_cons, laterText_nil_cons]
        exact ih (Nat.succ_le_succ le)
      cases blank : Text.allBlank line with
      | true =>
          rw [laterText_blank_cons empty blank]
          rcases Text.emptied_eq_or line with same | spaced
          · rw [same, laterText_blank_cons empty blank]
            exact ih (Nat.le_refl 0)
          · rw [spaced, laterText_nil_cons]
            exact ih (Nat.zero_le _)
      | false =>
          rw [Text.emptied_of_shown blank, laterText_shown_cons blank, laterText_shown_cons blank]
          simp only [List.length_append]
          have gaps :
              (gapText options (gap + 1)).length ≤ (gapText options (wider + 1)).length := by
            rcases Nat.eq_or_lt_of_le le with same | less
            · exact Nat.le_of_eq (by rw [same])
            · exact Nat.le_of_lt (gapText_length_lt options (Nat.succ_lt_succ less))
          have rest := ih (Nat.le_refl 0)
          omega

/-- Emptied lines are written alike exactly if no line of spaces and tabs reaches the
next line that shows something; behind a wider gap, if nothing reaches it from there. -/
theorem laterText_emptied_eq_iff (options : Options) (rows : List Text) :
    (∀ gap, laterText options gap (rows.map Text.emptied) = laterText options gap rows
      ↔ ¬Text.Hides rows) ∧
    ∀ gap wider, gap < wider →
      (laterText options wider (rows.map Text.emptied) = laterText options gap rows
        ↔ ¬Text.Reaches rows ∧ ¬Text.Hides rows) := by
  induction rows with
  | nil =>
      exact ⟨fun _ => iff_of_true rfl Text.not_hides_nil,
        fun _ _ _ => iff_of_true rfl ⟨Text.not_reaches_nil, Text.not_hides_nil⟩⟩
  | cons line more ih =>
      obtain ⟨same, wide⟩ := ih
      rw [List.map_cons]
      simp only [Text.reaches_cons_iff, Text.hides_cons_iff]
      by_cases empty : line = []
      · -- An empty line makes both gaps wider.
        subst empty
        have kept : Text.emptied [] = [] := rfl
        have noSpaced : ¬Text.IsSpaced [] := fun spaced => spaced.1 rfl
        simp only [kept, laterText_nil_cons, noSpaced, false_and, false_or, true_and,
          show Text.allBlank [] = true from rfl, Bool.true_eq_false]
        exact ⟨fun gap => same (gap + 1), fun gap wider less => wide _ _ (Nat.succ_lt_succ less)⟩
      cases blank : Text.allBlank line with
      | true =>
          rcases Text.emptied_eq_or line with kept | spaced
          · -- Another blank line hides both gaps.
            have noSpaced : ¬Text.IsSpaced line := fun spaced => empty (kept ▸ spaced.2)
            have notEmptied : Text.emptied line ≠ [] := kept.symm ▸ empty
            simp only [kept, laterText_blank_cons empty blank, noSpaced, empty, false_and, false_or,
              Bool.true_eq_false, not_false_eq_true, true_and]
            exact ⟨fun _ => same 0, fun _ _ _ => same 0⟩
          · -- A line of spaces and tabs hides the one gap and makes the other wider.
            have isSpaced : Text.IsSpaced line := ⟨empty, spaced⟩
            simp only [spaced, laterText_nil_cons, laterText_blank_cons empty blank, isSpaced,
              true_and, Bool.true_eq_false, false_or, not_or]
            refine ⟨fun gap => wide 0 (gap + 1) (Nat.succ_pos gap), fun gap wider less => ?_⟩
            rw [wide 0 (wider + 1) (Nat.succ_pos wider), ← and_assoc, and_self]
      | false =>
          have kept := Text.emptied_of_shown blank
          have noSpaced : ¬Text.IsSpaced line := fun spaced => empty (kept ▸ spaced.2)
          simp only [kept, laterText_shown_cons blank, noSpaced, false_and, false_or, true_or,
            not_true_eq_false, iff_false]
          refine ⟨fun gap => ?_, fun gap wider less equal => ?_⟩
          · rw [List.append_cancel_left_eq, List.append_cancel_left_eq]
            exact same 0
          · have lengths := congrArg List.length equal
            simp only [List.length_append] at lengths
            have gaps : (gapText options (gap + 1)).length < (gapText options (wider + 1)).length :=
              gapText_length_lt options (Nat.succ_lt_succ less)
            have rest : (laterText options 0 more).length
                ≤ (laterText options 0 (more.map Text.emptied)).length :=
              laterText_length_le options more (Nat.le_refl 0)
            omega

/-- A line of spaces changes the Markdown only where it hides breaks between two lines that show
something. -/
theorem linesText_emptied_eq_iff (options : Options) (rows : List Text) :
    linesText options (rows.map Text.emptied) = linesText options rows
      ↔ ¬Text.HidesBreaks rows := by
  induction rows with
  | nil => exact iff_of_true rfl Text.not_hidesBreaks_nil
  | cons line more ih =>
      rw [List.map_cons]
      cases blank : Text.allBlank line with
      | true =>
          have still : Text.allBlank (Text.emptied line) = true := by
            rw [Text.allBlank_emptied, blank]
          rw [linesText_blank_cons blank, linesText_blank_cons still, ih,
            Text.hidesBreaks_cons_of_blank blank]
      | false =>
          rw [Text.emptied_of_shown blank, linesText_shown_cons blank, linesText_shown_cons blank,
            List.append_cancel_left_eq, (laterText_emptied_eq_iff options more).1,
            Text.hidesBreaks_cons_of_shown blank]

/-! ### The nodes of lines -/

namespace Node

def brokenLines (rows : List Text) : List Node :=
  rows.flatMap fun line => .lineBreak :: ofLine line

theorem ofLines_cons (first : Text) (more : List Text) :
    ofLines (first :: more) = ofLine first ++ brokenLines more := by
  induction more generalizing first with
  | nil => exact (List.append_nil _).symm
  | cons next others ih =>
      rw [ofLines, ih]
      · rfl
      · exact List.cons_ne_nil next others

/-- A post of lines is clean already: none of its leaves holds a line feed. -/
theorem cleanAll_ofLines {rows : List Text} (single : ∀ row ∈ rows, '\n' ∉ row) :
    cleanAll false (ofLines rows) = ofLines rows := by
  have leaf : ∀ row ∈ rows, ∀ node ∈ ofLine row, node.clean? false = some node := by
    intro row member node inLine
    rw [ofLine] at inLine
    split at inLine
    · cases inLine
    · next filled =>
        rw [List.mem_singleton.1 inLine]
        exact clean?_text filled fun feed => single row member (List.mem_of_head? feed)
  cases rows with
  | nil => rfl
  | cons first more =>
      rw [ofLines_cons]
      refine cleanAll_eq_self (fun same => by cases same) fun node member => ?_
      rcases List.mem_append.1 member with inFirst | later
      · exact leaf first List.mem_cons_self node inFirst
      · obtain ⟨row, inMore, inRow⟩ := List.mem_flatMap.1 later
        rcases List.mem_cons.1 inRow with rfl | inLine
        · rfl
        · exact leaf row (List.mem_cons_of_mem _ inMore) node inLine

end Node

/-! ### What lines leave behind -/

/-- Up to the blanks at its end the line does not end like a spelled break. -/
def EndsPlainly (line : Text) : Prop :=
  (Text.trimEnd line).getLast? ≠ some '\\' ∧ ¬"<br>".toList <:+ Text.trimEnd line

instance EndsPlainly.decidable (line : Text) : Decidable (EndsPlainly line) :=
  inferInstanceAs (Decidable (_ ∧ _))

theorem endsPlainly_nil : EndsPlainly [] :=
  ⟨nofun, by decide⟩

/-- A line that is read as it is, and that breaks behind it leave as it is. -/
structure KeptLine (options : Options) (line : Text) : Prop where
  single : '\n' ∉ line
  literal : '&' ∉ line
  ends : options.traditionalBreaks = true ∨ EndsPlainly line

namespace Markdown

/-- The buffer ends with a character that is not blank, and line feeds behind it go
without it. -/
structure Lasting (options : Options) (buffer : Buffer) : Prop where
  solid : ∃ c rest, buffer = c :: rest ∧ Text.isBlank c = false
  closed : options.traditionalBreaks = true ∨ Settled buffer

/-- What is written behind line feeds, where `shown` outlasts them. -/
def opened (options : Options) (gap : Nat) (shown : Buffer) : Buffer :=
  if shown = [] then [] else (gapText options gap).reverse ++ shown

/-- What spans in place have written ends with no line feed, and breaks behind it leave
`shown` of it. -/
structure Remains (options : Options) (shown : Buffer) (prior : List SpanTree) : Prop where
  ends : Cursor.Ends prior
  unbroken : (laid options [] false prior).head? ≠ some '\n'
  stripped : stripBreaks [] (laid options [] false prior) = shown
  lasting : shown = [] ∨ Lasting options shown

section

variable {options : Options} {scope : Scope} {shown : Buffer} {line : Text}

/-- The breaks of a gap are stripped whole, and nothing of what stands before them. -/
theorem stripBreaks_gapText {buffer : Buffer} (lasting : Lasting options buffer) (gap : Nat) :
    stripBreaks [] ((gapText options gap).reverse ++ buffer) = buffer := by
  rcases lasting.closed with traditional | settled
  · -- Every break is spelled with a backslash, so that no other one is taken.
    rw [gapText, if_pos traditional]
    induction gap with
    | zero =>
        obtain ⟨c, rest, rfl, solid⟩ := lasting.solid
        exact stripBreaks_of_solid solid rest
    | succ gap ih =>
        rw [List.replicate_succ', List.flatten_concat, List.reverse_append, List.append_assoc]
        exact (stripBreaks_of_stripUnit? rfl).trans ih
  · rw [← breakRun_auto]
    exact stripBreaks_breakRun options .auto gap settled

theorem stripBreaks_opened (lasting : shown = [] ∨ Lasting options shown) (gap : Nat) :
    stripBreaks [] (opened options gap shown) = shown := by
  unfold opened
  split
  · next none => rw [none, stripBreaks_of_none rfl]
  · next filled => exact stripBreaks_gapText (lasting.resolve_left filled) gap

/-- Line feeds are written as a text that ends with one. -/
theorem exists_gapText_succ (options : Options) (gap : Nat) :
    ∃ front, gapText options (gap + 1) = front ++ ['\n'] := by
  have pairs (count : Nat) : (List.replicate (count + 1) ['\\', '\n']).flatten
      = (List.replicate count ['\\', '\n']).flatten ++ ['\\'] ++ ['\n'] := by
    rw [List.replicate_succ', List.flatten_concat, List.append_assoc]
    rfl
  unfold gapText
  split
  · exact ⟨_, pairs gap⟩
  · split
    · exact ⟨_, List.replicate_succ'⟩
    · next long =>
        obtain ⟨count, rfl⟩ : ∃ count, gap = count + 1 := ⟨gap - 1, by omega⟩
        exact ⟨'\n' :: ((List.replicate count ['\\', '\n']).flatten ++ ['\\']),
          congrArg (List.cons '\n') (pairs count)⟩

/-- What is written behind line feeds is nothing or ends with one of them. -/
theorem opened_succ (options : Options) (gap : Nat) (shown : Buffer) :
    opened options (gap + 1) shown = [] ∨
      ∃ rest, opened options (gap + 1) shown = '\n' :: rest := by
  unfold opened
  split
  · exact .inl rfl
  · obtain ⟨front, shape⟩ := exists_gapText_succ options gap
    rw [shape, List.reverse_concat]
    exact .inr ⟨_, rfl⟩

variable {prior : List SpanTree}

/-- A run of breaks takes the place of the blank lines before it. -/
theorem Remains.laid_run (remains : Remains options shown prior)
    (plainScope : scope.emphasised = false) (gap : Nat) :
    laid options [] false (scope.run (gap + 1) prior) = opened options (gap + 1) shown := by
  have kind : (scope.breaks (gap + 1)).kindAfter = .auto := if_neg (by simp [plainScope])
  rw [Markdown.laid_run, kind,
    addBreaks_of_ne_feed remains.unbroken (by decide) (Nat.succ_ne_zero gap), remains.stripped,
    breakRun_auto, opened]

/-- Behind a blank line there is what was there before it. -/
theorem Remains.of_blank {before : List SpanTree}
    (stripped : stripBreaks [] (laid options [] false before) = shown)
    (lasting : shown = [] ∨ Lasting options shown) (single : '\n' ∉ line) (filled : line ≠ [])
    (blank : Text.allBlank line = true) : Remains options shown (.ofText line :: before) where
  ends := Cursor.ends_ofText line before
  unbroken := by
    rw [laid_ofText]
    exact head?_reverse_append single filled _
  stripped := by
    rw [laid_ofText, stripBreaks_blanks, stripped]
    · simpa using single
    · rw [Text.allBlank, List.all_reverse]
      exact blank
  lasting := lasting

/-- A line that shows something is kept with all that is written before it, without the
blanks at its end. -/
theorem Remains.of_shown {before : List SpanTree}
    (start : laid options [] false before = [] ∨
      ∃ rest, laid options [] false before = '\n' :: rest)
    (kept : KeptLine options line) (visible : Text.allBlank line = false) :
    Remains options ((Text.trimEnd line).reverse ++ laid options [] false before)
      (.ofText line :: before) := by
  have solid : ∃ c ∈ line, Text.isBlank c = false := by
    simpa [Text.allBlank] using visible
  have filled : line ≠ [] := by
    rintro rfl
    cases visible
  obtain ⟨stripped, trimmed⟩ := stripBreaks_line kept.single solid (laid options [] false before)
  obtain ⟨c, front, shape⟩ := List.exists_cons_of_ne_nil trimmed
  have last : Text.isBlank c = false := by
    rcases Text.trimEnd_eq_nil_or line with none | ⟨_, d, ends, solidEnd⟩
    · rw [none] at trimmed
      exact absurd rfl trimmed
    · rw [ends, List.reverse_concat] at shape
      rw [← (List.cons.inj shape).1]
      exact solidEnd
  refine ⟨Cursor.ends_ofText line before, ?_, ?_, .inr ⟨?_, ?_⟩⟩
  · rw [laid_ofText]
    exact head?_reverse_append kept.single filled _
  · rw [laid_ofText, stripped]
  · rw [shape]
    exact ⟨c, _, rfl, last⟩
  · refine kept.ends.imp_right fun plainly => ?_
    have noHtml : ¬"<br>".toList.reverse <+: (Text.trimEnd line).reverse :=
      fun html => plainly.2 (List.reverse_prefix.1 html)
    refine ⟨⟨c, _, by rw [shape]; rfl, last⟩, ?_, ?_⟩
    · have headed : ((Text.trimEnd line).reverse ++ laid options [] false before).head?
          = (Text.trimEnd line).getLast? := by
        rw [← List.head?_reverse, shape]
        rfl
      rw [headed]
      exact plainly.1
    · rcases start with none | ⟨rest, feed⟩
      · rw [none, List.append_nil]
        exact noHtml
      · rw [feed]
        exact not_html_append (by decide) noHtml rest

/-- What is left in the end where lines come behind `shown`; `gap` as in `laterText`. -/
def outcome (options : Options) (shown : Buffer) (gap : Nat) (rows : List Text) : Buffer :=
  if shown = [] then (linesText options rows).reverse
  else (laterText options gap rows).reverse ++ shown

theorem Remains.eq_nil (remains : Remains options shown []) : shown = [] :=
  remains.stripped.symm.trans (stripBreaks_of_none rfl)

/-- Behind a run of breaks, or at the very start, there is nothing or a line feed. -/
theorem Remains.lead (remains : Remains options shown prior) (plainScope : scope.emphasised = false)
    {gap : Nat} (ready : gap ≠ 0 ∨ prior = []) :
    laid options [] false (scope.run gap prior) = opened options gap shown ∧
      (opened options gap shown = [] ∨ ∃ rest, opened options gap shown = '\n' :: rest) := by
  cases gap with
  | zero =>
      obtain rfl := ready.resolve_left (fun positive => positive rfl)
      have start : opened options 0 shown = [] := if_pos remains.eq_nil
      rw [start]
      exact ⟨rfl, .inl rfl⟩
  | succ gap => exact ⟨remains.laid_run plainScope gap, opened_succ options gap shown⟩

/-- A line is taken over: its text, unless it is empty. -/
theorem Remains.exists_line (remains : Remains options shown prior)
    (plainScope : scope.emphasised = false) {gap : Nat} (ready : gap ≠ 0 ∨ prior = [])
    (kept : KeptLine options line) :
    ∃ (after : Buffer) (place : List SpanTree) (start : Nat), Remains options after place ∧
      (∀ rest, planAll options scope (ofLine line ++ rest) { before := scope.run gap prior }
        = planAll options scope rest { before := scope.run start place }) ∧
      ∀ more,
        outcome options after start more = outcome options shown (gap - 1) (line :: more) := by
  obtain ⟨lead, start⟩ := remains.lead plainScope ready
  have first : gap = 0 → shown = [] := by
    intro zero
    obtain rfl := ready.resolve_left (fun positive => positive zero)
    exact remains.eq_nil
  by_cases empty : line = []
  · subst empty
    refine ⟨shown, prior, gap, remains, fun _ => rfl, fun more => ?_⟩
    unfold outcome
    rw [linesText_blank_cons rfl, laterText_nil_cons]
    cases gap with
    | zero => rw [if_pos (first rfl), if_pos (first rfl)]
    | succ gap => rfl
  have planned (rest : List Node) :
      planAll options scope (ofLine line ++ rest) { before := scope.run gap prior }
        = planAll options scope rest { before := .ofText line :: scope.run gap prior } := by
    rw [ofLine, if_neg empty, List.singleton_append, planAll_cons _ (plan_text line),
      Entity.decode_eq_self kept.literal]
    rfl
  cases blank : Text.allBlank line with
  | true =>
      have still : Remains options shown (.ofText line :: scope.run gap prior) :=
        .of_blank (by rw [lead, stripBreaks_opened remains.lasting]) remains.lasting
          kept.single empty blank
      refine ⟨shown, _, 0, still, planned, fun more => ?_⟩
      unfold outcome
      rw [laterText_blank_cons empty blank, linesText_blank_cons blank]
  | false =>
      have next := Remains.of_shown (lead ▸ start) kept blank
      refine ⟨_, _, 0, next, planned, fun more => ?_⟩
      unfold outcome
      rw [if_neg (by simp [Text.trimEnd_eq_nil_iff, blank]), lead, opened,
        laterText_shown_cons blank, linesText_shown_cons blank]
      cases gap with
      | zero => simp [first rfl]
      | succ gap => split <;> simp

/-- Behind what remains, lines are written with the breaks before them. -/
theorem Remains.exists_brokenLines (remains : Remains options shown prior)
    (plainScope : scope.emphasised = false) {rows : List Text}
    (kept : ∀ row ∈ rows, KeptLine options row) (gap : Nat) :
    ∃ cursor, planAll options scope (brokenLines rows) { before := scope.run gap prior }
        = .done cursor ∧
      stripBreaks [] (laid options [] false cursor.before) = outcome options shown gap rows := by
  -- On the lines: a break makes the run longer, and a line behind it leaves a new state.
  induction rows generalizing shown prior gap with
  | nil =>
      refine ⟨_, rfl, ?_⟩
      have written : stripBreaks [] (laid options [] false (scope.run gap prior)) = shown := by
        cases gap with
        | zero => exact remains.stripped
        | succ gap => rw [remains.laid_run plainScope, stripBreaks_opened remains.lasting]
      rw [written, outcome]
      split
      · next none => exact none
      · rfl
  | cons line more ih =>
      obtain ⟨keptLine, keptMore⟩ := List.forall_mem_cons.1 kept
      obtain ⟨after, place, start, remainsLine, planned, same⟩ :=
        remains.exists_line plainScope (.inl (Nat.succ_ne_zero gap)) keptLine
      have broken : planAll options scope (brokenLines (line :: more))
          { before := scope.run gap prior }
            = planAll options scope (ofLine line ++ brokenLines more)
              { before := scope.run (gap + 1) prior } :=
        planAll_cons _ (plan_lineBreak_run remains.ends ∅ gap 0)
      obtain ⟨cursor, done, written⟩ := ih remainsLine keptMore start
      exact ⟨cursor, (broken.trans (planned _)).trans done, written.trans (same more)⟩

end

end Markdown

/-! ### The post -/

section

variable {options : Options} {t : Text}

/-- A text without markup is written as its lines. -/
theorem toMarkdown_read_lines (plain : '[' ∉ t ∧ '&' ∉ t ∧ '\r' ∉ t)
    (ends : options.traditionalBreaks = true ∨ ∀ line ∈ Text.lines t, EndsPlainly line) :
    (Bbcode.read [] t).value.toMarkdown options
      = .done (linesText options (Text.lines t)) := by
  have kept : ∀ line ∈ Text.lines t, KeptLine options line := by
    intro line member
    have literal : '&' ∉ line := fun ampersand => plain.2.1 (Text.mem_of_mem_lines member ampersand)
    exact ⟨Text.lines_feed_free t line member, literal,
      ends.imp_right fun plainly => plainly line member⟩
  have clean := clean_post (cleanAll_ofLines fun row member => (kept row member).single)
  have bracketFree : ∀ c ∈ t, c ≠ '[' ∧ c ≠ '\r' := by
    intro c member
    exact ⟨fun bracket => plain.1 (bracket ▸ member), fun feed => plain.2.2 (feed ▸ member)⟩
  rw [Bbcode.read_of_bracket_free bracketFree]
  obtain ⟨first, more, shape⟩ := List.exists_cons_of_ne_nil (Text.lines_ne_nil t)
  rw [shape] at kept clean ⊢
  obtain ⟨keptFirst, keptMore⟩ := List.forall_mem_cons.1 kept
  have nothing : Markdown.Remains options [] [] :=
    ⟨nofun, nofun, Markdown.stripBreaks_of_none rfl, .inl rfl⟩
  have plainScope : ({ parent := Tag.richRoot } : Scope).emphasised = false := rfl
  have ready : (0 : Nat) ≠ 0 ∨ ([] : List SpanTree) = [] := .inr rfl
  obtain ⟨after, place, start, remains, planned, same⟩ :=
    nothing.exists_line plainScope ready keptFirst
  obtain ⟨cursor, done, written⟩ := remains.exists_brokenLines plainScope keptMore start
  have whole : planAll options { parent := Tag.richRoot } (ofLines (first :: more)) {}
      = .done cursor := by
    rw [ofLines_cons]
    exact (planned _).trans done
  rw [Markdown.toMarkdown_of_planAll clean whole]
  have outcome := written.trans (same more)
  rw [Markdown.laid] at outcome
  rw [outcome, Markdown.outcome, if_pos rfl, List.reverse_reverse]

end

/-- Lines of spaces and tabs count as empty lines, exactly unless one of them stands
behind a line that shows something, and before the next one with nothing but such lines
and empty ones in between. -/
theorem exists_convert_emptySpaced_iff {ε : Type} (options : Options) (resolver : Resolver ε)
    {t : Text} (plain : '[' ∉ t ∧ '&' ∉ t ∧ '\r' ∉ t)
    (ends : options.traditionalBreaks = true ∨ ∀ line ∈ Text.lines t, EndsPlainly line) :
    ∃ kept emptied,
      (Bbcode.read [] t).value.convert options resolver = .ok kept ∧
      (Bbcode.read [] (Text.emptySpaced t)).value.convert options resolver = .ok emptied ∧
      (emptied = kept ↔ ¬Text.HidesBreaks (Text.lines t)) := by
  have plainEmptied :
      '[' ∉ Text.emptySpaced t ∧ '&' ∉ Text.emptySpaced t ∧ '\r' ∉ Text.emptySpaced t := by
    have inText {c : Char} (other : c ≠ '\n') (member : c ∈ Text.emptySpaced t) : c ∈ t :=
      (Text.eq_feed_or_mem_of_mem_emptySpaced member).resolve_left other
    exact ⟨mt (inText (by decide)) plain.1, mt (inText (by decide)) plain.2.1,
      mt (inText (by decide)) plain.2.2⟩
  have endsEmptied : options.traditionalBreaks = true ∨
      ∀ line ∈ Text.lines (Text.emptySpaced t), EndsPlainly line := by
    refine ends.imp_right fun plainly row member => ?_
    rw [Text.lines_emptySpaced] at member
    obtain ⟨line, inText, rfl⟩ := List.mem_map.1 member
    rcases Text.emptied_eq_or line with same | empty
    · rw [same]
      exact plainly line inText
    · rw [empty]
      exact endsPlainly_nil
  refine ⟨linesText options (Text.lines t), linesText options ((Text.lines t).map Text.emptied),
    ?_, ?_, linesText_emptied_eq_iff options (Text.lines t)⟩
  · rw [Element.convert, toMarkdown_read_lines plain ends, Inquiry.run]
  · rw [Element.convert, toMarkdown_read_lines plainEmptied endsEmptied, Inquiry.run,
      Text.lines_emptySpaced]

/-- Lines of blanks before the first line, behind the last one, and an empty one between. -/
def framedLines : Text := "\t\n a\n\nb \n \n".toList

theorem exists_convert_emptySpaced_framedLines :
    ('[' ∉ framedLines ∧ '&' ∉ framedLines ∧ '\r' ∉ framedLines) ∧
      (({} : Options).traditionalBreaks = true ∨
        ∀ line ∈ Text.lines framedLines, EndsPlainly line) ∧
      Text.emptySpaced framedLines = "\n a\n\nb \n\n".toList ∧
      ∃ markdown,
        (Bbcode.read [] framedLines).value.convert {} (Resolver.nothing : Resolver String)
          = .ok markdown ∧
        (Bbcode.read [] (Text.emptySpaced framedLines)).value.convert {}
          (Resolver.nothing : Resolver String) = .ok markdown := by
  have plain : '[' ∉ framedLines ∧ '&' ∉ framedLines ∧ '\r' ∉ framedLines := by decide
  have ends : ({} : Options).traditionalBreaks = true ∨
      ∀ line ∈ Text.lines framedLines, EndsPlainly line := by
    right
    decide +kernel
  have shown : ¬Text.HidesBreaks (Text.lines framedLines) := by decide
  obtain ⟨kept, emptied, written, writtenEmptied, same⟩ :=
    exists_convert_emptySpaced_iff {} (Resolver.nothing : Resolver String) plain ends
  rw [same.2 shown] at writtenEmptied
  exact ⟨plain, ends, by decide, kept, written, writtenEmptied⟩

/-- A line of spaces between two others hides the break before it. -/
def spacedGap : Text := "a\n  \nb".toList

theorem convertPlain_spacedGap_ne :
    ('[' ∉ spacedGap ∧ '&' ∉ spacedGap ∧ '\r' ∉ spacedGap) ∧
      Text.emptySpaced spacedGap = "a\n\nb".toList ∧
      (Bbcode.read [] spacedGap).value.convertPlain {} = "a\nb".toList ∧
      (Bbcode.read [] (Text.emptySpaced spacedGap)).value.convertPlain {} = "a\n\nb".toList := by
  have ends : ∀ line ∈ Text.lines spacedGap ++ Text.lines "a\n\nb".toList, EndsPlainly line := by
    decide +kernel
  obtain ⟨endsGap, endsEmptied⟩ := List.forall_mem_append.1 ends
  have emptied : Text.emptySpaced spacedGap = "a\n\nb".toList := by decide
  refine ⟨by decide, emptied, ?_, ?_⟩
  · rw [Element.convertPlain, toMarkdown_read_lines (by decide) (.inr endsGap)]
    decide
  · rw [emptied, Element.convertPlain, toMarkdown_read_lines (by decide) (.inr endsEmptied)]
    decide

end ForumMarkup
