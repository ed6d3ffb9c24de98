import ForumMarkup.Proofs.Markdown.BareSpans
import ForumMarkup.Proofs.Markdown.MarkedText
import ForumMarkup.Proofs.Text.Core

/-!
Contract: texts none of whose finished lines is blank.

Owns:
- `NoBlankLine`, texts without an empty line, with or without the line mark;
- `ShowsLines`, texts in which every line that a line feed ends shows something behind the
  mark, and `ShowsLast`, texts that a line feed may follow;
- `PastMark`, texts whose last line is behind the mark already.

Main statements: `ShowsLines.append`, the law for two texts, `showsLines_addBreaks`, the
breaks behind a text, and `noBlankLine_of_showsLines`.

That a text has no empty line is not kept when texts are put together: blanks may follow a
line feed, and a mark in front of them makes up an empty line.  What is kept says of the
first line, too, that it shows something.
-/

set_option autoImplicit false

namespace ForumMarkup.Markdown

/-- The text has no blank line: no two line feeds stand together, and between two of them
stands more than the mark without the blanks it ends with. -/
structure NoBlankLine (mark t : Text) : Prop where
  empty : ¬['\n', '\n'] <:+: t
  marked : ¬['\n'] ++ Text.trimEnd mark ++ ['\n'] <:+: t

/-- The last line shows something, and behind the mark if it is not the first. -/
structure ShowsLast (mark t : Text) : Prop where
  only : '\n' ∉ t → Text.allBlank t = false
  later : ∀ before rest, t = before ++ '\n' :: (Text.trimEnd mark ++ rest) → '\n' ∉ rest →
    Text.allBlank rest = false

/-- Every line that ends with a line feed shows something, and behind the mark if it is not
the first. -/
def ShowsLines (mark t : Text) : Prop :=
  ∀ before after, t = before ++ '\n' :: after → ShowsLast mark before

/-- The last line has room for the mark unless it is the first. -/
def PastMark (mark t : Text) : Prop :=
  ∀ before line, t = before ++ '\n' :: line → '\n' ∉ line →
    (Text.trimEnd mark).length ≤ line.length

theorem visible_of_subset {part t : Text} (shown : Text.allBlank part = false)
    (subset : part ⊆ t) : Text.allBlank t = false := by
  rw [Bool.eq_false_iff] at shown ⊢
  refine fun blank => shown (List.all_eq_true.2 fun c member => ?_)
  exact List.all_eq_true.1 blank c (subset member)

section

variable {mark : Text}

theorem feed_not_mem_of_chars (chars : ∀ c ∈ mark, c = '>' ∨ c = ' ') : '\n' ∉ mark := by
  intro feed
  rcases chars _ feed with same | same <;> cases same

theorem feed_not_mem_trimEnd (single : '\n' ∉ mark) : '\n' ∉ Text.trimEnd mark :=
  fun feed => single ((Text.trimEnd_prefix mark).subset feed)

/-! ### Behind the mark -/

theorem pastMark_of_marked {t : Text} (marked : Marked mark t)
    (ends : t.getLast? = some '\n' → Text.trimEnd mark = []) : PastMark mark t := by
  intro before line shape _
  rcases marked before line shape with rfl | start
  · have bare := ends (by rw [shape, List.getLast?_concat])
    exact Nat.le_of_eq (congrArg List.length bare)
  · exact start.length_le

theorem pastMark_append_mark (single : '\n' ∉ mark) (t : Text) : PastMark mark (t ++ mark) := by
  intro before line shape _
  rcases Text.char_of_append shape with ⟨middle, _, within⟩ | ⟨middle, _, parts⟩
  · refine absurd ?_ single
    rw [within]
    exact List.mem_append_right _ List.mem_cons_self
  · rw [parts, List.length_append]
    exact Nat.le_trans (Text.trimEnd_prefix mark).length_le (Nat.le_add_left _ _)

/-! ### Texts put together -/

theorem showsLines_of_feed_free {t : Text} (inLine : '\n' ∉ t) : ShowsLines mark t := by
  intro before after shape
  refine absurd ?_ inLine
  rw [shape]
  exact List.mem_append_right _ List.mem_cons_self

theorem showsLast_of_line {line : Text} (inLine : '\n' ∉ line)
    (shown : Text.allBlank line = false) : ShowsLast mark line where
  only _ := shown
  later before rest shape _ := by
    refine absurd ?_ inLine
    rw [shape]
    exact List.mem_append_right _ List.mem_cons_self

theorem ShowsLines.of_append {front back : Text} (lines : ShowsLines mark (front ++ back)) :
    ShowsLines mark front := by
  intro before after shape
  exact lines before (after ++ back) (by rw [shape, List.append_assoc, List.cons_append])

theorem ShowsLines.head?_ne {t : Text} (lines : ShowsLines mark t) : t.head? ≠ some '\n' := by
  intro feed
  obtain ⟨rest, rfl⟩ := List.head?_eq_some_iff.1 feed
  exact absurd ((lines [] rest rfl).only List.not_mem_nil) (by decide)

/-- A line may go on with what shows something, also where it is the first line of that. -/
theorem ShowsLast.append (single : '\n' ∉ mark) {front back : Text} (past : PastMark mark front)
    (last : ShowsLast mark back) : ShowsLast mark (front ++ back) where
  only inLine := by
    have here : '\n' ∉ back := fun feed => inLine (List.mem_append_right _ feed)
    exact visible_of_subset (last.only here) (List.subset_append_right _ _)
  later := by
    intro before rest shape inRest
    have inLine : '\n' ∉ Text.trimEnd mark ++ rest := by
      rw [List.mem_append, not_or]
      exact ⟨feed_not_mem_trimEnd single, inRest⟩
    rcases Text.char_of_append shape with ⟨middle, _, within⟩ | ⟨line, parts, within⟩
    · exact last.later middle rest within inRest
    · -- The last line begins in front, where it has passed the mark.
      rw [within, List.mem_append, not_or] at inLine
      have room := past before line parts inLine.1
      have suffix : back <:+ rest := by
        refine List.suffix_of_suffix_length_le ⟨line, within.symm⟩ (List.suffix_append _ _) ?_
        have lengths := congrArg List.length within
        rw [List.length_append, List.length_append] at lengths
        omega
      exact visible_of_subset (last.only inLine.2) suffix.subset

theorem ShowsLines.append (single : '\n' ∉ mark) {front back : Text} (past : PastMark mark front)
    (first : ShowsLines mark front) (second : ShowsLines mark back) :
    ShowsLines mark (front ++ back) := by
  intro before after shape
  rcases Text.char_of_append shape with ⟨middle, rfl, within⟩ | ⟨middle, parts, _⟩
  · exact (second middle after within).append single past
  · exact first before middle parts

theorem ShowsLines.append_line {t line : Text} (lines : ShowsLines mark t) (inLine : '\n' ∉ line) :
    ShowsLines mark (t ++ line) := by
  intro before after shape
  rcases Text.char_of_append shape with ⟨middle, _, within⟩ | ⟨middle, parts, _⟩
  · refine absurd ?_ inLine
    rw [within]
    exact List.mem_append_right _ List.mem_cons_self
  · exact lines before middle parts

/-- Behind the mark any text may follow. -/
theorem ShowsLines.append_mark (single : '\n' ∉ mark) {front back : Text}
    (first : ShowsLines mark front) (second : ShowsLines mark back) :
    ShowsLines mark (front ++ mark ++ back) :=
  (first.append_line single).append single (pastMark_append_mark single front) second

/-- A line feed may follow a text whose last line shows something, and a line behind it. -/
theorem ShowsLines.feed {t line : Text} (lines : ShowsLines mark t) (last : ShowsLast mark t)
    (inLine : '\n' ∉ line) : ShowsLines mark (t ++ '\n' :: line) := by
  intro before after shape
  rcases Text.char_of_append shape with ⟨middle, rfl, within⟩ | ⟨middle, parts, _⟩
  · cases middle with
    | nil =>
        rw [List.append_nil]
        exact last
    | cons c more =>
        refine absurd ?_ inLine
        rw [(List.cons.inj within).2]
        exact List.mem_append_right _ List.mem_cons_self
  · exact lines before middle parts

/-! ### Blanks cut off -/

/-- The first line may do without its blank. -/
theorem ShowsLines.dropLeadingBlank {t : Text} (lines : ShowsLines mark t) :
    ShowsLines mark (Text.dropLeadingBlank t) := by
  cases t with
  | nil => exact lines
  | cons c rest =>
      rw [Text.dropLeadingBlank]
      split
      · next blank =>
          intro before after shape
          have last := lines (c :: before) after (by rw [shape, List.cons_append])
          refine ⟨fun inLine => ?_, fun front line parts inLine => ?_⟩
          · have inFirst : '\n' ∉ c :: before := by
              rw [List.mem_cons, not_or]
              refine ⟨?_, inLine⟩
              rintro rfl
              exact lines.head?_ne rfl
            have shown := last.only inFirst
            rw [Text.allBlank, List.all_cons, blank, Bool.true_and] at shown
            exact shown
          · exact last.later (c :: front) line (by rw [parts, List.cons_append]) inLine
      · exact lines

theorem ShowsLines.core {t : Text} (lines : ShowsLines mark t) : ShowsLines mark t.core := by
  have whole := lines.dropLeadingBlank
  rw [← Text.append_trailingBlank (Text.dropLeadingBlank t)] at whole
  exact whole.of_append

/-! ### Breaks -/

/-- Where nothing is left to strip, the last line shows something. -/
theorem showsLast_of_stripped (single : '\n' ∉ mark) {buffer : Buffer} (filled : buffer ≠ [])
    (stripped : stripLast? mark buffer = none) : ShowsLast mark buffer.reverse := by
  simp only [stripLast?, Option.or_eq_none_iff] at stripped
  obtain ⟨⟨_, noLine⟩, noBlank⟩ := stripped
  obtain ⟨c, front, rfl⟩ := List.exists_cons_of_ne_nil filled
  have solid : Text.isBlank c = false := by
    rw [stripBlank?, ite_eq_right_iff] at noBlank
    exact Bool.eq_false_iff.2 fun blank => Option.some_ne_none _ (noBlank blank)
  have shown : ∀ t : Text, t.getLast? = some c → Text.allBlank t = false := by
    intro t last
    have alone : Text.allBlank [c] = false := by
      rw [Text.allBlank, List.all_cons, solid]
      rfl
    exact visible_of_subset alone
      (List.cons_subset.2 ⟨List.mem_of_getLast? last, List.nil_subset _⟩)
  have ends : (c :: front).reverse.getLast? = some c := by
    rw [List.reverse_cons, List.getLast?_concat]
  refine ⟨fun _ => shown _ ends, fun before rest shape _ => ?_⟩
  rw [shape] at ends
  rcases List.eq_nil_or_concat rest with rfl | ⟨_, d, rfl⟩
  · rw [List.append_nil] at shape ends
    exfalso
    by_cases bare : Text.trimEnd mark = []
    · rw [bare, List.getLast?_concat] at ends
      rw [← Option.some.inj ends] at solid
      cases solid
    · have line : stripMarkLine? mark ((Text.trimEnd mark).reverse ++ '\n' :: before.reverse)
          = some ('\n' :: before.reverse) :=
        stripMarkLine?_of_line bare (feed_not_mem_trimEnd single) (.inr rfl)
      have whole := congrArg List.reverse shape
      rw [List.reverse_reverse, List.reverse_append, List.reverse_cons, List.append_assoc] at whole
      rw [whole] at noLine
      exact Option.some_ne_none _ (line.symm.trans noLine)
  · refine shown _ ?_
    rw [List.concat_eq_append, ← List.append_assoc, ← List.cons_append, ← List.append_assoc,
      List.getLast?_concat] at ends
    rw [List.concat_eq_append, List.getLast?_concat]
    exact ends

theorem showsLines_hard : ShowsLines mark BreakUnit.hard.text := by
  have last : ShowsLast mark ['\\'] := showsLast_of_line (by decide) (by decide)
  exact ShowsLines.feed (showsLines_of_feed_free (by decide)) last List.not_mem_nil

/-- Behind a line that shows something a run of breaks has no blank line if all of its
breaks are hard ones or if it is no more than one break. -/
theorem showsLines_breakRun (single : '\n' ∉ mark) (options : Options) {kind : BreakKind}
    {count : Nat} (spelled : kind = .hard ∨ (kind = .auto ∧ count ≤ 1)) {t : Text}
    (past : PastMark mark t) (lines : ShowsLines mark t) (last : ShowsLast mark t) :
    ShowsLines mark (t ++ breakRun options kind mark count) := by
  have upTo : ∀ places ≤ count, ShowsLines mark
      (t ++ (List.range places).flatMap (breakPiece options kind mark count)) := by
    intro places
    induction places with
    | zero =>
        intro _
        rw [List.range_zero, List.flatMap_nil, List.append_nil]
        exact lines
    | succ place ih =>
        intro bound
        have before := ih (Nat.le_of_succ_le bound)
        rw [List.range_succ, List.flatMap_append, List.flatMap_singleton]
        by_cases first : place = 0
        · subst first
          rw [List.range_zero, List.flatMap_nil, List.nil_append, breakPiece, breakLead, if_pos rfl,
            List.nil_append]
          have noBlock : kind ≠ .html := by
            rcases spelled with rfl | ⟨rfl, _⟩ <;> exact nofun
          rw [breakUnit, if_neg fun block => noBlock block.1]
          generalize (if 2 < count then 1 else 2) = limit
          split
          · exact lines.append single past showsLines_hard
          · exact lines.feed last List.not_mem_nil
        · have hard : kind = .hard := by
            refine spelled.resolve_right ?_
            rintro ⟨_, short⟩
            omega
          have piece : breakPiece options kind mark count place = mark ++ BreakUnit.hard.text := by
            rw [breakPiece, hard, breakUnit, if_neg (fun block => nomatch block.1),
              if_pos (.inl rfl), breakLead, if_neg first, if_neg nofun]
          rw [piece, ← List.append_assoc, ← List.append_assoc]
          exact before.append_mark single showsLines_hard
  exact upTo count (Nat.le_refl count)

/-- Outside of blocks, where breaks are missing the text is stripped and a run of as many
breaks as are asked for is written behind it. -/
theorem addBreaks_eq_or (options : Options) {kind : BreakKind} (noBlock : kind ≠ .html)
    (mark : Text) (required : Nat) (buffer : Buffer) :
    addBreaks options kind mark required buffer = buffer ∨
      addBreaks options kind mark required buffer = [] ∨
      (stripBreaks mark buffer ≠ [] ∧ addBreaks options kind mark required buffer
        = (breakRun options kind mark required).reverse ++ stripBreaks mark buffer) := by
  have needed (existing : Nat) : breaksNeeded kind required existing = required := by
    cases kind with
    | html => exact absurd rfl noBlock
    | auto => rfl
    | hard => rfl
  unfold addBreaks
  dsimp only
  split
  · exact .inl rfl
  · split
    · exact .inl rfl
    · split
      · exact .inr (.inl rfl)
      · next filled =>
          rw [needed]
          exact .inr (.inr ⟨filled, rfl⟩)

/-- A run of hard breaks, or a single break, leaves no blank line. -/
theorem showsLines_addBreaks (chars : ∀ c ∈ mark, c = '>' ∨ c = ' ') (options : Options)
    {kind : BreakKind} {required : Nat} (spelled : kind = .hard ∨ (kind = .auto ∧ required ≤ 1))
    {buffer : Buffer} (marked : Marked mark buffer.reverse)
    (lines : ShowsLines mark buffer.reverse) :
    ShowsLines mark (addBreaks options kind mark required buffer).reverse := by
  have single := feed_not_mem_of_chars chars
  have noBlock : kind ≠ .html := by
    rcases spelled with rfl | ⟨rfl, _⟩ <;> exact nofun
  rcases addBreaks_eq_or options noBlock mark required buffer with same | same | ⟨filled, same⟩
  · rw [same]
    exact lines
  · rw [same]
    exact showsLines_of_feed_free List.not_mem_nil
  · rw [same, List.reverse_append, List.reverse_reverse]
    have kept : Marked mark ([] ++ (stripBreaks mark buffer).reverse) := by
      by_cases bare : Text.trimEnd mark = []
      · exact marked_of_trimEnd_eq_nil bare _
      · exact marked_stripBreaks ⟨chars, bare⟩ marked
    have unbroken : (stripBreaks mark buffer).reverse.getLast? ≠ some '\n' := by
      rw [List.getLast?_reverse]
      exact head?_stripBreaks buffer
    have kept_prefix : (stripBreaks mark buffer).reverse <+: buffer.reverse :=
      stripBreaks_prefix buffer
    obtain ⟨removed, whole⟩ := kept_prefix
    rw [← whole] at lines
    exact showsLines_breakRun single options spelled
      (pastMark_of_marked kept fun ends => absurd ends unbroken) lines.of_append
      (showsLast_of_stripped single filled (stripLast?_stripBreaks mark buffer))

/-! ### No blank line -/

/-- A text whose lines show something has no blank line. -/
theorem noBlankLine_of_showsLines (chars : ∀ c ∈ mark, c = '>' ∨ c = ' ') {t : Text}
    (marked : Marked mark t) (lines : ShowsLines mark t) : NoBlankLine mark t where
  empty := by
    rintro ⟨before, after, shape⟩
    have parts : t = before ++ '\n' :: '\n' :: after := by
      rw [← shape]
      simp
    have last := lines (before ++ ['\n']) after (by rw [parts]; simp)
    rcases marked before ('\n' :: after) parts with none | start
    · cases none
    · by_cases bare : Text.trimEnd mark = []
      · exact absurd (last.later before [] (by rw [bare]; rfl) List.not_mem_nil) (by decide)
      · exfalso
        obtain ⟨c, more, filled⟩ := List.exists_cons_of_ne_nil bare
        rw [filled, List.cons_prefix_cons] at start
        refine feed_not_mem_trimEnd (feed_not_mem_of_chars chars) ?_
        rw [filled, ← start.1]
        exact List.mem_cons_self
  marked := by
    rintro ⟨before, after, shape⟩
    have parts : t = (before ++ '\n' :: Text.trimEnd mark) ++ '\n' :: after := by
      rw [← shape]
      simp
    have last := lines _ after parts
    exact absurd (last.later before [] (by rw [List.append_nil]) List.not_mem_nil) (by decide)

end

end ForumMarkup.Markdown
