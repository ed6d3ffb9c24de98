import ForumMarkup.Markdown.LineMark
import ForumMarkup.Proofs.Text.Solid

/-!
Contract: text behind a line mark, one character at a time.

Main statements: `markLines_of_ne` and `markLines_feed`, which determine the marked
text, and `markLines_append`, which cuts it in two next to a line that is not
empty.
-/

set_option autoImplicit false

open scoped List

namespace ForumMarkup.Markdown

@[simp]
theorem markLines_nil (mark : Text) : markLines mark [] = [] := rfl

theorem markLines_of_ne {c : Char} (other : c ≠ '\n') (mark t : Text) :
    markLines mark (c :: t) = c :: markLines mark t := by
  unfold markLines
  rw [Text.lines, if_neg other]
  cases shape : Text.lines t with
  | nil => exact absurd shape (Text.lines_ne_nil t)
  | cons first more => rfl

/-- A line feed is followed by the mark, without the blanks at its end when the next
line is empty and not the last one. -/
theorem markLines_feed (mark t : Text) :
    markLines mark ('\n' :: t)
      = '\n' ::
        ((if t.head? = some '\n' then Text.trimEnd mark else mark) ++ markLines mark t) := by
  unfold markLines
  rw [Text.lines, if_pos rfl]
  cases t with
  | nil =>
      show '\n' :: (mark ++ []) = '\n' :: (mark ++ ([] ++ []))
      rfl
  | cons c rest =>
      rw [Text.lines]
      cases shape : Text.lines rest with
      | nil => exact absurd shape (Text.lines_ne_nil rest)
      | cons line more =>
          by_cases feed : c = '\n'
          · rw [if_pos feed, feed, List.head?_cons, if_pos rfl]
            show '\n' :: (Text.trimEnd mark ++ [] ++ markedRest mark (line :: more))
              = '\n' :: (Text.trimEnd mark ++ markedRest mark (line :: more))
            rw [List.append_nil]
          · rw [if_neg feed, if_neg (by simpa using feed)]
            cases more with
            | nil =>
                show '\n' :: (mark ++ c :: line) = '\n' :: (mark ++ (c :: line ++ []))
                rw [List.append_nil]
            | cons next others =>
                show '\n' :: (mark ++ c :: line ++ markedRest mark (next :: others))
                  = '\n' :: (mark ++ (c :: line ++ markedRest mark (next :: others)))
                rw [List.append_assoc]

/-- Without a line mark a text stays as it is. -/
theorem markLines_of_no_mark (t : Text) : markLines [] t = t := by
  induction t with
  | nil => rfl
  | cons c rest ih =>
      by_cases feed : c = '\n'
      · have noMark : (if rest.head? = some '\n' then Text.trimEnd [] else []) = [] := by
          split <;> rfl
        rw [feed, markLines_feed, noMark, ih, List.nil_append]
      · rw [markLines_of_ne feed, ih]

theorem sublist_markLines (mark t : Text) : t <+ markLines mark t := by
  induction t with
  | nil => exact List.Sublist.slnil
  | cons c rest ih =>
      by_cases feed : c = '\n'
      · rw [feed, markLines_feed]
        exact (ih.trans (List.sublist_append_right _ _)).cons_cons _
      · rw [markLines_of_ne feed]
        exact ih.cons_cons _

/-- The marked text is cut where the line at the cut is not empty. -/
theorem markLines_append {front back : Text}
    (filled : back.head? ≠ some '\n' ∨ front.getLast? ≠ some '\n') (mark : Text) :
    markLines mark (front ++ back) = markLines mark front ++ markLines mark back := by
  induction front with
  | nil => rfl
  | cons c rest ih =>
      have filledRest : back.head? ≠ some '\n' ∨ rest.getLast? ≠ some '\n' := by
        refine filled.imp id fun ends feed => ends ?_
        rw [List.getLast?_cons, feed]
        rfl
      by_cases feed : c = '\n'
      · have sameNext : ((rest ++ back).head? = some '\n') = (rest.head? = some '\n') := by
          cases rest with
          | nil =>
              have started : back.head? ≠ some '\n' := by
                refine filled.resolve_right fun ends => ends ?_
                rw [feed]
                rfl
              simp [started]
          | cons d others => rfl
        rw [feed, List.cons_append, markLines_feed, markLines_feed, ih filledRest]
        simp only [sameNext, List.append_assoc, List.cons_append]
      · rw [List.cons_append, markLines_of_ne feed, markLines_of_ne feed, ih filledRest]
        rfl

theorem markLines_of_feed_free {t : Text} (single : '\n' ∉ t) (mark : Text) :
    markLines mark t = t := by
  induction t with
  | nil => rfl
  | cons c rest ih =>
      rw [List.mem_cons, not_or] at single
      rw [markLines_of_ne (Ne.symm single.1), ih single.2]

/-! ### The last line -/

theorem exists_last_line {t : Text} (several : '\n' ∈ t) :
    ∃ front line, t = front ++ '\n' :: line ∧ '\n' ∉ line := by
  obtain ⟨after, before, shape, single⟩ :=
    List.eq_append_cons_of_mem (List.mem_reverse.2 several)
  refine ⟨before.reverse, after.reverse, ?_, fun feed => single (List.mem_reverse.1 feed)⟩
  rw [← List.reverse_reverse t, shape]
  simp

/-- A text has one last line. -/
theorem last_line_unique {before front line other : Text} (single : '\n' ∉ line)
    (otherSingle : '\n' ∉ other) (same : before ++ '\n' :: line = front ++ '\n' :: other) :
    line = other := by
  rcases List.append_eq_append_iff.1 same with ⟨middle, _, within⟩ | ⟨middle, _, within⟩
  · cases middle with
    | nil => exact (List.cons.inj within).2
    | cons c more =>
        rw [List.cons_append, List.cons.injEq] at within
        refine absurd ?_ single
        rw [within.2]
        exact List.mem_append_right _ List.mem_cons_self
  · cases middle with
    | nil => exact (List.cons.inj within).2.symm
    | cons c more =>
        rw [List.cons_append, List.cons.injEq] at within
        refine absurd ?_ otherSingle
        rw [within.2]
        exact List.mem_append_right _ List.mem_cons_self

/-- The last line of a text of several lines stands behind the whole mark. -/
theorem exists_markLines_last_line (mark front : Text) {line : Text} (single : '\n' ∉ line) :
    ∃ before, markLines mark (front ++ '\n' :: line) = before ++ '\n' :: (mark ++ line) := by
  induction front with
  | nil =>
      refine ⟨[], ?_⟩
      have next : line.head? ≠ some '\n' := fun feed => single (List.mem_of_head? feed)
      rw [List.nil_append, markLines_feed, if_neg next, markLines_of_feed_free single]
      rfl
  | cons c rest ih =>
      obtain ⟨before, shape⟩ := ih
      by_cases feed : c = '\n'
      · rw [feed, List.cons_append, markLines_feed, shape, ← List.append_assoc]
        exact ⟨'\n' :: (_ ++ before), rfl⟩
      · rw [List.cons_append, markLines_of_ne feed, shape]
        exact ⟨c :: before, rfl⟩

/-- Marking lines writes no text that begins with a character which is not in the
mark, apart from what was there. -/
theorem suffix_of_suffix_markLines {mark t part : Text} {c : Char} (other : c ∉ mark)
    (single : '\n' ∉ c :: part) (suffix : c :: part <:+ markLines mark t) : c :: part <:+ t := by
  by_cases several : '\n' ∈ t
  · obtain ⟨front, line, rfl, lineSingle⟩ := exists_last_line several
    obtain ⟨before, shape⟩ := exists_markLines_last_line mark front lineSingle
    rw [shape] at suffix
    have inMarked : c :: part <:+ mark ++ line := by
      rcases List.suffix_or_suffix_of_suffix suffix (List.suffix_append before _) with short | long
      · rcases List.suffix_cons_iff.1 short with whole | inside
        · refine absurd ?_ single
          rw [whole]
          exact List.mem_cons_self
        · exact inside
      · exact absurd (long.subset List.mem_cons_self) single
    have inLine : c :: part <:+ line := by
      rcases List.suffix_or_suffix_of_suffix inMarked (List.suffix_append mark line) with
        inside | longer
      · exact inside
      · obtain ⟨beyond, whole⟩ := longer
        cases beyond with
        | nil =>
            exact ⟨[], whole.symm⟩
        | cons d more =>
            have same : d = c := (List.cons.inj whole).1
            rw [← whole] at inMarked
            obtain ⟨start, parts⟩ := inMarked
            rw [← List.append_assoc] at parts
            have marks := List.append_cancel_right parts
            refine absurd ?_ other
            rw [← marks, same]
            exact List.mem_append_right _ List.mem_cons_self
    exact inLine.trans ((List.suffix_cons _ _).trans (List.suffix_append _ _))
  · rw [markLines_of_feed_free several] at suffix
    exact suffix

/-- Texts that do not overlap at the end still do not when the lines of one are
marked. -/
theorem not_suffix_markLines {mark t part : Text} {c : Char} (other : c ∉ mark)
    (single : '\n' ∉ c :: part) (plain : ¬t <:+ c :: part ∧ ¬c :: part <:+ t) :
    ¬markLines mark t <:+ c :: part ∧ ¬c :: part <:+ markLines mark t := by
  constructor
  · intro suffix
    by_cases several : '\n' ∈ t
    · exact single (suffix.subset ((sublist_markLines mark t).subset several))
    · rw [markLines_of_feed_free several] at suffix
      exact plain.1 suffix
  · intro suffix
    exact plain.2 (suffix_of_suffix_markLines other single suffix)

end ForumMarkup.Markdown
