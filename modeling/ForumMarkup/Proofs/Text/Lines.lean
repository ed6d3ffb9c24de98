import ForumMarkup.Text.Search

/-!
Contract: the lines of a text.

Main statements: `exists_of_mem_joinLines`, where in a text each of its lines
stands, `lines_append_feed`, which cuts a text at a line feed, and `char_of_append`,
where a line feed or another character of two texts stands.
-/

set_option autoImplicit false

namespace ForumMarkup
namespace Text

/-- A character of two texts stands in the first or in the second one. -/
theorem char_of_append {front back before after : Text} {c : Char}
    (shape : front ++ back = before ++ c :: after) :
    (∃ middle, before = front ++ middle ∧ back = middle ++ c :: after) ∨
      ∃ middle, front = before ++ c :: middle ∧ after = middle ++ back := by
  rcases List.append_eq_append_iff.1 shape with second | ⟨middle, parts, within⟩
  · exact .inl second
  · cases middle with
    | nil =>
        rw [List.append_nil] at parts
        exact .inl ⟨[], by rw [parts, List.append_nil], within.symm⟩
    | cons d more =>
        rw [List.cons_append, List.cons.injEq] at within
        rw [← within.1] at parts
        exact .inr ⟨more, parts, within.2⟩

/-- What lies in a text around a character that it does not hold lies on one side of it. -/
theorem infix_append_cons_iff {part front rest : Text} {c : Char} (other : c ∉ part) :
    part <:+: front ++ c :: rest ↔ part <:+: front ∨ part <:+: rest := by
  constructor
  · rintro ⟨before, after, shape⟩
    rw [List.append_assoc] at shape
    rcases char_of_append shape with ⟨middle, rfl, within⟩ | ⟨middle, _, rfl⟩
    · rcases char_of_append within with ⟨more, rfl, _⟩ | ⟨more, rfl, _⟩
      · exact .inl ⟨before, more, List.append_assoc ..⟩
      · exact absurd (List.mem_append_right _ List.mem_cons_self) other
    · exact .inr ⟨middle, after, List.append_assoc ..⟩
  · rintro (⟨before, after, rfl⟩ | ⟨before, after, rfl⟩)
    · exact ⟨before, after ++ c :: rest, by simp only [List.append_assoc]⟩
    · exact ⟨front ++ c :: before, after, by simp only [List.append_assoc, List.cons_append]⟩

theorem lines_feed_free (t : Text) : ∀ line ∈ lines t, '\n' ∉ line := by
  induction t with
  | nil => simp [lines]
  | cons c rest ih =>
      rw [lines]
      split
      · intro line member
        rcases List.mem_cons.1 member with rfl | later
        · exact List.not_mem_nil
        · exact ih line later
      · next noFeed =>
          cases shape : lines rest with
          | nil => exact absurd shape (lines_ne_nil rest)
          | cons first more =>
              rw [shape] at ih
              intro line member
              rcases List.mem_cons.1 member with rfl | later
              · intro feed
                rcases List.mem_cons.1 feed with here | there
                · exact noFeed here.symm
                · exact ih first List.mem_cons_self there
              · exact ih line (List.mem_cons_of_mem _ later)

/-- Every line of a text stands behind its start or behind a line feed, and before
its end or before a line feed. -/
theorem exists_of_mem_joinLines {pieces : List Text} {line : Text} (member : line ∈ pieces) :
    ∃ before after, '\n' :: joinLines pieces = before ++ '\n' :: (line ++ after) ∧
      (after = [] ∨ ∃ rest, after = '\n' :: rest) := by
  induction pieces with
  | nil => cases member
  | cons first others ih =>
      cases others with
      | nil =>
          rw [List.mem_singleton.1 member]
          exact ⟨[], [], by rw [joinLines, List.append_nil, List.nil_append], .inl rfl⟩
      | cons next more =>
          rcases List.mem_cons.1 member with rfl | later
          · exact ⟨[], '\n' :: joinLines (next :: more), rfl, .inr ⟨_, rfl⟩⟩
          · obtain ⟨before, after, shape, ends⟩ := ih later
            refine ⟨'\n' :: first ++ before, after, ?_, ends⟩
            have joined : joinLines (first :: next :: more)
                = first ++ '\n' :: joinLines (next :: more) := rfl
            rw [joined, shape, List.append_assoc]
            rfl

theorem joinLines_cons {line : Text} {more : List Text} (several : more ≠ []) :
    joinLines (line :: more) = line ++ '\n' :: joinLines more := by
  obtain ⟨next, others, rfl⟩ := List.exists_cons_of_ne_nil several
  rfl

theorem joinLines_append {front back : List Text} (filled : front ≠ []) (several : back ≠ []) :
    joinLines (front ++ back) = joinLines front ++ '\n' :: joinLines back := by
  induction front with
  | nil => exact absurd rfl filled
  | cons line more ih =>
      cases more with
      | nil => exact joinLines_cons several
      | cons next others =>
          have later := ih (List.cons_ne_nil next others)
          rw [List.cons_append, joinLines_cons (by simp), later,
            joinLines_cons (List.cons_ne_nil next others), List.append_assoc]
          rfl

/-- Joined lines end with the last one. -/
theorem exists_joinLines_getLast {pieces : List Text} (filled : pieces ≠ []) :
    ∃ before, joinLines pieces = before ++ pieces.getLast filled := by
  induction pieces with
  | nil => exact absurd rfl filled
  | cons line more ih =>
      cases more with
      | nil => exact ⟨[], rfl⟩
      | cons next others =>
          obtain ⟨before, joined⟩ := ih (List.cons_ne_nil next others)
          refine ⟨line ++ '\n' :: before, ?_⟩
          rw [joinLines_cons (List.cons_ne_nil next others), joined,
            List.getLast_cons (List.cons_ne_nil next others), List.append_assoc]
          rfl

theorem mem_joinLines {pieces : List Text} {line : Text} (member : line ∈ pieces) {c : Char}
    (inLine : c ∈ line) : c ∈ joinLines pieces := by
  obtain ⟨before, after, shape, _⟩ := exists_of_mem_joinLines member
  cases before with
  | nil =>
      rw [(List.cons.inj shape).2]
      exact List.mem_append_left _ inLine
  | cons d more =>
      rw [(List.cons.inj shape).2]
      exact List.mem_append_right _ (List.mem_cons_of_mem _ (List.mem_append_left _ inLine))

theorem mem_of_mem_lines {t line : Text} (member : line ∈ lines t) {c : Char} (inLine : c ∈ line) :
    c ∈ t := by
  rw [← joinLines_lines t]
  exact mem_joinLines member inLine

theorem eq_feed_or_of_mem_joinLines {pieces : List Text} {c : Char}
    (member : c ∈ joinLines pieces) : c = '\n' ∨ ∃ piece ∈ pieces, c ∈ piece := by
  induction pieces with
  | nil => cases member
  | cons line more ih =>
      by_cases last : more = []
      · subst last
        exact .inr ⟨line, List.mem_cons_self, member⟩
      · rw [joinLines_cons last, List.mem_append, List.mem_cons] at member
        rcases member with here | feed | later
        · exact .inr ⟨line, List.mem_cons_self, here⟩
        · exact .inl feed
        · exact (ih later).imp_right fun ⟨piece, inMore, inPiece⟩ =>
            ⟨piece, List.mem_cons_of_mem _ inMore, inPiece⟩

/-- A line lies in its text as a whole. -/
theorem infix_of_mem_lines {t line : Text} (member : line ∈ lines t) : line <:+: t := by
  obtain ⟨before, after, shape, _⟩ := exists_of_mem_joinLines member
  rw [joinLines_lines] at shape
  cases before with
  | nil => exact ⟨[], after, (List.cons.inj shape).2.symm⟩
  | cons _ more =>
      have parts : t = more ++ '\n' :: (line ++ after) := (List.cons.inj shape).2
      exact ⟨more ++ ['\n'], after, by rw [parts, List.append_assoc, List.append_assoc]; rfl⟩

theorem lines_of_feed_free {line : Text} (single : '\n' ∉ line) : lines line = [line] := by
  induction line with
  | nil => rfl
  | cons c rest ih =>
      rw [List.mem_cons, not_or] at single
      rw [lines, if_neg (Ne.symm single.1), ih single.2]

theorem lines_append_feed (front back : Text) :
    lines (front ++ '\n' :: back) = lines front ++ lines back := by
  induction front with
  | nil =>
      show lines ('\n' :: back) = [] :: lines back
      rw [lines, if_pos rfl]
  | cons c rest ih =>
      rw [List.cons_append, lines, lines, ih]
      by_cases feed : c = '\n'
      · rw [if_pos feed, if_pos feed]
        rfl
      · obtain ⟨line, more, shape⟩ := List.exists_cons_of_ne_nil (lines_ne_nil rest)
        rw [if_neg feed, if_neg feed, shape]
        rfl

/-- Lines without line feeds are read back from where they are joined. -/
theorem lines_joinLines {pieces : List Text} (filled : pieces ≠ [])
    (single : ∀ piece ∈ pieces, '\n' ∉ piece) : lines (joinLines pieces) = pieces := by
  induction pieces with
  | nil => exact absurd rfl filled
  | cons line more ih =>
      obtain ⟨singleLine, singleMore⟩ := List.forall_mem_cons.1 single
      by_cases last : more = []
      · rw [last]
        exact lines_of_feed_free singleLine
      · rw [joinLines_cons last, lines_append_feed, lines_of_feed_free singleLine,
          ih last singleMore]
        rfl

end Text

end ForumMarkup
