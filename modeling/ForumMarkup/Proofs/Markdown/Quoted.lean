import ForumMarkup.Proofs.Markdown.LineEnds

/-!
Contract: a text with the mark of a quote before each of its lines.

Owns:
- `quoted`, which puts the mark there character by character;
- `quoteLines`, the same for a whole text, line by line.

Main statements: `markLines_quoteMark` and `breakRun_quoteMark`, text and breaks
written inside a quote are quoted, and `quoted_true`, which joins the two.
-/

set_option autoImplicit false

namespace ForumMarkup.Markdown

open Decoration

/-- What a quoted line starts with, by its first character. -/
def lineLead (c : Char) : Text :=
  if c = '\n' then ['>'] else quoteMark

theorem lineLead_eq_or (c : Char) : lineLead c = ['>'] ∨ lineLead c = quoteMark := by
  unfold lineLead
  split
  · exact .inl rfl
  · exact .inr rfl

/-- The text with the mark of a quote at the start of each line on which something
follows; `start` says that the text itself starts a line. -/
def quoted (start : Bool) : Text → Text
  | [] => []
  | c :: rest => (if start then lineLead c else []) ++ c :: quoted (c == '\n') rest

/-- Whether what follows a text starts a line. -/
def endsLine (start : Bool) : Text → Bool
  | [] => start
  | c :: rest => endsLine (c == '\n') rest

def quoteLine (line : Text) : Text :=
  if line = [] then ['>'] else quoteMark ++ line

def quoteLines (t : Text) : Text :=
  Text.joinLines ((Text.lines t).map quoteLine)

/-! ### Lines of a text -/

theorem endsLine_append (start : Bool) (front back : Text) :
    endsLine start (front ++ back) = endsLine (endsLine start front) back := by
  induction front generalizing start with
  | nil => rfl
  | cons c rest ih => exact ih _

theorem endsLine_concat (start : Bool) (t : Text) (c : Char) :
    endsLine start (t ++ [c]) = (c == '\n') := by
  rw [endsLine_append]
  rfl

theorem endsLine_of_ne_nil {t : Text} (filled : t ≠ []) (start : Bool) :
    endsLine start t = (t.getLast? == some '\n') := by
  have parts := (List.dropLast_concat_getLast filled).symm
  rw [List.getLast?_eq_some_getLast filled]
  generalize t.getLast filled = c at parts ⊢
  rw [parts, endsLine_concat]
  rfl

theorem endsLine_false (t : Text) : endsLine false t = (t.getLast? == some '\n') := by
  cases t with
  | nil => rfl
  | cons c rest => exact endsLine_of_ne_nil (List.cons_ne_nil c rest) false

theorem quoted_append (start : Bool) (front back : Text) :
    quoted start (front ++ back) = quoted start front ++ quoted (endsLine start front) back := by
  induction front generalizing start with
  | nil => rfl
  | cons c rest ih => simp [quoted, endsLine, ih]

theorem quoted_true_cons (c : Char) (rest : Text) :
    quoted true (c :: rest) = lineLead c ++ quoted false (c :: rest) := rfl

theorem quoted_false_cons (c : Char) (rest : Text) :
    quoted false (c :: rest) = c :: quoted (c == '\n') rest := rfl

theorem quoted_of_feed_free {t : Text} (single : '\n' ∉ t) : quoted false t = t := by
  induction t with
  | nil => rfl
  | cons c rest ih =>
      rw [List.mem_cons, not_or] at single
      have other : (c == '\n') = false := beq_eq_false_iff_ne.2 (Ne.symm single.1)
      rw [quoted_false_cons, other, ih single.2]

theorem quoted_line {line : Text} (filled : line ≠ []) (single : '\n' ∉ line) :
    quoted true line = quoteMark ++ line := by
  obtain ⟨c, rest, rfl⟩ := List.exists_cons_of_ne_nil filled
  have other : c ≠ '\n' := fun same => single (same ▸ List.mem_cons_self)
  rw [quoted_true_cons, quoted_of_feed_free single, lineLead, if_neg other]

theorem quoted_line_feed {line : Text} (single : '\n' ∉ line) :
    quoted true (line ++ ['\n']) = quoteLine line ++ ['\n'] := by
  by_cases filled : line = []
  · rw [filled]
    rfl
  · have within : endsLine true line = false := by
      rw [endsLine_of_ne_nil filled, beq_eq_false_iff_ne]
      exact fun feed => single (List.mem_of_getLast? feed)
    rw [quoted_append, quoted_line filled single, within, quoteLine, if_neg filled]
    rfl

/-- Quoting a text is quoting its lines. -/
theorem quoted_joinLines {lines : List Text} (filled : lines ≠ [])
    (single : ∀ line ∈ lines, '\n' ∉ line)
    (within : endsLine true (Text.joinLines lines) = false) :
    quoted true (Text.joinLines lines) = Text.joinLines (lines.map quoteLine) := by
  induction lines with
  | nil => exact absurd rfl filled
  | cons line more ih =>
      obtain ⟨here, later⟩ := List.forall_mem_cons.1 single
      cases more with
      | nil =>
          have some : line ≠ [] := by
            rintro rfl
            cases within
          show quoted true line = quoteLine line
          rw [quoted_line some here, quoteLine, if_neg some]
      | cons next others =>
          have several : next :: others ≠ [] := List.cons_ne_nil _ _
          have parts : Text.joinLines (line :: next :: others)
              = line ++ ['\n'] ++ Text.joinLines (next :: others) := by
            rw [Text.joinLines_cons several, List.append_assoc]
            rfl
          rw [parts, endsLine_append, endsLine_concat] at within
          have mapped : (next :: others).map quoteLine ≠ [] := List.cons_ne_nil _ _
          rw [parts, quoted_append, endsLine_concat, quoted_line_feed here, beq_self_eq_true,
            ih several later within, List.append_assoc]
          exact (Text.joinLines_cons mapped).symm

/-- A text that ends within a line is quoted line by line. -/
theorem quoted_true {t : Text} (within : endsLine true t = false) : quoted true t = quoteLines t := by
  have whole := Text.joinLines_lines t
  rw [← whole] at within
  have lines := quoted_joinLines (Text.lines_ne_nil t) (Text.lines_feed_free t) within
  rwa [whole] at lines

/-! ### Text and breaks inside a quote -/

/-- Marking the lines of a text quotes it from its second line on. -/
theorem markLines_quoteMark (t : Text) :
    markLines quoteMark t = quoted false t ++ (if endsLine false t then quoteMark else []) := by
  induction t with
  | nil => rfl
  | cons c rest ih =>
      by_cases feed : c = '\n'
      · subst feed
        rw [markLines_feed, ih, quoted_false_cons, endsLine, beq_self_eq_true]
        cases rest with
        | nil => rfl
        | cons d more =>
            have lead : (if (d :: more).head? = some '\n' then Text.trimEnd quoteMark else quoteMark)
                = lineLead d := by
              rw [lineLead, List.head?_cons]
              by_cases next : d = '\n'
              · rw [if_pos (congrArg some next), if_pos next]
                rfl
              · rw [if_neg (mt Option.some.inj next), if_neg next]
            rw [lead, quoted_true_cons, endsLine, endsLine]
            simp
      · have other : (c == '\n') = false := beq_eq_false_iff_ne.2 feed
        rw [markLines_of_ne feed, ih, quoted_false_cons, endsLine, other]
        rfl

theorem endsLine_unit (start : Bool) (unit : BreakUnit) : endsLine start unit.text = true := by
  cases unit <;> rfl

/-- A run of breaks inside a quote is the quoted run. -/
theorem breakRun_quoteMark (options : Options) (kind : BreakKind) (count : Nat) :
    breakRun options kind quoteMark count = quoted false (breakRun options kind [] count) := by
  let unit := breakUnit options kind count
  have first (mark : Text) : breakPiece options kind mark count 0 = (unit 0).text := rfl
  have piece (place : Nat) : breakPiece options kind quoteMark count (place + 1)
      = quoted true (unit (place + 1)).text := by
    rw [breakPiece]
    show breakLead quoteMark (place + 1) (unit (place + 1)) ++ (unit (place + 1)).text = _
    cases unit (place + 1) <;> rfl
  have later (places : List Nat) :
      (places.flatMap fun place => breakPiece options kind quoteMark count (place + 1))
        = quoted true (places.flatMap fun place => breakPiece options kind [] count (place + 1)) := by
    induction places with
    | nil => rfl
    | cons place rest ih =>
        rw [List.flatMap_cons, List.flatMap_cons, ih, piece, breakPiece_of_no_mark, quoted_append,
          endsLine_unit]
  cases count with
  | zero => rfl
  | succ count =>
      rw [breakRun_eq, breakRun_eq, List.range_succ_eq_map, List.flatMap_cons, List.flatMap_cons,
        List.flatMap_map, List.flatMap_map, first, first, later, quoted_append, endsLine_unit]
      refine congrArg (· ++ _) ?_
      cases unit 0 <;> rfl

end ForumMarkup.Markdown
