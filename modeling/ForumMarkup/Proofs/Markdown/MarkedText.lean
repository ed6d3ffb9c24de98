import ForumMarkup.Markdown.Render
import ForumMarkup.Proofs.Markdown.Strip
import ForumMarkup.Proofs.Text.Lines
import ForumMarkup.Proofs.Text.Trim
import ForumMarkup.Span.Decoration

/-!
Contract: texts whose lines start with a line mark, and what the steps of the
Markdown writer do to them.

Owns:
- `Marked`, every line behind the first one starts with the mark, up to the blanks
  the mark ends with; a last line that is still empty may go without;
- `IsMark`, the marks of fallback quotes as far as this matters;
- one lemma for each step: joining texts, removing and writing breaks, marking the
  lines of a text.

An unfinished last line is the reason for the exception.  The writer looks at the
end of what is there to tell whether the next character needs a mark.
-/

set_option autoImplicit false

namespace ForumMarkup.Markdown

/-- Every line behind the first one starts with the mark, up to the blanks the mark
ends with, unless it is last and empty. -/
def Marked (mark t : Text) : Prop :=
  ∀ before after, t = before ++ '\n' :: after → after = [] ∨ Text.trimEnd mark <+: after

/-- The marks of quotes: arrows and spaces, with an arrow among them. -/
structure IsMark (mark : Text) : Prop where
  chars : ∀ c ∈ mark, c = '>' ∨ c = ' '
  arrow : Text.trimEnd mark ≠ []

theorem trimEnd_append_quoteMark (mark : Text) :
    Text.trimEnd (mark ++ Decoration.quoteMark) = mark ++ ['>'] :=
  Text.trimEnd_append_of_solid (by decide) [' '] (List.forall_mem_singleton.2 (by decide))

section

variable {mark : Text}

theorem IsMark.ne_nil (isMark : IsMark mark) : mark ≠ [] := by
  intro none
  apply isMark.arrow
  rw [none]
  rfl

theorem IsMark.not_mem (isMark : IsMark mark) {c : Char} (other : c ≠ '>' ∧ c ≠ ' ') :
    c ∉ Text.trimEnd mark := by
  intro member
  rcases isMark.chars c ((Text.trimEnd_prefix mark).subset member) with rfl | rfl
  · exact other.1 rfl
  · exact other.2 rfl

/-- The mark inside a quote, whatever the marks around it are. -/
theorem isMark_append_quoteMark (chars : ∀ c ∈ mark, c = '>' ∨ c = ' ') :
    IsMark (mark ++ Decoration.quoteMark) := by
  constructor
  · intro c member
    rcases List.mem_append.1 member with around | own
    · exact chars c around
    · simpa [Decoration.quoteMark] using own
  · rw [trimEnd_append_quoteMark]
    simp

/-! ### Texts put together -/

/-- Every line behind the first one starts with the mark, also when it is empty. -/
def MarkedAll (mark t : Text) : Prop :=
  ∀ before after, t = before ++ '\n' :: after → Text.trimEnd mark <+: after

theorem MarkedAll.marked {t : Text} (all : MarkedAll mark t) : Marked mark t :=
  fun before after shape => .inr (all before after shape)

theorem MarkedAll.getLast?_ne (isMark : IsMark mark) {t : Text} (all : MarkedAll mark t) :
    t.getLast? ≠ some '\n' := by
  intro ends
  obtain ⟨front, rfl⟩ := List.getLast?_eq_some_iff.1 ends
  exact isMark.arrow (List.prefix_nil.1 (all front [] rfl))

theorem markedAll_of_feed_free {t : Text} (single : '\n' ∉ t) : MarkedAll mark t := by
  intro before after shape
  refine absurd ?_ single
  rw [shape]
  exact List.mem_append_right _ List.mem_cons_self

theorem marked_of_feed_free {t : Text} (single : '\n' ∉ t) : Marked mark t :=
  (markedAll_of_feed_free single).marked

theorem marked_of_trimEnd_eq_nil (blank : Text.trimEnd mark = []) (t : Text) : Marked mark t := by
  intro before after _
  rw [blank]
  exact .inr List.nil_prefix

theorem marked_feed : Marked mark ['\n'] := by
  intro before after shape
  cases before with
  | nil => exact .inl (List.cons.inj shape).2.symm
  | cons c more => simp at shape

/-- Two marked texts make up one unless the second continues an empty line without
a mark. -/
theorem Marked.append {front back : Text} (first : Marked mark front) (second : Marked mark back)
    (joint : front.getLast? = some '\n' → back = [] ∨ Text.trimEnd mark <+: back) :
    Marked mark (front ++ back) := by
  intro before after shape
  rcases Text.char_of_append shape with ⟨middle, _, within⟩ | ⟨middle, within, rfl⟩
  · exact second middle after within
  · rcases first before middle within with rfl | marked
    · refine joint ?_
      rw [within, List.getLast?_append]
      rfl
    · exact .inr (marked.trans (List.prefix_append _ _))

theorem Marked.of_append {front back : Text} (marked : Marked mark (front ++ back)) :
    Marked mark back := by
  intro before after shape
  refine marked (front ++ before) after ?_
  rw [shape, List.append_assoc]

theorem Marked.mono {outer : Text} {t : Text} (marked : Marked mark t)
    (shorter : Text.trimEnd outer <+: Text.trimEnd mark) : Marked outer t := by
  intro before after shape
  exact (marked before after shape).imp id shorter.trans

/-- No blank stands right behind a line feed at the end of a marked text. -/
theorem Marked.getLast?_ne (isMark : IsMark mark) {t : Text} {c : Char}
    (blank : Text.isBlank c = true) (marked : Marked mark (t ++ [c])) :
    t.getLast? ≠ some '\n' := by
  intro ends
  obtain ⟨front, rfl⟩ := List.getLast?_eq_some_iff.1 ends
  rcases marked front [c] (by simp) with none | start
  · cases none
  · rcases Text.trimEnd_eq_nil_or mark with empty | ⟨before, last, shape, solid⟩
    · exact isMark.arrow empty
    · rw [shape] at start
      have both : before ++ [last] = [c] := by
        apply start.eq_of_length
        have bound := start.length_le
        simp only [List.length_append, List.length_cons, List.length_nil] at bound ⊢
        omega
      have same : last ∈ [c] := by
        rw [← both]
        exact List.mem_append_right _ List.mem_cons_self
      rw [List.mem_singleton.1 same, blank] at solid
      cases solid

/-! ### Breaks removed from the end -/

/-- A part that is cut off at the end of a marked text may not be the end of a
mark. -/
theorem Marked.dropEnd {t removed : Text} (marked : Marked mark (t ++ removed))
    (whole : ∀ line, line <:+ t → Text.trimEnd mark <+: line ++ removed →
      Text.trimEnd mark <+: line ∨ line = []) : Marked mark t := by
  intro before after shape
  rcases marked before (after ++ removed) (by rw [shape]; simp) with none | start
  · exact .inl (List.append_eq_nil_iff.1 none).1
  · refine (whole after ?_ start).symm
    rw [shape]
    exact (List.suffix_cons _ _).trans (List.suffix_append _ _)

theorem prefix_of_prefix_append_cons {m line rest : Text} {c : Char} (other : c ∉ m)
    (start : m <+: line ++ c :: rest) : m <+: line := by
  rcases List.prefix_or_prefix_of_prefix start (List.prefix_append _ _) with within | beyond
  · exact within
  · obtain ⟨more, rfl⟩ := beyond
    rw [List.prefix_append_right_inj] at start
    cases more with
    | nil => exact ⟨[], by rw [List.append_nil, List.append_nil]⟩
    | cons d others =>
        obtain ⟨rfl, _⟩ := List.cons_prefix_cons.1 start
        exact absurd (List.mem_append_right _ List.mem_cons_self) other

/-- The spelling of a break starts with no character of a mark. -/
theorem exists_cons_unit (unit : BreakUnit) :
    ∃ c rest, unit.text = c :: rest ∧ c ≠ '>' ∧ c ≠ ' ' := by
  cases unit with
  | soft => exact ⟨'\n', [], rfl, by decide⟩
  | hard => exact ⟨'\\', ['\n'], rfl, by decide⟩
  | html => exact ⟨'<', "br>\n".toList, rfl, by decide⟩

/-- One removal leaves every line marked: what it cuts into is the last line. -/
theorem Marked.outlasts (isMark : IsMark mark) {t removed : Text}
    (step : StripStep mark t removed) {front : Text}
    (marked : Marked mark (front ++ (t ++ removed))) : Marked mark (front ++ t) := by
  rw [← List.append_assoc] at marked
  refine marked.dropEnd fun line within start => ?_
  cases step with
  | unit unit =>
      obtain ⟨c, rest, shape, other⟩ := exists_cons_unit unit
      rw [shape] at start
      exact .inl (prefix_of_prefix_append_cons (isMark.not_mem other) start)
  | line removed stands _ _ =>
      -- What is left ends with a line feed, so a mark that starts in it lies in it.
      obtain ⟨before, rfl⟩ := List.getLast?_eq_some_iff.1 stands
      rw [← List.append_assoc] at within
      rcases List.suffix_concat_iff.1 within with rfl | ⟨rest, rfl, _⟩
      · exact .inr rfl
      · left
        rw [List.append_assoc] at start
        have inside := prefix_of_prefix_append_cons (isMark.not_mem (by decide)) start
        exact inside.trans (List.prefix_append _ _)
  | blank c blank =>
      left
      rcases List.prefix_concat_iff.1 start with whole | inside
      · exfalso
        obtain ⟨before, last, shape, solid⟩ :=
          (Text.trimEnd_eq_nil_or mark).resolve_left isMark.arrow
        rw [shape] at whole
        have same := (List.append_inj' whole rfl).2
        rw [List.cons.injEq] at same
        rw [same.1, blank] at solid
        cases solid
      · exact inside

theorem marked_stripBreaks (isMark : IsMark mark) {buffer : Buffer} {front : Text}
    (marked : Marked mark (front ++ buffer.reverse)) :
    Marked mark (front ++ (stripBreaks mark buffer).reverse) :=
  stripBreaks_induction (p := fun t => Marked mark (front ++ t))
    (fun step => Marked.outlasts isMark step) marked

/-! ### Breaks written -/

theorem feed_free_mark (isMark : IsMark mark) : '\n' ∉ mark := by
  intro member
  rcases isMark.chars _ member with same | same <;> cases same

theorem breakUnit_text_shape (unit : BreakUnit) :
    ∃ spelled, unit.text = spelled ++ ['\n'] ∧ '\n' ∉ spelled := by
  cases unit with
  | soft => exact ⟨[], rfl, by decide⟩
  | hard => exact ⟨['\\'], rfl, by decide⟩
  | html => exact ⟨['<', 'b', 'r', '>'], rfl, by decide⟩

/-- One break of a run with what stands before it. -/
def breakPiece (options : Options) (kind : BreakKind) (mark : Text) (count place : Nat) : Text :=
  breakLead mark place (breakUnit options kind count place)
    ++ (breakUnit options kind count place).text

theorem breakRun_eq (options : Options) (kind : BreakKind) (count : Nat) :
    breakRun options kind mark count
      = (List.range count).flatMap (breakPiece options kind mark count) := rfl

theorem marked_breakPiece (isMark : IsMark mark) (options : Options) (kind : BreakKind)
    (count place : Nat) : Marked mark (breakPiece options kind mark count place) := by
  obtain ⟨spelled, shape, single⟩ := breakUnit_text_shape (breakUnit options kind count place)
  have leadSingle : '\n' ∉ breakLead mark place (breakUnit options kind count place) := by
    unfold breakLead
    split
    · exact List.not_mem_nil
    · split
      · exact isMark.not_mem (by decide)
      · exact feed_free_mark isMark
  have line : '\n' ∉ breakLead mark place (breakUnit options kind count place) ++ spelled := by
    simp [leadSingle, single]
  unfold breakPiece
  rw [shape, ← List.append_assoc]
  exact (marked_of_feed_free line).append marked_feed fun feed =>
    absurd (List.mem_of_getLast? feed) line

theorem prefix_breakPiece (options : Options) (kind : BreakKind) (count : Nat) {place : Nat}
    (later : place ≠ 0) : Text.trimEnd mark <+: breakPiece options kind mark count place := by
  unfold breakPiece breakLead
  rw [if_neg later]
  split
  · exact List.prefix_append _ _
  · exact (Text.trimEnd_prefix mark).trans (List.prefix_append _ _)

/-- Behind its first break a run consists of lines with the mark. -/
theorem marked_breakRun (isMark : IsMark mark) (options : Options) (kind : BreakKind)
    (count : Nat) : Marked mark (breakRun options kind mark count) := by
  have general : ∀ (places : List Nat) (front : Text), (∀ place ∈ places, place ≠ 0) →
      Marked mark front →
      Marked mark (front ++ places.flatMap (breakPiece options kind mark count)) := by
    intro places
    induction places with
    | nil =>
        intro front _ marked
        rw [List.flatMap_nil, List.append_nil]
        exact marked
    | cons place others ih =>
        intro front later marked
        obtain ⟨here, there⟩ := List.forall_mem_cons.1 later
        rw [List.flatMap_cons, ← List.append_assoc]
        apply ih _ there
        exact marked.append (marked_breakPiece isMark options kind count place) fun _ =>
          .inr (prefix_breakPiece options kind count here)
  rw [breakRun_eq]
  cases count with
  | zero => exact marked_of_feed_free List.not_mem_nil
  | succ more =>
      rw [List.range_succ_eq_map, List.flatMap_cons]
      refine general _ _ ?_ (marked_breakPiece isMark options kind _ 0)
      intro place member
      obtain ⟨earlier, _, rfl⟩ := List.mem_map.1 member
      exact Nat.succ_ne_zero earlier

/-- Stripping the breaks that are there and writing them again keeps the lines marked. -/
theorem marked_addBreaks (isMark : IsMark mark) (options : Options) (kind : BreakKind)
    (required : Nat) {buffer : Buffer} {front : Text}
    (marked : Marked mark (front ++ buffer.reverse)) :
    Marked mark (front ++ (addBreaks options kind mark required buffer).reverse) := by
  refine addBreaks_induction (p := fun t => Marked mark (front ++ t))
    (fun step => Marked.outlasts isMark step) ?_ marked
  intro t count filled ends kept
  show Marked mark (front ++ (t ++ _))
  rw [← List.append_assoc]
  refine kept.append (marked_breakRun isMark options kind count) fun feed => ?_
  rw [List.getLast?_append, Option.or_eq_some_iff] at feed
  rcases feed with here | ⟨none, _⟩
  · exact absurd here ends
  · exact absurd (List.getLast?_eq_none_iff.1 none) filled

/-! ### The lines of a text under the mark -/

theorem MarkedAll.append_left {line rest : Text} (single : '\n' ∉ line)
    (all : MarkedAll mark rest) : MarkedAll mark (line ++ rest) := by
  intro before after shape
  rcases Text.char_of_append shape with ⟨middle, _, within⟩ | ⟨middle, within, _⟩
  · exact all middle after within
  · refine absurd ?_ single
    rw [within]
    exact List.mem_append_right _ List.mem_cons_self

theorem MarkedAll.cons {t : Text} (start : Text.trimEnd mark <+: t) (all : MarkedAll mark t) :
    MarkedAll mark ('\n' :: t) := by
  intro before after shape
  cases before with
  | nil =>
      rw [← (List.cons.inj shape).2]
      exact start
  | cons c more => exact all more after (List.cons.inj shape).2

theorem markedAll_markedRest (isMark : IsMark mark) {lines : List Text}
    (single : ∀ line ∈ lines, '\n' ∉ line) : MarkedAll mark (markedRest mark lines) := by
  fun_induction markedRest mark lines with
  | case1 => exact markedAll_of_feed_free List.not_mem_nil
  | case2 last =>
      have start : Text.trimEnd mark <+: mark ++ last :=
        (Text.trimEnd_prefix mark).trans (List.prefix_append _ _)
      refine MarkedAll.cons start (markedAll_of_feed_free fun feed => ?_)
      rcases List.mem_append.1 feed with inMark | inLast
      · exact feed_free_mark isMark inMark
      · exact single last List.mem_cons_self inLast
  | case3 line more _ ih =>
      obtain ⟨here, later⟩ := List.forall_mem_cons.1 single
      have lead : Text.trimEnd mark <+: (if line.isEmpty then Text.trimEnd mark else mark)
          ∧ '\n' ∉ (if line.isEmpty then Text.trimEnd mark else mark) := by
        split
        · exact ⟨List.prefix_rfl, isMark.not_mem (by decide)⟩
        · exact ⟨Text.trimEnd_prefix mark, feed_free_mark isMark⟩
      rw [List.append_assoc]
      refine MarkedAll.cons (lead.1.trans (List.prefix_append _ _)) ?_
      exact ((ih later).append_left here).append_left lead.2

theorem markedAll_markLines (isMark : IsMark mark) (t : Text) :
    MarkedAll mark (markLines mark t) := by
  have single := Text.lines_feed_free t
  unfold markLines
  split
  · exact markedAll_of_feed_free List.not_mem_nil
  · next first more shape =>
      rw [shape] at single
      obtain ⟨here, later⟩ := List.forall_mem_cons.1 single
      exact (markedAll_markedRest isMark later).append_left here

end

end ForumMarkup.Markdown
