import ForumMarkup.Proofs.Markdown.MarkLines
import ForumMarkup.Proofs.Markdown.MarkedText
import ForumMarkup.Proofs.Markdown.Strip
import ForumMarkup.Proofs.Span.Tidy

/-!
Contract: hard breaks as units of two characters, a backslash and a line feed.

Owns:
- `BreaksWhole`, texts in which every backslash belongs to a hard break;
- `Torn`, texts in which a closing text stands between the two characters.

Main statements: both properties outlast the removal of breaks at the end and the
writing of breaks, `breaksWhole_addBreaks` and `torn_addBreaks`.

What is whole may not be cut behind a backslash.  The removal of breaks never does so: it
looks for the longest spelling of a break first.
-/

set_option autoImplicit false

namespace ForumMarkup.Markdown

/-- Every backslash is followed by a line feed. -/
def BreaksWhole (t : Text) : Prop :=
  ∀ before after, t = before ++ '\\' :: after → after.head? = some '\n'

/-- A backslash is followed by the beginning of a closing text. -/
def Torn (t : Text) : Prop :=
  ∃ before closer after, closer ∈ closers ∧ t = before ++ '\\' :: (closer ++ after)

variable {mark : Text}

/-! ### Whole texts -/

theorem breaksWhole_of_noSlash {t : Text} (noSlash : '\\' ∉ t) : BreaksWhole t := by
  intro before after shape
  refine absurd ?_ noSlash
  rw [shape]
  exact List.mem_append_right _ List.mem_cons_self

namespace BreaksWhole

variable {t front back : Text}

theorem append (first : BreaksWhole front) (second : BreaksWhole back) :
    BreaksWhole (front ++ back) := by
  intro before after shape
  rcases Text.char_of_append shape with ⟨middle, _, within⟩ | ⟨middle, within, rfl⟩
  · exact second middle after within
  · rw [List.head?_append, first before middle within]
    rfl

/-- A part behind other text may be taken alone. -/
theorem of_append (whole : BreaksWhole (front ++ back)) : BreaksWhole back := by
  intro before after shape
  refine whole (front ++ before) after ?_
  rw [shape, List.append_assoc]

/-- A part at the start may be taken alone, unless it is cut behind a backslash. -/
theorem dropEnd (whole : BreaksWhole (front ++ back)) (ends : front.getLast? ≠ some '\\') :
    BreaksWhole front := by
  intro before after shape
  have next : (after ++ back).head? = some '\n' := whole before (after ++ back) (by simp [shape])
  cases after with
  | nil =>
      rw [shape, List.getLast?_concat] at ends
      exact absurd rfl ends
  | cons c rest => exact next

/-- The line feed at the end may be any other one. -/
theorem append_feed (whole : BreaksWhole (front ++ ['\n'])) (rest : BreaksWhole ('\n' :: back)) :
    BreaksWhole (front ++ '\n' :: back) := by
  have behind : BreaksWhole back := by
    have parts : BreaksWhole (['\n'] ++ back) := rest
    exact parts.of_append
  rw [List.append_cons]
  exact whole.append behind

end BreaksWhole

theorem breaksWhole_cons {c : Char} {rest : Text} :
    BreaksWhole (c :: rest) ↔ (c = '\\' → rest.head? = some '\n') ∧ BreaksWhole rest := by
  constructor
  · intro whole
    have parts : BreaksWhole ([c] ++ rest) := whole
    exact ⟨fun slash => whole [] rest (by rw [slash]; rfl), parts.of_append⟩
  · rintro ⟨here, later⟩ before after shape
    cases before with
    | nil =>
        obtain ⟨slash, same⟩ := List.cons.inj shape
        rw [← same]
        exact here slash
    | cons d more => exact later more after (List.cons.inj shape).2

instance decidableBreaksWhole : DecidablePred BreaksWhole
  | [] => isTrue (breaksWhole_of_noSlash List.not_mem_nil)
  | _ :: rest =>
      have := decidableBreaksWhole rest
      decidable_of_iff _ breaksWhole_cons.symm

/-! ### Whole texts while breaks are removed and written -/

/-- The removal of a break does not cut behind a backslash. -/
theorem BreaksWhole.stripLast? {buffer rest : Buffer} (whole : BreaksWhole buffer.reverse)
    (found : Markdown.stripLast? mark buffer = some rest) : BreaksWhole rest.reverse := by
  obtain ⟨removed, shape, step⟩ := step_of_stripLast? found
  rw [shape] at whole
  refine whole.dropEnd fun ends => ?_
  obtain ⟨front, cut⟩ := List.getLast?_eq_some_iff.1 ends
  have feed : removed.head? = some '\n' := whole front removed (by simp [cut])
  have single : removed = ['\n'] := by
    cases step with
    | unit unit =>
        cases unit with
        | soft => rfl
        | hard => cases feed
        | html => cases feed
    | line _ _ single _ => exact absurd (List.mem_of_head? feed) single
    | blank c _ =>
        cases feed
        rfl
  -- The line feed behind the backslash was the end of a hard break.
  have hard : buffer = '\n' :: '\\' :: front.reverse := by
    rw [← List.reverse_reverse buffer, shape, cut, single]
    simp
  have unit : Markdown.stripLast? mark buffer = some front.reverse := by
    rw [hard]
    rfl
  rw [found, Option.some.injEq] at unit
  rw [unit, List.reverse_reverse] at cut
  simp at cut

theorem breaksWhole_stripBreaks {buffer : Buffer} (whole : BreaksWhole buffer.reverse) :
    BreaksWhole (stripBreaks mark buffer).reverse := by
  fun_induction stripBreaks mark buffer with
  | case1 buffer rest found _ ih => exact ih (whole.stripLast? found)
  | case2 buffer none => exact whole

/-- In a run of breaks every backslash stands before its line feed. -/
theorem breaksWhole_breakRun (noSlash : '\\' ∉ mark) (options : Options) (kind : BreakKind)
    (count : Nat) : BreaksWhole (breakRun options kind mark count) := by
  have lead (place : Nat) (unit : BreakUnit) : '\\' ∉ breakLead mark place unit := by
    unfold breakLead
    split
    · exact List.not_mem_nil
    · split
      · exact fun member => noSlash ((Text.trimEnd_prefix mark).subset member)
      · exact noSlash
  have spelled (unit : BreakUnit) : BreaksWhole unit.text := by
    cases unit with
    | soft => exact breaksWhole_of_noSlash (by decide)
    | hard => decide
    | html => exact breaksWhole_of_noSlash (by decide)
  have piece (place : Nat) : BreaksWhole (breakPiece options kind mark count place) :=
    (breaksWhole_of_noSlash (lead place _)).append (spelled _)
  rw [breakRun_eq]
  induction List.range count with
  | nil => exact breaksWhole_of_noSlash List.not_mem_nil
  | cons place others ih => exact (piece place).append ih

theorem breaksWhole_addBreaks (noSlash : '\\' ∉ mark) (options : Options) (kind : BreakKind)
    (required : Nat) {buffer : Buffer} (whole : BreaksWhole buffer.reverse) :
    BreaksWhole (addBreaks options kind mark required buffer).reverse :=
  addBreaks_of_stripped whole (breaksWhole_stripBreaks whole) fun _ _ kept =>
    kept.append (breaksWhole_breakRun noSlash options kind _)

/-! ### Torn texts -/

namespace Torn

variable {t front back : Text}

theorem append_left (torn : Torn back) (front : Text) : Torn (front ++ back) := by
  obtain ⟨before, closer, after, known, rfl⟩ := torn
  exact ⟨front ++ before, closer, after, known, (List.append_assoc _ _ _).symm⟩

theorem append_right (torn : Torn front) (back : Text) : Torn (front ++ back) := by
  obtain ⟨before, closer, after, known, rfl⟩ := torn
  exact ⟨before, closer, after ++ back, known, by simp⟩

/-- No closing text starts with a line feed. -/
theorem not_breaksWhole (torn : Torn t) : ¬BreaksWhole t := by
  obtain ⟨before, closer, after, known, shape⟩ := torn
  have start : (closer ++ after).head? ≠ some '\n' := by
    simp only [closers, List.mem_cons, List.not_mem_nil, or_false] at known
    rcases known with rfl | rfl | rfl | rfl | rfl | rfl <;> simp
  exact fun whole => start (whole before _ shape)

end Torn

/-- The last character of the beginning of a closing text. Of those that also end a break
or a line mark, only the angle stands alone. -/
theorem exists_closer_end {closer : Text} (known : closer ∈ closers) :
    ∃ front last, closer = front ++ [last] ∧ Text.isBlank last = false ∧
      last ∉ ['\\', '<', 'b', 'r', '\n', ' '] ∧ (last = '>' → front = []) := by
  simp only [closers, List.mem_cons, List.not_mem_nil, or_false] at known
  rcases known with rfl | rfl | rfl | rfl | rfl | rfl
  · exact ⟨[], '*', rfl, by decide, by decide, by decide⟩
  · exact ⟨[], '_', rfl, by decide, by decide, by decide⟩
  · exact ⟨[], '[', rfl, by decide, by decide, by decide⟩
  · exact ⟨[], ']', rfl, by decide, by decide, by decide⟩
  · exact ⟨[], '>', rfl, by decide, by decide, by decide⟩
  · exact ⟨['<'], '/', rfl, by decide, by decide, by decide⟩

/-- What is removed does not reach into the beginning of a closing text behind a
backslash. -/
theorem not_stripStep {t before front inside after : Text} {last : Char}
    (chars : ∀ c ∈ mark, c = '>' ∨ c = ' ') (solid : Text.isBlank last = false)
    (other : last ∉ ['\\', '<', 'b', 'r', '\n', ' ']) (alone : last = '>' → front = [])
    (same : before ++ '\\' :: front = t ++ inside) :
    ¬StripStep mark t (inside ++ last :: after) := by
  intro step
  simp only [List.mem_cons, List.not_mem_nil, or_false, not_or] at other
  obtain ⟨noSlash, noAngle, noB, noR, noFeed, noSpace⟩ := other
  have slash : last = '>' → t.getLast? = some '\\' ∧ inside = [] ∨ '\\' ∈ inside := by
    intro arrow
    rw [alone arrow] at same
    have ends : (t ++ inside).getLast? = some '\\' := by rw [← same, List.getLast?_concat]
    rw [List.getLast?_append, Option.or_eq_some_iff] at ends
    rcases ends with within | ⟨none, before⟩
    · exact .inr (List.mem_of_getLast? within)
    · exact .inl ⟨before, List.getLast?_eq_none_iff.1 none⟩
  generalize shape : inside ++ last :: after = removed at step
  have member : last ∈ removed := by
    rw [← shape]
    exact List.mem_append_right _ List.mem_cons_self
  have within : inside ⊆ removed := by
    rw [← shape]
    exact List.subset_append_left _ _
  cases step with
  | unit unit =>
      cases unit with
      | soft => simp [BreakUnit.text, noFeed] at member
      | hard => simp [BreakUnit.text, noSlash, noFeed] at member
      | html =>
          have arrow : last = '>' := by
            simpa [BreakUnit.text, noAngle, noB, noR, noFeed] using member
          rcases slash arrow with ⟨_, none⟩ | slashInside
          · rw [none, arrow] at shape
            cases shape
          · exact absurd (within slashInside) (by decide)
  | line line stands _ isMark =>
      have marks : ∀ c ∈ removed, c = '>' ∨ c = ' ' := by
        intro c inLine
        rcases isMark with same | same
        · exact chars c (same ▸ inLine)
        · exact chars c ((Text.trimEnd_prefix mark).subset (same ▸ inLine))
      rcases slash ((marks last member).resolve_right noSpace) with ⟨ends, _⟩ | slashInside
      · rw [stands] at ends
        cases ends
      · rcases marks _ (within slashInside) with same | same <;> cases same
  | blank c blank =>
      rw [← List.mem_singleton.1 member, solid] at blank
      cases blank

/-- What is removed at the end leaves a torn break torn. -/
theorem Torn.outlasts (chars : ∀ c ∈ mark, c = '>' ∨ c = ' ') {t removed : Text}
    (step : StripStep mark t removed) (torn : Torn (t ++ removed)) : Torn t := by
  obtain ⟨before, closer, after, known, shape⟩ := torn
  have parts : t ++ removed = (before ++ '\\' :: closer) ++ after := by
    rw [shape]
    simp
  rcases List.append_eq_append_iff.1 parts with ⟨inside, whole, rest⟩ | ⟨more, whole, _⟩
  · obtain ⟨front, last, rfl, solid, other, alone⟩ := exists_closer_end known
    rcases List.eq_nil_or_concat inside with rfl | ⟨others, final, rfl⟩
    · exact ⟨before, front ++ [last], [], known, by simpa using whole.symm⟩
    · rw [← List.cons_append, ← List.append_assoc, List.concat_eq_append,
        ← List.append_assoc] at whole
      obtain ⟨same, ends⟩ := List.append_inj' whole rfl
      rw [List.concat_eq_append, ← (List.cons.inj ends).1, List.append_assoc] at rest
      rw [rest] at step
      exact absurd step (not_stripStep chars solid other alone same)
  · exact ⟨before, closer, more, known, by simpa using whole⟩

theorem torn_addBreaks (chars : ∀ c ∈ mark, c = '>' ∨ c = ' ') (options : Options)
    (kind : BreakKind) (required : Nat) {buffer : Buffer} (torn : Torn buffer.reverse) :
    Torn (addBreaks options kind mark required buffer).reverse :=
  addBreaks_induction (fun step => Torn.outlasts chars step) (fun _ _ kept => kept.append_right _)
    torn

end ForumMarkup.Markdown
