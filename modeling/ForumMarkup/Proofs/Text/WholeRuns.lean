import ForumMarkup.Text.Blank

/-!
Contract: whole runs of a character.

Owns:
- `Text.WholeRun`, a run of a character that the text goes on with on neither side, with
  what stands before and behind it, and `Text.HasRun`, whether there is one;
- `Text.FirstRun`, what stands before the first whole run of some length.

Main statements: `wholeRun_append_iff`, which cuts a text where no run is torn, and
`delimited_iff`, which runs there are in a text between two delimiters.
-/

set_option autoImplicit false

namespace ForumMarkup.Text

/-- The text has a run of the character between two texts, neither of which goes on with
it. -/
structure WholeRun (c : Char) (count : Nat) (t front back : Text) : Prop where
  shape : t = front ++ List.replicate count c ++ back
  filled : 0 < count
  starts : front.getLast? ≠ some c
  ends : back.head? ≠ some c

def HasRun (c : Char) (count : Nat) (t : Text) : Prop :=
  ∃ front back, t.WholeRun c count front back

/-- What stands before the first whole run of this length. -/
structure FirstRun (c : Char) (count : Nat) (t content : Text) : Prop where
  there : ∃ back, t.WholeRun c count content back
  first : ∀ front back, t.WholeRun c count front back → content.length ≤ front.length

/-- Between the two texts no run of the character goes on. -/
def Apart (c : Char) (s t : Text) : Prop :=
  s.getLast? ≠ some c ∨ t.head? ≠ some c

variable {c : Char} {count length : Nat} {s t front back content : Text}

theorem WholeRun.mem (run : t.WholeRun c count front back) : c ∈ t := by
  rw [run.shape, List.mem_append, List.mem_append]
  exact .inl (.inr (List.mem_replicate.2 ⟨Nat.ne_of_gt run.filled, rfl⟩))

theorem WholeRun.length_eq (run : t.WholeRun c count front back) :
    t.length = front.length + count + back.length := by
  rw [run.shape, List.length_append, List.length_append, List.length_replicate]

theorem not_hasRun_of_not_mem (none : c ∉ t) : ¬t.HasRun c count :=
  fun ⟨_, _, run⟩ => none run.mem

theorem getLast?_ne_of_append (ends : (s ++ t).getLast? ≠ some c) : t.getLast? ≠ some c := by
  intro last
  rw [List.getLast?_append, last, Option.some_or] at ends
  exact ends rfl

theorem head?_ne_of_append (starts : (s ++ t).head? ≠ some c) : s.head? ≠ some c := by
  intro first
  rw [List.head?_append, first, Option.some_or] at starts
  exact starts rfl

/-- A part of a run that is not empty ends and starts with the character. -/
theorem getLast?_of_run (run : List.replicate count c = s ++ t) (filled : s ≠ []) :
    s.getLast? = some c := by
  obtain ⟨inner, last, rfl⟩ := (List.eq_nil_or_concat s).resolve_left filled
  rw [List.concat_eq_append, List.getLast?_concat, Option.some.injEq]
  refine List.eq_of_mem_replicate (n := count) ?_
  rw [run]
  simp

theorem head?_of_run (run : List.replicate count c = s ++ t) (filled : t ≠ []) :
    t.head? = some c := by
  obtain ⟨first, more, rfl⟩ := List.exists_cons_of_ne_nil filled
  rw [List.head?_cons, Option.some.injEq]
  refine List.eq_of_mem_replicate (n := count) ?_
  rw [run]
  simp

/-- A text that ends with a whole run ends with the character. -/
theorem WholeRun.getLast?_eq (run : t.WholeRun c count front []) : t.getLast? = some c := by
  have filled : List.replicate count c ≠ [] :=
    mt (List.replicate_eq_nil_iff c).1 (Nat.ne_of_gt run.filled)
  rw [run.shape, List.append_nil, List.getLast?_append,
    getLast?_of_run (List.append_nil _).symm filled, Option.some_or]

theorem WholeRun.head?_eq (run : t.WholeRun c count [] back) : t.head? = some c := by
  have filled : List.replicate count c ≠ [] :=
    mt (List.replicate_eq_nil_iff c).1 (Nat.ne_of_gt run.filled)
  rw [run.shape, List.nil_append, List.head?_append, head?_of_run (List.nil_append _).symm filled,
    Option.some_or]

/-- A whole run of two texts lies in one of them, if no run goes on between them. -/
theorem wholeRun_append_iff (apart : Apart c s t) :
    (s ++ t).WholeRun c count front back ↔
      (∃ inner, back = inner ++ t ∧ s.WholeRun c count front inner) ∨
        ∃ inner, front = s ++ inner ∧ t.WholeRun c count inner back := by
  constructor
  · rintro ⟨shape, filled, starts, ends⟩
    rcases List.append_eq_append_iff.1 shape with ⟨middle, before, rfl⟩ | ⟨middle, rfl, rfl⟩
    · rcases List.append_eq_append_iff.1 before with ⟨within, rfl, torn⟩ | ⟨inner, rfl, rfl⟩
      · by_cases none : within = []
        · subst none
          rw [List.append_nil] at apart
          exact .inr ⟨[], by simp, ⟨by rw [torn]; rfl, filled, nofun, ends⟩⟩
        by_cases empty : middle = []
        · subst empty
          rw [List.append_nil] at torn
          exact .inl ⟨[], rfl, ⟨by rw [torn, List.append_nil], filled, starts, nofun⟩⟩
        have last : (front ++ within).getLast? = some c := by
          rw [List.getLast?_append, getLast?_of_run torn none, Option.some_or]
        have next : (middle ++ back).head? = some c := by
          rw [List.head?_append, head?_of_run torn empty, Option.some_or]
        exact apart.elim (absurd last) (absurd next)
      · exact .inr ⟨inner, rfl, ⟨rfl, filled, getLast?_ne_of_append starts, ends⟩⟩
    · exact .inl ⟨middle, rfl, ⟨rfl, filled, starts, head?_ne_of_append ends⟩⟩
  · rintro (⟨inner, rfl, run⟩ | ⟨inner, rfl, run⟩)
    · refine ⟨by rw [run.shape, List.append_assoc], run.filled, run.starts, ?_⟩
      cases inner with
      | nil => exact apart.resolve_left (not_not_intro run.getLast?_eq)
      | cons first more => exact run.ends
    · refine ⟨by rw [run.shape]; simp only [List.append_assoc], run.filled, ?_, run.ends⟩
      rcases List.eq_nil_or_concat inner with rfl | ⟨more, last, rfl⟩
      · rw [List.append_nil]
        exact apart.resolve_right (not_not_intro run.head?_eq)
      · intro same
        rw [List.getLast?_append] at same
        rw [List.concat_eq_append, List.getLast?_concat, Option.some_or] at same
        exact run.starts (by rw [List.concat_eq_append, List.getLast?_concat, same])

theorem hasRun_append_iff (apart : Apart c s t) :
    (s ++ t).HasRun c count ↔ s.HasRun c count ∨ t.HasRun c count := by
  constructor
  · rintro ⟨front, back, run⟩
    rcases (wholeRun_append_iff apart).1 run with ⟨inner, _, within⟩ | ⟨inner, _, within⟩
    · exact .inl ⟨front, inner, within⟩
    · exact .inr ⟨inner, back, within⟩
  · rintro (⟨front, back, run⟩ | ⟨front, back, run⟩)
    · exact ⟨front, back ++ t, (wholeRun_append_iff apart).2 (.inl ⟨back, rfl, run⟩)⟩
    · exact ⟨s ++ front, back, (wholeRun_append_iff apart).2 (.inr ⟨front, rfl, run⟩)⟩

/-- A text that is a run has no other whole run. -/
theorem wholeRun_replicate_iff :
    WholeRun c count (List.replicate length c) front back ↔
      0 < count ∧ count = length ∧ front = [] ∧ back = [] := by
  constructor
  · intro run
    have shape := run.shape
    rw [List.append_assoc] at shape
    have none : front = [] :=
      Classical.byContradiction fun filled => run.starts (getLast?_of_run shape filled)
    rw [← List.append_assoc] at shape
    have empty : back = [] :=
      Classical.byContradiction fun filled => run.ends (head?_of_run shape filled)
    have counted := run.length_eq
    subst none empty
    rw [List.length_replicate, List.length_nil] at counted
    exact ⟨run.filled, by omega, rfl, rfl⟩
  · rintro ⟨filled, rfl, rfl, rfl⟩
    exact ⟨by simp, filled, nofun, nofun⟩

/-! ### The first run -/

theorem FirstRun.unique {other : Text} (first : t.FirstRun c count content)
    (second : t.FirstRun c count other) : content = other := by
  obtain ⟨back, run⟩ := first.there
  obtain ⟨behind, last⟩ := second.there
  have shorter := first.first other behind last
  have longer := second.first content back run
  have same := last.shape
  rw [run.shape, List.append_assoc, List.append_assoc] at same
  exact (List.append_inj same (Nat.le_antisymm shorter longer)).1

/-- A text without such a run goes before the first one. -/
theorem firstRun_append_iff (apart : Apart c s t) (none : ¬s.HasRun c count) :
    (s ++ t).FirstRun c count content ↔ ∃ inner, content = s ++ inner ∧ t.FirstRun c count inner := by
  have within {front back : Text} : (s ++ t).WholeRun c count front back ↔
      ∃ inner, front = s ++ inner ∧ t.WholeRun c count inner back := by
    rw [wholeRun_append_iff apart]
    exact or_iff_right fun ⟨inner, _, run⟩ => none ⟨front, inner, run⟩
  constructor
  · rintro ⟨⟨back, run⟩, first⟩
    obtain ⟨inner, rfl, here⟩ := within.1 run
    refine ⟨inner, rfl, ⟨back, here⟩, fun front rest other => ?_⟩
    have bound := first (s ++ front) rest (within.2 ⟨front, rfl, other⟩)
    simpa using bound
  · rintro ⟨inner, rfl, ⟨back, run⟩, first⟩
    refine ⟨⟨back, within.2 ⟨inner, rfl, run⟩⟩, fun front rest other => ?_⟩
    obtain ⟨before, rfl, here⟩ := within.1 other
    have bound := first before rest here
    simpa using bound

/-! ### Texts between delimiters -/

/-- A text that is not empty and neither starts nor ends with the character. -/
structure Bare (c : Char) (t : Text) : Prop where
  filled : t ≠ []
  starts : t.head? ≠ some c
  ends : t.getLast? ≠ some c

theorem Bare.apart_left (bare : Bare c s) (t : Text) : Apart c s t :=
  .inl bare.ends

theorem Bare.apart_right (bare : Bare c t) (s : Text) : Apart c s (t ++ back) := by
  refine .inr fun same => bare.starts ?_
  obtain ⟨first, more, rfl⟩ := List.exists_cons_of_ne_nil bare.filled
  exact same

/-- Between two delimiters a text has a run of their length exactly if it has one by itself. -/
theorem delimited_iff (bare : Bare c t) :
    (∀ front back,
      WholeRun c count (List.replicate count c ++ t ++ List.replicate count c) front back →
        front = [] ∨ back = []) ↔ ¬t.HasRun c count := by
  rw [List.append_assoc]
  constructor
  · rintro outer ⟨front, back, run⟩
    have inner : (t ++ List.replicate count c).WholeRun c count front
        (back ++ List.replicate count c) :=
      (wholeRun_append_iff (bare.apart_left _)).2 (.inl ⟨back, rfl, run⟩)
    have whole := (wholeRun_append_iff (bare.apart_right (List.replicate count c))).2
      (.inr ⟨front, rfl, inner⟩)
    have several := Nat.ne_of_gt run.filled
    rcases outer _ _ whole with none | none
    · exact several ((List.replicate_eq_nil_iff c).1 (List.append_eq_nil_iff.1 none).1)
    · exact several ((List.replicate_eq_nil_iff c).1 (List.append_eq_nil_iff.1 none).2)
  · intro none front back run
    rcases (wholeRun_append_iff (bare.apart_right _)).1 run with ⟨_, _, opens⟩ | ⟨inner, _, behind⟩
    · exact .inl (wholeRun_replicate_iff.1 opens).2.2.1
    · rcases (wholeRun_append_iff (bare.apart_left _)).1 behind with ⟨rest, _, within⟩ | ⟨_, _, closes⟩
      · exact absurd ⟨inner, rest, within⟩ none
      · exact .inr (wholeRun_replicate_iff.1 closes).2.2.2

/-- A text without such a run stands before the delimiter that ends it. -/
theorem firstRun_delimiter_iff (bare : Bare c t) (filled : 0 < count) (none : ¬t.HasRun c count) :
    (t ++ List.replicate count c).FirstRun c count content ↔ content = t := by
  have closing : FirstRun c count (List.replicate count c) [] :=
    ⟨⟨[], wholeRun_replicate_iff.2 ⟨filled, rfl, rfl, rfl⟩⟩, fun _ _ _ => Nat.zero_le _⟩
  rw [firstRun_append_iff (bare.apart_left _) none]
  constructor
  · rintro ⟨inner, rfl, first⟩
    rw [first.unique closing, List.append_nil]
  · rintro rfl
    exact ⟨[], (List.append_nil _).symm, closing⟩

end ForumMarkup.Text
