import ForumMarkup.Text.Blank

/-!
Contract: a text without one blank at each of its ends.

Owns:
- `Text.core`, such a text, and the blanks that are cut off;
- `Text.Clings`, texts that neither start nor end with a blank, and `Text.SingleEdges`,
  texts with at most one blank at each end.

Main statement: `clings_core_iff`.
-/

set_option autoImplicit false

namespace ForumMarkup.Text

/-- The blank that a text starts with, when it does. -/
def leadingBlank : Text → Text
  | [] => []
  | c :: _ => if isBlank c then [c] else []

def dropLeadingBlank : Text → Text
  | [] => []
  | c :: rest => if isBlank c then rest else c :: rest

def trailingBlank (t : Text) : Text :=
  leadingBlank t.reverse

def dropTrailingBlank (t : Text) : Text :=
  (dropLeadingBlank t.reverse).reverse

/-- The text without one blank at each end. -/
def core (t : Text) : Text :=
  dropTrailingBlank (dropLeadingBlank t)

/-- The text neither starts nor ends with a blank. -/
structure Clings (t : Text) : Prop where
  start : ∀ c ∈ t.head?, isBlank c = false
  finish : ∀ c ∈ t.getLast?, isBlank c = false

/-- At most one blank stands at each end of the text. -/
structure SingleEdges (t : Text) : Prop where
  start : ∀ c d rest, t = c :: d :: rest → isBlank c = true → isBlank d = false
  finish : ∀ front c d, t = front ++ [c, d] → isBlank d = true → isBlank c = false

/-- A text that starts and ends with characters that are not blank is trimmed. -/
theorem Clings.trim_eq {t : Text} (clings : t.Clings) : trim t = t := by
  have trimmed {s : Text} (start : ∀ c ∈ s.head?, isBlank c = false) :
      s.dropWhile isBlank = s := by
    cases s with
    | nil => rfl
    | cons c rest => rw [List.dropWhile_cons_of_neg (by simp [start c rfl])]
  have finish := clings.finish
  rw [List.getLast?_eq_head?_reverse] at finish
  rw [trim, trimStart, trimmed clings.start, trimEnd, trimmed finish, List.reverse_reverse]

theorem clings_of_solid {t : Text} (solid : ∀ c ∈ t, isBlank c = false) : t.Clings where
  start c first := solid c (List.mem_of_mem_head? first)
  finish c last := solid c (List.mem_of_mem_getLast? last)

theorem Clings.append {front back : Text} (first : front.Clings) (second : back.Clings) :
    (front ++ back).Clings where
  start := by
    cases front with
    | nil => exact second.start
    | cons c rest => exact first.start
  finish := by
    intro c last
    rw [List.getLast?_append] at last
    cases shape : back.getLast? with
    | none =>
        rw [shape, Option.none_or] at last
        exact first.finish c last
    | some d =>
        rw [shape, Option.some_or] at last
        exact second.finish c (shape.trans last)

theorem leadingBlank_append (t : Text) : leadingBlank t ++ dropLeadingBlank t = t := by
  cases t with
  | nil => rfl
  | cons c rest =>
      rw [leadingBlank, dropLeadingBlank]
      split <;> rfl

theorem append_trailingBlank (t : Text) : dropTrailingBlank t ++ trailingBlank t = t := by
  have whole := congrArg List.reverse (leadingBlank_append t.reverse)
  rw [List.reverse_append, List.reverse_reverse] at whole
  have same : (leadingBlank t.reverse).reverse = leadingBlank t.reverse := by
    cases t.reverse with
    | nil => rfl
    | cons c rest =>
        rw [leadingBlank]
        split <;> rfl
  rw [same] at whole
  exact whole

/-- At the start at most one blank is cut off, and none only where there is none. -/
theorem leadingBlank_cases (t : Text) :
    (leadingBlank t = [] ∧ ∀ c ∈ t.head?, isBlank c = false)
      ∨ ∃ c, leadingBlank t = [c] ∧ isBlank c = true := by
  cases t with
  | nil => exact .inl ⟨rfl, nofun⟩
  | cons c rest =>
      rw [leadingBlank]
      cases blank : isBlank c with
      | true => exact .inr ⟨c, rfl, blank⟩
      | false =>
          refine .inl ⟨rfl, ?_⟩
          rintro _ ⟨⟩
          exact blank

theorem trailingBlank_cases (t : Text) :
    (trailingBlank t = [] ∧ ∀ c ∈ t.getLast?, isBlank c = false)
      ∨ ∃ c, trailingBlank t = [c] ∧ isBlank c = true := by
  have cases := leadingBlank_cases t.reverse
  rw [List.head?_reverse] at cases
  exact cases

/-- A text is its core with the blanks that are cut off. -/
theorem core_parts (t : Text) :
    leadingBlank t ++ core t ++ trailingBlank (dropLeadingBlank t) = t := by
  rw [List.append_assoc, core, append_trailingBlank, leadingBlank_append]

/-- A text that is not blank keeps its visible part. -/
theorem core_ne_nil {t : Text} (visible : allBlank t = false) : core t ≠ [] := by
  intro empty
  have parts := core_parts t
  rw [empty, List.append_nil] at parts
  have blankAll : allBlank (leadingBlank t ++ trailingBlank (dropLeadingBlank t)) = true := by
    rw [allBlank, List.all_append, Bool.and_eq_true]
    constructor
    · rcases leadingBlank_cases t with ⟨none, _⟩ | ⟨c, one, blank⟩
      · rw [none]
        rfl
      · rw [one]
        simp [blank]
    · rcases trailingBlank_cases (dropLeadingBlank t) with ⟨none, _⟩ | ⟨c, one, blank⟩
      · rw [none]
        rfl
      · rw [one]
        simp [blank]
  rw [parts, visible] at blankAll
  cases blankAll

/-- A blank in front of the core stands behind a blank. -/
theorem core_start_iff {t : Text} (visible : allBlank t = false) :
    (∀ c ∈ (core t).head?, isBlank c = false)
      ↔ ∀ c d rest, t = c :: d :: rest → isBlank c = true → isBlank d = false := by
  obtain ⟨first, more, filled⟩ := List.exists_cons_of_ne_nil (core_ne_nil visible)
  have parts := core_parts t
  rw [filled] at parts ⊢
  rcases leadingBlank_cases t with ⟨none, solid⟩ | ⟨blank, one, isBlank⟩
  · rw [none] at parts
    have here : t.head? = some first := by
      rw [← parts]
      rfl
    refine ⟨fun _ c d rest shape blank => ?_, fun _ c same => ?_⟩
    · rw [solid c (by rw [shape]; rfl)] at blank
      cases blank
    · exact solid c (here.trans same)
  · rw [one] at parts
    refine ⟨fun clings c d rest shape _ => ?_, fun single c same => ?_⟩
    · rw [← parts] at shape
      cases shape
      exact clings first rfl
    · cases same
      exact single blank first _ parts.symm isBlank

/-- A blank at the end of the core stands before a blank. -/
theorem core_finish_iff {t : Text} (visible : allBlank t = false) :
    (∀ c ∈ (core t).getLast?, isBlank c = false)
      ↔ ∀ front c d, t = front ++ [c, d] → isBlank d = true → isBlank c = false := by
  obtain ⟨front, last, filled⟩ :=
    (List.eq_nil_or_concat (core t)).resolve_left (core_ne_nil visible)
  rw [List.concat_eq_append] at filled
  have parts := core_parts t
  have ends : (core t).getLast? = some last := by rw [filled, List.getLast?_concat]
  rw [ends]
  rcases trailingBlank_cases (dropLeadingBlank t) with ⟨none, solid⟩ | ⟨blank, one, isBlank⟩
  · have whole := append_trailingBlank (dropLeadingBlank t)
    rw [none, List.append_nil] at whole
    have solidLast : Text.isBlank last = false := by
      apply solid
      rw [← whole]
      exact ends
    rw [none, List.append_nil, filled, ← List.append_assoc] at parts
    refine ⟨fun _ before c d shape blank => ?_, fun _ c same => ?_⟩
    · rw [← parts, List.append_cons before c] at shape
      rw [← List.singleton_inj.1 (List.append_inj' shape rfl).2, solidLast] at blank
      cases blank
    · cases same
      exact solidLast
  · rw [one, filled] at parts
    refine ⟨fun clings before c d shape _ => ?_, fun single c same => ?_⟩
    · rw [← parts, List.append_cons before c] at shape
      have inner := (List.append_inj' shape rfl).1
      rw [← List.append_assoc] at inner
      rw [← List.singleton_inj.1 (List.append_inj' inner rfl).2]
      exact clings last rfl
    · cases same
      exact single (leadingBlank t ++ front) last blank (parts.symm.trans (by simp)) isBlank

/-- The core of a text clings exactly if there is at most one blank at each end. -/
theorem clings_core_iff {t : Text} (visible : allBlank t = false) :
    (core t).Clings ↔ t.SingleEdges := by
  have start := core_start_iff visible
  have finish := core_finish_iff visible
  exact ⟨fun clings => ⟨start.1 clings.start, finish.1 clings.finish⟩,
    fun single => ⟨start.2 single.start, finish.2 single.finish⟩⟩

end ForumMarkup.Text
