import ForumMarkup.Proofs.Text.Lines
import ForumMarkup.Proofs.Text.Trim

/-!
Contract: lines of spaces and tabs, and a text without them.

Owns:
- `emptied`, a line that is empty when it is only spaces and tabs, and `emptySpaced`,
  the text with such lines made empty;
- `HidesBreaks`, lines of which one of spaces and tabs stands between two that show
  something, with nothing but such lines and empty ones behind it up to the second.

The relations on lists of lines have one law for a list with one line more at its start.
-/

set_option autoImplicit false

namespace ForumMarkup
namespace Text

def isSpaceOrTab (c : Char) : Bool :=
  c == ' ' || c == '\t'

/-- The line, but no line of spaces and tabs. -/
def emptied (line : Text) : Text :=
  if line.all isSpaceOrTab then [] else line

/-- The text with its lines of spaces and tabs made empty. -/
def emptySpaced (t : Text) : Text :=
  joinLines ((lines t).map emptied)

/-- The line holds spaces and tabs, and nothing else. -/
def IsSpaced (line : Text) : Prop :=
  line ≠ [] ∧ emptied line = []

/-- Up to the next line that shows something there are only empty lines and lines of
spaces and tabs. -/
def Reaches (rows : List Text) : Prop :=
  ∃ gap shown after, rows = gap ++ shown :: after ∧ (∀ row ∈ gap, emptied row = []) ∧
    allBlank shown = false

/-- A line of spaces and tabs reaches the next line that shows something. -/
def Hides (rows : List Text) : Prop :=
  ∃ before spaced rest, rows = before ++ spaced :: rest ∧ IsSpaced spaced ∧ Reaches rest

/-- The same behind a line that shows something. -/
def HidesBreaks (rows : List Text) : Prop :=
  ∃ before shown rest, rows = before ++ shown :: rest ∧ allBlank shown = false ∧ Hides rest

/-! ### Emptied lines -/

theorem emptied_eq_or (line : Text) : emptied line = line ∨ emptied line = [] := by
  unfold emptied
  split
  · exact .inr rfl
  · exact .inl rfl

theorem allBlank_of_emptied {line : Text} (empty : emptied line = []) : allBlank line = true := by
  unfold emptied at empty
  split at empty
  · next spaced =>
      refine List.all_eq_true.2 fun c member => ?_
      have known := List.all_eq_true.1 spaced c member
      simp only [isSpaceOrTab, Bool.or_eq_true, beq_iff_eq] at known
      rcases known with rfl | rfl <;> decide
  · rw [empty]
    rfl

theorem emptied_of_shown {line : Text} (shown : allBlank line = false) : emptied line = line := by
  rcases emptied_eq_or line with same | empty
  · exact same
  · rw [allBlank_of_emptied empty] at shown
    cases shown

theorem allBlank_emptied (line : Text) : allBlank (emptied line) = allBlank line := by
  rcases emptied_eq_or line with same | empty
  · rw [same]
  · rw [empty, allBlank_of_emptied empty]
    rfl

theorem lines_emptySpaced (t : Text) : lines (emptySpaced t) = (lines t).map emptied := by
  refine lines_joinLines (by simp [lines_ne_nil]) ?_
  rintro row member
  obtain ⟨line, inText, rfl⟩ := List.mem_map.1 member
  rcases emptied_eq_or line with same | empty
  · rw [same]
    exact lines_feed_free t line inText
  · rw [empty]
    exact List.not_mem_nil

/-- Emptying lines brings in no characters but line feeds. -/
theorem eq_feed_or_mem_of_mem_emptySpaced {t : Text} {c : Char} (member : c ∈ emptySpaced t) :
    c = '\n' ∨ c ∈ t := by
  refine (eq_feed_or_of_mem_joinLines member).imp_right ?_
  rintro ⟨row, inRows, inRow⟩
  obtain ⟨line, inLines, rfl⟩ := List.mem_map.1 inRows
  rcases emptied_eq_or line with same | empty
  · rw [same] at inRow
    exact mem_of_mem_lines inLines inRow
  · rw [empty] at inRow
    cases inRow

/-! ### One line more -/

theorem not_reaches_nil : ¬Reaches [] := by
  rintro ⟨gap, shown, after, shape, _⟩
  cases gap <;> cases shape

theorem reaches_cons_iff {line : Text} {more : List Text} :
    Reaches (line :: more) ↔ allBlank line = false ∨ (emptied line = [] ∧ Reaches more) := by
  constructor
  · rintro ⟨gap, shown, after, shape, empty, visible⟩
    cases gap with
    | nil =>
        obtain ⟨rfl, rfl⟩ := List.cons.inj shape
        exact .inl visible
    | cons row others =>
        obtain ⟨rfl, rfl⟩ := List.cons.inj shape
        obtain ⟨emptyRow, emptyOthers⟩ := List.forall_mem_cons.1 empty
        exact .inr ⟨emptyRow, others, shown, after, rfl, emptyOthers, visible⟩
  · rintro (visible | ⟨emptyLine, gap, shown, after, rfl, empty, visible⟩)
    · exact ⟨[], line, more, rfl, nofun, visible⟩
    · exact ⟨line :: gap, shown, after, rfl, List.forall_mem_cons.2 ⟨emptyLine, empty⟩, visible⟩

theorem not_hides_nil : ¬Hides [] := by
  rintro ⟨before, spaced, rest, shape, _⟩
  cases before <;> cases shape

theorem hides_cons_iff {line : Text} {more : List Text} :
    Hides (line :: more) ↔ (IsSpaced line ∧ Reaches more) ∨ Hides more := by
  constructor
  · rintro ⟨before, spaced, rest, shape, isSpaced, reaches⟩
    cases before with
    | nil =>
        obtain ⟨rfl, rfl⟩ := List.cons.inj shape
        exact .inl ⟨isSpaced, reaches⟩
    | cons row others =>
        obtain ⟨rfl, rfl⟩ := List.cons.inj shape
        exact .inr ⟨others, spaced, rest, rfl, isSpaced, reaches⟩
  · rintro (⟨isSpaced, reaches⟩ | ⟨before, spaced, rest, rfl, isSpaced, reaches⟩)
    · exact ⟨[], line, more, rfl, isSpaced, reaches⟩
    · exact ⟨line :: before, spaced, rest, rfl, isSpaced, reaches⟩

theorem not_hidesBreaks_nil : ¬HidesBreaks [] := by
  rintro ⟨before, shown, rest, shape, _⟩
  cases before <;> cases shape

theorem Hides.of_hidesBreaks {rows : List Text} (hides : HidesBreaks rows) : Hides rows := by
  obtain ⟨front, shown, rest, rfl, _, before, spaced, behind, rfl, isSpaced, reaches⟩ := hides
  exact ⟨front ++ shown :: before, spaced, behind, by simp, isSpaced, reaches⟩

theorem hidesBreaks_cons_of_shown {line : Text} (visible : allBlank line = false)
    {more : List Text} : HidesBreaks (line :: more) ↔ Hides more := by
  constructor
  · rintro ⟨before, shown, rest, shape, isShown, hides⟩
    cases before with
    | nil =>
        obtain ⟨rfl, rfl⟩ := List.cons.inj shape
        exact hides
    | cons row others =>
        obtain ⟨rfl, rfl⟩ := List.cons.inj shape
        exact Hides.of_hidesBreaks ⟨others, shown, rest, rfl, isShown, hides⟩
  · exact fun hides => ⟨[], line, more, rfl, visible, hides⟩

theorem hidesBreaks_cons_of_blank {line : Text} (blank : allBlank line = true)
    {more : List Text} : HidesBreaks (line :: more) ↔ HidesBreaks more := by
  constructor
  · rintro ⟨before, shown, rest, shape, isShown, hides⟩
    cases before with
    | nil =>
        obtain ⟨rfl, rfl⟩ := List.cons.inj shape
        rw [blank] at isShown
        cases isShown
    | cons row others =>
        obtain ⟨rfl, rfl⟩ := List.cons.inj shape
        exact ⟨others, shown, rest, rfl, isShown, hides⟩
  · rintro ⟨before, shown, rest, rfl, isShown, hides⟩
    exact ⟨line :: before, shown, rest, rfl, isShown, hides⟩

instance IsSpaced.decidable (line : Text) : Decidable (IsSpaced line) :=
  inferInstanceAs (Decidable (_ ∧ _))

instance Reaches.decidable : (rows : List Text) → Decidable (Reaches rows)
  | [] => .isFalse not_reaches_nil
  | _ :: more =>
      have := Reaches.decidable more
      decidable_of_iff _ reaches_cons_iff.symm

instance Hides.decidable : (rows : List Text) → Decidable (Hides rows)
  | [] => .isFalse not_hides_nil
  | _ :: more =>
      have := Hides.decidable more
      decidable_of_iff _ hides_cons_iff.symm

instance HidesBreaks.decidable : (rows : List Text) → Decidable (HidesBreaks rows)
  | [] => .isFalse not_hidesBreaks_nil
  | line :: more =>
      have := HidesBreaks.decidable more
      match blank : allBlank line with
      | true => decidable_of_iff _ (hidesBreaks_cons_of_blank blank).symm
      | false => decidable_of_iff _ (hidesBreaks_cons_of_shown blank).symm

end Text
end ForumMarkup
