import ForumMarkup.Proofs.Text.Solid

/-!
Contract: trimmed texts.

Main statements: `exists_trim`, a text is its trimmed part between blanks, and
`trim_eq_nil_or`, which starts and ends with characters that are not blank.
-/

set_option autoImplicit false

namespace ForumMarkup
namespace Text

theorem trimEnd_prefix (t : Text) : trimEnd t <+: t := by
  have suffix := List.dropWhile_suffix (l := t.reverse) isBlank
  rw [← List.reverse_prefix, List.reverse_reverse] at suffix
  exact suffix

/-- A trimmed text is empty or ends with a character that is not blank. -/
theorem trimEnd_eq_nil_or (t : Text) :
    trimEnd t = [] ∨ ∃ front c, trimEnd t = front ++ [c] ∧ isBlank c = false := by
  unfold trimEnd
  cases shape : t.reverse.dropWhile isBlank with
  | nil => exact .inl rfl
  | cons c rest =>
      right
      have solid := List.head?_dropWhile_not isBlank t.reverse
      rw [shape] at solid
      exact ⟨rest.reverse, c, List.reverse_cons, by simpa using solid⟩

theorem trimEnd_append_of_solid {front : Text} {c : Char} (solid : isBlank c = false)
    (blanks : Text) (blank : ∀ d ∈ blanks, isBlank d = true) :
    trimEnd (front ++ c :: blanks) = front ++ [c] := by
  unfold trimEnd
  rw [List.reverse_append, List.reverse_cons, List.append_assoc,
    List.dropWhile_append_of_pos fun d member => blank d (List.mem_reverse.1 member)]
  rw [List.singleton_append, List.dropWhile_cons_of_neg (by simp [solid])]
  simp

theorem trimEnd_concat_of_blank {c : Char} (blank : isBlank c = true) (t : Text) :
    trimEnd (t ++ [c]) = trimEnd t := by
  unfold trimEnd
  rw [List.reverse_append, List.reverse_singleton, List.singleton_append,
    List.dropWhile_cons_of_pos blank]

/-- A text is its part up to the last character that is not blank, and blanks. -/
theorem exists_trimEnd (t : Text) : ∃ after, t = trimEnd t ++ after ∧ allBlank after = true := by
  refine ⟨(t.reverse.takeWhile isBlank).reverse, ?_, ?_⟩
  · unfold trimEnd
    rw [← List.reverse_append, List.takeWhile_append_dropWhile, List.reverse_reverse]
  · unfold allBlank
    rw [List.all_reverse]
    exact List.all_takeWhile

/-- Blanks are cut off behind the last character that is not blank, whatever is before. -/
theorem trimEnd_append {back : Text} (filled : trimEnd back ≠ []) (front : Text) :
    trimEnd (front ++ back) = front ++ trimEnd back := by
  unfold trimEnd at filled ⊢
  rw [List.reverse_append, List.dropWhile_append, if_neg (by simpa using filled),
    List.reverse_append, List.reverse_reverse]

theorem trimEnd_append_of_allBlank (t : Text) {blanks : Text} (blank : allBlank blanks = true) :
    trimEnd (t ++ blanks) = trimEnd t := by
  unfold trimEnd
  rw [List.reverse_append, List.dropWhile_append_of_pos]
  intro c member
  exact List.all_eq_true.1 blank c (List.mem_reverse.1 member)

theorem trimEnd_eq_nil_iff {t : Text} : trimEnd t = [] ↔ allBlank t = true := by
  constructor
  · intro none
    obtain ⟨after, shape, blank⟩ := exists_trimEnd t
    rw [shape, none]
    exact blank
  · exact fun blank => trimEnd_append_of_allBlank [] blank

theorem trimEnd_trimEnd (t : Text) : trimEnd (trimEnd t) = trimEnd t := by
  obtain ⟨after, shape, blank⟩ := exists_trimEnd t
  exact (trimEnd_append_of_allBlank _ blank).symm.trans (congrArg trimEnd shape.symm)

theorem trim_cons_of_blank {c : Char} (blank : isBlank c = true) (t : Text) :
    trim (c :: t) = trim t := by
  unfold trim trimStart
  rw [List.dropWhile_cons_of_pos blank]

theorem trim_concat_of_blank {c : Char} (blank : isBlank c = true) (t : Text) :
    trim (t ++ [c]) = trim t := by
  unfold trim trimStart
  rw [List.dropWhile_append]
  split
  · next empty =>
      rw [List.isEmpty_iff.1 empty, List.dropWhile_cons_of_pos blank]
      rfl
  · exact trimEnd_concat_of_blank blank _

/-- A text is its trimmed part between blanks. -/
theorem exists_trim (t : Text) :
    ∃ before after, t = before ++ (trim t ++ after) ∧
      allBlank before = true ∧ allBlank after = true := by
  have start : t = t.takeWhile isBlank ++ trimStart t :=
    List.takeWhile_append_dropWhile.symm
  have finish : trimStart t
      = trim t ++ ((trimStart t).reverse.takeWhile isBlank).reverse := by
    unfold trim trimEnd
    rw [← List.reverse_append, List.takeWhile_append_dropWhile, List.reverse_reverse]
  refine ⟨t.takeWhile isBlank, ((trimStart t).reverse.takeWhile isBlank).reverse, ?_, ?_, ?_⟩
  · rw [← finish, ← start]
  · exact List.all_takeWhile
  · unfold allBlank
    rw [List.all_reverse]
    exact List.all_takeWhile

/-- A trimmed text is empty or starts and ends with characters that are not blank. -/
theorem trim_eq_nil_or (t : Text) :
    trim t = [] ∨ (∃ c rest, trim t = c :: rest ∧ isBlank c = false) ∧
      ∃ front d, trim t = front ++ [d] ∧ isBlank d = false := by
  rcases trimEnd_eq_nil_or (trimStart t) with none | finish
  · exact .inl none
  · right
    refine ⟨?_, finish⟩
    obtain ⟨front, d, shape, _⟩ := finish
    obtain ⟨c, rest, start⟩ := List.exists_cons_of_ne_nil
      (show trim t ≠ [] by unfold trim; rw [shape]; simp)
    refine ⟨c, rest, start, ?_⟩
    obtain ⟨more, whole⟩ := trimEnd_prefix (trimStart t)
    have head : (trimStart t).head? = some c := by
      rw [← whole]
      show (trim t ++ more).head? = some c
      rw [start]
      rfl
    have solid := List.head?_dropWhile_not isBlank t
    unfold trimStart at head
    rw [head] at solid
    simpa using solid

theorem trim_trim (t : Text) : trim (trim t) = trim t := by
  rcases trim_eq_nil_or t with none | ⟨⟨c, rest, start, solidStart⟩, front, d, finish, solidEnd⟩
  · rw [none]
    rfl
  · have fixed : trimStart (trim t) = trim t := by
      unfold trimStart
      rw [start, List.dropWhile_cons_of_neg (by simp [solidStart])]
    unfold trim at fixed ⊢
    rw [fixed]
    unfold trim at finish
    rw [finish]
    exact trimEnd_append_of_solid solidEnd [] (fun _ none => nomatch none)

theorem solid_of_allBlank {t : Text} (blank : allBlank t = true) : solid t = [] :=
  solid_eq_nil_iff.2 blank

theorem solid_trim (t : Text) : solid (trim t) = solid t := by
  obtain ⟨before, after, shape, blankBefore, blankAfter⟩ := exists_trim t
  have parts := congrArg solid shape
  rw [solid_append, solid_append, solid_of_allBlank blankBefore,
    solid_of_allBlank blankAfter, List.append_nil, List.nil_append] at parts
  exact parts.symm

end Text
end ForumMarkup
