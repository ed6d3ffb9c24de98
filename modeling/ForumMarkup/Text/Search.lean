import ForumMarkup.Text.Blank

/-!
Contract: finding a fixed text inside another one.

Owns:
- `Text.after?`, the rest of a text behind a given beginning, and
  `Text.afterFold?`, the same up to the case of ASCII letters;
- `Text.cut?`, the text before the first place where something is recognised;
- `Text.lines`, the pieces between line feeds.

Main statements: a cut loses nothing and finds the first place, and joining the
lines of a text gives the text back.
-/

set_option autoImplicit false

namespace ForumMarkup
namespace Text

/-- What follows `beginning` in a text that starts with it. -/
def after? : (beginning : Text) → Text → Option Text
  | [], t => some t
  | _ :: _, [] => none
  | b :: bs, c :: cs => if b = c then after? bs cs else none

/-- What follows a beginning that spells `beginning`, given in lower case, up to
the case of ASCII letters. -/
def afterFold? : (beginning : Text) → Text → Option Text
  | [], t => some t
  | _ :: _, [] => none
  | b :: bs, c :: cs => if b = c.toLower then afterFold? bs cs else none

def startsWith (t beginning : Text) : Bool :=
  (after? beginning t).isSome

/-- Cuts a text at the first place from which `found` recognises the rest: the
text before that place, and what was recognised there. -/
def cut? {α : Type} (found : Text → Option α) : Text → Option (Text × α)
  | [] => (found []).map fun result => ([], result)
  | c :: rest =>
      match found (c :: rest) with
      | some result => some ([], result)
      | none => (cut? found rest).map fun cut => (c :: cut.1, cut.2)

/-- Cuts a text at the first occurrence of `needle`: the text before it and the
text after it. -/
def cutAt? (needle t : Text) : Option (Text × Text) :=
  cut? (after? needle) t

/-- The pieces of a text between its line feeds, at least one. -/
def lines : Text → List Text
  | [] => [[]]
  | c :: rest =>
      if c = '\n' then [] :: lines rest
      else
        match lines rest with
        | [] => [[c]]
        | line :: more => (c :: line) :: more

def joinLines : List Text → Text
  | [] => []
  | [line] => line
  | line :: more => line ++ '\n' :: joinLines more

theorem eq_append_of_after? {beginning t rest : Text}
    (found : after? beginning t = some rest) : t = beginning ++ rest := by
  fun_induction after? beginning t with
  | case1 t => simpa using found
  | case2 => simp at found
  | case3 bs c cs ih => simp [ih found]
  | case4 => simp at found

theorem after?_append (beginning rest : Text) :
    after? beginning (beginning ++ rest) = some rest := by
  induction beginning with
  | nil => rfl
  | cons b bs ih => simp [after?, ih]

theorem take_append_of_afterFold? {beginning t rest : Text}
    (found : afterFold? beginning t = some rest) : t.take beginning.length ++ rest = t := by
  fun_induction afterFold? beginning t with
  | case1 t => simpa using found.symm
  | case2 => simp at found
  | case3 bs c cs ih => simp [ih found]
  | case4 => simp at found

/-- A cut keeps the text before the place it finds, and that place is where the
result was recognised. -/
theorem exists_of_cut? {α : Type} {found : Text → Option α} {t before : Text} {result : α}
    (cut : cut? found t = some (before, result)) :
    ∃ rest, t = before ++ rest ∧ found rest = some result := by
  induction t generalizing before with
  | nil =>
      simp only [cut?, Option.map_eq_some_iff, Prod.mk.injEq] at cut
      obtain ⟨_, here, rfl, rfl⟩ := cut
      exact ⟨[], rfl, here⟩
  | cons c rest ih =>
      rw [cut?] at cut
      split at cut
      · next here =>
          simp only [Option.some.injEq, Prod.mk.injEq] at cut
          obtain ⟨rfl, rfl⟩ := cut
          exact ⟨c :: rest, rfl, here⟩
      · simp only [Option.map_eq_some_iff, Prod.mk.injEq] at cut
        obtain ⟨⟨later, _⟩, there, rfl, rfl⟩ := cut
        obtain ⟨tail, rfl, recognised⟩ := ih there
        exact ⟨tail, rfl, recognised⟩

theorem lines_ne_nil (t : Text) : lines t ≠ [] := by
  induction t with
  | nil => simp [lines]
  | cons c rest ih =>
      rw [lines]
      split
      · simp
      · split <;> simp

/-- Cutting a text into lines and joining them again changes nothing. -/
theorem joinLines_lines (t : Text) : joinLines (lines t) = t := by
  induction t with
  | nil => rfl
  | cons c rest ih =>
      rw [lines]
      cases pieces : lines rest with
      | nil => exact absurd pieces (lines_ne_nil rest)
      | cons line more =>
          rw [pieces] at ih
          split
          · next feed =>
              rw [joinLines, ih, feed, List.nil_append]
              simp
          · cases more with
            | nil => simpa [joinLines] using ih
            | cons next others => simpa [joinLines] using ih

end Text
end ForumMarkup
