import ForumMarkup.Markdown.BreakRun

/-!
Contract: what is removed from the end of a text that is being written.

Owns: `StripStep`, one removal: a break, a line of the line mark, or a blank.

Main statements: `stripBreaks_induction`, a property that no removal destroys
outlasts the removal of all breaks, and `head?_stripBreaks`.

Buffers hold the newest character first; the statements read them forwards.
-/

set_option autoImplicit false

namespace ForumMarkup.Markdown

/-- One removal at the end of a text; `t` is what is left of `t ++ removed`. -/
inductive StripStep (mark t : Text) : (removed : Text) → Prop where
  | unit (unit : BreakUnit) : StripStep mark t unit.text
  | line (line : Text) (stands : t.getLast? = some '\n') (single : '\n' ∉ line)
      (isMark : line = mark ∨ line = Text.trimEnd mark) : StripStep mark t line
  | blank (c : Char) (blank : Text.isBlank c = true) : StripStep mark t [c]

variable {mark : Text}

theorem step_of_stripUnit? {buffer rest : Buffer} (found : stripUnit? buffer = some rest) :
    ∃ removed, buffer.reverse = rest.reverse ++ removed ∧
      StripStep mark rest.reverse removed := by
  unfold stripUnit? at found
  split at found
  · cases found
    exact ⟨_, by simp [BreakUnit.text], .unit .html⟩
  · cases found
    exact ⟨_, by simp [BreakUnit.text], .unit .hard⟩
  · cases found
    exact ⟨_, by simp [BreakUnit.text], .unit .soft⟩
  · cases found

/-- The removal of a line that holds only the mark. -/
theorem step_of_stripMarkLine? {buffer rest : Buffer}
    (found : stripMarkLine? mark buffer = some rest) :
    ∃ removed, buffer.reverse = rest.reverse ++ removed ∧
      StripStep mark rest.reverse removed := by
  simp only [stripMarkLine?, Option.ite_none_right_eq_some, Option.some.injEq] at found
  obtain ⟨⟨filled, _, isMark⟩, rfl⟩ := found
  refine ⟨(buffer.takeWhile isInLine).reverse, ?_, .line _ ?_ ?_ isMark⟩
  · rw [← List.reverse_append, List.takeWhile_append_dropWhile]
  · obtain ⟨c, others, shape⟩ := List.exists_cons_of_ne_nil filled
    have stopped := List.head?_dropWhile_not isInLine buffer
    rw [shape] at stopped
    rw [List.getLast?_reverse, shape, List.head?_cons, Option.some.injEq]
    simpa [isInLine] using stopped
  · intro feed
    have inLine := List.all_eq_true.1 (List.all_takeWhile (p := isInLine) (l := buffer)) '\n'
      (List.mem_reverse.1 feed)
    cases inLine

theorem step_of_stripBlank? {buffer rest : Buffer} (found : stripBlank? buffer = some rest) :
    ∃ removed, buffer.reverse = rest.reverse ++ removed ∧
      StripStep mark rest.reverse removed := by
  cases buffer with
  | nil => cases found
  | cons c others =>
      simp only [stripBlank?, Option.ite_none_right_eq_some, Option.some.injEq] at found
      obtain ⟨blank, rfl⟩ := found
      exact ⟨[c], List.reverse_cons, .blank c blank⟩

theorem step_of_stripLast? {buffer rest : Buffer} (found : stripLast? mark buffer = some rest) :
    ∃ removed, buffer.reverse = rest.reverse ++ removed ∧
      StripStep mark rest.reverse removed := by
  simp only [stripLast?, Option.or_eq_some_iff] at found
  rcases found with (unit | ⟨_, line⟩) | ⟨_, blank⟩
  · exact step_of_stripUnit? unit
  · exact step_of_stripMarkLine? line
  · exact step_of_stripBlank? blank

theorem stripBreaks_of_some {buffer rest : Buffer} (found : stripLast? mark buffer = some rest) :
    stripBreaks mark buffer = stripBreaks mark rest := by
  rw [stripBreaks]
  split
  · next other same =>
      rw [found, Option.some.injEq] at same
      rw [same]
  · next none =>
      rw [found] at none
      cases none

theorem stripBreaks_of_none {buffer : Buffer} (none : stripLast? mark buffer = none) :
    stripBreaks mark buffer = buffer := by
  rw [stripBreaks]
  split
  · next rest found =>
      rw [none] at found
      cases found
  · rfl

/-- A break goes in its longest spelling, whatever the line mark is. -/
theorem stripBreaks_of_stripUnit? {buffer rest : Buffer} (unit : stripUnit? buffer = some rest) :
    stripBreaks mark buffer = stripBreaks mark rest := by
  refine stripBreaks_of_some ?_
  rw [stripLast?, unit]
  rfl

theorem countBreaks_of_unit {buffer rest : Buffer} (unit : stripUnit? buffer = some rest) :
    countBreaks mark buffer = countBreaks mark rest + 1 := by
  rw [countBreaks]
  split
  · next other same =>
      rw [unit, Option.some.injEq] at same
      rw [same]
  · next none =>
      rw [unit] at none
      cases none

/-- Lines that hold only the mark are passed over and not counted. -/
theorem countBreaks_of_markLine {buffer rest : Buffer} (noUnit : stripUnit? buffer = none)
    (line : stripMarkLine? mark buffer = some rest) :
    countBreaks mark buffer = countBreaks mark rest := by
  rw [countBreaks]
  split
  · next other unit =>
      rw [noUnit] at unit
      cases unit
  · split
    · next other same =>
        rw [line, Option.some.injEq] at same
        rw [same]
    · next none =>
        rw [line] at none
        cases none

theorem countBreaks_of_none {buffer : Buffer} (noUnit : stripUnit? buffer = none)
    (noLine : stripMarkLine? mark buffer = none) : countBreaks mark buffer = 0 := by
  rw [countBreaks]
  split
  · next rest unit =>
      rw [noUnit] at unit
      cases unit
  · split
    · next rest line =>
        rw [noLine] at line
        cases line
    · rfl

/-- What no removal destroys outlasts all of them. -/
theorem stripBreaks_induction {p : Text → Prop}
    (outlasts : ∀ {t removed}, StripStep mark t removed → p (t ++ removed) → p t)
    {buffer : Buffer} (before : p buffer.reverse) : p (stripBreaks mark buffer).reverse := by
  fun_induction stripBreaks mark buffer with
  | case1 buffer rest found _ ih =>
      obtain ⟨removed, shape, step⟩ := step_of_stripLast? found
      rw [shape] at before
      exact ih (outlasts step before)
  | case2 buffer none => exact before

theorem stripBreaks_prefix (buffer : Buffer) :
    (stripBreaks mark buffer).reverse <+: buffer.reverse :=
  stripBreaks_induction (p := (· <+: buffer.reverse))
    (fun _ whole => (List.prefix_append _ _).trans whole) List.prefix_rfl

theorem stripLast?_stripBreaks (mark : Text) (buffer : Buffer) :
    stripLast? mark (stripBreaks mark buffer) = none := by
  fun_induction stripBreaks mark buffer with
  | case1 buffer rest found _ ih => exact ih
  | case2 buffer none => exact none

theorem stripBreaks_length_le (mark : Text) (buffer : Buffer) :
    (stripBreaks mark buffer).length ≤ buffer.length := by
  have kept : (stripBreaks mark buffer).reverse <+: buffer.reverse := stripBreaks_prefix buffer
  simpa using kept.length_le

/-- A stripped buffer does not end with a line feed. -/
theorem head?_stripBreaks (buffer : Buffer) : (stripBreaks mark buffer).head? ≠ some '\n' := by
  fun_induction stripBreaks mark buffer with
  | case1 buffer rest found _ ih => exact ih
  | case2 buffer none =>
      intro feed
      obtain ⟨rest, shape⟩ := List.head?_eq_some_iff.1 feed
      simp only [stripLast?, Option.or_eq_none_iff] at none
      have unit := none.1.1
      rw [shape] at unit
      unfold stripUnit? at unit
      split at unit
      all_goals simp_all

/-- Where breaks are missing, the text is stripped and a whole run written behind
it; nothing else changes. -/
theorem addBreaks_of_stripped {p : Text → Prop} {options : Options} {kind : BreakKind}
    {required : Nat} {buffer : Buffer} (before : p buffer.reverse)
    (stripped : p (stripBreaks mark buffer).reverse)
    (grows : ∀ {t count}, t ≠ [] → t.getLast? ≠ some '\n' → p t →
      p (t ++ breakRun options kind mark count)) :
    p (addBreaks options kind mark required buffer).reverse := by
  have ends : (stripBreaks mark buffer).head? ≠ some '\n' := head?_stripBreaks buffer
  unfold addBreaks
  dsimp only
  split
  · exact before
  · split
    · exact before
    · split
      · next none =>
          rw [none] at stripped
          exact stripped
      · next kept filled =>
          rw [List.reverse_append, List.reverse_reverse]
          refine grows (by simpa using filled) ?_ stripped
          rw [List.getLast?_reverse]
          exact ends

theorem addBreaks_induction {p : Text → Prop} {options : Options} {kind : BreakKind}
    {required : Nat}
    (outlasts : ∀ {t removed}, StripStep mark t removed → p (t ++ removed) → p t)
    (grows : ∀ {t count}, t ≠ [] → t.getLast? ≠ some '\n' → p t →
      p (t ++ breakRun options kind mark count))
    {buffer : Buffer} (before : p buffer.reverse) :
    p (addBreaks options kind mark required buffer).reverse :=
  addBreaks_of_stripped before (stripBreaks_induction outlasts before) grows

end ForumMarkup.Markdown
