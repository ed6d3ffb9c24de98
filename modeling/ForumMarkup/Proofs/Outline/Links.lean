import Mathlib.Data.List.Chain
import Mathlib.Data.List.Nodup
import ForumMarkup.Outline

/-!
Contract: the links of an outline, and what keeps them right.

Owns:
- `Outline.Grown`, the outlines that come about by putting in spans and changing spans;
- `Outline.Linked`, links that agree downwards and upwards;
- `Outline.IsPath`, the ways from the root.

Main statements: `Linked.push` and `Linked.modify`, the two steps; `Grown.linked`, whole runs;
`exists_isPath` and `IsPath.unique`, there is one way to each span; and `IsPath.lineMark_eq`.
-/

set_option autoImplicit false

namespace ForumMarkup
namespace Outline

/-- The outlines that come about from an undecorated root by putting spans inside spans that
are there, and by changing spans. -/
inductive Grown : Outline → Prop where
  | empty : Grown .empty
  | push {outline : Outline} {parent : Nat} (grown : Grown outline)
      (known : parent < outline.size) (span : Span) : Grown (outline.push parent span)
  | modify {outline : Outline} (grown : Grown outline) (number : Nat) (change : Span → Span) :
      Grown (outline.modify number change)

variable {outline : Outline} {number parent other child : Nat} {span : Span}

theorem lt_size_of_parent? (up : outline.parent? child = some parent) : child < outline.size := by
  refine Nat.lt_of_not_le fun outside => ?_
  rw [parent?, List.getElem?_eq_none outside] at up
  cases up

/-! ### Look-ups behind a step -/

theorem entries_push (known : parent < outline.size) (span : Span) :
    (outline.push parent span).entries = extend outline.entries parent span := by
  rw [push, dif_pos known]

/-- The new entry has the next number; of the others only that of the parent changes. -/
theorem getElem?_push (known : parent < outline.size) (span : Span) (number : Nat) :
    (outline.push parent span).entries[number]?
      = if number = outline.size then some { span, parent? := some parent }
        else outline.entries[number]?.map fun entry =>
          { entry with
            children :=
              if parent = number then entry.children ++ [outline.size] else entry.children } := by
  rw [entries_push known, getElem?_extend]
  refine if_congr Iff.rfl rfl (congrArg (Option.map · _) (funext fun entry => ?_))
  split <;> rfl

theorem span?_push (known : parent < outline.size) (span : Span) (number : Nat) :
    (outline.push parent span).span? number
      = if number = outline.size then some span else outline.span? number := by
  rw [span?, getElem?_push known]
  split
  · rfl
  · exact Option.map_map ..

theorem parent?_push (known : parent < outline.size) (span : Span) (number : Nat) :
    (outline.push parent span).parent? number
      = if number = outline.size then some parent else outline.parent? number := by
  rw [parent?, getElem?_push known]
  split
  · rfl
  · exact Option.bind_map ..

/-- The new span comes last inside its parent. -/
theorem children_push (known : parent < outline.size) (span : Span) (number : Nat) :
    (outline.push parent span).children number
      = if number = parent then outline.children number ++ [outline.size]
        else outline.children number := by
  rw [children, getElem?_push known, children]
  by_cases here : number = parent
  · subst here
    rw [if_neg (Nat.ne_of_lt known), if_pos rfl, List.getElem?_eq_getElem known, Option.map_some,
      if_pos rfl]
    rfl
  · rw [if_neg here]
    split
    · next last =>
        have beyond : outline.entries[outline.size]? = none :=
          List.getElem?_eq_none (Nat.le_refl _)
        rw [last, beyond]
        rfl
    · simp only [Option.map_id', if_neg (Ne.symm here)]

/-- A change leaves the links as they are. -/
theorem getElem?_modify (outline : Outline) (changed : Nat) (change : Span → Span)
    (number : Nat) :
    (outline.modify changed change).entries[number]?
      = outline.entries[number]?.map fun entry =>
          { entry with span := if changed = number then change entry.span else entry.span } := by
  rw [modify, List.getElem?_modify]
  refine congrArg (Option.map · _) (funext fun entry => ?_)
  split <;> rfl

theorem parent?_modify (outline : Outline) (changed : Nat) (change : Span → Span) (number : Nat) :
    (outline.modify changed change).parent? number = outline.parent? number := by
  rw [parent?, getElem?_modify]
  exact Option.bind_map ..

theorem children_modify (outline : Outline) (changed : Nat) (change : Span → Span)
    (number : Nat) : (outline.modify changed change).children number = outline.children number := by
  rw [children, getElem?_modify, Option.map_map]
  rfl

/-! ### Links -/

/-- Every span but the root lies in one other, and is listed there and nowhere else, behind the
spans that came before it. -/
structure Linked (outline : Outline) : Prop where
  attached : ∀ number, 0 < number → number < outline.size → ∃ parent,
    outline.parent? number = some parent
  listed : ∀ parent child, child ∈ outline.children parent ↔ outline.parent? child = some parent
  ascending : ∀ number, (outline.children number).Pairwise (· < ·)

namespace Linked

theorem empty : Linked .empty where
  attached number some none := absurd some (Nat.not_lt_of_ge (Nat.le_of_lt_succ none))
  listed parent child := by
    have none (number : Nat) : Outline.empty.children number = []
        ∧ Outline.empty.parent? number = none := by
      cases number <;> exact ⟨rfl, rfl⟩
    rw [(none parent).1, (none child).2]
    exact ⟨nofun, nofun⟩
  ascending number := by
    cases number <;> exact .nil

/-- One span more is linked where it is put, and all other links stay. -/
theorem push (linked : outline.Linked) (known : parent < outline.size) (span : Span) :
    (outline.push parent span).Linked where
  attached number inner inside := by
    rw [parent?_push known]
    split
    · exact ⟨parent, rfl⟩
    · next old =>
        rw [size_push known] at inside
        exact linked.attached number inner (by omega)
  listed other child := by
    have new : outline.parent? outline.size = none := by
      cases up : outline.parent? outline.size with
      | none => rfl
      | some above => exact absurd (lt_size_of_parent? up) (Nat.lt_irrefl _)
    have old := linked.listed other child
    rw [children_push known, parent?_push known]
    by_cases here : other = parent <;> by_cases last : child = outline.size
    · simp [here, last]
    · rw [if_pos here, if_neg last, List.mem_append, List.mem_singleton, old]
      exact or_iff_left last
    · rw [if_neg here, if_pos last, old, last, new, Option.some.injEq]
      exact ⟨nofun, fun same => absurd same.symm here⟩
    · rw [if_neg here, if_neg last, old]
  ascending number := by
    rw [children_push known]
    split
    · refine List.pairwise_append.2 ⟨linked.ascending number, List.pairwise_singleton _ _, ?_⟩
      intro child member last here
      rw [List.mem_singleton.1 here]
      exact lt_size_of_parent? ((linked.listed number child).1 member)
    · exact linked.ascending number

/-- Changing a span changes no link. -/
theorem modify (linked : outline.Linked) (number : Nat) (change : Span → Span) :
    (outline.modify number change).Linked where
  attached other inner inside := by
    rw [size_modify] at inside
    rw [parent?_modify]
    exact linked.attached other inner inside
  listed parent child := by
    rw [children_modify, parent?_modify]
    exact linked.listed parent child
  ascending other := by
    rw [children_modify]
    exact linked.ascending other

/-- A span is listed once. -/
theorem count_children (linked : outline.Linked) (up : outline.parent? child = some parent) :
    (outline.children parent).count child = 1 := by
  have once : (outline.children parent).Nodup :=
    (linked.ascending parent).imp fun before => Nat.ne_of_lt before
  exact List.count_eq_one_of_mem once ((linked.listed parent child).2 up)

end Linked

/-- Whatever is put in and changed, the links stay right. -/
theorem Grown.linked (grown : outline.Grown) : outline.Linked := by
  induction grown with
  | empty => exact .empty
  | push _ known span linked => exact linked.push known span
  | modify _ number change linked => exact linked.modify number change

/-! ### Ways from the root -/

/-- The numbers on a way from the root to a span, each one listed inside the one before. -/
structure IsPath (outline : Outline) (path : List Nat) (number : Nat) : Prop where
  starts : path.head? = some 0
  steps : path.IsChain fun outer inner => inner ∈ outline.children outer
  ends : path.getLast? = some number

theorem isPath_root (outline : Outline) : outline.IsPath [0] 0 :=
  ⟨rfl, .singleton _, rfl⟩

theorem parent?_zero (outline : Outline) : outline.parent? 0 = none := by
  cases up : outline.parent? 0 with
  | none => rfl
  | some above => exact absurd (lt_of_parent? up) (Nat.not_lt_zero _)

namespace IsPath

variable {path : List Nat}

/-- A way to a span goes on to each span inside it. -/
theorem concat (way : outline.IsPath path parent) (step : child ∈ outline.children parent) :
    outline.IsPath (path ++ [child]) child where
  starts := by
    rw [List.head?_append, way.starts]
    rfl
  steps := by
    refine List.isChain_append.2 ⟨way.steps, .singleton _, fun last there next here => ?_⟩
    rw [way.ends] at there
    cases there
    cases here
    exact step
  ends := List.getLast?_concat

/-- A way is that to the root, or it comes through the parent. -/
theorem cases_last (linked : outline.Linked) (way : outline.IsPath path number) :
    (number = 0 ∧ path = [0]) ∨ ∃ parent front,
      outline.parent? number = some parent ∧ path = front ++ [number] ∧
        outline.IsPath front parent := by
  obtain ⟨starts, steps, ends⟩ := way
  rcases List.eq_nil_or_concat' path with rfl | ⟨front, last, rfl⟩
  · cases ends
  · rw [List.getLast?_concat] at ends
    cases ends
    rcases List.eq_nil_or_concat' front with rfl | ⟨before, parent, rfl⟩
    · cases starts
      exact .inl ⟨rfl, rfl⟩
    · obtain ⟨inner, _, step⟩ := List.isChain_append.1 steps
      have down : number ∈ outline.children parent :=
        step parent (by rw [List.getLast?_concat]; rfl) number rfl
      refine .inr ⟨parent, _, (linked.listed parent number).1 down, rfl, ?_, inner,
        List.getLast?_concat⟩
      rw [List.head?_append_of_ne_nil _ (List.concat_ne_nil _ _)] at starts
      exact starts

/-- There is no second way to a span. -/
theorem unique (linked : outline.Linked) : ∀ {number : Nat} {first second : List Nat},
    outline.IsPath first number → outline.IsPath second number → first = second := by
  intro number
  -- The parent has a smaller number, and a way to it is all but the last step.
  induction number using Nat.strongRecOn with
  | ind number ih =>
      intro first second one another
      rcases one.cases_last linked with ⟨root, rfl⟩ | ⟨parent, front, up, rfl, way⟩
      · rcases another.cases_last linked with ⟨_, rfl⟩ | ⟨above, _, up, _, _⟩
        · rfl
        · rw [root, parent?_zero] at up
          cases up
      · rcases another.cases_last linked with ⟨root, _⟩ | ⟨above, back, up', rfl, way'⟩
        · rw [root, parent?_zero] at up
          cases up
        · rw [up] at up'
          cases up'
          rw [ih parent (lt_of_parent? up) way way']

end IsPath

/-- There is a way to every span. -/
theorem exists_isPath (linked : outline.Linked) : ∀ {number : Nat}, number < outline.size →
    ∃ path, outline.IsPath path number := by
  intro number
  induction number using Nat.strongRecOn with
  | ind number ih =>
      intro inside
      rcases Nat.eq_zero_or_pos number with rfl | inner
      · exact ⟨_, isPath_root outline⟩
      · obtain ⟨parent, up⟩ := linked.attached number inner inside
        have before := lt_of_parent? up
        obtain ⟨path, way⟩ := ih parent before (before.trans inside)
        exact ⟨_, way.concat ((linked.listed parent number).2 up)⟩

/-! ### Line marks -/

def ownMark (outline : Outline) (number : Nat) : Text :=
  ((outline.span? number).bind Span.lineMark?).getD []

theorem flatten_reverse_toList (text? : Option Text) :
    text?.toList.reverse.flatten = text?.getD [] := by
  cases text? with
  | none => rfl
  | some text => exact List.append_nil text

theorem lineMark_root (outline : Outline) : outline.lineMark 0 = outline.ownMark 0 := by
  rw [lineMark, marksToRoot]
  split
  · rw [List.append_nil, flatten_reverse_toList]
    rfl
  · next up =>
      rw [parent?_zero] at up
      cases up

/-- What is put before the lines inside a span begins with what its parent puts there. -/
theorem lineMark_of_parent? (up : outline.parent? number = some parent) :
    outline.lineMark number = outline.lineMark parent ++ outline.ownMark number := by
  rw [lineMark, marksToRoot]
  split
  · next none =>
      rw [up] at none
      cases none
  · next above there =>
      rw [up] at there
      cases there
      rw [List.reverse_append, List.flatten_append, flatten_reverse_toList]
      rfl

/-- The text before the lines inside a span is made of the line marks on the way to it. -/
theorem IsPath.lineMark_eq (linked : outline.Linked) : ∀ {number : Nat} {path : List Nat},
    outline.IsPath path number → outline.lineMark number = path.flatMap outline.ownMark := by
  intro number
  induction number using Nat.strongRecOn with
  | ind number ih =>
      intro path way
      rcases way.cases_last linked with ⟨rfl, rfl⟩ | ⟨parent, front, up, rfl, before⟩
      · rw [lineMark_root, List.flatMap_singleton]
      · rw [lineMark_of_parent? up, ih parent (lt_of_parent? up) before, List.flatMap_append,
          List.flatMap_singleton]

end Outline
end ForumMarkup
