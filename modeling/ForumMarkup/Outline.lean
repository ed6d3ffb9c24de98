import ForumMarkup.Span

/-!
Contract: a span tree as a list of numbered spans, which can be built up one span
at a time.

Owns:
- `Outline`, the spans in the order in which they were put in, each with the
  numbers of the span around it and of the spans inside it;
- look-ups by number, and the operations `push` and `modify`;
- `Outline.tree` and `Outline.ofTree`, the passage to trees and back.

A parent always has a smaller number than its child, so that every walk towards the
root ends, and every walk away from it.
-/

set_option autoImplicit false

namespace ForumMarkup

namespace Outline

/-- A span with its links. -/
structure Entry where
  span : Span
  /-- The number of the span around. -/
  parent? : Option Nat := none
  /-- The numbers of the spans directly inside, in the order in which they came. -/
  children : List Nat := []
  deriving DecidableEq, Repr

def Entry.adopt (entry : Entry) (child : Nat) : Entry :=
  { entry with children := entry.children ++ [child] }

/-- The entries with one more behind them, inside the entry `parent`. -/
def extend (entries : List Entry) (parent : Nat) (span : Span) : List Entry :=
  entries.modify parent (·.adopt entries.length) ++ [{ span, parent? := some parent }]

/-- The new span comes last, and of the others only its parent changes. -/
theorem getElem?_extend (entries : List Entry) (parent : Nat) (span : Span) (number : Nat) :
    (extend entries parent span)[number]?
      = if number = entries.length then some { span, parent? := some parent }
        else entries[number]?.map fun entry =>
          if parent = number then entry.adopt entries.length else entry := by
  rw [extend, List.getElem?_append, List.length_modify]
  split
  · next inside =>
      rw [if_neg (Nat.ne_of_lt inside), List.getElem?_modify]
      rfl
  · next outside =>
      split
      · next last =>
          rw [last, Nat.sub_self]
          rfl
      · next beyond =>
          have past : 1 ≤ number - entries.length := by omega
          rw [List.getElem?_eq_none past, List.getElem?_eq_none (Nat.le_of_not_lt outside)]
          rfl

theorem length_extend (entries : List Entry) (parent : Nat) (span : Span) :
    (extend entries parent span).length = entries.length + 1 := by
  rw [extend, List.length_append, List.length_modify, List.length_singleton]

end Outline

/-- Numbered spans, the root first. The links that are kept lead from a span to smaller
numbers upwards, and to greater ones downwards. -/
structure Outline where
  entries : List Outline.Entry
  parent_lt : ∀ (number : Nat) (entry : Outline.Entry), entries[number]? = some entry →
    ∀ parent, entry.parent? = some parent → parent < number
  lt_child : ∀ (number : Nat) (entry : Outline.Entry), entries[number]? = some entry →
    ∀ child ∈ entry.children, number < child

namespace Outline

/-- An outline is known by its entries. -/
theorem ext {first second : Outline} (same : first.entries = second.entries) :
    first = second := by
  cases first
  cases second
  cases same
  rfl

def ofRoot (root : Span) : Outline where
  entries := [{ span := root }]
  parent_lt := by
    intro number entry found parent up
    rw [List.getElem?_singleton] at found
    split at found <;> cases found
    cases up
  lt_child := by
    intro number entry found child down
    rw [List.getElem?_singleton] at found
    split at found <;> cases found
    cases down

def empty : Outline := ofRoot { origin := .root }

/-- The number of spans, and the number the next one gets. -/
def size (outline : Outline) : Nat :=
  outline.entries.length

def span? (outline : Outline) (number : Nat) : Option Span :=
  outline.entries[number]?.map Entry.span

def parent? (outline : Outline) (number : Nat) : Option Nat :=
  outline.entries[number]?.bind Entry.parent?

def children (outline : Outline) (number : Nat) : List Nat :=
  (outline.entries[number]?.map Entry.children).getD []

def lastChild? (outline : Outline) (number : Nat) : Option Nat :=
  (outline.children number).getLast?

def isOpen (outline : Outline) (number : Nat) : Bool :=
  (outline.span? number).any fun span => !span.replaced

theorem lt_of_parent? {outline : Outline} {number parent : Nat}
    (up : outline.parent? number = some parent) : parent < number := by
  obtain ⟨entry, found, there⟩ := Option.bind_eq_some_iff.1 up
  exact outline.parent_lt number entry found parent there

/-- Links lead downwards to greater numbers, which is why a walk down the outline ends. -/
theorem lt_of_mem_children {outline : Outline} {number child : Nat}
    (down : child ∈ outline.children number) : number < child := by
  unfold children at down
  cases found : outline.entries[number]? with
  | none =>
      rw [found] at down
      cases down
  | some entry =>
      rw [found] at down
      exact outline.lt_child number entry found child down

theorem lt_size_of_mem_children {outline : Outline} {number child : Nat}
    (down : child ∈ outline.children number) : number < outline.size := by
  refine Nat.lt_of_not_le fun outside => ?_
  rw [children, List.getElem?_eq_none outside] at down
  cases down

/-- The outline with one span more inside the span `parent`. Without such a span
nothing changes. -/
def push (outline : Outline) (parent : Nat) (span : Span) : Outline :=
  if known : parent < outline.size then
    { entries := extend outline.entries parent span
      parent_lt := by
        intro number entry found above up
        rw [getElem?_extend] at found
        split at found
        · next last =>
            cases found
            cases up
            exact last ▸ known
        · obtain ⟨old, there, rfl⟩ := Option.map_eq_some_iff.1 found
          refine outline.parent_lt number old there above ?_
          split at up <;> exact up
      lt_child := by
        intro number entry found child down
        rw [getElem?_extend] at found
        split at found
        · cases found
          cases down
        · obtain ⟨old, there, rfl⟩ := Option.map_eq_some_iff.1 found
          obtain ⟨inside, _⟩ := List.getElem?_eq_some_iff.1 there
          split at down
          · rcases List.mem_append.1 down with before | new
            · exact outline.lt_child number old there child before
            · exact List.mem_singleton.1 new ▸ inside
          · exact outline.lt_child number old there child down }
  else outline

def modify (outline : Outline) (number : Nat) (change : Span → Span) : Outline where
  entries := outline.entries.modify number fun entry => { entry with span := change entry.span }
  parent_lt := by
    intro other entry found parent up
    rw [List.getElem?_modify] at found
    obtain ⟨old, there, rfl⟩ := Option.map_eq_some_iff.1 found
    refine outline.parent_lt other old there parent ?_
    split at up <;> exact up
  lt_child := by
    intro other entry found child down
    rw [List.getElem?_modify] at found
    obtain ⟨old, there, rfl⟩ := Option.map_eq_some_iff.1 found
    refine outline.lt_child other old there child ?_
    split at down <;> exact down

/-- The line marks on the way from a span to the root. -/
def marksToRoot (outline : Outline) (number : Nat) : List Text :=
  ((outline.span? number).bind Span.lineMark?).toList ++
    match found : outline.parent? number with
    | none => []
    | some parent =>
        have := lt_of_parent? found
        outline.marksToRoot parent
termination_by number

/-- What is put before every line written inside a span: the line marks on the way
to it, outermost first. -/
def lineMark (outline : Outline) (number : Nat) : Text :=
  (outline.marksToRoot number).reverse.flatten

def subtree (outline : Outline) (number : Nat) : SpanTree :=
  .node ((outline.span? number).getD { origin := .root })
    ((outline.children number).attach.map fun child =>
      have := lt_of_mem_children child.2
      have := lt_size_of_mem_children child.2
      outline.subtree child.1)
termination_by outline.size - number
decreasing_by omega

def tree (outline : Outline) : SpanTree :=
  outline.subtree 0

mutual

/-- Pushes a tree inside the span `parent`, each span before those inside it. -/
def graft (parent : Nat) (outline : Outline) : SpanTree → Outline
  | .node span children => graftAll outline.size (outline.push parent span) children

/-- Pushes trees inside the span `parent`, in order. -/
def graftAll (parent : Nat) (outline : Outline) : List SpanTree → Outline
  | [] => outline
  | tree :: rest => graftAll parent (graft parent outline tree) rest

end

/-- A tree with its spans numbered in reading order, each before those inside it. -/
def ofTree (tree : SpanTree) : Outline :=
  graftAll 0 (ofRoot tree.span) tree.children

theorem size_push {outline : Outline} {parent : Nat} (known : parent < outline.size)
    (span : Span) : (outline.push parent span).size = outline.size + 1 := by
  rw [push, dif_pos known]
  exact length_extend ..

theorem size_modify (outline : Outline) (number : Nat) (change : Span → Span) :
    (outline.modify number change).size = outline.size :=
  List.length_modify ..

end Outline
end ForumMarkup
