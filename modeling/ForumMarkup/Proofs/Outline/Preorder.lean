import ForumMarkup.Proofs.Outline.Links

/-!
Contract: trees inside an outline.

Owns:
- `SpanTree.entries`, the entries that a tree takes up from a number on;
- `Outline.Holds`, an outline that has a tree at a number;
- `Outline.preorder`, the numbers of a span and of all spans inside of it, each in front of
  those inside of it.

Main statements: `entries_graftAll`, what putting in trees comes to; its consequences for
look-ups and changes; `holds_ofTree`; and `preorder_ofTree`, the numbers in reading order.
-/

set_option autoImplicit false

namespace ForumMarkup

open Outline (Entry)

namespace SpanTree

/-- The numbers at the tops of trees, where the first one has the number `number`. -/
def numbers (number : Nat) : List SpanTree → List Nat
  | [] => []
  | tree :: rest => number :: numbers (number + tree.size) rest

mutual

/-- The entries of a tree whose top has the number `number`. -/
def entries (parent? : Option Nat) (number : Nat) : SpanTree → List Entry
  | .node span children =>
      { span, parent?, children := numbers (number + 1) children }
        :: entriesOf number (number + 1) children

def entriesOf (parent number : Nat) : List SpanTree → List Entry
  | [] => []
  | tree :: rest =>
      tree.entries (some parent) number ++ entriesOf parent (number + tree.size) rest

end

mutual

theorem length_entries (parent? : Option Nat) : ∀ (tree : SpanTree) (number : Nat),
    (tree.entries parent? number).length = tree.size
  | .node span children, number => by
      rw [entries, List.length_cons, length_entriesOf number children, size, Nat.add_comm]

theorem length_entriesOf (parent : Nat) : ∀ (trees : List SpanTree) (number : Nat),
    (entriesOf parent number trees).length = sizes trees
  | [], _ => rfl
  | tree :: rest, number => by
      rw [entriesOf, List.length_append, length_entries _ tree, length_entriesOf parent rest, sizes]

end

end SpanTree

open SpanTree (numbers entriesOf sizes)

namespace Outline

def Entry.adoptAll (entry : Entry) (children : List Nat) : Entry :=
  { entry with children := entry.children ++ children }

theorem Entry.adoptAll_nil (entry : Entry) : entry.adoptAll [] = entry := by
  rw [adoptAll, List.append_nil]

theorem Entry.adoptAll_adopt (entry : Entry) (child : Nat) (children : List Nat) :
    (entry.adopt child).adoptAll children = entry.adoptAll (child :: children) := by
  rw [adoptAll, adopt, List.append_assoc]
  rfl

/-! ### Lists that are changed at one place -/

theorem modify_append {α : Type} {place : Nat} (change : α → α) :
    ∀ {front : List α}, place < front.length → ∀ back : List α,
      (front ++ back).modify place change = front.modify place change ++ back := by
  induction place with
  | zero =>
      intro front inside back
      cases front with
      | nil => cases inside
      | cons first rest => rfl
  | succ place ih =>
      intro front inside back
      cases front with
      | nil => cases inside
      | cons first rest =>
          rw [List.cons_append, List.modify_succ_cons, List.modify_succ_cons,
            ih (Nat.lt_of_succ_lt_succ inside) back]
          rfl

theorem modify_length_append {α : Type} (change : α → α) (element : α) :
    ∀ front : List α,
      (front ++ [element]).modify front.length change = front ++ [change element]
  | [] => rfl
  | first :: rest => by
      rw [List.cons_append, List.length_cons, List.modify_succ_cons,
        modify_length_append change element rest]
      rfl

/-! ### Trees that are put in -/

variable {outline : Outline} {parent number : Nat}

theorem lt_size_push (known : parent < outline.size) (span : Span) :
    outline.size < (outline.push parent span).size := by
  rw [size_push known]
  exact Nat.lt_succ_self _

/-- The last entry can be changed at once. -/
theorem modify_extend (outline : Outline) (parent : Nat) (span : Span)
    (change : Entry → Entry) :
    (extend outline.entries parent span).modify outline.size change
      = outline.entries.modify parent (·.adopt outline.size)
        ++ [change { span, parent? := some parent }] := by
  have top : (outline.entries.modify parent (·.adopt outline.size)).length = outline.size :=
    List.length_modify ..
  have placed := modify_length_append change { span, parent? := some parent }
    (outline.entries.modify parent (·.adopt outline.size))
  rw [top] at placed
  exact placed

mutual

/-- A tree comes behind all entries, and its top is listed last inside its parent. -/
theorem entries_graft : ∀ (tree : SpanTree) (outline : Outline) {parent : Nat},
    parent < outline.size →
      (graft parent outline tree).entries
        = outline.entries.modify parent (·.adopt outline.size)
          ++ tree.entries (some parent) outline.size
  | .node span children, outline, parent, known => by
      rw [graft, entries_graftAll children _ (lt_size_push known span), entries_push known,
        size_push known, modify_extend, SpanTree.entries, List.append_assoc]
      rfl

/-- Trees come behind all entries, and their tops are listed last inside their parent. -/
theorem entries_graftAll : ∀ (trees : List SpanTree) (outline : Outline) {parent : Nat},
    parent < outline.size →
      (graftAll parent outline trees).entries
        = outline.entries.modify parent (·.adoptAll (numbers outline.size trees))
          ++ entriesOf parent outline.size trees
  | [], outline, parent, known => by
      have same : (fun entry : Entry => entry.adoptAll []) = id := funext Entry.adoptAll_nil
      rw [graftAll, numbers, entriesOf, List.append_nil, same, List.modify_id]
  | tree :: rest, outline, parent, known => by
      have first := entries_graft tree outline known
      have size : (graft parent outline tree).size = outline.size + tree.size := by
        rw [Outline.size, first, List.length_append, List.length_modify, tree.length_entries]
        rfl
      have inside : parent < (outline.entries.modify parent (·.adopt outline.size)).length := by
        rw [List.length_modify]
        exact known
      have both : (fun entry : Entry =>
            entry.adoptAll (numbers (outline.size + tree.size) rest)) ∘ (·.adopt outline.size)
          = fun entry : Entry => entry.adoptAll (numbers outline.size (tree :: rest)) :=
        funext fun entry : Entry => entry.adoptAll_adopt _ _
      rw [graftAll, entries_graftAll rest _ (by rw [size]; omega), first, size,
        modify_append _ inside, List.modify_modify_eq, both, entriesOf, List.append_assoc]

end

theorem size_graftAll (known : parent < outline.size) (trees : List SpanTree) :
    (graftAll parent outline trees).size = outline.size + sizes trees := by
  rw [size, entries_graftAll trees outline known, List.length_append, List.length_modify,
    SpanTree.length_entriesOf]
  rfl

theorem lt_size_graftAll (known : parent < outline.size) (trees : List SpanTree)
    (inside : number < outline.size) : number < (graftAll parent outline trees).size := by
  rw [size_graftAll known]
  exact Nat.lt_add_right _ inside

theorem graftAll_append (parent : Nat) (outline : Outline) (first second : List SpanTree) :
    graftAll parent outline (first ++ second)
      = graftAll parent (graftAll parent outline first) second := by
  induction first generalizing outline with
  | nil => rfl
  | cons tree rest ih => exact ih (graft parent outline tree)

/-- Of the entries that were there only that of the parent changes. -/
theorem getElem?_graftAll (known : parent < outline.size) (trees : List SpanTree)
    (inside : number < outline.size) :
    (graftAll parent outline trees).entries[number]? = outline.entries[number]?.map fun entry =>
      if parent = number then entry.adoptAll (numbers outline.size trees) else entry := by
  rw [entries_graftAll trees outline known, List.getElem?_append_left, List.getElem?_modify]
  · rfl
  · rw [List.length_modify]
    exact inside

/-- The spans that were there stay as they are. -/
theorem span?_graftAll (known : parent < outline.size) (trees : List SpanTree)
    (inside : number < outline.size) :
    (graftAll parent outline trees).span? number = outline.span? number := by
  rw [span?, getElem?_graftAll known trees inside, span?]
  cases outline.entries[number]? with
  | none => rfl
  | some entry =>
      refine congrArg some ?_
      split <;> rfl

/-- Of the spans that were there only the parent lists more spans. -/
theorem children_graftAll (known : parent < outline.size) (trees : List SpanTree)
    (inside : number < outline.size) :
    (graftAll parent outline trees).children number
      = outline.children number
        ++ if parent = number then numbers outline.size trees else [] := by
  rw [children, getElem?_graftAll known trees inside, children, List.getElem?_eq_getElem inside]
  show (ite _ _ _ : Entry).children = _
  split
  · rfl
  · exact (List.append_nil _).symm

/-- A span that was there can be changed before or behind the trees that are put in. -/
theorem modify_graftAll (known : parent < outline.size) (trees : List SpanTree)
    (inside : number < outline.size) (change : Span → Span) :
    (graftAll parent outline trees).modify number change
      = graftAll parent (outline.modify number change) trees := by
  have known' : parent < (outline.modify number change).size := by
    rw [size_modify]
    exact known
  have here : number < (outline.entries.modify parent
      (·.adoptAll (numbers outline.size trees))).length := by
    rw [List.length_modify]
    exact inside
  refine ext ?_
  rw [entries_graftAll trees _ known', size_modify]
  show List.modify _ _ _ = List.modify (List.modify _ _ _) _ _ ++ _
  rw [entries_graftAll trees outline known, modify_append _ here]
  by_cases same : parent = number
  · subst same
    rw [List.modify_modify_eq, List.modify_modify_eq]
    rfl
  · rw [List.modify_modify_ne _ _ _ same]

/-- A new span can be changed at once. -/
theorem modify_push (known : parent < outline.size) (span : Span) (change : Span → Span) :
    (outline.push parent span).modify outline.size change = outline.push parent (change span) := by
  refine ext ?_
  rw [entries_push known]
  show (outline.push parent span).entries.modify _ _ = _
  rw [entries_push known]
  exact modify_extend outline parent span _

/-! ### Trees that are there -/

mutual

/-- The outline has the tree at the number, and the spans inside of it behind that. -/
def Holds (outline : Outline) (number : Nat) : SpanTree → Prop
  | .node span children =>
      outline.span? number = some span ∧
        outline.children number = numbers (number + 1) children ∧
        HoldsAll outline (number + 1) children

def HoldsAll (outline : Outline) (number : Nat) : List SpanTree → Prop
  | [] => True
  | tree :: rest => Holds outline number tree ∧ HoldsAll outline (number + tree.size) rest

end

theorem Holds.found {tree : SpanTree} (holds : outline.Holds number tree) :
    outline.span? number = some tree.span := by
  obtain ⟨span, children⟩ := tree
  exact holds.1

mutual

/-- The entries of a tree, anywhere among others, are an outline of the tree. -/
theorem holds_of_entries : ∀ (tree : SpanTree) (parent? : Option Nat) (front back : List Entry),
    outline.entries = front ++ tree.entries parent? front.length ++ back →
      outline.Holds front.length tree
  | .node span children, parent?, front, back, same => by
      let top : Entry := { span, parent?, children := numbers (front.length + 1) children }
      have split : outline.entries
          = (front ++ [top]) ++ entriesOf front.length (front.length + 1) children ++ back := by
        rw [same, SpanTree.entries, List.append_cons]
      have found : outline.entries[front.length]? = some top := by
        rw [split, List.append_assoc, List.append_assoc,
          List.getElem?_append_right (Nat.le_refl _), Nat.sub_self]
        rfl
      have longer : (front ++ [top]).length = front.length + 1 := List.length_append
      have inner := holdsAll_of_entries children front.length (front ++ [top]) back
      rw [longer] at inner
      exact ⟨by rw [span?, found]; rfl, by rw [Outline.children, found]; rfl, inner split⟩

theorem holdsAll_of_entries : ∀ (trees : List SpanTree) (parent : Nat) (front back : List Entry),
    outline.entries = front ++ entriesOf parent front.length trees ++ back →
      outline.HoldsAll front.length trees
  | [], _, _, _, _ => trivial
  | tree :: rest, parent, front, back, same => by
      let first := tree.entries (some parent) front.length
      let others := entriesOf parent (front.length + tree.size) rest
      have split : outline.entries = front ++ first ++ (others ++ back) := by
        rw [same, entriesOf, List.append_assoc, List.append_assoc, List.append_assoc]
      have longer : (front ++ first).length = front.length + tree.size := by
        rw [List.length_append, tree.length_entries]
      have later := holdsAll_of_entries rest parent (front ++ first) back
      rw [longer] at later
      refine ⟨holds_of_entries tree (some parent) front _ split, later ?_⟩
      rw [split, List.append_assoc, List.append_assoc, List.append_assoc]

end

theorem entries_ofTree (tree : SpanTree) : (ofTree tree).entries = tree.entries none 0 := by
  obtain ⟨span, children⟩ := tree
  rw [ofTree, entries_graftAll _ _ Nat.one_pos]
  rfl

/-- An outline that is made of a tree has this tree at its root. -/
theorem holds_ofTree (tree : SpanTree) : (ofTree tree).Holds 0 tree := by
  refine holds_of_entries tree none [] [] ?_
  rw [entries_ofTree, List.append_nil]
  rfl

theorem size_ofTree (tree : SpanTree) : (ofTree tree).size = tree.size := by
  rw [size, entries_ofTree, tree.length_entries]

/-- The numbers of a span and of all spans inside of it, each in front of those inside of it. -/
def preorder (outline : Outline) (number : Nat) : List Nat :=
  number :: (outline.children number).attach.flatMap fun child =>
    have := lt_of_mem_children child.2
    have := lt_size_of_mem_children child.2
    outline.preorder child.1
termination_by outline.size - number
decreasing_by omega

theorem preorder_eq_cons (outline : Outline) (number : Nat) :
    outline.preorder number
      = number :: (outline.children number).flatMap outline.preorder := by
  rw [preorder, List.flatMap_subtype]
  · rw [List.unattach_attach]
  · exact fun _ _ => rfl

mutual

/-- Read in order, the numbers of a tree follow each other. -/
theorem Holds.preorder_eq : ∀ {tree : SpanTree} {number : Nat}, outline.Holds number tree →
    outline.preorder number = List.range' number tree.size
  | .node span children, number, ⟨_, listed, inner⟩ => by
      rw [preorder_eq_cons, listed, HoldsAll.preorder_eq inner, SpanTree.size,
        Nat.add_comm 1, List.range'_succ]

theorem HoldsAll.preorder_eq : ∀ {trees : List SpanTree} {number : Nat},
    outline.HoldsAll number trees →
      (numbers number trees).flatMap outline.preorder = List.range' number (sizes trees)
  | [], _, _ => rfl
  | tree :: rest, number, ⟨first, later⟩ => by
      have behind := @List.range'_append number tree.size (sizes rest) 1
      rw [Nat.one_mul] at behind
      rw [numbers, List.flatMap_cons, Holds.preorder_eq first, HoldsAll.preorder_eq later, sizes,
        behind]

end

theorem preorder_ofTree (tree : SpanTree) :
    (ofTree tree).preorder 0 = List.range (ofTree tree).size := by
  rw [(holds_ofTree tree).preorder_eq, size_ofTree, List.range_eq_range']

/-! ### Growth -/

theorem grown_ofRoot (root : Span) : Grown (ofRoot root) := by
  have same : Outline.empty.modify 0 (fun _ => root) = ofRoot root := ext rfl
  exact same ▸ Grown.modify .empty 0 _

mutual

theorem Grown.graft {outline : Outline} (grown : outline.Grown) : ∀ (tree : SpanTree)
    {parent : Nat}, parent < outline.size → (graft parent outline tree).Grown
  | .node span children, _, known =>
      Grown.graftAll (grown.push known span) children (lt_size_push known span)

theorem Grown.graftAll {outline : Outline} (grown : outline.Grown) : ∀ (trees : List SpanTree)
    {parent : Nat}, parent < outline.size → (Outline.graftAll parent outline trees).Grown
  | [], _, _ => grown
  | tree :: rest, parent, known => by
      have inside : parent < (Outline.graft parent outline tree).size :=
        lt_size_graftAll known [tree] known
      exact Grown.graftAll (Grown.graft grown tree known) rest inside

end

/-- Every outline of a tree comes about by putting in its spans. -/
theorem grown_ofTree (tree : SpanTree) : (ofTree tree).Grown :=
  (grown_ofRoot tree.span).graftAll tree.children Nat.one_pos

end Outline
end ForumMarkup
