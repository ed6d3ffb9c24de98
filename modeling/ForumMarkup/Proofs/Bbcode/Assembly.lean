import ForumMarkup.Bbcode.Assembly

/-!
Contract: laws of the operations on a tree under construction.

Owns:
- what each operation does to the collected text and to the open tags;
- `Assembly.moved`, the same tree at another byte of the input, which every
  operation passes on;
- `closeTop_addNodes_openFrame`, an element that is opened, filled and closed;
- `Assembly.betweenItems`, a list whose last item is closed, from which both a new
  item and the closing tag of the list start.
-/

set_option autoImplicit false

namespace ForumMarkup.Bbcode.Assembly

/-- The same tree under construction, at another byte of the input. -/
def moved (assembly : Assembly) (offset : Nat) : Assembly :=
  { assembly with offset }

@[simp]
theorem top?_moved (assembly : Assembly) (offset : Nat) :
    (assembly.moved offset).top? = assembly.top? := rfl

@[simp]
theorem moved_moved (assembly : Assembly) (first second : Nat) :
    (assembly.moved first).moved second = assembly.moved second := rfl

def brackets (assembly : Assembly) : List Bracket :=
  assembly.frames.map Frame.bracket

theorem top?_eq_head?_brackets (assembly : Assembly) :
    assembly.top? = assembly.brackets.head? := by
  unfold top? brackets
  rw [List.head?_map]

theorem brackets_addNode (assembly : Assembly) (node : Node) :
    (assembly.addNode node).brackets = assembly.brackets := by
  obtain ⟨frames, base, pending, warnings, place⟩ := assembly
  cases frames <;> rfl

theorem brackets_addNodes (assembly : Assembly) (nodes : List Node) :
    (assembly.addNodes nodes).brackets = assembly.brackets := by
  induction nodes generalizing assembly with
  | nil => rfl
  | cons node rest ih =>
      show ((assembly.addNode node).addNodes rest).brackets = _
      rw [ih, brackets_addNode]

@[simp]
theorem top?_addNodes (assembly : Assembly) (nodes : List Node) :
    (assembly.addNodes nodes).top? = assembly.top? := by
  rw [top?_eq_head?_brackets, brackets_addNodes, top?_eq_head?_brackets]

theorem addNodes_append (assembly : Assembly) (front back : List Node) :
    assembly.addNodes (front ++ back) = (assembly.addNodes front).addNodes back :=
  List.foldl_append

theorem addNode_moved (assembly : Assembly) (offset : Nat) (node : Node) :
    (assembly.moved offset).addNode node = (assembly.addNode node).moved offset := by
  obtain ⟨frames, base, pending, warnings, place⟩ := assembly
  cases frames <;> rfl

theorem addNodes_moved (assembly : Assembly) (offset : Nat) (nodes : List Node) :
    (assembly.moved offset).addNodes nodes = (assembly.addNodes nodes).moved offset := by
  induction nodes generalizing assembly with
  | nil => rfl
  | cons node rest ih =>
      show ((assembly.moved offset).addNode node).addNodes rest = _
      rw [addNode_moved, ih]
      rfl

theorem pending_addNode (assembly : Assembly) (node : Node) :
    (assembly.addNode node).pending = assembly.pending := by
  obtain ⟨frames, base, pending, warnings, place⟩ := assembly
  cases frames <;> rfl

theorem pending_addNodes (assembly : Assembly) (nodes : List Node) :
    (assembly.addNodes nodes).pending = assembly.pending := by
  induction nodes generalizing assembly with
  | nil => rfl
  | cons node rest ih =>
      show ((assembly.addNode node).addNodes rest).pending = _
      rw [ih, pending_addNode]

theorem flush_of_pending_nil (codes : List Text) {assembly : Assembly}
    (settled : assembly.pending = []) : assembly.flush codes = assembly := by
  obtain ⟨frames, base, pending, warnings, place⟩ := assembly
  cases settled
  rfl

theorem pending_flush (codes : List Text) (assembly : Assembly) :
    (assembly.flush codes).pending = [] := by
  unfold flush
  dsimp only
  split
  · rfl
  · rw [pending_addNodes]

theorem brackets_flush (codes : List Text) (assembly : Assembly) :
    (assembly.flush codes).brackets = assembly.brackets := by
  unfold flush
  dsimp only
  split
  · rfl
  · rw [brackets_addNodes]
    rfl

@[simp]
theorem top?_flush (codes : List Text) (assembly : Assembly) :
    (assembly.flush codes).top? = assembly.top? := by
  rw [top?_eq_head?_brackets, brackets_flush, top?_eq_head?_brackets]

/-- Turning text into children does not depend on the place in the input. -/
theorem flush_moved (codes : List Text) (assembly : Assembly) (offset : Nat) :
    (assembly.moved offset).flush codes = (assembly.flush codes).moved offset := by
  by_cases layout : assembly.pending.reverse = []
      ∨ (assembly.top? = some .list ∧ Text.allBlank assembly.pending.reverse = true)
  · have there : (assembly.moved offset).flush codes
        = { assembly.moved offset with pending := [] } := if_pos layout
    have here : assembly.flush codes = { assembly with pending := [] } := if_pos layout
    rw [there, here]
    rfl
  · have there : (assembly.moved offset).flush codes
        = { assembly.moved offset with pending := [] }.addNodes
          (splitSmilies codes assembly.pending.reverse) := if_neg layout
    have here : assembly.flush codes = { assembly with pending := [] }.addNodes
        (splitSmilies codes assembly.pending.reverse) := if_neg layout
    rw [there, here]
    exact addNodes_moved { assembly with pending := [] } offset _

/-! ### Elements that open and close -/

/-- Nodes behind an opened element become its content. -/
theorem addNodes_openFrame (assembly : Assembly) (bracket : Bracket) (nodes : List Node) :
    (assembly.openFrame bracket ∅).addNodes nodes
      = { assembly with
          frames := { bracket, content := nodes.reverse, offset := assembly.offset }
            :: assembly.frames } := by
  have general : ∀ content, { assembly with
        frames := { bracket, content, offset := assembly.offset } :: assembly.frames
        : Assembly }.addNodes nodes
      = { assembly with
          frames := { bracket, content := nodes.reverse ++ content, offset := assembly.offset }
            :: assembly.frames } := by
    induction nodes with
    | nil => intro content; rfl
    | cons node rest ih =>
        intro content
        rw [List.reverse_cons, List.append_assoc]
        exact ih (node :: content)
  rw [← List.append_nil nodes.reverse]
  exact general []

/-- An element that is opened, filled and closed is one more node. -/
theorem closeTop_addNodes_openFrame {bracket : Bracket} {nodes : List Node}
    (ends : bracket = .item → ∀ last ∈ nodes.getLast?, isLayout last = false)
    (assembly : Assembly) :
    ((assembly.openFrame bracket ∅).addNodes nodes).closeTop
      = assembly.addNode (.element bracket.tag ∅ nodes) := by
  have kept : (if bracket = .item then nodes.reverse.dropWhile isLayout else nodes.reverse).reverse
      = nodes := by
    split
    · next item =>
        cases shape : nodes.reverse with
        | nil => simpa using shape.symm
        | cons last before =>
            have final : nodes.getLast? = some last := by
              rw [← List.head?_reverse, shape]
              rfl
            have visible := ends item last final
            rw [List.dropWhile_cons_of_neg (by simp [visible]), ← shape, List.reverse_reverse]
    · exact List.reverse_reverse nodes
  rw [addNodes_openFrame]
  unfold closeTop Frame.toNode
  dsimp only
  rw [kept]

theorem closeTop_moved (assembly : Assembly) (offset : Nat) :
    (assembly.moved offset).closeTop = assembly.closeTop.moved offset := by
  obtain ⟨frames, base, pending, warnings, place⟩ := assembly
  cases frames with
  | nil => rfl
  | cons frame outer => exact addNode_moved ⟨outer, base, pending, warnings, place⟩ offset _

/-- A closing tag closes the innermost open element of its tag and what is open
inside that. -/
theorem close_of_findIdx? {assembly : Assembly} {bracket : Bracket} {inner : Nat}
    (found : assembly.brackets.findIdx? (· == bracket) = some inner) (codes : List Text)
    (token : Token) :
    assembly.close codes bracket token
      = (closeUnclosed (some bracket) inner (assembly.flush codes)).closeTop := by
  have place : assembly.frames.findIdx? (·.bracket == bracket) = some inner := by
    rw [← found, brackets, List.findIdx?_map]
    rfl
  unfold close
  rw [place]

/-- A closing tag closes the innermost open element when that is of its tag. -/
theorem close_of_top? {assembly : Assembly} {bracket : Bracket}
    (top : assembly.top? = some bracket) (codes : List Text) (token : Token) :
    assembly.close codes bracket token = (assembly.flush codes).closeTop := by
  rw [top?_eq_head?_brackets] at top
  obtain ⟨outer, shape⟩ := List.head?_eq_some_iff.1 top
  have found : assembly.brackets.findIdx? (· == bracket) = some 0 := by
    rw [shape, List.findIdx?_cons, beq_self_eq_true]
    rfl
  exact close_of_findIdx? found codes token

/-! ### Items -/

/-- The tree under construction with the item that is open in a list closed. -/
def betweenItems (codes : List Text) (assembly : Assembly) : Assembly :=
  if (assembly.flush codes).isInItem then (assembly.flush codes).closeTop else assembly.flush codes

/-- Whether an item is open in a list can be read off the two innermost tags. -/
theorem isInItem_iff (assembly : Assembly) :
    assembly.isInItem = true ↔ ∃ outer, assembly.brackets = .item :: .list :: outer := by
  obtain ⟨frames, base, pending, warnings, place⟩ := assembly
  unfold isInItem brackets
  constructor
  · intro inside
    split at inside
    · next inner outer others shape =>
        simp only [Bool.and_eq_true, beq_iff_eq] at inside
        refine ⟨others.map Frame.bracket, ?_⟩
        rw [shape, List.map_cons, List.map_cons, inside.1, inside.2]
    · cases inside
  · rintro ⟨outer, shape⟩
    obtain ⟨inner, later, rfl, isItem, shape⟩ := List.map_eq_cons_iff.1 shape
    obtain ⟨list, others, rfl, isList, _⟩ := List.map_eq_cons_iff.1 shape
    simp [isItem, isList]

theorem pending_closeTop (assembly : Assembly) :
    assembly.closeTop.pending = assembly.pending := by
  obtain ⟨frames, base, pending, warnings, place⟩ := assembly
  rcases frames with _ | ⟨frame, _ | ⟨outer, others⟩⟩ <;> rfl

theorem pending_betweenItems (codes : List Text) (assembly : Assembly) :
    (assembly.betweenItems codes).pending = [] := by
  unfold betweenItems
  split
  · rw [pending_closeTop, pending_flush]
  · exact pending_flush codes assembly

theorem openItem_of_betweenItems {codes : List Text} {assembly : Assembly}
    (inList : (assembly.betweenItems codes).top? = some .list) (token : Token) :
    assembly.openItem codes token = (assembly.betweenItems codes).openFrame .item ∅ :=
  if_pos inList

/-- The closing tag of a list closes its last item with it. -/
theorem close_list {codes : List Text} {assembly : Assembly}
    (inList : (assembly.betweenItems codes).top? = some .list) (token : Token) :
    assembly.close codes .list token = (assembly.betweenItems codes).closeTop := by
  unfold betweenItems at inList ⊢
  split at inList
  · next inside =>
      obtain ⟨outer, shape⟩ := (isInItem_iff _).1 inside
      have found : assembly.brackets.findIdx? (· == .list) = some 1 := by
        rw [← brackets_flush codes, shape]
        rfl
      rw [if_pos inside, close_of_findIdx? found]
      have expected : closeUnclosed (some .list) 1 (assembly.flush codes)
          = (assembly.flush codes).closeTop := by
        obtain ⟨inner, others, frames, isItem, _⟩ := List.map_eq_cons_iff.1 shape
        unfold closeUnclosed
        rw [frames]
        simp [closeUnclosed, isItem]
      rw [expected]
  · next outside =>
      rw [if_neg outside]
      rw [top?_flush] at inList
      exact close_of_top? inList codes token

end ForumMarkup.Bbcode.Assembly
