import ForumMarkup.Element.Clean

/-!
Contract: what stands below an element.

Owns:
- `Element.below`, the elements, and `Element.leaves`, the text leaves, both in reading
  order;
- `Node.Placed`, an element with the elements around it, and `Node.placedOf`, the
  elements of nodes in document order.

Main statement: `exists_placed_of_mem_below_clean`.  Every element that is kept for a
conversion was there before, outside of the markers and with the same tag and attributes.
-/

set_option autoImplicit false

namespace ForumMarkup

namespace Node

mutual

/-- The elements of a node: itself, unless it is text, and all below. -/
def elements : Node → List Element
  | .text _ => []
  | .element tag attributes children => ⟨tag, attributes, children⟩ :: elementsOf children

def elementsOf : List Node → List Element
  | [] => []
  | node :: rest => node.elements ++ elementsOf rest

end

mutual

def leaves : Node → List Text
  | .text content => [content]
  | .element _ _ children => leavesOf children

def leavesOf : List Node → List Text
  | [] => []
  | node :: rest => node.leaves ++ leavesOf rest

end

/-- An element with the elements around it, the innermost one first. -/
structure Placed where
  element : Element
  around : List Element

mutual

/-- The elements of a node in document order: itself, unless it is text, and all below. -/
def placed (around : List Element) : Node → List Placed
  | .text _ => []
  | .element tag attributes children =>
      ⟨⟨tag, attributes, children⟩, around⟩
        :: placedOf (⟨tag, attributes, children⟩ :: around) children

def placedOf (around : List Element) : List Node → List Placed
  | [] => []
  | node :: rest => node.placed around ++ placedOf around rest

end

mutual

theorem mem_elements_of_mem_placed {around : List Element} :
    ∀ node : Node, ∀ placed ∈ node.placed around, placed.element ∈ node.elements
  | .text _, _, member => nomatch member
  | .element tag attributes children, found, member => by
      rw [placed] at member
      rw [elements]
      rcases List.mem_cons.1 member with rfl | below
      · exact List.mem_cons_self
      · exact List.mem_cons_of_mem _ (mem_elementsOf_of_mem_placedOf children found below)

theorem mem_elementsOf_of_mem_placedOf {around : List Element} :
    ∀ nodes : List Node, ∀ placed ∈ placedOf around nodes, placed.element ∈ elementsOf nodes
  | [], _, member => nomatch member
  | node :: rest, found, member => by
      rw [placedOf] at member
      rw [elementsOf]
      rcases List.mem_append.1 member with here | later
      · exact List.mem_append_left _ (mem_elements_of_mem_placed node found here)
      · exact List.mem_append_right _ (mem_elementsOf_of_mem_placedOf rest found later)

end

/-- Whether an element is a marker or stands inside of one. -/
def Placed.inMarker (placed : Placed) : Bool :=
  (placed.element :: placed.around).any fun element => Tag.markers.contains element.tag

def kept (element : Element) : Element :=
  { element with children := cleanAll (Tag.trimmedStarts.contains element.tag) element.children }

mutual

/-- Every element of a kept node is the kept form of an element outside of markers. -/
theorem exists_placed_of_mem_elements_clean? (first : Bool) {around : List Element}
    (outside : ∀ outer ∈ around, Tag.markers.contains outer.tag = false) :
    ∀ (node : Node) {cleaned : Node}, node.clean? first = some cleaned →
      ∀ held ∈ cleaned.elements, ∃ placed ∈ node.placed around,
        placed.inMarker = false ∧ held = kept placed.element
  | .text content, cleaned, cleans, held, member => by
      rw [clean?] at cleans
      split at cleans
      · cases cleans
      · cases cleans
        cases member
  | .element tag attributes children, cleaned, cleans, held, member => by
      rw [clean?, Option.ite_none_left_eq_some] at cleans
      obtain ⟨noMarker, cleans⟩ := cleans
      cases cleans
      have outsideHere : ∀ outer ∈ ⟨tag, attributes, children⟩ :: around,
          Tag.markers.contains outer.tag = false :=
        List.forall_mem_cons.2 ⟨Bool.eq_false_iff.2 noMarker, outside⟩
      rw [elements] at member
      rw [placed]
      rcases List.mem_cons.1 member with rfl | inner
      · refine ⟨_, List.mem_cons_self, ?_, rfl⟩
        exact List.any_eq_false.2 fun outer there => by rw [outsideHere outer there]; decide
      · obtain ⟨placed, there, apart, shape⟩ := exists_placed_of_mem_elementsOf_cleanAll
          (Tag.trimmedStarts.contains tag) outsideHere children held inner
        exact ⟨placed, List.mem_cons_of_mem _ there, apart, shape⟩

theorem exists_placed_of_mem_elementsOf_cleanAll (first : Bool) {around : List Element}
    (outside : ∀ outer ∈ around, Tag.markers.contains outer.tag = false) :
    ∀ (nodes : List Node), ∀ held ∈ elementsOf (cleanAll first nodes),
      ∃ placed ∈ placedOf around nodes, placed.inMarker = false ∧ held = kept placed.element
  | [], held, member => nomatch member
  | node :: rest, held, member => by
      rw [placedOf]
      rw [cleanAll] at member
      split at member
      · obtain ⟨placed, there, found⟩ :=
          exists_placed_of_mem_elementsOf_cleanAll first outside rest held member
        exact ⟨placed, List.mem_append_right _ there, found⟩
      · next cleaned cleans =>
          rw [elementsOf] at member
          rcases List.mem_append.1 member with here | later
          · obtain ⟨placed, there, found⟩ :=
              exists_placed_of_mem_elements_clean? first outside node cleans held here
            exact ⟨placed, List.mem_append_left _ there, found⟩
          · obtain ⟨placed, there, found⟩ :=
              exists_placed_of_mem_elementsOf_cleanAll false outside rest held later
            exact ⟨placed, List.mem_append_right _ there, found⟩

end

end Node

def Element.below (element : Element) : List Element :=
  Node.elementsOf element.children

def Element.leaves (element : Element) : List Text :=
  Node.leavesOf element.children

/-- Every element that is kept was there before, outside of the markers. -/
theorem Element.exists_placed_of_mem_below_clean {post element : Element}
    (member : element ∈ post.clean.below) :
    ∃ placed ∈ Node.placedOf [] post.children,
      placed.inMarker = false ∧ element = Node.kept placed.element :=
  Node.exists_placed_of_mem_elementsOf_cleanAll _ (List.forall_mem_nil _) _ element member

theorem Element.exists_of_mem_below_clean {post element : Element}
    (member : element ∈ post.clean.below) :
    ∃ original ∈ post.below, element = Node.kept original := by
  obtain ⟨placed, there, _, shape⟩ := exists_placed_of_mem_below_clean member
  exact ⟨placed.element, Node.mem_elementsOf_of_mem_placedOf _ placed there, shape⟩

end ForumMarkup
