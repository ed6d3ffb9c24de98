import ForumMarkup.Proofs.Element.Visited

/-!
Contract: elements told apart by their places, and the lists around them.

Owns:
- `Site`, an element with its number in document order, and `Located`, an element at its site
  with the sites around it;
- `Located.lists`, the lists around an element, and `Located.listOrder?`, the number of the
  innermost one.

Main statements: `placed_locatedOf`, apart from the numbers these are the elements with what is
around them; and `innerList_locatedOf`, the innermost list around an element of some nodes is
the one around the nodes, or has a number that the nodes give.

Two lists of a post may be equal as elements, so that only their numbers say in which of them
an item stands.
-/

set_option autoImplicit false

namespace ForumMarkup

variable {ε : Type}

/-- An element with the number of elements before it in document order. -/
structure Site where
  order : Nat
  element : Element

namespace Site

/-- The lists among some sites. -/
def lists (sites : List Site) : List Site :=
  sites.filter fun site => site.element.hasTag Tag.list

/-- The number of the first list among some sites. -/
def listOrder? (sites : List Site) : Option Nat :=
  (lists sites).head?.map order

end Site

/-- An element at its site, with the sites around it, the innermost one first. -/
structure Located where
  site : Site
  around : List Site

namespace Located

def placed (place : Located) : Node.Placed :=
  ⟨place.site.element, place.around.map Site.element⟩

/-- The lists around the element, the innermost one first. -/
def lists (place : Located) : List Site :=
  Site.lists place.around

/-- The number of the innermost list around the element. -/
def listOrder? (place : Located) : Option Nat :=
  Site.listOrder? place.around

def isItem (place : Located) : Bool :=
  place.site.element.hasTag Tag.item

def isListPart (place : Located) : Bool :=
  place.site.element.hasTag Tag.list || place.isItem

end Located

namespace Node

mutual

/-- The elements of a node behind `count` others, in document order. -/
def located (around : List Site) (count : Nat) : Node → List Located
  | .text _ => []
  | .element tag attributes children =>
      let site : Site := ⟨count, ⟨tag, attributes, children⟩⟩
      ⟨site, around⟩ :: locatedOf (site :: around) (count + 1) children

def locatedOf (around : List Site) (count : Nat) : List Node → List Located
  | [] => []
  | node :: rest =>
      node.located around count ++ locatedOf around (count + node.elements.length) rest

end

mutual

theorem placed_located : ∀ (node : Node) (around : List Site) (count : Nat),
    (node.located around count).map Located.placed = node.placed (around.map Site.element)
  | .text _, _, _ => rfl
  | .element tag attributes children, around, count => by
      rw [located, placed, List.map_cons, placed_locatedOf children]
      rfl

theorem placed_locatedOf : ∀ (nodes : List Node) (around : List Site) (count : Nat),
    (locatedOf around count nodes).map Located.placed
      = placedOf (around.map Site.element) nodes
  | [], _, _ => rfl
  | node :: rest, around, count => by
      rw [locatedOf, placedOf, List.map_append, placed_located node, placed_locatedOf rest]

end

/-- Where the innermost list around an element is not the one around the node, it is in the
node, which gives the numbers from `count` to `bound`. -/
def InnerList (around : List Site) (count bound : Nat) (place : Located) : Prop :=
  place.listOrder? = Site.listOrder? around ∨
    ∃ order, place.listOrder? = some order ∧ count ≤ order ∧ order < bound

theorem InnerList.widen {around : List Site} {count bound wider : Nat} {place : Located}
    (inner : InnerList around count bound place) {start : Nat} (lower : start ≤ count)
    (upper : bound ≤ wider) : InnerList around start wider place := by
  refine inner.imp_right ?_
  rintro ⟨order, same, above, below⟩
  exact ⟨order, same, by omega, by omega⟩

/-- Inside of an element the innermost list is this element, or the one around it. -/
theorem InnerList.outward {around : List Site} {site : Site} {bound : Nat} {place : Located}
    (inner : InnerList (site :: around) (site.order + 1) bound place) (room : site.order < bound) :
    InnerList around site.order bound place := by
  rcases inner with same | ⟨order, same, above, below⟩
  · rw [Site.listOrder?, Site.lists, List.filter_cons] at same
    split at same
    · exact .inr ⟨site.order, same, Nat.le_refl _, room⟩
    · exact .inl same
  · exact .inr ⟨order, same, by omega, below⟩

mutual

theorem innerList_located : ∀ (node : Node) (around : List Site) (count : Nat),
    ∀ place ∈ node.located around count,
      InnerList around count (count + node.elements.length) place
  | .text _, _, _, _, member => nomatch member
  | .element tag attributes children, around, count, place, member => by
      rw [located] at member
      rw [elements, List.length_cons]
      rcases List.mem_cons.1 member with rfl | below
      · exact .inl rfl
      · have inner := innerList_locatedOf children _ (count + 1) place below
        exact InnerList.outward (inner.widen (Nat.le_refl _) (by omega)) (by dsimp only; omega)

theorem innerList_locatedOf : ∀ (nodes : List Node) (around : List Site) (count : Nat),
    ∀ place ∈ locatedOf around count nodes,
      InnerList around count (count + (elementsOf nodes).length) place
  | [], _, _, _, member => nomatch member
  | node :: rest, around, count, place, member => by
      rw [locatedOf] at member
      rw [elementsOf, List.length_append]
      rcases List.mem_append.1 member with here | later
      · exact (innerList_located node around count place here).widen (Nat.le_refl _) (by omega)
      · exact (innerList_locatedOf rest around _ place later).widen (by omega) (by omega)

end

end Node

end ForumMarkup
