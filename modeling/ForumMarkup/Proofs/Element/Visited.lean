import ForumMarkup.Element.Clean
import ForumMarkup.Entity.Decode
import ForumMarkup.Lookup
import ForumMarkup.Proofs.Element.Below
import ForumMarkup.Rule

/-!
Contract: the elements that a conversion looks at, and the questions they raise.

Owns:
- `Element.isReplaced`, whether something else is written in place of what an element
  holds, and `Element.lookups`, the questions of one element;
- `Element.visited`, the elements with nothing replaced around them.

Main statements: `visited_element`, the elements visited inside of an element, and
`mem_below_of_mem_visited`.

None of this knows how a span is laid out.
-/

set_option autoImplicit false

namespace ForumMarkup

variable {ε : Type}

def isFound {α : Type} : Except ε (Option α) → Bool
  | .ok (some _) => true
  | _ => false

namespace Element

/-- Whether something is written in place of the content of an element: always of code,
images and attachments, of a video that is identified, of a link that shows its own
address, and of a smilie that is known. -/
def isReplaced (resolver : Resolver ε) (element : Element) : Bool :=
  match Rule.ofTag? element.tag with
  | some .code | some .image | some .attachment => true
  | some .video => (element.attributes.nonEmpty? Key.id).isSome
  | some .url =>
      (element.attributes.get? Key.url).all fun address =>
        Text.trim element.textContent = address
  | some .smilie => isFound (resolver (.smilie element.textContent))
  | _ => false

theorem not_isReplaced_of_noRule {element : Element} (noRule : Rule.ofTag? element.tag = none)
    (resolver : Resolver ε) : element.isReplaced resolver = false := by
  rw [isReplaced, noRule]

/-- The question after the post that a quote names by its number. -/
def postLookup? (element : Element) : Option Lookup :=
  (element.attributes.number? Key.postId).map .quotedPost

/-- The question after the user that a quote names by their number. -/
def userLookup? (element : Element) : Option Lookup :=
  (element.attributes.number? Key.userId).map .username

def hasKnownPost (resolver : Resolver ε) (element : Element) : Bool :=
  (element.attributes.number? Key.postId).any fun postId => isFound (resolver (.quotedPost postId))

/-- The questions of an element, in order. The user of a quote is asked for unless the
quoted post is known. -/
def lookups (resolver : Resolver ε) (element : Element) : List Lookup :=
  match Rule.ofTag? element.tag with
  | some .url =>
      [.url (Entity.decode
        ((element.attributes.get? Key.url).getD (Text.trim element.textContent)))]
  | some .smilie => [.smilie element.textContent]
  | some .quote =>
      element.postLookup?.toList
        ++ if element.hasKnownPost resolver then [] else element.userLookup?.toList
  | some .attachment =>
      ((element.attributes.nonEmpty? Key.filename).map fun filename =>
        .upload filename (element.attributes.number? Key.index)).toList
  | _ => []

end Element

namespace Node

/-- Whether nothing around the element is replaced. -/
def Placed.isVisited (resolver : Resolver ε) (placed : Placed) : Bool :=
  placed.around.all fun outer => !outer.isReplaced resolver

/-- The elements of a node with nothing replaced around them. -/
def visited (resolver : Resolver ε) (around : List Element) (node : Node) : List Element :=
  ((node.placed around).filter (·.isVisited resolver)).map Placed.element

def visitedOf (resolver : Resolver ε) (around : List Element) (nodes : List Node) : List Element :=
  ((placedOf around nodes).filter (·.isVisited resolver)).map Placed.element

variable (resolver : Resolver ε) {around : List Element}

theorem visitedOf_cons (node : Node) (rest : List Node) :
    visitedOf resolver around (node :: rest)
      = visited resolver around node ++ visitedOf resolver around rest := by
  rw [visitedOf, placedOf, List.filter_append, List.map_append]
  rfl

mutual

/-- Nothing inside of a replaced element is visited. -/
theorem placed_closed {around : List Element}
    (closed : ∃ outer ∈ around, outer.isReplaced resolver = true) :
    ∀ node : Node, ∀ inner ∈ node.placed around, inner.isVisited resolver = false
  | .text _, inner, member => nomatch member
  | .element tag attributes children, inner, member => by
      rw [placed] at member
      rcases List.mem_cons.1 member with rfl | below
      · simpa [Placed.isVisited] using closed
      · obtain ⟨outer, there, replaced⟩ := closed
        exact placedOf_closed ⟨outer, List.mem_cons_of_mem _ there, replaced⟩ children inner below

theorem placedOf_closed {around : List Element}
    (closed : ∃ outer ∈ around, outer.isReplaced resolver = true) :
    ∀ nodes : List Node, ∀ inner ∈ placedOf around nodes, inner.isVisited resolver = false
  | [], inner, member => nomatch member
  | node :: rest, inner, member => by
      rw [placedOf] at member
      rcases List.mem_append.1 member with here | later
      · exact placed_closed closed node inner here
      · exact placedOf_closed closed rest inner later

end

/-- With nothing replaced around it an element is visited, and what it holds unless this
is replaced. -/
theorem visited_element (visible : ∀ outer ∈ around, outer.isReplaced resolver = false)
    (tag : String) (attributes : Attributes) (children : List Node) :
    let element : Element := ⟨tag, attributes, children⟩
    visited resolver around (.element tag attributes children)
      = element :: if element.isReplaced resolver then []
          else visitedOf resolver (element :: around) children := by
  intro element
  have here : Placed.isVisited resolver ⟨element, around⟩ = true := by
    simpa [Placed.isVisited] using visible
  rw [visited, placed, List.filter_cons_of_pos here, List.map_cons]
  split
  · next replaced =>
      have none : (placedOf (element :: around) children).filter (·.isVisited resolver) = [] := by
        refine List.filter_eq_nil_iff.2 fun inner member => ?_
        rw [placedOf_closed resolver ⟨element, List.mem_cons_self, replaced⟩ children inner member]
        exact Bool.false_ne_true
      rw [none, List.map_nil]
  · rfl

end Node

/-- The elements below a post with nothing replaced around them, in document order. -/
def Element.visited (resolver : Resolver ε) (post : Element) : List Element :=
  Node.visitedOf resolver [] post.children

theorem Element.mem_below_of_mem_visited {resolver : Resolver ε} {post element : Element}
    (member : element ∈ post.visited resolver) : element ∈ post.below := by
  obtain ⟨placed, visible, rfl⟩ := List.mem_map.1 member
  exact Node.mem_elementsOf_of_mem_placedOf _ _ (List.mem_filter.1 visible).1

end ForumMarkup
