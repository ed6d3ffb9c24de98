import Mathlib.Logic.Relation
import ForumMarkup.Element.Post
import ForumMarkup.Markdown
import ForumMarkup.Proofs.Element.Kept
import ForumMarkup.Proofs.Element.KeptLeaves

/-!
Contract: cleaning gives clean trees, changes no others, and looks at no markers.

Owns:
- `Element.IsClean`, trees without markers and without the blank text that only lays out the
  source;
- `Element.MarkerMore`, one marker more somewhere in a tree, and `Element.unmarked`, a tree
  without all of its markers;
- `Text.inked`, the characters of a text that are no ASCII blanks.

Main statement: `clean_projects`.

Whether a leaf comes first in an item depends on what is kept before it, so the condition on
the nodes of an element says whether they open a list or an item.
-/

set_option autoImplicit false

namespace ForumMarkup

namespace Text

/-- The characters that are no ASCII blanks, in order. -/
def inked (t : Text) : Text :=
  t.filter fun c => !isAsciiBlank c

theorem inked_append (front back : Text) : inked (front ++ back) = inked front ++ inked back :=
  List.filter_append ..

theorem inked_trimAsciiStart (t : Text) : inked (trimAsciiStart t) = inked t := by
  induction t with
  | nil => rfl
  | cons c rest ih =>
      by_cases blank : isAsciiBlank c = true
      · rw [trimAsciiStart, List.dropWhile_cons_of_pos blank, inked, inked,
          List.filter_cons_of_neg (by rw [blank]; decide)]
        exact ih
      · rw [trimAsciiStart, List.dropWhile_cons_of_neg blank]

theorem inked_trimStartingLine (t : Text) : inked (trimStartingLine t) = inked t := by
  unfold trimStartingLine
  split
  · exact inked_trimAsciiStart _
  · rfl

/-- A text that is cut down to nothing has no other characters than blanks. -/
theorem inked_cleanText (first : Bool) (content : Text) :
    inked (Node.cleanText first content) = inked content := by
  unfold Node.cleanText
  cases first with
  | false => exact inked_trimStartingLine content
  | true => exact (inked_trimAsciiStart _).trans (inked_trimStartingLine content)

end Text

namespace Node

/-- The first of the nodes is no text that starts with an ASCII blank. -/
def OpensInked (nodes : List Node) : Prop :=
  ∀ content, nodes.head? = some (.text content) →
    ∀ c ∈ content.head?, Text.isAsciiBlank c = false

/-- Nodes as cleaning leaves them; `first` says that they open a list or an item. -/
structure Clean (first : Bool) (nodes : List Node) : Prop where
  unmarked : ∀ element ∈ elementsOf nodes, element.tag ∉ Tag.markers
  filled : ∀ leaf ∈ leavesOf nodes, leaf ≠ [] ∧ leaf.head? ≠ some '\n'
  trimmed : ∀ element ∈ elementsOf nodes, element.tag ∈ Tag.trimmedStarts →
    OpensInked element.children
  opens : first = true → OpensInked nodes

end Node

/-- A tree without markers, empty leaves and leaves that start with a line feed below its
root, in which no list and no item, the root included, opens with an ASCII blank. -/
structure Element.IsClean (post : Element) : Prop where
  unmarked : ∀ element ∈ post.below, element.tag ∉ Tag.markers
  filled : ∀ leaf ∈ post.leaves, leaf ≠ [] ∧ leaf.head? ≠ some '\n'
  trimmed : ∀ element ∈ post :: post.below, element.tag ∈ Tag.trimmedStarts →
    Node.OpensInked element.children

theorem Element.isClean_iff {post : Element} :
    post.IsClean ↔ Node.Clean (Tag.trimmedStarts.contains post.tag) post.children := by
  constructor
  · rintro ⟨unmarked, filled, trimmed⟩
    obtain ⟨root, inner⟩ := List.forall_mem_cons.1 trimmed
    exact ⟨unmarked, filled, inner, fun opens => root (by simpa using opens)⟩
  · rintro ⟨unmarked, filled, trimmed, opens⟩
    exact ⟨unmarked, filled, List.forall_mem_cons.2 ⟨fun opening => opens (by simpa using opening),
      trimmed⟩⟩

namespace Node

/-! ### What is kept is clean -/

mutual

theorem ne_nil_of_mem_leaves_clean? (first : Bool) :
    ∀ (node : Node) {cleaned : Node}, node.clean? first = some cleaned →
      ∀ leaf ∈ cleaned.leaves, leaf ≠ []
  | .text content, cleaned, cleans, leaf, member => by
      rw [clean?] at cleans
      split at cleans
      · cases cleans
      · next kept filled =>
          cases cleans
          rw [List.mem_singleton.1 member]
          exact filled
  | .element tag attributes children, cleaned, cleans, leaf, member => by
      rw [clean?, Option.ite_none_left_eq_some] at cleans
      obtain ⟨_, cleans⟩ := cleans
      cases cleans
      exact ne_nil_of_mem_leavesOf_cleanAll _ children leaf member

theorem ne_nil_of_mem_leavesOf_cleanAll (first : Bool) :
    ∀ (nodes : List Node), ∀ leaf ∈ leavesOf (cleanAll first nodes), leaf ≠ []
  | [], leaf, member => nomatch member
  | node :: rest, leaf, member => by
      rw [cleanAll] at member
      split at member
      · exact ne_nil_of_mem_leavesOf_cleanAll first rest leaf member
      · next cleaned cleans =>
          rw [leavesOf] at member
          rcases List.mem_append.1 member with here | later
          · exact ne_nil_of_mem_leaves_clean? first node cleans leaf here
          · exact ne_nil_of_mem_leavesOf_cleanAll false rest leaf later

end

/-- What is dropped before the first node that is kept does not count as coming first. -/
theorem opensInked_cleanAll (nodes : List Node) : OpensInked (cleanAll true nodes) := by
  induction nodes with
  | nil => exact nofun
  | cons node rest ih =>
      rw [cleanAll]
      split
      · exact ih
      · next kept cleans =>
          intro content head c start
          cases node with
          | element tag attributes children =>
              rw [clean?, Option.ite_none_left_eq_some] at cleans
              obtain ⟨_, cleans⟩ := cleans
              cases cleans
              cases head
          | text original =>
              rw [clean?] at cleans
              split at cleans
              · cases cleans
              · cases cleans
                cases head
                have stopped := List.head?_dropWhile_not Text.isAsciiBlank
                  (Text.trimStartingLine original)
                have same : (Text.trimStartingLine original).dropWhile Text.isAsciiBlank
                    = cleanText true original := rfl
                rw [same, Option.mem_def.1 start] at stopped
                simpa using stopped

/-- An element that cleaning leaves stood outside of markers. -/
theorem exists_outside_of_mem_elementsOf_cleanAll (first : Bool) {nodes : List Node}
    {element : Element} (member : element ∈ elementsOf (cleanAll first nodes)) :
    ∃ placed : Placed, placed.inMarker = false ∧ element = kept placed.element := by
  have none : ∀ outer ∈ ([] : List Element), Tag.markers.contains outer.tag = false := nofun
  obtain ⟨placed, _, outside, shape⟩ :=
    exists_placed_of_mem_elementsOf_cleanAll first none nodes element member
  exact ⟨placed, outside, shape⟩

/-- Cleaning leads to clean trees. -/
theorem clean_cleanAll (first : Bool) (nodes : List Node) : Clean first (cleanAll first nodes) where
  unmarked element member := by
    obtain ⟨placed, outside, rfl⟩ := exists_outside_of_mem_elementsOf_cleanAll first member
    rw [Placed.inMarker, List.any_cons, Bool.or_eq_false_iff] at outside
    show placed.element.tag ∉ Tag.markers
    simpa using outside.1
  filled leaf member := by
    refine ⟨ne_nil_of_mem_leavesOf_cleanAll first nodes leaf member, ?_⟩
    obtain ⟨original, _, opens, rfl⟩ := exists_of_mem_leavesOf_cleanAll first nodes leaf member
    exact head?_cleanText_ne opens original
  trimmed element member opening := by
    obtain ⟨placed, _, rfl⟩ := exists_outside_of_mem_elementsOf_cleanAll first member
    have starts : Tag.trimmedStarts.contains placed.element.tag = true :=
      List.contains_iff_mem.2 opening
    rw [kept, starts]
    exact opensInked_cleanAll _
  opens starts := by
    rw [starts]
    exact opensInked_cleanAll nodes

/-! ### What is clean is kept -/

namespace Clean

variable {first : Bool} {node : Node} {nodes : List Node}

theorem tail (clean : Clean first (node :: nodes)) : Clean false nodes where
  unmarked element member := clean.unmarked element (List.mem_append_right _ member)
  filled leaf member := clean.filled leaf (List.mem_append_right _ member)
  trimmed element member := clean.trimmed element (List.mem_append_right _ member)
  opens := nofun

/-- The children of an element are clean as its tag asks for. -/
theorem children {tag : String} {attributes : Attributes} {children : List Node}
    (clean : Clean first (.element tag attributes children :: nodes)) :
    Clean (Tag.trimmedStarts.contains tag) children where
  unmarked element member :=
    clean.unmarked element (List.mem_append_left _ (List.mem_cons_of_mem _ member))
  filled leaf member := clean.filled leaf (List.mem_append_left _ member)
  trimmed element member :=
    clean.trimmed element (List.mem_append_left _ (List.mem_cons_of_mem _ member))
  opens starts :=
    clean.trimmed ⟨tag, attributes, children⟩ (List.mem_append_left _ List.mem_cons_self)
      (List.contains_iff_mem.1 starts)

end Clean

mutual

theorem clean?_of_clean (first : Bool) :
    ∀ (node : Node) {rest : List Node}, Clean first (node :: rest) → node.clean? first = some node
  | .text content, rest, clean => by
      obtain ⟨filled, start⟩ := clean.filled content List.mem_cons_self
      exact clean?_of_starts filled start fun starts => clean.opens starts content rfl
  | .element tag attributes children, rest, clean => by
      have noMarker : Tag.markers.contains tag = false := by
        have outside := clean.unmarked ⟨tag, attributes, children⟩
          (List.mem_append_left _ List.mem_cons_self)
        simpa using outside
      exact clean?_element noMarker (cleanAll_of_clean _ children clean.children) attributes first

theorem cleanAll_of_clean (first : Bool) :
    ∀ nodes : List Node, Clean first nodes → cleanAll first nodes = nodes
  | [], _ => rfl
  | node :: rest, clean => by
      rw [cleanAll, clean?_of_clean first node clean]
      dsimp only
      rw [cleanAll_of_clean false rest clean.tail]

end

/-! ### Markers -/

/-- One marker more stands somewhere among the nodes or below them. -/
inductive MarkerMore : (nodes more : List Node) → Prop where
  | here {tag : String} (marker : tag ∈ Tag.markers) (attributes : Attributes)
      (children nodes : List Node) : MarkerMore nodes (.element tag attributes children :: nodes)
  | later {nodes more : List Node} (node : Node) (behind : MarkerMore nodes more) :
      MarkerMore (node :: nodes) (node :: more)
  | inside {children more : List Node} (tag : String) (attributes : Attributes)
      (rest : List Node) (inner : MarkerMore children more) :
      MarkerMore (.element tag attributes children :: rest) (.element tag attributes more :: rest)

/-- What is kept of nodes does not depend on the markers among them. -/
theorem MarkerMore.cleanAll_eq {nodes more : List Node} (marked : MarkerMore nodes more) :
    ∀ first : Bool, cleanAll first more = cleanAll first nodes := by
  induction marked with
  | here marker attributes children nodes =>
      intro first
      rw [cleanAll, clean?, if_pos (List.contains_iff_mem.2 marker)]
  | later node behind ih =>
      intro first
      rw [cleanAll, cleanAll]
      cases node.clean? first with
      | none => exact ih first
      | some kept => exact congrArg _ (ih false)
  | inside tag attributes rest inner ih =>
      intro first
      rw [cleanAll, cleanAll, clean?, clean?, ih]

mutual

/-- The node without the markers below it, and nothing if it is a marker. -/
def unmarked : Node → List Node
  | .text content => [.text content]
  | .element tag attributes children =>
      if Tag.markers.contains tag then [] else [.element tag attributes (unmarkedOf children)]

def unmarkedOf : List Node → List Node
  | [] => []
  | node :: rest => node.unmarked ++ unmarkedOf rest

end

mutual

/-- Cleaning takes no other characters from the text outside of the markers than ASCII
blanks. -/
theorem inked_clean? (first : Bool) : ∀ node : Node,
    Text.inked ((node.clean? first).elim [] textContent) = Text.inked (textContents node.unmarked)
  | .text content => by
      have cut := Text.inked_cleanText first content
      rw [clean?, unmarked, textContents, textContents, List.append_nil, textContent]
      split
      · next none =>
          rw [none] at cut
          exact cut
      · exact cut
  | .element tag attributes children => by
      rw [clean?, unmarked]
      by_cases marker : Tag.markers.contains tag = true
      · rw [if_pos marker, if_pos marker]
        rfl
      · rw [if_neg marker, if_neg marker, textContents, textContents, List.append_nil,
          textContent]
        exact inked_cleanAll _ children

theorem inked_cleanAll (first : Bool) : ∀ nodes : List Node,
    Text.inked (textContents (cleanAll first nodes)) = Text.inked (textContents (unmarkedOf nodes))
  | [] => rfl
  | node :: rest => by
      have here := inked_clean? first node
      rw [cleanAll, unmarkedOf, textContents_append, Text.inked_append, ← here]
      cases node.clean? first with
      | none => exact inked_cleanAll first rest
      | some kept =>
          show Text.inked (textContents (kept :: cleanAll false rest)) = _
          rw [textContents, Text.inked_append, inked_cleanAll false rest]
          rfl

end

end Node

/-- One marker more stands somewhere below the root of a tree. -/
structure Element.MarkerMore (post more : Element) : Prop where
  tag : more.tag = post.tag
  attributes : more.attributes = post.attributes
  children : Node.MarkerMore post.children more.children

def Element.unmarked (post : Element) : Element :=
  { post with children := Node.unmarkedOf post.children }

theorem Element.MarkerMore.clean_eq {post more : Element} (marked : post.MarkerMore more) :
    more.clean = post.clean := by
  unfold Element.clean
  rw [marked.tag, marked.attributes, marked.children.cleanAll_eq]

/-- Trees that differ in markers alone have the same clean tree. -/
theorem Element.clean_eq_of_eqvGen {post other : Element}
    (marked : Relation.EqvGen Element.MarkerMore post other) : other.clean = post.clean := by
  induction marked with
  | rel _ _ one => exact one.clean_eq
  | refl => rfl
  | symm _ _ _ ih => exact ih.symm
  | trans _ _ _ _ _ ih ih' => exact ih'.trans ih

theorem Element.isClean_clean (post : Element) : post.clean.IsClean :=
  Element.isClean_iff.2 (Node.clean_cleanAll _ post.children)

theorem Element.clean_eq_self {post : Element} (clean : post.IsClean) : post.clean = post := by
  unfold Element.clean
  rw [Node.cleanAll_of_clean _ _ (Element.isClean_iff.1 clean)]

/-- Cleaning is a projection onto the clean trees: it gives a clean tree and changes exactly
those that are not clean, so that it may be repeated and its result is converted like the
tree itself. However many markers are put in or taken out, wherever they stand and whatever
they hold, the result is the same; and of the text outside of the markers all is kept but
ASCII blanks. -/
theorem clean_projects (post : Element) :
    post.clean.IsClean ∧ (post.clean = post ↔ post.IsClean) ∧ post.clean.clean = post.clean ∧
      (∀ {ε : Type} (options : Options) (resolver : Resolver ε),
        (post.clean.toMarkdown options).asked resolver = (post.toMarkdown options).asked resolver ∧
          post.clean.convert options resolver = post.convert options resolver) ∧
      (∀ other, Relation.EqvGen Element.MarkerMore post other → other.clean = post.clean) ∧
      Text.inked post.clean.textContent = Text.inked post.unmarked.textContent := by
  have idempotent : post.clean.clean = post.clean := Element.clean_eq_self post.isClean_clean
  have planned (options : Options) : post.clean.plan options = post.plan options := by
    unfold Element.plan
    rw [idempotent]
  refine ⟨post.isClean_clean, ⟨fun same => ?_, Element.clean_eq_self⟩, idempotent, ?_, ?_, ?_⟩
  · rw [← same]
    exact post.isClean_clean
  · intro ε options resolver
    unfold Element.convert Element.toMarkdown
    rw [planned]
    exact ⟨rfl, rfl⟩
  · exact fun other marked => Element.clean_eq_of_eqvGen marked
  · exact Node.inked_cleanAll _ post.children

def typedItem : Element :=
  .post [.list [[.text " a".toList]], .text "b".toList]

/-- The same list in a stored post, with the bracket text in markers. -/
def storedItem : Element :=
  .post [.wrap Tag.list [.wrap Tag.startMarker [.text "[list]".toList],
    .wrap Tag.item [.wrap Tag.startMarker [.text "[*]".toList, .lineBreak], .text " a".toList]],
    .text "b".toList]

theorem clean_projects_storedItem :
    Relation.EqvGen Element.MarkerMore storedItem typedItem ∧
      typedItem.clean = storedItem.clean ∧
      typedItem.clean = .post [.list [[.text "a".toList]], .text "b".toList] := by
  have inItem : Element.MarkerMore typedItem (.post [.wrap Tag.list [.wrap Tag.item
      [.wrap Tag.startMarker [.text "[*]".toList, .lineBreak], .text " a".toList]],
      .text "b".toList]) :=
    ⟨rfl, rfl, .inside _ _ _ (.inside _ _ _ (.here (by decide) _ _ _))⟩
  have inList : Element.MarkerMore (.post [.wrap Tag.list [.wrap Tag.item
      [.wrap Tag.startMarker [.text "[*]".toList, .lineBreak], .text " a".toList]],
      .text "b".toList]) storedItem :=
    ⟨rfl, rfl, .inside _ _ _ (.here (by decide) _ _ _)⟩
  have marked : Relation.EqvGen Element.MarkerMore storedItem typedItem :=
    .symm _ _ (.trans _ _ _ (.rel _ _ inItem) (.rel _ _ inList))
  obtain ⟨_, _, _, _, unmarks, _⟩ := clean_projects storedItem
  exact ⟨marked, unmarks typedItem marked, rfl⟩

end ForumMarkup
