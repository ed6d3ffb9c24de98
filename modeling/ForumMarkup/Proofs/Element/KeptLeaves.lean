import ForumMarkup.Proofs.Element.Below

/-!
Contract: the text leaves of a tree that was cleaned.

Main statements: `exists_of_mem_leaves_clean`, every kept leaf is what one leaf was cut
to, and `head?_textContent_ne`, the text of no kept element starts with a line feed.
-/

set_option autoImplicit false

namespace ForumMarkup

namespace Text

theorem trimStartingLine_suffix (t : Text) : trimStartingLine t <:+ t := by
  unfold trimStartingLine
  split
  · exact List.dropWhile_suffix _
  · exact List.suffix_refl _

/-- No line feed is left by the removal of blanks. -/
theorem head?_trimAsciiStart_ne (t : Text) : (trimAsciiStart t).head? ≠ some '\n' := by
  intro feed
  have stopped := List.head?_dropWhile_not isAsciiBlank t
  rw [trimAsciiStart] at feed
  rw [feed] at stopped
  exact absurd stopped (by decide)

theorem head?_trimStartingLine_ne (t : Text) : (trimStartingLine t).head? ≠ some '\n' := by
  unfold trimStartingLine
  split
  · exact head?_trimAsciiStart_ne _
  · next other =>
      intro feed
      obtain ⟨rest, rfl⟩ := List.head?_eq_some_iff.1 feed
      exact other rest rfl

theorem head?_flatten_ne {parts : List Text} {c : Char}
    (starts : ∀ part ∈ parts, part.head? ≠ some c) : parts.flatten.head? ≠ some c := by
  induction parts with
  | nil =>
      intro start
      cases start
  | cons part rest ih =>
      obtain ⟨here, later⟩ := List.forall_mem_cons.1 starts
      cases part with
      | nil => exact ih later
      | cons d tail => exact here

end Text

namespace Node

theorem cleanText_suffix (first : Bool) (content : Text) : cleanText first content <:+ content := by
  unfold cleanText
  cases first with
  | false => exact Text.trimStartingLine_suffix content
  | true => exact (List.dropWhile_suffix _).trans (Text.trimStartingLine_suffix content)

theorem head?_cleanText_ne (first : Bool) (content : Text) :
    (cleanText first content).head? ≠ some '\n' := by
  unfold cleanText
  cases first with
  | false => exact Text.head?_trimStartingLine_ne content
  | true => exact Text.head?_trimAsciiStart_ne _

mutual

theorem exists_of_mem_leaves_clean? (first : Bool) :
    ∀ (node : Node) {cleaned : Node}, node.clean? first = some cleaned →
      ∀ leaf ∈ cleaned.leaves, ∃ original ∈ node.leaves, ∃ opens, leaf = cleanText opens original
  | .text content, cleaned, cleans, leaf, member => by
      rw [clean?] at cleans
      split at cleans
      · cases cleans
      · next kept _ =>
          cases cleans
          exact ⟨content, List.mem_cons_self, first, List.mem_singleton.1 member⟩
  | .element tag attributes children, cleaned, cleans, leaf, member => by
      rw [clean?, Option.ite_none_left_eq_some] at cleans
      obtain ⟨_, cleans⟩ := cleans
      cases cleans
      exact exists_of_mem_leavesOf_cleanAll (Tag.trimmedStarts.contains tag) children leaf member

/-- Every kept leaf comes from a leaf of the post. -/
theorem exists_of_mem_leavesOf_cleanAll (first : Bool) :
    ∀ (nodes : List Node), ∀ leaf ∈ leavesOf (cleanAll first nodes),
      ∃ original ∈ leavesOf nodes, ∃ opens, leaf = cleanText opens original
  | [], leaf, member => nomatch member
  | node :: rest, leaf, member => by
      rw [leavesOf]
      rw [cleanAll] at member
      split at member
      · obtain ⟨original, there, shape⟩ := exists_of_mem_leavesOf_cleanAll first rest leaf member
        exact ⟨original, List.mem_append_right _ there, shape⟩
      · next cleaned cleans =>
          rw [leavesOf] at member
          rcases List.mem_append.1 member with here | later
          · obtain ⟨original, there, shape⟩ :=
              exists_of_mem_leaves_clean? first node cleans leaf here
            exact ⟨original, List.mem_append_left _ there, shape⟩
          · obtain ⟨original, there, shape⟩ :=
              exists_of_mem_leavesOf_cleanAll false rest leaf later
            exact ⟨original, List.mem_append_right _ there, shape⟩

end

mutual

theorem textContent_eq_flatten : ∀ node : Node, node.textContent = node.leaves.flatten
  | .text content => (List.append_nil content).symm
  | .element _ _ children => textContents_eq_flatten children

theorem textContents_eq_flatten : ∀ nodes : List Node, textContents nodes = (leavesOf nodes).flatten
  | [] => rfl
  | node :: rest => by
      rw [textContents, leavesOf, List.flatten_append, textContent_eq_flatten node,
        textContents_eq_flatten rest]

end

end Node

namespace Element

variable {post : Element}

/-- Every kept text leaf is what one of the leaves was cut to. -/
theorem exists_of_mem_leaves_clean {leaf : Text} (member : leaf ∈ post.clean.leaves) :
    ∃ original ∈ post.leaves, ∃ opens, leaf = Node.cleanText opens original :=
  Node.exists_of_mem_leavesOf_cleanAll _ _ leaf member

/-- The text of an element that is kept does not start with a line feed. -/
theorem head?_textContent_ne {element : Element} (member : element ∈ post.clean.below) :
    element.textContent.head? ≠ some '\n' := by
  obtain ⟨original, _, rfl⟩ := exists_of_mem_below_clean member
  rw [textContent, Node.textContents_eq_flatten]
  refine Text.head?_flatten_ne fun leaf inside => ?_
  obtain ⟨content, _, opens, rfl⟩ := Node.exists_of_mem_leavesOf_cleanAll _ _ leaf inside
  exact Node.head?_cleanText_ne opens content

end Element

end ForumMarkup
