import ForumMarkup.Element.Clean

/-!
Contract: trees that cleaning leaves as they are.

Main statement: `cleanAll_eq_self`, with one lemma for each kind of node that is
kept as it is.
-/

set_option autoImplicit false

namespace ForumMarkup

namespace Text

theorem trimStartingLine_of_head? {t : Text} (feed : t.head? = some '\n') :
    trimStartingLine t = trimAsciiStart t := by
  obtain ⟨rest, rfl⟩ := List.head?_eq_some_iff.1 feed
  rfl

theorem trimStartingLine_of_ne {t : Text} (noFeed : t.head? ≠ some '\n') :
    trimStartingLine t = t := by
  unfold trimStartingLine
  split
  · exact absurd rfl noFeed
  · rfl

end Text

namespace Node

/-- Text is kept that starts with no line feed and, where it opens a list or an item, with no
ASCII blank. -/
theorem clean?_of_starts {content : Text} {first : Bool} (filled : content ≠ [])
    (start : content.head? ≠ some '\n')
    (opens : first = true → ∀ c ∈ content.head?, Text.isAsciiBlank c = false) :
    clean? first (.text content) = some (.text content) := by
  obtain ⟨c, rest, rfl⟩ := List.exists_cons_of_ne_nil filled
  have same : cleanText first (c :: rest) = c :: rest := by
    unfold cleanText
    rw [Text.trimStartingLine_of_ne start]
    cases first with
    | false => rfl
    | true => exact List.dropWhile_cons_of_neg (by rw [opens rfl c rfl]; decide)
  rw [clean?, same]

/-- Text that starts with no line feed is kept behind other nodes. -/
theorem clean?_text {content : Text} (filled : content ≠ []) (start : content.head? ≠ some '\n') :
    clean? false (.text content) = some (.text content) :=
  clean?_of_starts filled start nofun

/-- Text that starts with a character that is not blank is kept everywhere. -/
theorem clean?_solid {c : Char} (solid : Text.isBlank c = false) (rest : Text) (first : Bool) :
    clean? first (.text (c :: rest)) = some (.text (c :: rest)) := by
  have ascii : Text.isAsciiBlank c = false := by
    refine Bool.eq_false_iff.2 fun blank => ?_
    rw [Text.isBlank_of_isAsciiBlank blank] at solid
    cases solid
  refine clean?_of_starts (List.cons_ne_nil c rest) (fun feed => ?_) fun _ d start => ?_
  · rw [Option.some.inj feed] at ascii
    cases ascii
  · rwa [Option.some.inj start] at ascii

/-- An element that is no marker is kept around what is kept of its children. -/
theorem clean?_element {tag : String} (noMarker : Tag.markers.contains tag = false)
    {children kept : List Node} (inner : cleanAll (Tag.trimmedStarts.contains tag) children = kept)
    (attributes : Attributes) (first : Bool) :
    clean? first (.element tag attributes children) = some (.element tag attributes kept) := by
  rw [clean?, noMarker, inner]
  rfl

/-- Nodes that are kept one by one are kept in a row. -/
theorem cleanAll_eq_self {nodes : List Node} {first : Bool}
    (start : first = true → ∀ node ∈ nodes.head?, node.clean? true = some node)
    (kept : ∀ node ∈ nodes, node.clean? false = some node) : cleanAll first nodes = nodes := by
  induction nodes generalizing first with
  | nil => rfl
  | cons node rest ih =>
      obtain ⟨here, later⟩ := List.forall_mem_cons.1 kept
      have cleaned : node.clean? first = some node := by
        cases first with
        | false => exact here
        | true => exact start rfl node rfl
      have tail : cleanAll false rest = rest := ih (fun same => nomatch same) later
      rw [cleanAll, cleaned]
      dsimp only
      rw [tail]

end Node

end ForumMarkup
