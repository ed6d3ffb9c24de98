import ForumMarkup.Proofs.Element.Kept

/-!
Contract: trees that differ in how their text is cut into leaves.

Owns:
- `Element.Splits`, one leaf at any depth replaced by its two parts;
- `Node.Finer`, any number of leaves cut in two, which is closed under the constructors of
  trees;
- `Text.Seam`, where a leaf may be cut.

Main statement: `Finer.cleanAll`.  What is kept of the two trees differs in the same way, or
no more where the first part was all blank and the second one was trimmed in its place.
-/

set_option autoImplicit false

namespace ForumMarkup

/-- A leaf may be cut between the two texts: neither is empty, and they have no line feed
and no ampersand. -/
structure Text.Seam (front back : Text) : Prop where
  first : front ≠ []
  second : back ≠ []
  single : '\n' ∉ front ++ back
  plain : '&' ∉ front ++ back

namespace Node

/-- Among the nodes or below them, one text leaf is replaced by its two parts. -/
inductive Splits (front back : Text) : (nodes split : List Node) → Prop where
  | here (before after : List Node) :
      Splits front back (before ++ .text (front ++ back) :: after)
        (before ++ .text front :: .text back :: after)
  | inside {children split : List Node} (before after : List Node) (tag : String)
      (attributes : Attributes) (inner : Splits front back children split) :
      Splits front back (before ++ .element tag attributes children :: after)
        (before ++ .element tag attributes split :: after)

/-- Some text leaves among the nodes and below them are replaced by two parts. -/
inductive Finer : (nodes finer : List Node) → Prop where
  | nil : Finer [] []
  | text {rest finer : List Node} (content : Text) (behind : Finer rest finer) :
      Finer (.text content :: rest) (.text content :: finer)
  | element {children finerChildren rest finer : List Node} (tag : String)
      (attributes : Attributes) (inner : Finer children finerChildren)
      (behind : Finer rest finer) :
      Finer (.element tag attributes children :: rest)
        (.element tag attributes finerChildren :: finer)
  | cut {front back : Text} {rest finer : List Node} (seam : front.Seam back)
      (behind : Finer rest finer) :
      Finer (.text (front ++ back) :: rest) (.text front :: .text back :: finer)

mutual

theorem Finer.cons : ∀ (node : Node) {rest finer : List Node}, Finer rest finer →
    Finer (node :: rest) (node :: finer)
  | .text content, _, _, behind => .text content behind
  | .element tag attributes children, _, _, behind =>
      .element tag attributes (finer_refl children) behind

theorem finer_refl : ∀ nodes : List Node, Finer nodes nodes
  | [] => .nil
  | node :: rest => Finer.cons node (finer_refl rest)

end

theorem Finer.prepend {nodes finer : List Node} (behind : Finer nodes finer) :
    ∀ front : List Node, Finer (front ++ nodes) (front ++ finer)
  | [] => behind
  | node :: rest => .cons node (behind.prepend rest)

theorem Splits.finer {front back : Text} {nodes split : List Node} (seam : front.Seam back)
    (splits : Splits front back nodes split) : Finer nodes split := by
  induction splits with
  | here before after => exact Finer.prepend (.cut seam (finer_refl after)) before
  | inside before after tag attributes _ ih =>
      exact Finer.prepend (.element tag attributes ih (finer_refl after)) before

/-- Cutting leaves does not change the text of the nodes. -/
theorem Finer.textContents {nodes finer : List Node} (cuts : Finer nodes finer) :
    Node.textContents nodes = Node.textContents finer := by
  induction cuts with
  | nil => rfl
  | text content _ ih => rw [Node.textContents, Node.textContents, ih]
  | element tag attributes _ _ inner behind =>
      rw [Node.textContents, Node.textContents, textContent, textContent, inner, behind]
  | cut _ _ ih =>
      rw [Node.textContents, Node.textContents, Node.textContents, textContent, textContent,
        textContent, ih, List.append_assoc]

end Node

namespace Text.Seam

variable {front back : Text}

/-- A leaf that may be cut does not start with a line feed, and neither do its parts. -/
theorem noFeed (seam : front.Seam back) :
    (front ++ back).head? ≠ some '\n' ∧ front.head? ≠ some '\n' ∧ back.head? ≠ some '\n' := by
  have outside {t : Text} (subset : ∀ c ∈ t, c ∈ front ++ back) : t.head? ≠ some '\n' :=
    fun feed => seam.single (subset '\n' (List.mem_of_mem_head? feed))
  exact ⟨outside fun _ => id, outside fun _ => List.mem_append_left back,
    outside fun _ => List.mem_append_right front⟩

/-- What is left of a part after trimming can still stand in its place. -/
theorem ofSuffix (seam : front.Seam back) {kept : Text} (filled : kept ≠ [])
    (suffix : kept <:+ front) : kept.Seam back where
  first := filled
  second := seam.second
  single feed := seam.single (by
    rcases List.mem_append.1 feed with here | later
    · exact List.mem_append_left _ (suffix.subset here)
    · exact List.mem_append_right _ later)
  plain ampersand := seam.plain (by
    rcases List.mem_append.1 ampersand with here | later
    · exact List.mem_append_left _ (suffix.subset here)
    · exact List.mem_append_right _ later)

end Text.Seam

namespace Node

theorem cleanText_true_of_ne {content : Text} (noFeed : content.head? ≠ some '\n') :
    cleanText true content = Text.trimAsciiStart content := by
  unfold cleanText
  rw [Text.trimStartingLine_of_ne noFeed, if_pos rfl]

theorem clean?_of_cleanText {first : Bool} {content kept : Text} (filled : kept ≠ [])
    (same : cleanText first content = kept) :
    clean? first (.text content) = some (.text kept) := by
  obtain ⟨c, rest, rfl⟩ := List.exists_cons_of_ne_nil filled
  rw [clean?, same]

theorem cleanAll_of_none {first : Bool} {node : Node} (gone : node.clean? first = none)
    (rest : List Node) : Node.cleanAll first (node :: rest) = Node.cleanAll first rest := by
  rw [Node.cleanAll, gone]

theorem cleanAll_of_some {first : Bool} {node kept : Node} (cleans : node.clean? first = some kept)
    (rest : List Node) :
    Node.cleanAll first (node :: rest) = kept :: Node.cleanAll false rest := by
  rw [Node.cleanAll, cleans]

/-- What is kept of trees that differ in how their text is cut differs in the same way. -/
theorem Finer.cleanAll {nodes finer : List Node} (cuts : Finer nodes finer) :
    ∀ first : Bool, Finer (Node.cleanAll first nodes) (Node.cleanAll first finer) := by
  induction cuts with
  | nil => exact fun _ => .nil
  | text content _ ih =>
      intro first
      rw [Node.cleanAll, Node.cleanAll]
      cases clean? first (.text content) with
      | none => exact ih first
      | some kept => exact .cons kept (ih false)
  | element tag attributes _ _ inner behind =>
      intro first
      rw [Node.cleanAll, Node.cleanAll, clean?, clean?]
      by_cases marker : Tag.markers.contains tag = true
      · rw [if_pos marker, if_pos marker]
        exact behind first
      · rw [if_neg marker, if_neg marker]
        exact .element tag attributes (inner _) (behind false)
  | @cut front back rest finer seam _ ih =>
      intro first
      obtain ⟨wholeStart, frontStart, backStart⟩ := seam.noFeed
      have whole : front ++ back ≠ [] := List.append_ne_nil_of_left_ne_nil seam.first back
      have behindFirst : clean? false (.text back) = some (.text back) :=
        clean?_text seam.second backStart
      -- What is kept of the first part goes on with the second one, if there is something.
      have kept {start : Text} (filled : start ≠ []) (suffix : start <:+ front)
          (cleans : clean? first (.text (front ++ back)) = some (.text (start ++ back)))
          (begins : clean? first (.text front) = some (.text start)) :
          Finer (Node.cleanAll first (.text (front ++ back) :: rest))
            (Node.cleanAll first (.text front :: .text back :: finer)) := by
        rw [cleanAll_of_some cleans, cleanAll_of_some begins, cleanAll_of_some behindFirst]
        exact .cut (seam.ofSuffix filled suffix) (ih false)
      cases first with
      | false =>
          exact kept seam.first (List.suffix_refl front) (clean?_text whole wholeStart)
            (clean?_text seam.first frontStart)
      | true =>
          have trimmed : Text.trimAsciiStart (front ++ back)
              = if (Text.trimAsciiStart front).isEmpty then Text.trimAsciiStart back
                else Text.trimAsciiStart front ++ back := List.dropWhile_append
          by_cases blank : Text.trimAsciiStart front = []
          · -- The first part is dropped, so that the second one comes first in its place.
            have gone : clean? true (.text front) = none := by
              rw [clean?, cleanText_true_of_ne frontStart, blank]
            have same : clean? true (.text (front ++ back)) = clean? true (.text back) := by
              rw [clean?, clean?, cleanText_true_of_ne wholeStart, cleanText_true_of_ne backStart,
                trimmed, blank]
              rfl
            rw [cleanAll_of_none gone, Node.cleanAll, Node.cleanAll, same]
            cases clean? true (.text back) with
            | none => exact ih true
            | some kept => exact .cons kept (ih false)
          · have filled : (Text.trimAsciiStart front).isEmpty = false := by simpa using blank
            rw [filled, if_neg Bool.false_ne_true] at trimmed
            exact kept blank (List.dropWhile_suffix _)
              (clean?_of_cleanText (by simp [blank])
                ((cleanText_true_of_ne wholeStart).trans trimmed))
              (clean?_of_cleanText blank (cleanText_true_of_ne frontStart))

end Node

/-- One text leaf below the root of a post is replaced by its two parts. -/
structure Element.Splits (front back : Text) (post split : Element) : Prop where
  tag : split.tag = post.tag
  attributes : split.attributes = post.attributes
  children : Node.Splits front back post.children split.children

end ForumMarkup
