import ForumMarkup.Proofs.Element.Kept
import ForumMarkup.Proofs.Markdown.BareSpans
import ForumMarkup.Proofs.Markdown.DirectPost
import ForumMarkup.Proofs.Markdown.LineEnds
import ForumMarkup.Proofs.Span.Direct
import ForumMarkup.Proofs.Text.Lines

/-!
Contract: the Markdown of lists inside lists.

Owns:
- `Listing` and `Entry`, lists of at least one entry, where an entry is a text and
  further lists;
- `Listing.lines`, their outline, one line for each entry.

Main statement: `convertPlain_listing`.
-/

set_option autoImplicit false

namespace ForumMarkup

mutual

/-- A list of at least one entry, ordered when its attributes have a type. -/
inductive Listing where
  | of (attributes : Attributes) (first : Entry) (rest : List Entry)

/-- An entry of a list, with the lists behind its text. -/
inductive Entry where
  | of (attributes : Attributes) (text : Text) (inner : List Listing)

end

/-! ### Nodes, texts and lines of a list -/

mutual

def Listing.toNode : Listing → Node
  | .of attributes first rest => .element Tag.list attributes (first.toNode :: entryNodes rest)

def Entry.toNode : Entry → Node
  | .of attributes text inner => .element Tag.item attributes (.text text :: listingNodes inner)

def entryNodes : List Entry → List Node
  | [] => []
  | entry :: rest => entry.toNode :: entryNodes rest

def listingNodes : List Listing → List Node
  | [] => []
  | listing :: rest => listing.toNode :: listingNodes rest

end

mutual

def Listing.texts : Listing → List Text
  | .of _ first rest => first.texts ++ entryTexts rest

def Entry.texts : Entry → List Text
  | .of _ text inner => text :: listingTexts inner

def entryTexts : List Entry → List Text
  | [] => []
  | entry :: rest => entry.texts ++ entryTexts rest

def listingTexts : List Listing → List Text
  | [] => []
  | listing :: rest => listing.texts ++ listingTexts rest

end

/-- What a line of an outline starts with: two spaces for each list around the list
it belongs to, and a bullet or the number of the entry. -/
def outlineMark (ordered : Bool) (depth place : Nat) : Text :=
  List.replicate (2 * depth) ' ' ++ (if ordered then Text.ofNat place ++ ['.'] else ['*']) ++ [' ']

mutual

/-- The outline of a list with `depth` lists around it. -/
def Listing.lines (depth : Nat) : Listing → List Text
  | .of attributes first rest =>
      let ordered := attributes.contains Key.type
      first.lines ordered depth 1 ++ entryLines ordered depth 2 rest

def Entry.lines (ordered : Bool) (depth place : Nat) : Entry → List Text
  | .of _ text inner =>
      (outlineMark ordered depth place ++ text) :: listingLines (depth + 1) inner

def entryLines (ordered : Bool) (depth place : Nat) : List Entry → List Text
  | [] => []
  | entry :: rest => entry.lines ordered depth place ++ entryLines ordered depth (place + 1) rest

def listingLines (depth : Nat) : List Listing → List Text
  | [] => []
  | listing :: rest => listing.lines depth ++ listingLines depth rest

end

/-- A text of one line with no reference in it, no blank at an end, and no end that is
spelled like a line break. -/
structure EntryText (text : Text) : Prop where
  single : '\n' ∉ text
  start : ∃ c rest, text = c :: rest ∧ Text.isBlank c = false
  finish : ∃ front c, text = front ++ [c] ∧ Text.isBlank c = false
  plain : '&' ∉ text
  noBackslash : text.getLast? ≠ some '\\'
  noBreak : ¬"<br>".toList <:+ text

theorem Listing.lines_ne_nil (depth : Nat) : ∀ listing : Listing, listing.lines depth ≠ []
  | .of _ (.of _ _ _) _ => List.cons_ne_nil _ _

def feedLines (lines : List Text) : Text :=
  lines.flatMap fun line => line ++ ['\n']

theorem feedLines_append (front back : List Text) :
    feedLines (front ++ back) = feedLines front ++ feedLines back :=
  List.flatMap_append

theorem feedLines_eq_joinLines {lines : List Text} (filled : lines ≠ []) :
    feedLines lines = Text.joinLines lines ++ ['\n'] := by
  induction lines with
  | nil => exact absurd rfl filled
  | cons line more ih =>
      cases more with
      | nil => exact List.append_nil _
      | cons next others =>
          have several : next :: others ≠ [] := List.cons_ne_nil _ _
          rw [Text.joinLines_cons several, List.append_assoc, List.cons_append, ← ih several]
          show line ++ ['\n'] ++ feedLines (next :: others) = _
          rw [List.append_assoc]
          rfl

/-! ### Cleaning -/

mutual

theorem Listing.clean? : ∀ (listing : Listing) (first : Bool),
    (∀ text ∈ listing.texts, EntryText text) →
      listing.toNode.clean? first = some listing.toNode
  | .of attributes head rest, first, texts => by
      rw [Listing.texts] at texts
      obtain ⟨here, later⟩ := List.forall_mem_append.1 texts
      have entries : ∀ node ∈ head.toNode :: entryNodes rest, ∀ first,
          node.clean? first = some node :=
        List.forall_mem_cons.2 ⟨fun first => head.clean? first here, entries_clean? rest later⟩
      refine Node.clean?_element rfl (Node.cleanAll_eq_self ?_ ?_) attributes first
      · exact fun _ node opens => entries node (List.mem_of_head? opens) true
      · exact fun node member => entries node member false

theorem Entry.clean? : ∀ (entry : Entry) (first : Bool),
    (∀ text ∈ entry.texts, EntryText text) → entry.toNode.clean? first = some entry.toNode
  | .of attributes text inner, first, texts => by
      rw [Entry.texts] at texts
      obtain ⟨here, later⟩ := List.forall_mem_cons.1 texts
      obtain ⟨c, others, rfl, solid⟩ := here.start
      refine Node.clean?_element rfl (Node.cleanAll_eq_self ?_ ?_) attributes first
      · rintro _ node opens
        cases opens
        exact Node.clean?_solid solid others true
      · exact List.forall_mem_cons.2
          ⟨Node.clean?_solid solid others false, listings_clean? inner later⟩

theorem entries_clean? : ∀ entries : List Entry,
    (∀ text ∈ entryTexts entries, EntryText text) →
      ∀ node ∈ entryNodes entries, ∀ first, node.clean? first = some node
  | [], _, _, member => nomatch member
  | entry :: rest, texts, node, member => by
      rw [entryTexts] at texts
      obtain ⟨here, later⟩ := List.forall_mem_append.1 texts
      rcases List.mem_cons.1 member with rfl | inRest
      · exact fun first => entry.clean? first here
      · exact entries_clean? rest later node inRest

theorem listings_clean? : ∀ listings : List Listing,
    (∀ text ∈ listingTexts listings, EntryText text) →
      ∀ node ∈ listingNodes listings, node.clean? false = some node
  | [], _, _, member => nomatch member
  | listing :: rest, texts, node, member => by
      rw [listingTexts] at texts
      obtain ⟨here, later⟩ := List.forall_mem_append.1 texts
      rcases List.mem_cons.1 member with rfl | inRest
      · exact listing.clean? false here
      · exact listings_clean? rest later node inRest

end

theorem exists_feedLines {lines : List Text} (filled : lines ≠ []) (buffer : Markdown.Buffer) :
    ∃ rest, (feedLines lines).reverse ++ buffer = '\n' :: rest := by
  rw [feedLines_eq_joinLines filled, List.reverse_append]
  exact ⟨_, rfl⟩

/-! ### Spans and their text -/

theorem EntryText.closes {text : Text} (entry : EntryText text) : Markdown.Closes text.reverse := by
  obtain ⟨front, c, rfl, solid⟩ := entry.finish
  exact ⟨c, front.reverse, by simp, .inr solid⟩

theorem EntryText.addBreaks {text : Text} (entry : EntryText text) :
    Markdown.addBreaks {} .auto [] 1 text.reverse = '\n' :: text.reverse := by
  rw [Markdown.addBreaks_of_closes entry.closes, if_neg]
  exact fun feed => entry.single (List.mem_reverse.1 (List.mem_of_head? feed))

open Markdown Node

mutual

/-- A list is planned as its entries in a span of its own, and these write the outline of the
list. -/
theorem Listing.exists_trees : ∀ (listing : Listing) (scope : Scope),
    (∀ text ∈ listing.texts, EntryText text) →
      ∃ span children, children ≠ [] ∧ Decoration.list scope { origin := .rule .list } = span ∧
        (∀ cursor, plan {} scope listing.toNode cursor
          = .done (cursor.add (.node span children))) ∧
        ∀ buffer, siblings {} [] false buffer children
          = (feedLines (listing.lines scope.lists)).reverse ++ buffer
  | .of attributes head rest, scope, texts => by
      rw [Listing.texts] at texts
      obtain ⟨here, later⟩ := List.forall_mem_append.1 texts
      let element : Element := ⟨Tag.list, attributes, head.toNode :: entryNodes rest⟩
      obtain ⟨first, plannedFirst, writtenFirst⟩ := head.exists_tree (scope.enter .list element)
        scope.lists 0 rfl here
      obtain ⟨others, plannedRest, writtenRest⟩ := entries_exist_trees rest
        (scope.enter .list element) scope.lists 1 rfl later
      refine ⟨_, first :: others, List.cons_ne_nil _ _, rfl, fun cursor => ?_, fun buffer => ?_⟩
      · have inner : planAll {} (scope.enter .list element) (head.toNode :: entryNodes rest) {}
            = .done { before := others.reverse ++ [first], items := 1 + rest.length } := by
          rw [planAll_cons _ (plannedFirst [])]
          exact plannedRest [first]
        have keeps : (Decoration.list scope { origin := .rule .list }).replaced = false := by
          unfold Decoration.list
          split <;> rfl
        refine (plan_element cursor .list attributes (by decide) rfl keeps inner).trans ?_
        simp [Cursor.add]
      · rw [writtenFirst, writtenRest, Listing.lines, feedLines_append, List.reverse_append,
          List.append_assoc]
        rfl

/-- An entry is planned as one span that writes its mark and text, and below them the outlines
of its lists. -/
theorem Entry.exists_tree : ∀ (entry : Entry) (scope : Scope) (depth place : Nat),
    scope.lists = depth + 1 → (∀ text ∈ entry.texts, EntryText text) →
      ∃ tree,
        (∀ before, plan {} scope entry.toNode { before, items := place }
          = .done { before := tree :: before, items := place + 1 }) ∧
        ∀ buffer rest, siblings {} [] false buffer (tree :: rest)
          = siblings {} [] false
              ((feedLines (entry.lines scope.ordered depth (place + 1))).reverse ++ buffer) rest
  | .of attributes line inner, scope, depth, place, lists, texts => by
      rw [Entry.texts] at texts
      obtain ⟨here, later⟩ := List.forall_mem_cons.1 texts
      let element : Element := ⟨Tag.item, attributes, .text line :: listingNodes inner⟩
      let span : Span := Decoration.item scope place { origin := .rule .item }
      have within : (scope.enter .item element).lists ≠ 0 := by
        show scope.lists ≠ 0
        omega
      obtain ⟨trees, planned, written⟩ :=
        listings_exist_trees inner (scope.enter .item element) within later
      refine ⟨.node span (.ofText line :: trees), fun before => ?_, fun buffer rest => ?_⟩
      · have text : planAll {} (scope.enter .item element) (.text line :: listingNodes inner)
            { items := place + 1 }
              = .done { before := trees.reverse ++ [.ofText line], items := place + 1 } := by
          rw [planAll_cons _ (plan_text line), Entity.decode_eq_self here.plain]
          exact planned _
        have decorated : decorate {} scope place .item element { origin := .rule .item }
            = .done span := rfl
        refine (plan_element { before, items := place } .item attributes (by decide) decorated rfl
          text).trans ?_
        rw [List.reverse_append, List.reverse_reverse]
        rfl
      · obtain ⟨closes, ended⟩ := written line.reverse here.closes
        have content : inside {} [] (.node span (.ofText line :: trees))
            = (siblings {} [] false line.reverse trees).reverse := by
          rw [inside_of_none _ _ rfl, SpanTree.ofText, siblings_leaf, place_unmarked rfl rfl rfl]
          show (siblings {} [] false (line.reverse ++ []) trees).reverse = _
          rw [List.append_nil]
        have opening : span.opening = outlineMark scope.ordered depth (place + 1) := by
          show List.replicate (2 * (scope.lists - 1)) ' ' ++ Decoration.itemSymbol scope place
            ++ [' '] = _
          rw [Decoration.itemSymbol, lists, outlineMark]
          simp
        have lines : feedLines (Entry.lines scope.ordered depth (place + 1)
            (.of attributes line inner)) = outlineMark scope.ordered depth (place + 1) ++
              (line ++ '\n' :: feedLines (listingLines scope.lists inner)) := by
          rw [Entry.lines, lists]
          simp [feedLines]
        have start : ∀ c ∈ (siblings {} [] false line.reverse trees).reverse.head?,
            Text.isBlank c = false := by
          obtain ⟨c, others, shape, solid⟩ := here.start
          have same := congrArg List.getLast? ended
          rw [getLast?_addBreaks closes, List.getLast?_append, getLast?_addBreaks here.closes,
            List.getLast?_reverse, shape] at same
          rw [List.head?_reverse, shape, same]
          rintro d opens
          cases opens
          exact solid
        rw [siblings_node _ _ _ _ _ (List.cons_ne_nil _ _)]
        show siblings {} [] false (Markdown.place {} [] false span false (inside {} [] (.node span _)) buffer)
          rest = _
        rw [content, place_of_opening rfl rfl fun _ => start, opening, List.reverse_reverse, lines]
        show siblings {} [] false (addBreaks {} .auto [] 1 (_ ++ (_ ++ addBreaks {} .auto [] 0 buffer)))
          rest = _
        rw [addBreaks_zero, addBreaks_append_of_closes closes, ended, here.addBreaks]
        simp
        rfl

theorem entries_exist_trees : ∀ (entries : List Entry) (scope : Scope) (depth place : Nat),
    scope.lists = depth + 1 → (∀ text ∈ entryTexts entries, EntryText text) →
      ∃ trees,
        (∀ before, planAll {} scope (entryNodes entries) { before, items := place }
          = .done { before := trees.reverse ++ before, items := place + entries.length }) ∧
        ∀ buffer, siblings {} [] false buffer trees
          = (feedLines (entryLines scope.ordered depth (place + 1) entries)).reverse ++ buffer
  | [], scope, depth, place, lists, texts => ⟨[], fun _ => rfl, fun _ => rfl⟩
  | entry :: rest, scope, depth, place, lists, texts => by
      rw [entryTexts] at texts
      obtain ⟨here, later⟩ := List.forall_mem_append.1 texts
      obtain ⟨tree, planned, written⟩ := entry.exists_tree scope depth place lists here
      obtain ⟨trees, plannedRest, writtenRest⟩ :=
        entries_exist_trees rest scope depth (place + 1) lists later
      refine ⟨tree :: trees, fun before => ?_, fun buffer => ?_⟩
      · rw [entryNodes, planAll_cons _ (planned before), plannedRest]
        simp
        omega
      · rw [written, writtenRest, entryLines, feedLines_append, List.reverse_append,
          List.append_assoc]

theorem listings_exist_trees : ∀ (listings : List Listing) (scope : Scope),
    scope.lists ≠ 0 → (∀ text ∈ listingTexts listings, EntryText text) →
      ∃ trees,
        (∀ cursor, planAll {} scope (listingNodes listings) cursor
          = .done { before := trees.reverse ++ cursor.before, items := cursor.items }) ∧
        ∀ buffer, Closes buffer → Closes (siblings {} [] false buffer trees) ∧
          addBreaks {} .auto [] 1 (siblings {} [] false buffer trees)
            = (feedLines (listingLines scope.lists listings)).reverse
                ++ addBreaks {} .auto [] 1 buffer
  | [], scope, inList, texts => ⟨[], fun _ => rfl, fun _ closes => ⟨closes, rfl⟩⟩
  | listing :: rest, scope, inList, texts => by
      rw [listingTexts] at texts
      obtain ⟨here, later⟩ := List.forall_mem_append.1 texts
      obtain ⟨span, children, filled, made, planned, written⟩ := listing.exists_trees scope here
      obtain ⟨trees, plannedRest, writtenRest⟩ := listings_exist_trees rest scope inList later
      rw [Decoration.list, if_neg inList] at made
      refine ⟨.node span children :: trees, fun cursor => ?_, fun buffer closes => ?_⟩
      · rw [listingNodes, planAll_cons _ (planned cursor), plannedRest]
        simp [Cursor.add]
      · subst made
        obtain ⟨more, feed⟩ := exists_feedLines (listing.lines_ne_nil scope.lists)
          (addBreaks {} .auto [] 1 buffer)
        have content : inside {} [] (.node (Span.setBreaks { origin := .rule .list } 1) children)
            = feedLines (listing.lines scope.lists) := by
          rw [inside_of_none _ _ rfl, written, List.append_nil, List.reverse_reverse]
        have placed : siblings {} [] false buffer
            (.node (Span.setBreaks { origin := .rule .list } 1) children :: trees)
              = siblings {} [] false ((feedLines (listing.lines scope.lists)).reverse
                  ++ addBreaks {} .auto [] 1 buffer) trees := by
          rw [siblings_node _ _ _ _ _ filled]
          show siblings {} [] false (Markdown.place {} [] false _ false (inside {} [] _) buffer) _ = _
          rw [content, place_of_opening rfl rfl fun none => absurd rfl none]
          show siblings {} [] false (addBreaks {} .auto [] 1 (_ ++ addBreaks {} .auto [] 1 buffer)) _
            = _
          rw [feed, addBreaks_feed]
        have ends : Closes ((feedLines (listing.lines scope.lists)).reverse
            ++ addBreaks {} .auto [] 1 buffer) := ⟨'\n', more, feed, .inl rfl⟩
        obtain ⟨closed, ended⟩ := writtenRest _ ends
        rw [placed]
        refine ⟨closed, ?_⟩
        rw [ended, feed, addBreaks_feed, ← feed, listingLines, feedLines_append, List.reverse_append,
          List.append_assoc]

end

/-! ### The end of the outline -/

theorem EntryText.settled {text : Text} (entry : EntryText text) : Markdown.Settled text.reverse := by
  obtain ⟨front, c, shape, solid⟩ := entry.finish
  refine ⟨⟨c, front.reverse, by simp [shape], solid⟩, ?_, fun html => ?_⟩
  · rw [List.head?_reverse]
    exact entry.noBackslash
  · exact entry.noBreak (List.reverse_prefix.1 html)

/-- The line ends with the text of an entry behind a mark. -/
def EndsWithEntry (line : Text) : Prop :=
  ∃ front text, line = front ++ ' ' :: text ∧ EntryText text

mutual

theorem Listing.ends_with_entry : ∀ (listing : Listing) (depth : Nat),
    (∀ text ∈ listing.texts, EntryText text) → ∀ line ∈ listing.lines depth, EndsWithEntry line
  | .of attributes head rest, depth, texts => by
      rw [Listing.texts] at texts
      obtain ⟨here, later⟩ := List.forall_mem_append.1 texts
      exact List.forall_mem_append.2 ⟨head.ends_with_entry _ depth 1 here,
        entries_end_with_entry rest _ depth 2 later⟩

theorem Entry.ends_with_entry : ∀ (entry : Entry) (ordered : Bool) (depth place : Nat),
    (∀ text ∈ entry.texts, EntryText text) →
      ∀ line ∈ entry.lines ordered depth place, EndsWithEntry line
  | .of attributes content inner, ordered, depth, place, texts => by
      rw [Entry.texts] at texts
      obtain ⟨here, later⟩ := List.forall_mem_cons.1 texts
      refine List.forall_mem_cons.2 ⟨?_, listings_end_with_entry inner (depth + 1) later⟩
      refine ⟨List.replicate (2 * depth) ' ' ++ (if ordered then Text.ofNat place ++ ['.'] else ['*']),
        content, ?_, here⟩
      rw [outlineMark, List.append_assoc _ [' ']]
      rfl

theorem entries_end_with_entry : ∀ (entries : List Entry) (ordered : Bool) (depth place : Nat),
    (∀ text ∈ entryTexts entries, EntryText text) →
      ∀ line ∈ entryLines ordered depth place entries, EndsWithEntry line
  | [], _, _, _, _, _, member => nomatch member
  | entry :: rest, ordered, depth, place, texts, line, member => by
      rw [entryTexts] at texts
      obtain ⟨here, later⟩ := List.forall_mem_append.1 texts
      rcases List.mem_append.1 member with inEntry | inRest
      · exact entry.ends_with_entry ordered depth place here line inEntry
      · exact entries_end_with_entry rest ordered depth (place + 1) later line inRest

theorem listings_end_with_entry : ∀ (listings : List Listing) (depth : Nat),
    (∀ text ∈ listingTexts listings, EntryText text) →
      ∀ line ∈ listingLines depth listings, EndsWithEntry line
  | [], _, _, _, member => nomatch member
  | listing :: rest, depth, texts, line, member => by
      rw [listingTexts] at texts
      obtain ⟨here, later⟩ := List.forall_mem_append.1 texts
      rcases List.mem_append.1 member with inListing | inRest
      · exact listing.ends_with_entry depth here line inListing
      · exact listings_end_with_entry rest depth later line inRest

end

theorem settled_joinLines {lines : List Text} (filled : lines ≠ [])
    (entries : ∀ line ∈ lines, EndsWithEntry line) :
    Markdown.Settled (Text.joinLines lines).reverse := by
  obtain ⟨before, joined⟩ := Text.exists_joinLines_getLast filled
  obtain ⟨front, text, shape, entry⟩ := entries _ (List.getLast_mem filled)
  have parts : (Text.joinLines lines).reverse
      = text.reverse ++ ' ' :: (front.reverse ++ before.reverse) := by
    rw [joined, shape]
    simp
  rw [parts]
  exact entry.settled.append_blank _

/-- Lists are written as their outline. -/
theorem convertPlain_listing (listing : Listing) (texts : ∀ text ∈ listing.texts, EntryText text) :
    (Element.post [listing.toNode]).convertPlain {} = Text.joinLines (listing.lines 0) := by
  have clean : (Element.post [listing.toNode]).clean = .post [listing.toNode] := by
    refine clean_post (cleanAll_eq_self nofun fun node member => ?_)
    rw [List.mem_singleton.1 member]
    exact listing.clean? false texts
  let scope : Scope := { parent := Tag.richRoot }
  obtain ⟨span, children, filled, made, planned, written⟩ := listing.exists_trees scope texts
  have laid : planAll {} scope [listing.toNode] {} = .done { before := [.node span children] } := by
    rw [planAll_cons _ (planned {})]
    rfl
  have lines := listing.lines_ne_nil 0
  have content : inside {} [] (.node span children) = feedLines (listing.lines 0) := by
    rw [← made, inside_of_none _ _ rfl, written, List.append_nil, List.reverse_reverse]
  rw [convertPlain_of_planAll clean laid, List.reverse_singleton, siblings_node _ _ _ _ _ filled,
    siblings]
  subst made
  show (stripBreaks [] (Markdown.place {} [] false _ false (inside {} [] _) [])).reverse = _
  rw [content, place_of_opening rfl rfl fun none => absurd rfl none]
  show (stripBreaks [] (addBreaks {} .auto [] 2 (_ ++ ([] ++ addBreaks {} .html [] 2 [])))).reverse = _
  have start : addBreaks {} .html [] 2 [] = [] := if_pos (.inr rfl)
  rw [start, List.nil_append, List.append_nil, feedLines_eq_joinLines lines, List.reverse_concat,
    stripBreaks_addBreaks_settled (settled_joinLines lines (listing.ends_with_entry 0 texts)),
    List.reverse_reverse]

/-- A numbered list between bullets, with a bullet behind it. -/
theorem convertPlain_listing_numbered :
    (Element.post [.list [[.text "a".toList,
        .orderedList [[.text "b".toList], [.text "c".toList]]], [.text "d".toList]]]).convertPlain {}
      = "* a\n  1. b\n  2. c\n* d".toList := by
  have entry : ∀ c ∈ "abcd".toList, EntryText [c] := by
    simp only [show "abcd".toList = ['a', 'b', 'c', 'd'] from rfl, List.forall_mem_cons]
    refine ⟨?_, ?_, ?_, ?_, nofun⟩ <;>
      exact ⟨by decide, ⟨_, [], rfl, by decide⟩, ⟨[], _, rfl, by decide⟩, by decide, by decide,
        by decide⟩
  exact convertPlain_listing
    (.of ∅ (.of ∅ "a".toList [.of (.set ∅ Key.type "decimal".toList)
      (.of ∅ "b".toList []) [.of ∅ "c".toList []]]) [.of ∅ "d".toList []])
    (List.forall_mem_map.2 entry)

end ForumMarkup
