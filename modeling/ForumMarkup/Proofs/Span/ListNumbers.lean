import ForumMarkup.Proofs.Element.Located
import ForumMarkup.Proofs.Span.Spots
import ForumMarkup.Proofs.Span.Walk

/-!
Contract: the spans of lists and of their items, from the lists around them alone.

Owns:
- `Element.listParts`, the visited lists and items of a post in document order;
- `Located.listSpan`, the span of a list or an item behind some others, and
  `SpanTree.listSpans`, these spans in a plan.

Main statements: `listSpans_plan`, the induction over the plan with the counted items, and
`list_context_balanced`.

The number of an item counts items with the same innermost list, which may stand far apart.
The count at a cursor is the number of these so far (`Numbered.counted`), and a list has none so
far since no number in front of it is its own (`Numbered.closed`).
-/

set_option autoImplicit false

namespace ForumMarkup

open Decoration

variable {ε : Type} {resolver : Resolver ε}

namespace Located

/-- The number of items directly in the list of the given number, or outside of lists. -/
def itemsIn (order? : Option Nat) (places : List Located) : Nat :=
  places.countP fun place => place.isItem && place.listOrder? == order?

/-- The number of an item behind the places `earlier`, if its list is ordered, else a bullet. -/
def symbol (place : Located) (earlier : List Located) : Text :=
  match place.lists.head? with
  | some list =>
      if list.element.attributes.contains Key.type then
        Text.ofNat (1 + itemsIn place.listOrder? earlier) ++ ['.']
      else ['*']
  | none => ['*']

/-- The span of a list or an item behind the places `earlier`. -/
def listSpan (place : Located) (earlier : List Located) : Span :=
  if place.isItem then
    { origin := .rule .item
      opening := List.replicate (2 * (place.lists.length - 1)) ' ' ++ place.symbol earlier ++ [' ']
      breaksAfter := 1 }
  else if place.lists.isEmpty then
    { origin := .rule .list, breaksBefore := 2, breaksAfter := 2, kindBefore := .html }
  else
    { origin := .rule .list, breaksBefore := 1, breaksAfter := 1 }

/-- The spans of lists and items behind the places `earlier`. -/
def listSpansBehind (earlier : List Located) : List Located → List Span
  | [] => []
  | place :: rest => place.listSpan earlier :: listSpansBehind (earlier ++ [place]) rest

theorem listSpansBehind_append (earlier front back : List Located) :
    listSpansBehind earlier (front ++ back)
      = listSpansBehind earlier front ++ listSpansBehind (earlier ++ front) back := by
  induction front generalizing earlier with
  | nil => rw [List.append_nil]; rfl
  | cons place rest ih =>
      rw [List.cons_append, listSpansBehind, ih, listSpansBehind, List.append_assoc]
      rfl

/-- Each span is that of its place behind the places in front of it. -/
theorem listSpansBehind_eq_mapIdx (earlier places : List Located) :
    listSpansBehind earlier places
      = places.mapIdx fun index place => place.listSpan (earlier ++ places.take index) := by
  induction places generalizing earlier with
  | nil => rfl
  | cons place rest ih =>
      rw [listSpansBehind, ih, List.mapIdx_cons, List.take_zero, List.append_nil]
      refine congrArg _ (List.ext_getElem? fun index => ?_)
      rw [List.getElem?_mapIdx, List.getElem?_mapIdx]
      simp only [List.take_succ_cons, List.append_assoc, List.singleton_append]

theorem itemsIn_append (order? : Option Nat) (front back : List Located) :
    itemsIn order? (front ++ back) = itemsIn order? front + itemsIn order? back :=
  List.countP_append

end Located

namespace Node

/-- The visited lists and items of a node behind `count` elements, in document order. -/
def listParts (resolver : Resolver ε) (around : List Site) (count : Nat) (node : Node) :
    List Located :=
  (node.located around count).filter fun place =>
    place.isListPart && place.placed.isVisited resolver

def listPartsOf (resolver : Resolver ε) (around : List Site) (count : Nat) (nodes : List Node) :
    List Located :=
  (locatedOf around count nodes).filter fun place =>
    place.isListPart && place.placed.isVisited resolver

theorem listPartsOf_cons (around : List Site) (count : Nat) (node : Node) (rest : List Node) :
    listPartsOf resolver around count (node :: rest)
      = node.listParts resolver around count
        ++ listPartsOf resolver around (count + node.elements.length) rest := by
  rw [listPartsOf, locatedOf, List.filter_append]
  rfl

/-- The sites around a place have nothing replaced. -/
def Open (resolver : Resolver ε) (around : List Site) : Prop :=
  ∀ site ∈ around, site.element.isReplaced resolver = false

def ownPart (place : Located) : List Located :=
  if place.isListPart then [place] else []

theorem Open.elements {around : List Site} (visible : Open resolver around) :
    ∀ outer ∈ around.map Site.element, outer.isReplaced resolver = false :=
  List.forall_mem_map.2 visible

theorem Open.cons {around : List Site} (visible : Open resolver around) {site : Site}
    (here : site.element.isReplaced resolver = false) : Open resolver (site :: around) :=
  List.forall_mem_cons.2 ⟨here, visible⟩

theorem innerList_listParts (node : Node) (around : List Site) (count : Nat) :
    ∀ place ∈ node.listParts resolver around count,
      InnerList around count (count + node.elements.length) place :=
  fun place member => innerList_located node around count place (List.mem_filter.1 member).1

theorem innerList_listPartsOf (nodes : List Node) (around : List Site) (count : Nat) :
    ∀ place ∈ listPartsOf resolver around count nodes,
      InnerList around count (count + (elementsOf nodes).length) place :=
  fun place member => innerList_locatedOf nodes around count place (List.mem_filter.1 member).1

/-- The lists and items of an element are the element itself, if it is one, and those inside of
it unless it is replaced. -/
theorem listParts_element {around : List Site} (visible : Open resolver around) (count : Nat)
    (tag : String) (attributes : Attributes) (children : List Node) :
    let site : Site := ⟨count, ⟨tag, attributes, children⟩⟩
    listParts resolver around count (.element tag attributes children)
      = ownPart ⟨site, around⟩
        ++ if site.element.isReplaced resolver then []
          else listPartsOf resolver (site :: around) (count + 1) children := by
  intro site
  have here : Placed.isVisited resolver (Located.placed ⟨site, around⟩) = true := by
    simpa [Placed.isVisited, Located.placed, Open] using visible
  rw [listParts, located, List.filter_cons, here, Bool.and_true]
  have inner : (locatedOf (site :: around) (count + 1) children).filter (fun place =>
      place.isListPart && place.placed.isVisited resolver)
      = if site.element.isReplaced resolver then []
        else listPartsOf resolver (site :: around) (count + 1) children := by
    split
    · next replaced =>
        refine List.filter_eq_nil_iff.2 fun place member => ?_
        have there : place.placed ∈ placedOf ((site :: around).map Site.element) children := by
          rw [← placed_locatedOf children (site :: around) (count + 1)]
          exact List.mem_map_of_mem member
        rw [placedOf_closed resolver ⟨site.element, List.mem_cons_self, replaced⟩ children _ there,
          Bool.and_false]
        exact Bool.false_ne_true
    · rfl
  rw [inner, ownPart]
  split <;> rfl

end Node

/-- The visited lists and items of a post, in document order. -/
def Element.listParts (resolver : Resolver ε) (post : Element) : List Located :=
  Node.listPartsOf resolver [] 0 post.children

def Span.isListPart (span : Span) : Bool :=
  span.isRule .list || span.isRule .item

def SpanTree.listSpans (tree : SpanTree) : List Span :=
  tree.spans.filter Span.isListPart

/-! ### The count at a cursor -/

namespace Site

variable (around : List Site)

theorem lists_cons_of_list {site : Site} (list : site.element.hasTag Tag.list = true) :
    lists (site :: around) = site :: lists around :=
  List.filter_cons_of_pos list

theorem lists_cons_of_other {site : Site} (other : site.element.hasTag Tag.list = false) :
    lists (site :: around) = lists around :=
  List.filter_cons_of_neg (Bool.eq_false_iff.1 other)

end Site

namespace Node

structure Surrounds (around : List Site) (scope : Scope) : Prop where
  lists : scope.lists = (Site.lists around).length
  ordered : scope.ordered
    = (Site.lists around).head?.any fun list => list.element.attributes.contains Key.type

/-- Behind `count` elements, and the visited lists and items among them, with the number of
items in the innermost list around. This list and those of the earlier items have their
numbers from among the `count` elements. -/
structure Numbered (around : List Site) (count : Nat) (earlier : List Located) (items : Nat) :
    Prop where
  outer : ∀ order ∈ Site.listOrder? around, order < count
  closed : ∀ place ∈ earlier, ∀ order ∈ place.listOrder?, order < count
  counted : items = Located.itemsIn (Site.listOrder? around) earlier

variable {around : List Site} {scope : Scope} {count items : Nat} {earlier : List Located}

theorem Surrounds.unruled (surrounds : Surrounds around scope) {site : Site}
    (noRule : Rule.ofTag? site.element.tag = none) (parent : String) :
    Surrounds (site :: around) { scope with parent } := by
  have same := Site.lists_cons_of_other around (Element.not_hasTag_tag noRule .list)
  refine ⟨?_, ?_⟩
  · rw [same, ← surrounds.lists]
  · rw [same, ← surrounds.ordered]

/-- Going inside of an element with a rule keeps the scope in step with the lists around. -/
theorem Surrounds.ruled (surrounds : Surrounds around scope) {site : Site} {rule : Rule}
    (found : Rule.ofTag? site.element.tag = some rule) :
    Surrounds (site :: around) (scope.enter rule site.element) := by
  have isList := Element.hasTag_tag found .list
  unfold Scope.enter
  dsimp only
  by_cases list : rule = .list
  · have inside := Site.lists_cons_of_list around (isList.trans (decide_eq_true list))
    rw [if_pos list]
    refine ⟨?_, ?_⟩
    · rw [inside, List.length_cons, ← surrounds.lists]
    · rw [inside]
      rfl
  · have same := Site.lists_cons_of_other around (isList.trans (decide_eq_false list))
    rw [if_neg list]
    refine ⟨?_, ?_⟩
    · rw [same, ← surrounds.lists]
    · rw [same, ← surrounds.ordered]

theorem listOrder?_cons_of_other {site : Site}
    (other : site.element.hasTag Tag.list = false) :
    Site.listOrder? (site :: around) = Site.listOrder? around := by
  rw [Site.listOrder?, Site.lists_cons_of_other around other]
  rfl

theorem listOrder?_cons_of_list {site : Site} (list : site.element.hasTag Tag.list = true) :
    Site.listOrder? (site :: around) = some site.order := by
  rw [Site.listOrder?, Site.lists_cons_of_list around list]
  rfl

/-- One element more, with the lists around as they were. -/
theorem Numbered.further (numbered : Numbered around count earlier items) {bound : Nat}
    (further : count ≤ bound) : Numbered around bound earlier items where
  outer order member := Nat.lt_of_lt_of_le (numbered.outer order member) further
  closed place member order inner :=
    Nat.lt_of_lt_of_le (numbered.closed place member order inner) further
  counted := numbered.counted

theorem Numbered.congr (numbered : Numbered around count earlier items) {others : List Site}
    (same : Site.listOrder? others = Site.listOrder? around) :
    Numbered others count earlier items where
  outer order member := numbered.outer order (same ▸ member)
  closed := numbered.closed
  counted := by rw [same]; exact numbered.counted

/-- Behind further places, whose lists are numbered below `bound`. -/
theorem Numbered.behind (numbered : Numbered around count earlier items) {bound last : Nat}
    (further : count ≤ bound) {parts : List Located}
    (inner : ∀ place ∈ parts, InnerList around count bound place)
    (counted : last = Located.itemsIn (Site.listOrder? around) (earlier ++ parts)) :
    Numbered around bound (earlier ++ parts) last := by
  refine ⟨(numbered.further further).outer, ?_, counted⟩
  intro place member order inside
  rcases List.mem_append.1 member with before | here
  · exact (numbered.further further).closed place before order inside
  · rcases inner place here with same | ⟨other, same, _, below⟩
    · rw [same] at inside
      exact (numbered.further further).outer order inside
    · rw [same] at inside
      cases inside
      exact below

theorem innerList_ownPart (element : Element) (bound : Nat) :
    ∀ place ∈ ownPart ⟨⟨count, element⟩, around⟩, InnerList around count bound place := by
  intro place member
  unfold ownPart at member
  split at member
  · cases List.mem_singleton.1 member
    exact .inl rfl
  · cases member

theorem itemsIn_ownPart (order? : Option Nat) (place : Located) :
    Located.itemsIn order? (ownPart place)
      = if place.isItem && place.listOrder? == order? then 1 else 0 := by
  unfold ownPart Located.itemsIn
  split
  · exact List.countP_singleton
  · next other =>
      have noItem : place.isItem = false := by
        rw [Located.isListPart, Bool.or_eq_true, not_or] at other
        exact Bool.eq_false_iff.2 other.2
      rw [noItem]
      rfl

/-- No item lies directly in a list with another number. -/
theorem itemsIn_eq_zero {order? : Option Nat} {places : List Located}
    (others : ∀ place ∈ places, place.listOrder? ≠ order?) :
    Located.itemsIn order? places = 0 := by
  refine List.countP_eq_zero.2 fun place member => ?_
  simp [others place member]

/-- Inside of an element with a rule. A new list has no items yet. -/
theorem Numbered.ruled (numbered : Numbered around count earlier items) {element : Element}
    {rule : Rule} (found : Rule.ofTag? element.tag = some rule) :
    Numbered (⟨count, element⟩ :: around) (count + 1)
      (earlier ++ ownPart ⟨⟨count, element⟩, around⟩)
      (if rule = .list then 0 else if rule = .item then items + 1 else items) := by
  have isList : element.hasTag Tag.list = decide (rule = .list) := Element.hasTag_tag found .list
  have isItem : element.hasTag Tag.item = decide (rule = .item) := Element.hasTag_tag found .item
  have behind := numbered.behind (Nat.le_succ count) (innerList_ownPart element (count + 1)) rfl
  by_cases list : rule = .list
  · have here : Site.listOrder? (⟨count, element⟩ :: around) = some count :=
      listOrder?_cons_of_list (isList.trans (decide_eq_true list))
    refine ⟨?_, behind.closed, ?_⟩
    · rw [here]
      rintro _ ⟨⟩
      exact Nat.lt_succ_self count
    · rw [if_pos list, here, Located.itemsIn_append, itemsIn_ownPart, Located.isItem, isItem, list]
      rw [itemsIn_eq_zero]
      · rfl
      · intro place member same
        exact Nat.lt_irrefl count (numbered.closed place member count same)
  · rw [if_neg list]
    have same : Site.listOrder? (⟨count, element⟩ :: around) = Site.listOrder? around :=
      listOrder?_cons_of_other (isList.trans (decide_eq_false list))
    refine Numbered.congr ⟨behind.outer, behind.closed, ?_⟩ same
    have inSame : Located.listOrder? ⟨⟨count, element⟩, around⟩ = Site.listOrder? around := rfl
    rw [Located.itemsIn_append, itemsIn_ownPart, Located.isItem, isItem, inSame,
      beq_self_eq_true, Bool.and_true, ← numbered.counted]
    simp only [decide_eq_true_eq]
    split <;> rfl

/-- Behind an element with a rule whose content counted up to `last`. The items in a list do
not count around it. -/
theorem Numbered.counted_ruled (numbered : Numbered around count earlier items)
    {element : Element} {rule : Rule} (found : Rule.ofTag? element.tag = some rule)
    {parts : List Located} {bound last : Nat}
    (inner : ∀ place ∈ parts, InnerList (⟨count, element⟩ :: around) (count + 1) bound place)
    (counted : last = Located.itemsIn (Site.listOrder? (⟨count, element⟩ :: around))
      (earlier ++ ownPart ⟨⟨count, element⟩, around⟩ ++ parts)) :
    (if rule = .list then (if rule = .item then items + 1 else items) else last)
      = Located.itemsIn (Site.listOrder? around)
          (earlier ++ (ownPart ⟨⟨count, element⟩, around⟩ ++ parts)) := by
  have isList : element.hasTag Tag.list = decide (rule = .list) := Element.hasTag_tag found .list
  have isItem : element.hasTag Tag.item = decide (rule = .item) := Element.hasTag_tag found .item
  by_cases list : rule = .list
  · have here : Site.listOrder? (⟨count, element⟩ :: around) = some count :=
      listOrder?_cons_of_list (isList.trans (decide_eq_true list))
    have apart : ∀ place ∈ parts, place.listOrder? ≠ Site.listOrder? around := by
      intro place member same
      rcases inner place member with direct | ⟨order, deeper, above, _⟩
      · rw [direct, here] at same
        exact Nat.lt_irrefl count (numbered.outer count same.symm)
      · rw [deeper] at same
        have below := numbered.outer order same.symm
        omega
    -- Neither the list itself nor anything in it is an item of the list around.
    rw [list, if_pos rfl, if_neg (by decide), Located.itemsIn_append, Located.itemsIn_append,
      itemsIn_ownPart, itemsIn_eq_zero apart, Located.isItem, isItem, list, ← numbered.counted]
    rfl
  · rw [if_neg list, counted, List.append_assoc,
      listOrder?_cons_of_other (isList.trans (decide_eq_false list))]

end Node

/-! ### The spans of lists and items -/

open Node

theorem Span.isListPart_of_origin {span : Span} {rule : Rule} (origin : span.origin = .rule rule) :
    span.isListPart = (decide (rule = .list) || decide (rule = .item)) := by
  rw [Span.isListPart, Span.isRule_of_origin origin, Span.isRule_of_origin origin]

/-- The rules of lists and items make the spans that the places around call for. -/
theorem eq_listSpan {options : Options} {around : List Site} {scope : Scope} {count items : Nat}
    {earlier : List Located} {element : Element} {rule : Rule} {cursor : Cursor} {span : Span}
    (surrounds : Surrounds around scope) (numbered : Numbered around count earlier items)
    (found : Rule.ofTag? element.tag = some rule) (part : span.isListPart = true)
    (origin : span.origin = .rule rule)
    (ran : (decorate options scope items rule element (cursor.begin rule).1).run resolver
      = .ok span) :
    span = Located.listSpan ⟨⟨count, element⟩, around⟩ earlier := by
  have isItem : element.hasTag Tag.item = decide (rule = .item) := Element.hasTag_tag found .item
  rw [Span.isListPart_of_origin origin, Bool.or_eq_true, decide_eq_true_iff,
    decide_eq_true_iff] at part
  rcases part with rfl | rfl
  · rw [Cursor.begin_of_ne (by decide)] at ran
    cases ran
    rw [Located.listSpan, Located.isItem, isItem, if_neg (by decide), Located.lists,
      Decoration.list, surrounds.lists]
    dsimp only
    cases Site.lists around <;> rfl
  · rw [Cursor.begin_of_ne (by decide)] at ran
    cases ran
    have symbols : itemSymbol scope items = Located.symbol ⟨⟨count, element⟩, around⟩ earlier := by
      rw [itemSymbol, surrounds.lists, surrounds.ordered, Located.symbol, Located.lists,
        numbered.counted]
      dsimp only
      cases outer : Site.lists around with
      | nil => rfl
      | cons nearest others =>
          simp [Located.listOrder?, Nat.add_comm]
    rw [Located.listSpan, Located.isItem, isItem, if_pos (by decide), ← symbols, Located.lists,
      ← surrounds.lists]
    rfl

theorem ownPart_unruled {place : Located} (noRule : Rule.ofTag? place.site.element.tag = none) :
    ownPart place = [] := by
  have noPart : place.isListPart = false := by
    rw [Located.isListPart, Located.isItem, show Tag.list = Rule.list.tag from rfl,
      show Tag.item = Rule.item.tag from rfl, Element.not_hasTag_tag noRule,
      Element.not_hasTag_tag noRule]
    rfl
  rw [ownPart, noPart]
  rfl

/-- The span of an element with a rule is one of a list or an item where the element is one,
and then the span that the places around call for. -/
theorem ownSpan_eq {options : Options} {around : List Site} {scope : Scope} {count items : Nat}
    {earlier : List Located} {element : Element} {rule : Rule} {cursor : Cursor} {span : Span}
    (surrounds : Surrounds around scope) (numbered : Numbered around count earlier items)
    (found : Rule.ofTag? element.tag = some rule) (origin : span.origin = .rule rule)
    (ran : (decorate options scope items rule element (cursor.begin rule).1).run resolver
      = .ok span) :
    (if span.isListPart then [span] else [])
      = Located.listSpansBehind earlier (ownPart ⟨⟨count, element⟩, around⟩) := by
  have same : Located.isListPart ⟨⟨count, element⟩, around⟩ = span.isListPart := by
    rw [Span.isListPart_of_origin origin, ← Element.hasTag_tag found, ← Element.hasTag_tag found]
    rfl
  rw [ownPart, same]
  split
  · next part => exact congrArg (· :: []) (eq_listSpan surrounds numbered found part origin ran)
  · rfl

/-- Line breaks are no parts of lists. -/
theorem Span.not_isListPart_of_lineBreak (span : Span) (lineBreak : span.isRule .lineBreak = true) :
    span.isListPart = false := by
  rw [Span.isListPart_of_origin (eq_of_beq lineBreak)]
  rfl

/-- Nothing is written in place of a list or an item. -/
theorem Located.not_isReplaced_of_isListPart {place : Located} (part : place.isListPart = true) :
    place.site.element.isReplaced resolver = false := by
  rw [Located.isListPart, Located.isItem, Element.hasTag, Element.hasTag, Bool.or_eq_true,
    beq_iff_eq, beq_iff_eq] at part
  rcases part with tag | tag <;> rw [Element.isReplaced, tag] <;> rfl

theorem ownPart_of_isReplaced {place : Located}
    (replaced : place.site.element.isReplaced resolver = true) : ownPart place = [] := by
  rw [ownPart, if_neg]
  intro part
  rw [Located.not_isReplaced_of_isListPart part] at replaced
  cases replaced

namespace Node

open SpanTree (spansWhere)

mutual

/-- A node adds the spans of its visited lists and items, and the cursor goes on counting. -/
theorem listSpans_plan (options : Options) {around : List Site}
    (visible : Open resolver around) {scope : Scope} (surrounds : Surrounds around scope) :
    ∀ (node : Node) (cursor : Cursor), cursor.Resumable → ∀ {count : Nat} {earlier : List Located},
      Numbered around count earlier cursor.items → ∀ {ending : Cursor},
        (node.plan options scope cursor).run resolver = .ok ending →
          spansWhere Span.isListPart ending.before.reverse
              = spansWhere Span.isListPart cursor.before.reverse
                ++ Located.listSpansBehind earlier (node.listParts resolver around count) ∧
            ending.items = Located.itemsIn (Site.listOrder? around)
              (earlier ++ node.listParts resolver around count)
  | .text content, cursor, _, count, earlier, numbered, ending, ran => by
      cases ran
      refine ⟨?_, ?_⟩
      · exact (SpanTree.spansWhere_reverse_text rfl _).trans (List.append_nil _).symm
      · rw [show listParts resolver around count (.text content) = [] from rfl, List.append_nil]
        exact numbered.counted
  | .element tag attributes children, cursor, resumable, count, earlier, numbered, ending, ran => by
      rw [listParts_element visible]
      cases found : Rule.ofTag? tag with
      | none =>
          -- The content belongs to the span around, and the lists around it are the same.
          rw [plan, found] at ran
          have open_ : Element.isReplaced resolver ⟨tag, attributes, children⟩ = false :=
            Element.not_isReplaced_of_noRule found resolver
          have same : Site.listOrder? (⟨count, ⟨tag, attributes, children⟩⟩ :: around)
              = Site.listOrder? around :=
            listOrder?_cons_of_other (Element.not_hasTag_tag found .list)
          have inner := listSpans_planAll options (visible.cons open_)
            (surrounds.unruled found tag) children cursor resumable
            ((numbered.further (Nat.le_succ count)).congr same) ran
          rw [same] at inner
          rw [ownPart_unruled found, open_, if_neg Bool.false_ne_true]
          exact inner
      | some rule =>
          obtain ⟨span, decorated, origin, _, filled⟩ := exists_of_plan_rule found resumable ran
          have own := ownSpan_eq surrounds numbered found origin decorated
          split at filled
          · next closed =>
              have noPart : ownPart ⟨⟨count, ⟨tag, attributes, children⟩⟩, around⟩ = [] :=
                ownPart_of_isReplaced closed
              have noItem : rule ≠ .item := by
                rintro rfl
                rw [Element.isReplaced, found] at closed
                cases closed
              rw [noPart] at own ⊢
              rw [closed, if_pos rfl, filled, List.append_nil, List.append_nil, if_neg noItem]
              refine ⟨?_, numbered.counted⟩
              rw [cursor.spansWhere_ruled Span.not_isListPart_of_lineBreak origin
                (List.append_nil _).symm, own]
              rfl
          · next opened =>
              obtain ⟨last, laid, rfl⟩ := filled
              have open_ := Bool.eq_false_iff.2 opened
              obtain ⟨grown, counted⟩ := listSpans_planAll options (visible.cons open_)
                (surrounds.ruled found) children _ (resumable.within rule _)
                (numbered.ruled found) laid
              rw [open_, if_neg Bool.false_ne_true]
              refine ⟨?_, numbered.counted_ruled found
                (innerList_listPartsOf children _ (count + 1)) counted⟩
              rw [cursor.spansWhere_ruled Span.not_isListPart_of_lineBreak origin grown, own,
                Located.listSpansBehind_append]

/-- Nodes add the spans of their visited lists and items, in document order. -/
theorem listSpans_planAll (options : Options) {around : List Site}
    (visible : Open resolver around) {scope : Scope} (surrounds : Surrounds around scope) :
    ∀ (nodes : List Node) (cursor : Cursor), cursor.Resumable →
      ∀ {count : Nat} {earlier : List Located}, Numbered around count earlier cursor.items →
        ∀ {ending : Cursor}, (planAll options scope nodes cursor).run resolver = .ok ending →
          spansWhere Span.isListPart ending.before.reverse
              = spansWhere Span.isListPart cursor.before.reverse
                ++ Located.listSpansBehind earlier (listPartsOf resolver around count nodes) ∧
            ending.items = Located.itemsIn (Site.listOrder? around)
              (earlier ++ listPartsOf resolver around count nodes)
  | [], cursor, _, count, earlier, numbered, ending, ran => by
      cases ran
      refine ⟨(List.append_nil _).symm, ?_⟩
      rw [show listPartsOf resolver around count [] = [] from rfl, List.append_nil]
      exact numbered.counted
  | node :: rest, cursor, resumable, count, earlier, numbered, ending, ran => by
      rw [planAll] at ran
      obtain ⟨next, first, later⟩ := Inquiry.exists_of_run_bind ran
      have between : next.Resumable :=
        (poses_plan options scope visible.elements node cursor resumable).of_run first
      obtain ⟨here, counted⟩ :=
        listSpans_plan options visible surrounds node cursor resumable numbered first
      have behind := numbered.behind (Nat.le_add_right count node.elements.length)
        (innerList_listParts node around count) counted
      obtain ⟨there, countedRest⟩ :=
        listSpans_planAll options visible surrounds rest next between behind later
      rw [listPartsOf_cons]
      refine ⟨?_, ?_⟩
      · rw [there, here, Located.listSpansBehind_append, List.append_assoc]
      · rw [countedRest, List.append_assoc]

end

end Node

/-- The context of lists is balanced, and items are numbered by what is around them. A visit of
a node, wherever it stands and whether or not it gets a span, leaves the depth of emphasis and
the open lists as they were, but for the count of the innermost list. The walk over a post
makes its plan. In the plan the spans of lists and items are those of the visited lists and
items, in document order. An item is indented by two spaces for each list around its own, and
has a bullet, or in an ordered list its number among the visited items with the same innermost
list. A list is a block of its own if there is no list around it. -/
theorem list_context_balanced (options : Options) (resolver : Resolver ε) :
    (∀ (parent : String) (closed : Bool) (node : Node) (walk ending : Walk),
      (node.visit options parent closed walk).run resolver = .ok ending →
        ∃ items, ending.context = walk.context.counted items) ∧
      ∀ post : Element, post.walk options = post.plan options ∧
        ∀ tree, (post.walk options).run resolver = .ok tree →
          tree.listSpans = (post.clean.listParts resolver).mapIdx fun index place =>
            place.listSpan ((post.clean.listParts resolver).take index) := by
  refine ⟨fun parent closed node walk ending => balanced_visit options parent closed node,
    fun post => ⟨walk_eq_plan options post, fun tree ran => ?_⟩⟩
  rw [walk_eq_plan] at ran
  obtain ⟨ending, laid, made⟩ := Inquiry.exists_of_run_bind ran
  cases made
  have top : Surrounds [] { parent := post.clean.tag } := ⟨rfl, rfl⟩
  have start : Numbered [] 0 [] (Cursor.items {}) := ⟨nofun, nofun, rfl⟩
  obtain ⟨added, _⟩ := listSpans_planAll options (List.forall_mem_nil _) top post.clean.children
    {} nofun start laid
  have whole : SpanTree.listSpans (.node { origin := .root } ending.before.reverse)
      = SpanTree.spansWhere Span.isListPart ending.before.reverse := by
    rw [SpanTree.listSpans, SpanTree.spans, List.filter_cons_of_neg (by decide)]
    rfl
  rw [whole, added, Located.listSpansBehind_eq_mapIdx]
  rfl

def nestedLists : Element :=
  .post [
    .wrapWith Tag.list Key.type "decimal".toList [
      .wrap Tag.item [.text "a".toList],
      .lineBreak,
      .wrap Tag.item [.quote [.list [[.text "b".toList], [.text "c".toList]]]],
      .bold [.color "red".toList [.wrap Tag.item [.text "d".toList]]]],
    .wrap Tag.item [.text "e".toList],
    .wrap Tag.image [.orderedList [[.text "f".toList]]]]

def orderedPlace : Walk :=
  { context := { depth := 1, lists := [{ ordered := true, items := 2 }, { ordered := false }] } }

theorem list_context_balanced_nestedLists :
    (∃ ending, ((Node.bold [.wrap Tag.item [.list [[.text "b".toList]]]]).visit {} Tag.bold false
        orderedPlace).run (Resolver.nothing : Resolver Unit) = .ok ending ∧
      ∃ items, ending.context = orderedPlace.context.counted items) ∧
    ∃ tree, (nestedLists.walk {}).run (Resolver.nothing : Resolver Unit) = .ok tree ∧
      tree.listSpans.map (fun span => (span.opening, span.breaksAfter, span.kindBefore))
        = [([], 2, .html), ("1. ".toList, 1, .auto), ("2. ".toList, 1, .auto), ([], 1, .auto),
          ("  * ".toList, 1, .auto), ("  * ".toList, 1, .auto), ("3. ".toList, 1, .auto),
          ("* ".toList, 1, .auto)] := by
  have visited : ((Node.bold [.wrap Tag.item [.list [[.text "b".toList]]]]).visit {} Tag.bold false
      orderedPlace).run (Resolver.nothing : Resolver Unit) = .ok _ := Inquiry.run_ofAnswers _ _
  have walked : (nestedLists.walk {}).run (Resolver.nothing : Resolver Unit) = .ok _ :=
    Inquiry.run_ofAnswers _ _
  have balanced := list_context_balanced {} (Resolver.nothing : Resolver Unit)
  refine ⟨⟨_, visited, balanced.1 _ _ _ _ _ visited⟩, _, walked, ?_⟩
  rw [(balanced.2 nestedLists).2 _ walked]
  decide

end ForumMarkup
