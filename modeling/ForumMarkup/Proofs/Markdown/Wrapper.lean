import ForumMarkup.Element.Post
import ForumMarkup.Markdown

/-!
Contract: an element without a rule is written as what it holds.

Owns: `Node.Unwraps`, one element without a rule replaced by its children, at any
depth below an element of a given tag, and `Element.Unwraps`, the same for a post.

Main statement: `convert_unwrapped`.  The two posts ask the same questions, in the same
order, and have the same plan and the same Markdown under every resolver.

Only bold, italic and underlined text look at the tag of the element around them.  That
is why the wrapper may not stand directly in one of these: its children would lose
their markers with it.
-/

set_option autoImplicit false

namespace ForumMarkup

/-- Below an element of the tag `parent`, one element without a rule is replaced by its
children. It does not stand directly in bold, italic or underlined text. -/
inductive Node.Unwraps : (parent : String) → (nodes unwrapped : List Node) → Prop where
  | here {parent tag : String} {attributes : Attributes} {children : List Node}
      (before after : List Node) (noRule : Rule.ofTag? tag = none)
      (plain : parent ∉ Tag.emphasis) :
      Unwraps parent (before ++ .element tag attributes children :: after)
        (before ++ (children ++ after))
  | inside {parent tag : String} {attributes : Attributes} {children unwrapped : List Node}
      (before after : List Node) (inner : Unwraps tag children unwrapped) :
      Unwraps parent (before ++ .element tag attributes children :: after)
        (before ++ .element tag attributes unwrapped :: after)

/-- One element without a rule below a post is replaced by its children. -/
structure Element.Unwraps (post unwrapped : Element) : Prop where
  tag : unwrapped.tag = post.tag
  attributes : unwrapped.attributes = post.attributes
  children : Node.Unwraps post.tag post.children unwrapped.children

theorem not_mem_emphasis_of_noRule {tag : String} (noRule : Rule.ofTag? tag = none) :
    tag ∉ Tag.emphasis := by
  intro member
  simp only [Tag.emphasis, List.mem_cons, List.not_mem_nil, or_false] at member
  rcases member with rfl | rfl | rfl
  · exact absurd noRule (by decide)
  · exact absurd noRule (by decide)
  · exact absurd noRule (by decide)

/-- A replaced wrapper leaves the text of what is around it as it is. -/
theorem Node.Unwraps.textContents {parent : String} {nodes unwrapped : List Node}
    (unwraps : Unwraps parent nodes unwrapped) :
    Node.textContents nodes = Node.textContents unwrapped := by
  induction unwraps with
  | here before after _ _ =>
      rw [textContents_append, textContents_append, textContents_append, Node.textContents,
        textContent]
  | inside before after _ ih =>
      rw [textContents_append, textContents_append, Node.textContents, Node.textContents,
        textContent, textContent, ih]

/-! ### What a rule sees of an element and around it -/

/-- Of the children of an element its rule sees only the text. -/
theorem decorate_children (options : Options) (scope : Scope) (earlier : Nat) (rule : Rule)
    (tag : String) (attributes : Attributes) {children unwrapped : List Node}
    (same : Node.textContents children = Node.textContents unwrapped) (start : Span) :
    decorate options scope earlier rule ⟨tag, attributes, children⟩ start
      = decorate options scope earlier rule ⟨tag, attributes, unwrapped⟩ start := by
  have content : Element.textContent ⟨tag, attributes, children⟩
      = Element.textContent ⟨tag, attributes, unwrapped⟩ := same
  cases rule with
  | code =>
      have trimmed : Decoration.codeContent ⟨tag, attributes, children⟩
          = Decoration.codeContent ⟨tag, attributes, unwrapped⟩ := by
        rw [Decoration.codeContent, Decoration.codeContent, content]
      have delimiters : Decoration.codeDelimiters options ⟨tag, attributes, children⟩
          = Decoration.codeDelimiters options ⟨tag, attributes, unwrapped⟩ := by
        rw [Decoration.codeDelimiters, Decoration.codeDelimiters, trimmed]
      rw [decorate, decorate, Decoration.code, Decoration.code, trimmed, delimiters]
  | url => rw [decorate, decorate, Decoration.url, Decoration.url, content]
  | smilie =>
      rw [decorate, decorate, Decoration.smilie, Decoration.smilie, content]
      refine bind_congr fun reply => ?_
      cases reply <;> rfl
  | _ => rfl

/-- Markers are written in the same way inside of all elements that write none
themselves. -/
theorem emphasis_parent {scope : Scope} {other : String} (plain : scope.parent ∉ Tag.emphasis)
    (plainOther : other ∉ Tag.emphasis) (rule : Rule) (emphasised : rule.tag ∈ Tag.emphasis)
    (opening closing : Text) (span : Span) :
    Decoration.emphasis { scope with parent := other } rule opening closing span
      = Decoration.emphasis scope rule opening closing span := by
  have ne {tag : String} (outside : tag ∉ Tag.emphasis) : tag ≠ rule.tag := by
    rintro rfl
    exact outside emphasised
  unfold Decoration.emphasis
  rw [if_neg (ne plain), if_neg (ne plainOther)]

theorem decorate_parent (options : Options) {scope : Scope} {other : String}
    (plain : scope.parent ∉ Tag.emphasis) (plainOther : other ∉ Tag.emphasis) (earlier : Nat)
    (rule : Rule) (element : Element) (start : Span) :
    decorate options { scope with parent := other } earlier rule element start
      = decorate options scope earlier rule element start := by
  have same (rule : Rule) := emphasis_parent plain plainOther rule
  cases rule with
  | bold => exact congrArg Inquiry.done (same .bold (by decide) _ _ start)
  | italic => exact congrArg Inquiry.done (same .italic (by decide) _ _ start)
  | underline => exact congrArg Inquiry.done (same .underline (by decide) _ _ start)
  | _ => rfl

namespace Node

variable {options : Options} {scope : Scope} {other : String}

/-- A node is laid out in the same way inside of all elements that write no markers. -/
theorem plan_parent (plain : scope.parent ∉ Tag.emphasis) (plainOther : other ∉ Tag.emphasis) :
    ∀ (node : Node) (cursor : Cursor),
      node.plan options { scope with parent := other } cursor = node.plan options scope cursor
  | .text _, _ => rfl
  | .element tag attributes children, cursor => by
      rw [plan, plan]
      cases Rule.ofTag? tag with
      | none => rfl
      | some rule =>
          dsimp only
          rw [decorate_parent options plain plainOther]
          rfl

theorem planAll_parent (plain : scope.parent ∉ Tag.emphasis) (plainOther : other ∉ Tag.emphasis)
    (nodes : List Node) (cursor : Cursor) :
    planAll options { scope with parent := other } nodes cursor
      = planAll options scope nodes cursor := by
  induction nodes generalizing cursor with
  | nil => rfl
  | cons node rest ih =>
      rw [planAll, planAll, plan_parent plain plainOther]
      exact bind_congr fun next => ih next

theorem planAll_append (front back : List Node) (cursor : Cursor) :
    planAll options scope (front ++ back) cursor
      = planAll options scope front cursor >>= planAll options scope back := by
  induction front generalizing cursor with
  | nil => rfl
  | cons node rest ih =>
      rw [List.cons_append, planAll, planAll, bind_assoc]
      exact bind_congr fun next => ih next

/-! ### The plan -/

/-- An element without a rule is laid out as its children are in its place. -/
theorem plan_wrapper {tag : String} (noRule : Rule.ofTag? tag = none)
    (plain : scope.parent ∉ Tag.emphasis) (attributes : Attributes) (children : List Node)
    (cursor : Cursor) :
    plan options scope (.element tag attributes children) cursor
      = planAll options scope children cursor := by
  rw [plan, noRule]
  exact planAll_parent plain (not_mem_emphasis_of_noRule noRule) children cursor

/-- An element is laid out in the same way around children that are laid out in the same
way in every scope of its tag. -/
theorem plan_children {tag : String} {children unwrapped : List Node}
    (content : textContents children = textContents unwrapped)
    (inner : ∀ (scope : Scope) (cursor : Cursor), scope.parent = tag →
      planAll options scope children cursor = planAll options scope unwrapped cursor)
    (attributes : Attributes) (cursor : Cursor) :
    plan options scope (.element tag attributes children) cursor
      = plan options scope (.element tag attributes unwrapped) cursor := by
  rw [plan, plan]
  cases Rule.ofTag? tag with
  | none => exact inner { scope with parent := tag } cursor rfl
  | some rule =>
      have entered : (scope.enter rule ⟨tag, attributes, children⟩).parent = tag := by
        unfold Scope.enter
        split <;> rfl
      dsimp only
      rw [decorate_children options scope cursor.items rule tag attributes content]
      refine bind_congr fun span => ?_
      rw [inner _ _ entered]
      rfl

/-- An element without a rule lays out its children where it stands. -/
theorem planAll_unwrapped {parent : String} {nodes unwrapped : List Node}
    (unwraps : Unwraps parent nodes unwrapped) :
    ∀ (scope : Scope) (cursor : Cursor), scope.parent = parent →
      planAll options scope nodes cursor = planAll options scope unwrapped cursor := by
  induction unwraps with
  | @here parent tag attributes children before after noRule plain =>
      rintro scope cursor rfl
      rw [planAll_append, planAll_append]
      refine bind_congr fun next => ?_
      rw [planAll, plan_wrapper noRule plain, planAll_append]
  | @inside parent tag attributes children unwrapped before after inner ih =>
      rintro scope cursor rfl
      rw [planAll_append, planAll_append]
      refine bind_congr fun next => ?_
      rw [planAll, planAll, plan_children inner.textContents ih]

end Node

theorem plan_unwrapped (options : Options) {post unwrapped : Element} (clean : post.clean = post)
    (cleanUnwrapped : unwrapped.clean = unwrapped) (unwraps : post.Unwraps unwrapped) :
    post.plan options = unwrapped.plan options := by
  unfold Element.plan
  rw [clean, cleanUnwrapped]
  dsimp only
  rw [unwraps.tag, Node.planAll_unwrapped unwraps.children _ _ rfl]

/-- Where an element without a rule is replaced by its children, and cleaning leaves the
post as it is before and after that, every resolver is asked the same questions in the
same order, and the plan and the Markdown are the same, or the failure is. -/
theorem convert_unwrapped {ε : Type} (options : Options) (resolver : Resolver ε)
    {post unwrapped : Element} (clean : post.clean = post)
    (cleanUnwrapped : unwrapped.clean = unwrapped) (unwraps : post.Unwraps unwrapped) :
    (post.plan options).asked resolver = (unwrapped.plan options).asked resolver ∧
      (post.plan options).run resolver = (unwrapped.plan options).run resolver ∧
      post.convert options resolver = unwrapped.convert options resolver := by
  have same := plan_unwrapped options clean cleanUnwrapped unwraps
  refine ⟨by rw [same], by rw [same], ?_⟩
  unfold Element.convert Element.toMarkdown
  rw [same]

def listAround (inner : List Node) : Element :=
  .post [.list [.text "a".toList :: inner], .text "b".toList]

def colouredNodes : List Node :=
  [.lineBreak, .bold [.text "c".toList, .lineBreak], .smilie ":)".toList]

theorem convert_unwrapped_colour :
    (listAround [.color "red".toList colouredNodes]).clean
        = listAround [.color "red".toList colouredNodes] ∧
      (listAround colouredNodes).clean = listAround colouredNodes ∧
      (listAround [.color "red".toList colouredNodes]).Unwraps (listAround colouredNodes) ∧
      ((listAround [.color "red".toList colouredNodes]).plan {}).asked
          (Resolver.nothing : Resolver Unit)
        = ((listAround colouredNodes).plan {}).asked (Resolver.nothing : Resolver Unit) ∧
      ((listAround [.color "red".toList colouredNodes]).plan {}).run
          (Resolver.nothing : Resolver Unit)
        = ((listAround colouredNodes).plan {}).run .nothing ∧
      (listAround [.color "red".toList colouredNodes]).convert {}
          (Resolver.nothing : Resolver Unit)
        = (listAround colouredNodes).convert {} .nothing := by
  have unwraps : (listAround [.color "red".toList colouredNodes]).Unwraps
      (listAround colouredNodes) :=
    ⟨rfl, rfl, .inside [] [.text "b".toList] (.inside [] []
      (.here [.text "a".toList] [] (by decide) (by decide)))⟩
  have clean : (listAround [.color "red".toList colouredNodes]).clean
      = listAround [.color "red".toList colouredNodes] := rfl
  have cleanUnwrapped : (listAround colouredNodes).clean = listAround colouredNodes := rfl
  exact ⟨clean, cleanUnwrapped, unwraps, convert_unwrapped {} .nothing clean cleanUnwrapped unwraps⟩

end ForumMarkup
