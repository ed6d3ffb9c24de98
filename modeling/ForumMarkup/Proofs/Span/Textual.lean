import ForumMarkup.Proofs.Element.Below
import ForumMarkup.Proofs.Markdown.Firm
import ForumMarkup.Proofs.Span.Forms
import ForumMarkup.Proofs.Text.Decimal
import ForumMarkup.Span.Plan

/-!
Contract: the plan of a post whose elements only dress up their text.

Owns:
- `Rule.textual`, the rules that write all of their content and nothing in its
  place;
- `SpanTree.Plain`, the trees of such rules and of text leaves with a property;
- `SpanTree.authored`, the text that a tree writes out.

Main statement: `plain_plan`, the plan of such a post holds its text leaves, with
their references replaced, in order.
-/

set_option autoImplicit false

namespace ForumMarkup

open Decoration Inquiry Markdown

/-- The rules that write all of their content and nothing in its place. -/
def Rule.textual : List Rule :=
  [.bold, .italic, .underline, .size, .lineBreak, .list, .item, .quote]

/-- Elements that have a textual rule or none. -/
def Textual (elements : List Element) : Prop :=
  ∀ element ∈ elements, ∀ rule, Rule.ofTag? element.tag = some rule → rule ∈ Rule.textual

theorem textual_nil : Textual [] :=
  (fun _ none => nomatch none)

/-- What is textual inside and behind an element of a textual rule is textual with
it. -/
theorem textual_cons (rule : Rule) (textual : rule ∈ Rule.textual) {attributes : Attributes}
    {children rest : List Node} (inner : Textual (Node.elementsOf children))
    (later : Textual (Node.elementsOf rest)) :
    Textual (Node.elementsOf (.element rule.tag attributes children :: rest)) := by
  have whole : Textual (Node.elements (.element rule.tag attributes children)) := by
    refine List.forall_mem_cons.2 ⟨fun other found => ?_, inner⟩
    rw [Rule.ofTag?_tag, Option.some.injEq] at found
    rw [← found]
    exact textual
  exact List.forall_mem_append.2 ⟨whole, later⟩

structure Span.Plain (span : Span) : Prop where
  text : span.text = []
  opening : Tame span.opening
  closing : Tame span.closing
  mark : span.lineMark? = none ∨ span.lineMark? = some quoteMark
  notCode : span.isRule .code = false
  notReplaced : span.replaced = false

namespace SpanTree

/-- The trees of textual rules and of text leaves with a property. -/
inductive Plain (p : Text → Prop) : SpanTree → Prop where
  | leaf {text : Text} (holds : p text) : Plain p (.ofText text)
  | node {span : Span} {children : List SpanTree} (plain : span.Plain)
      (inner : ∀ child ∈ children, Plain p child) : Plain p (.node span children)

mutual

/-- The text of a tree. -/
def authored : SpanTree → Text
  | .node span children => span.text ++ authoredAll children

def authoredAll : List SpanTree → Text
  | [] => []
  | tree :: rest => tree.authored ++ authoredAll rest

end

theorem authoredAll_append (front back : List SpanTree) :
    authoredAll (front ++ back) = authoredAll front ++ authoredAll back := by
  induction front with
  | nil => rfl
  | cons tree rest ih => rw [List.cons_append, authoredAll, ih, authoredAll, List.append_assoc]

theorem authoredAll_reverse_cons (tree : SpanTree) (before : List SpanTree) :
    authoredAll (tree :: before).reverse = authoredAll before.reverse ++ tree.authored := by
  rw [List.reverse_cons, authoredAll_append, authoredAll, authoredAll, List.append_nil]

theorem authored_ofText (text : Text) : (SpanTree.ofText text).authored = text := by
  rw [ofText, authored, authoredAll, List.append_nil]

end SpanTree

/-! ### One span -/

theorem Span.plain_new {rule : Rule} (other : rule ≠ .code) :
    Span.Plain { origin := .rule rule } where
  text := rfl
  opening := tame_of_solid_eq_nil rfl
  closing := tame_of_solid_eq_nil rfl
  mark := .inl rfl
  notCode := by
    cases rule with
    | code => exact absurd rfl other
    | _ => rfl
  notReplaced := rfl

theorem Span.Plain.enclosed {span : Span} (plain : span.Plain) {opening closing : Text}
    (tameOpening : Tame opening) (tameClosing : Tame closing) :
    Span.Plain { span with opening, closing } :=
  { plain with opening := tameOpening, closing := tameClosing }

/-- The bullet or number of an item holds no letter. -/
theorem tame_itemSymbol (scope : Scope) (earlier : Nat) : Tame (itemSymbol scope earlier) := by
  unfold itemSymbol
  split
  · refine tame_of_forall fun c member => ?_
    rcases List.mem_append.1 member with digit | dot
    · have isDigit := Text.isDigit_of_mem_ofNat digit
      constructor
      · rintro rfl
        cases isDigit
      · rintro rfl
        cases isDigit
    · rw [List.mem_singleton.1 dot]
      decide
  · exact tame_cons (by decide) (by decide) _

/-- The rules that dress up text keep a span plain, whatever the answers are. -/
theorem plain_decorate {rule : Rule} (textual : rule ∈ Rule.textual) {start : Span}
    (plain : start.Plain) (options : Options) (scope : Scope) (earlier : Nat) (element : Element) :
    (decorate options scope earlier rule element start).Always Span.Plain := by
  -- Every form of a span keeps its text, so only the new opening and closing count.
  cases rule with
  | bold =>
      have stars : Tame ['*', '*'] := tame_cons (by decide) (by decide) _
      show (emphasis scope .bold _ _ start).Plain
      rcases emphasis_eq_or scope .bold ['*', '*'] ['*', '*'] start with same | same
      · rw [same]
        exact plain
      · rw [same]
        exact plain.enclosed stars stars
  | italic =>
      have dash : Tame ['_'] := tame_cons (by decide) (by decide) _
      show (emphasis scope .italic _ _ start).Plain
      rcases emphasis_eq_or scope .italic ['_'] ['_'] start with same | same
      · rw [same]
        exact plain
      · rw [same]
        exact plain.enclosed dash dash
  | underline =>
      have opens : Tame "[u]".toList := tame_cons (by decide) (by decide) _
      have closes : Tame "[/u]".toList := tame_cons (by decide) (by decide) _
      show (emphasis scope .underline _ _ start).Plain
      rcases emphasis_eq_or scope .underline "[u]".toList "[/u]".toList start with same | same
      · rw [same]
        exact plain
      · rw [same]
        exact plain.enclosed opens closes
  | size =>
      have angle (rest : Text) : Tame ('<' :: rest) := tame_cons (by decide) (by decide) rest
      show (size options element start).Plain
      rcases size_eq_or options element start with same | same | same
      · rw [same]
        exact plain
      · rw [same]
        exact plain.enclosed (angle _) (angle _)
      · rw [same]
        exact plain.enclosed (angle _) (angle _)
  | lineBreak => exact { plain with }
  | list =>
      show (list scope start).Plain
      rcases list_eq_or scope start with same | same
      · rw [same]
        exact { plain with }
      · rw [same]
        exact { plain with }
  | item =>
      have indent : Tame (List.replicate (2 * (scope.lists - 1)) ' ') := by
        refine tame_of_forall fun c member => ?_
        rw [List.eq_of_mem_replicate member]
        decide
      have gap : Tame [' '] := tame_of_solid_eq_nil rfl
      exact { plain with opening := (indent.append (tame_itemSymbol scope earlier)).append gap }
  | quote =>
      have opens (header : Text) : Tame ("[quote=\"".toList ++ header ++ "\"]\n".toList) :=
        tame_cons (by decide) (by decide) _
      have closes : Tame "\n[/quote]".toList := by
        have rest : Tame "[/quote]".toList := tame_cons (by decide) (by decide) _
        have fed : Tame ['\n'] := tame_of_solid_eq_nil rfl
        exact fed.append rest
      refine always_quote element (fun header => ?_) { plain with mark := .inr rfl }
      exact { plain with opening := opens header, closing := closes }
  | code | image | url | email | smilie | video | attachment => exact absurd textual (by decide)

/-! ### The plan of a post -/

/-- Text leaves with their references replaced, joined. -/
def decodedText (leaves : List Text) : Text :=
  leaves.flatMap Entity.decode

def Cursor.Writes (p : Text → Prop) (cursor : Cursor) (t : Text) : Prop :=
  (∀ tree ∈ cursor.before, tree.Plain p) ∧ SpanTree.authoredAll cursor.before.reverse = t

/-- A span begins plain, and what goes on inside it was there before. -/
theorem Cursor.writes_begin {p : Text → Prop} {cursor : Cursor} {t : Text}
    (writes : cursor.Writes p t) {rule : Rule} (textual : rule ∈ Rule.textual) :
    (cursor.begin rule).1.Plain ∧ (∀ tree ∈ (cursor.begin rule).2.1, tree.Plain p) ∧
      (∀ tree ∈ (cursor.begin rule).2.2, tree.Plain p) ∧
      SpanTree.authoredAll (cursor.begin rule).2.2.reverse
        ++ SpanTree.authoredAll (cursor.begin rule).2.1.reverse = t := by
  have notCode : rule ≠ .code := by
    rintro rfl
    exact absurd textual (by decide)
  have fresh : Span.Plain { origin := .rule rule } ∧
      (∀ tree ∈ ([] : List SpanTree), tree.Plain p) ∧ (∀ tree ∈ cursor.before, tree.Plain p) ∧
      SpanTree.authoredAll cursor.before.reverse
        ++ SpanTree.authoredAll ([] : List SpanTree).reverse = t := by
    refine ⟨Span.plain_new notCode, (fun _ none => nomatch none), writes.1, ?_⟩
    rw [← writes.2]
    exact List.append_nil _
  unfold Cursor.begin
  split
  · next span children before shape =>
      rw [shape] at fresh ⊢
      split
      · next continues =>
          obtain ⟨all, text⟩ := writes
          rw [shape] at all text
          obtain ⟨last, others⟩ := List.forall_mem_cons.1 all
          cases last with
          | leaf holds => cases continues
          | node plain inner =>
              refine ⟨plain, fun child member => ?_, others, ?_⟩
              · exact inner child (List.mem_reverse.1 member)
              rw [← text, SpanTree.authoredAll_reverse_cons, SpanTree.authored, plain.text,
                List.nil_append, List.reverse_reverse]
      · exact fresh
  · exact fresh

namespace Node

mutual

/-- By induction over the node: the spans of textual elements hold the decoded leaves in
order. -/
theorem writes_plan {p : Text → Prop} (options : Options) (scope : Scope) :
    ∀ (node : Node) (cursor : Cursor) (t : Text), Textual node.elements →
      (∀ leaf ∈ node.leaves, p (Entity.decode leaf)) → cursor.Writes p t →
      (node.plan options scope cursor).Always (Cursor.Writes p · (t ++ decodedText node.leaves))
  | .text content, cursor, t, _, holds, writes => by
      refine ⟨List.forall_mem_cons.2 ⟨.leaf (holds content List.mem_cons_self), writes.1⟩, ?_⟩
      show SpanTree.authoredAll (SpanTree.ofText _ :: cursor.before).reverse = _
      rw [SpanTree.authoredAll_reverse_cons, writes.2, SpanTree.authored_ofText]
      simp [decodedText, leaves]
  | .element tag attributes children, cursor, t, textual, holds, writes => by
      rw [elements] at textual
      obtain ⟨here, below⟩ := List.forall_mem_cons.1 textual
      rw [plan]
      split
      · exact writes_planAll options _ children cursor t below holds writes
      · next rule found =>
          obtain ⟨plain, soundWithin, before, text⟩ := Cursor.writes_begin writes (here rule found)
          generalize cursor.begin rule = begun at plain soundWithin before text ⊢
          obtain ⟨start, within, prior⟩ := begun
          refine always_bind.2 ((plain_decorate (here rule found) plain options scope
            cursor.items _).mono fun span plainSpan => ?_)
          have open_ : ¬span.replaced = true := by
            rw [plainSpan.notReplaced]
            decide
          rw [if_neg open_]
          have inside (items : Nat) : Cursor.Writes p { before := within, items }
              (SpanTree.authoredAll within.reverse) := ⟨soundWithin, rfl⟩
          refine always_bind.2 ((writes_planAll options _ children _ _ below holds
            (inside _)).mono fun ending writesInner => ?_)
          refine ⟨List.forall_mem_cons.2 ⟨.node plainSpan fun child member =>
            writesInner.1 child (List.mem_reverse.1 member), before⟩, ?_⟩
          show SpanTree.authoredAll (SpanTree.node span ending.before.reverse :: prior).reverse = _
          rw [SpanTree.authoredAll_reverse_cons, SpanTree.authored, plainSpan.text,
            List.nil_append, writesInner.2, ← List.append_assoc, text]
          rfl

theorem writes_planAll {p : Text → Prop} (options : Options) (scope : Scope) :
    ∀ (nodes : List Node) (cursor : Cursor) (t : Text), Textual (elementsOf nodes) →
      (∀ leaf ∈ leavesOf nodes, p (Entity.decode leaf)) → cursor.Writes p t →
      (planAll options scope nodes cursor).Always
        (Cursor.Writes p · (t ++ decodedText (leavesOf nodes)))
  | [], cursor, t, _, _, writes => by
      show cursor.Writes p (t ++ [])
      rw [List.append_nil]
      exact writes
  | node :: rest, cursor, t, textual, holds, writes => by
      rw [elementsOf] at textual
      rw [leavesOf] at holds
      obtain ⟨here, later⟩ := List.forall_mem_append.1 textual
      obtain ⟨holdsHere, holdsLater⟩ := List.forall_mem_append.1 holds
      rw [planAll]
      refine always_bind.2 ((writes_plan options scope node cursor t here holdsHere writes).mono ?_)
      intro next writesNext
      have all := writes_planAll options scope rest next _ later holdsLater writesNext
      have joined : decodedText (leavesOf (node :: rest))
          = decodedText node.leaves ++ decodedText (leavesOf rest) := List.flatMap_append
      rw [joined, ← List.append_assoc]
      exact all

end

end Node

theorem textual_clean {post : Element} (textual : Textual post.below) :
    Textual post.clean.below := by
  intro element member rule found
  obtain ⟨original, there, rfl⟩ := Element.exists_of_mem_below_clean member
  exact textual original there rule found

/-- The plan of a post with textual elements: a root without any marks, and in it
plain trees that hold the text of the post. -/
theorem plain_plan {p : Text → Prop} (options : Options) {post : Element}
    (textual : Textual post.below) (holds : ∀ leaf ∈ post.clean.leaves, p (Entity.decode leaf)) :
    (post.plan options).Always fun tree =>
      ∃ children, tree = .node { origin := .root } children ∧
        (∀ child ∈ children, child.Plain p) ∧
        SpanTree.authoredAll children = decodedText post.clean.leaves := by
  have start : Cursor.Writes p {} [] := ⟨(fun _ none => nomatch none), rfl⟩
  have laid := Node.writes_planAll options { parent := post.clean.tag } post.clean.children {} []
    (textual_clean textual) holds start
  refine always_bind.2 (laid.mono fun cursor writes => ?_)
  refine ⟨cursor.before.reverse, rfl, fun child member => ?_, writes.2⟩
  exact writes.1 child (List.mem_reverse.1 member)

end ForumMarkup
