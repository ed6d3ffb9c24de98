import ForumMarkup.Proofs.Element.KeptLeaves
import ForumMarkup.Proofs.Lookup.Always
import ForumMarkup.Proofs.Span.Steps
import ForumMarkup.Proofs.Span.Wraps

/-!
Contract: content in which nothing but line breaks asks for breaks.

Owns:
- `Node.Calm`, text of one line, line breaks, and elements that put texts around their
  content or have no rule; `Element.Calm`, elements that hold only these;
- `SpanTree.Calm`, the spans of such content in emphasis.

Main statements: `Element.Calm.kept`, such content stays so when it is cleaned, and
`calm_planAll`, its spans in emphasis.
-/

set_option autoImplicit false

namespace ForumMarkup

open Decoration Inquiry

/-! ### Nodes -/

/-- Text of one line without references, line breaks, and elements of these whose rule, when
there is one, puts texts around their content and nothing else. -/
inductive Node.Calm : Node → Prop where
  | text {content : Text} (single : '\n' ∉ content) (plain : '&' ∉ content) :
      Calm (.text content)
  | lineBreak (attributes : Attributes) : Calm (.element Tag.lineBreak attributes [])
  | element {tag : String} (attributes : Attributes) {children : List Node}
      (wraps : ∀ rule, Rule.ofTag? tag = some rule → rule ∈ wrapRules)
      (inner : ∀ child ∈ children, Calm child) : Calm (.element tag attributes children)

/-- Everything inside of the element is calm. -/
def Element.Calm (element : Element) : Prop :=
  ∀ child ∈ element.children, child.Calm

namespace Node

mutual

theorem Calm.clean? (first : Bool) :
    ∀ (node : Node), node.Calm → ∀ cleaned ∈ node.clean? first, cleaned.Calm
  | .text content, .text single plain, cleaned, cleans => by
      rw [Option.mem_def, Node.clean?] at cleans
      split at cleans
      · cases cleans
      · cases cleans
        have kept := (cleanText_suffix first content).subset
        exact .text (fun feed => single (kept feed)) fun reference => plain (kept reference)
  | .element _ _ _, .lineBreak attributes, cleaned, cleans => by
      rw [Option.mem_def, Node.clean?, Option.ite_none_left_eq_some] at cleans
      cases cleans.2
      exact .lineBreak attributes
  | .element tag _ children, .element attributes wraps inner, cleaned, cleans => by
      rw [Option.mem_def, Node.clean?, Option.ite_none_left_eq_some] at cleans
      cases cleans.2
      exact .element attributes wraps (calm_cleanAll _ children inner)

theorem calm_cleanAll (first : Bool) :
    ∀ (nodes : List Node), (∀ node ∈ nodes, node.Calm) → ∀ node ∈ cleanAll first nodes, node.Calm
  | [], _, node, member => nomatch member
  | front :: rest, calm, node, member => by
      obtain ⟨here, later⟩ := List.forall_mem_cons.1 calm
      rw [cleanAll] at member
      split at member
      · exact calm_cleanAll first rest later node member
      · next cleaned cleans =>
          rcases List.mem_cons.1 member with rfl | behind
          · exact Calm.clean? first front here node cleans
          · exact calm_cleanAll false rest later node behind

end

end Node

theorem Element.Calm.kept {element : Element} (calm : element.Calm) : (Node.kept element).Calm :=
  Node.calm_cleanAll _ element.children calm

/-! ### Spans -/

/-- The spans of calm content in emphasis: text of one line, runs of line breaks, and spans
that put texts around such spans. -/
inductive SpanTree.Calm : SpanTree → Prop where
  | text {text : Text} (single : '\n' ∉ text) : Calm (.ofText text)
  | breaks {scope : Scope} (emphasised : scope.emphasised = true) (count : Nat) :
      Calm (.node (scope.breaks count) [])
  | wrap {span : Span} {children : List SpanTree} {rule : Rule} (wraps : span.Wraps)
      (isWrap : rule ∈ wrapRules) (origin : span.origin = .rule rule)
      (inner : ∀ child ∈ children, Calm child) : Calm (.node span children)

theorem Span.Wraps.sound {span : Span} (wraps : span.Wraps) {rule : Rule}
    (isWrap : rule ∈ wrapRules) (origin : span.origin = .rule rule) : span.Sound := by
  obtain ⟨_, _, noBreak, noCode⟩ := others_of_mem_wrapRules isWrap
  have bare : span = _ := wraps.bare
  exact Span.sound_of_unmarked origin (by rw [bare]) (fun same => absurd same noBreak)
    fun same => absurd same noCode

theorem SpanTree.Calm.sound {tree : SpanTree} (calm : tree.Calm) : tree.Sound := by
  induction calm with
  | text single => exact SpanTree.sound_ofText _
  | breaks emphasised count =>
      refine .node ?_ (fun _ => rfl) (List.forall_mem_nil _)
      exact Span.sound_of_unmarked rfl rfl (fun _ => ⟨rfl, rfl, rfl⟩) nofun
  | wrap wraps isWrap origin inner ih =>
      refine .node (wraps.sound isWrap origin) ?_ ih
      have bare := wraps.bare
      rintro (replaced | isBreak)
      · rw [bare] at replaced
        cases replaced
      · rw [origin] at isBreak
        exact absurd (Origin.rule.inj isBreak) (others_of_mem_wrapRules isWrap).2.2.1

theorem SpanTree.Calm.unmarked {tree : SpanTree} (calm : tree.Calm) :
    tree.span.lineMark? = none := by
  cases calm with
  | text single => rfl
  | breaks emphasised count => rfl
  | wrap wraps isWrap origin inner => exact congrArg Span.lineMark? wraps.bare

theorem SpanTree.Calm.children {tree : SpanTree} (calm : tree.Calm) :
    ∀ child ∈ tree.children, child.Calm := by
  cases calm with
  | text single => exact List.forall_mem_nil _
  | breaks emphasised count => exact List.forall_mem_nil _
  | wrap wraps isWrap origin inner => exact inner

def Cursor.Calm (cursor : Cursor) : Prop :=
  ∀ tree ∈ cursor.before, tree.Calm

/-- Among calm spans a line break begins a run in emphasis or makes one longer. -/
theorem Cursor.Calm.exists_breaks {cursor : Cursor} (calm : cursor.Calm) {scope : Scope}
    (emphasised : scope.emphasised = true) (options : Options) (attributes : Attributes) :
    ∃ ending, (Node.element Tag.lineBreak attributes []).plan options scope cursor = .done ending ∧
      ending.Calm := by
  obtain ⟨before, items⟩ := cursor
  by_cases ends : Cursor.Ends before
  · exact ⟨_, Node.plan_lineBreak ends attributes,
      List.forall_mem_cons.2 ⟨.breaks emphasised 1, calm⟩⟩
  · obtain ⟨span, children, prior, rfl, isBreak⟩ := Cursor.exists_of_not_ends ends
    obtain ⟨here, others⟩ := List.forall_mem_cons.1 calm
    cases here with
    | text single => cases isBreak
    | @breaks around aroundEmphasised count =>
        have same : around.breaks count = scope.breaks count := by
          rw [Scope.breaks, Scope.breaks, aroundEmphasised, emphasised]
        rw [same]
        exact ⟨_, Node.plan_lineBreak_breaks attributes count items prior,
          List.forall_mem_cons.2 ⟨.breaks emphasised (count + 1), others⟩⟩
    | wrap wraps isWrap origin inner =>
        have same := origin.symm.trans (eq_of_beq isBreak)
        exact absurd (Origin.rule.inj same) (others_of_mem_wrapRules isWrap).2.2.1

theorem Scope.enter_emphasised {scope : Scope} (emphasised : scope.emphasised = true)
    (rule : Rule) (element : Element) : (scope.enter rule element).emphasised = true := by
  unfold Scope.enter
  split <;> simp [emphasised]

namespace Node

mutual

/-- By induction over the node: in emphasis calm content is planned calm. -/
theorem calm_plan (options : Options) {scope : Scope} (emphasised : scope.emphasised = true) :
    ∀ (node : Node) (cursor : Cursor), node.Calm → cursor.Calm →
      (node.plan options scope cursor).Always Cursor.Calm
  | .text content, cursor, .text single plain, calm => by
      rw [plan_text, Entity.decode_eq_self plain]
      exact List.forall_mem_cons.2 ⟨.text single, calm⟩
  | .element _ _ _, cursor, .lineBreak attributes, calm => by
      obtain ⟨ending, planned, calmEnding⟩ := calm.exists_breaks emphasised options attributes
      rw [planned]
      exact calmEnding
  | .element tag _ children, cursor, .element attributes wraps inner, calm => by
      rw [plan]
      split
      · have within : ({ scope with parent := tag } : Scope).emphasised = true := emphasised
        exact calm_planAll options within children cursor inner calm
      · next rule found =>
          have isWrap := wraps rule found
          obtain ⟨noList, noItem, noBreak, _⟩ := others_of_mem_wrapRules isWrap
          obtain ⟨span, decorated, origin, spanWraps⟩ :=
            exists_decorate_wrap options scope cursor.items isWrap ⟨tag, attributes, children⟩
          have bare := spanWraps.bare
          have open_ : span.replaced = false := by rw [bare]
          rw [Cursor.begin_of_ne noBreak]
          dsimp only
          rw [decorated, Inquiry.done_bind, open_, if_neg Bool.false_ne_true]
          have start (items : Nat) : Cursor.Calm { before := [], items } := List.forall_mem_nil _
          refine always_bind.2 ((calm_planAll options (Scope.enter_emphasised emphasised _ _)
            children _ inner (start _)).mono fun ending within => ?_)
          refine List.forall_mem_cons.2 ⟨.wrap spanWraps isWrap origin ?_, calm⟩
          exact fun child member => within child (List.mem_reverse.1 member)

/-- In emphasis the spans of calm nodes are calm. -/
theorem calm_planAll (options : Options) {scope : Scope} (emphasised : scope.emphasised = true) :
    ∀ (nodes : List Node) (cursor : Cursor), (∀ node ∈ nodes, node.Calm) → cursor.Calm →
      (planAll options scope nodes cursor).Always Cursor.Calm
  | [], _, _, calm => calm
  | node :: rest, cursor, nodes, calm => by
      obtain ⟨here, later⟩ := List.forall_mem_cons.1 nodes
      rw [planAll]
      refine always_bind.2 ((calm_plan options emphasised node cursor here calm).mono ?_)
      exact fun next calmNext => calm_planAll options emphasised rest next later calmNext

end

end Node

end ForumMarkup
