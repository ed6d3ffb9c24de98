import Mathlib.Algebra.GroupWithZero.Nat
import Mathlib.Data.List.Chain
import ForumMarkup.Proofs.Markdown.EmphasisBreaks
import ForumMarkup.Proofs.Span.Spots

/-!
Contract: line breaks that follow each other share one span, and none is lost.

Owns:
- `SpanTree.Apart`, spans side by side of which no two neighbours are line breaks;
- `SpanTree.Coalesced`, trees of such spans whose line breaks are runs as the emphasis around
  them has it;
- `SpanTree.breaksIn`, the sum of the lengths of these runs.

Main statements: `coalesced_plan`, a node keeps this up and adds one break for each visited
line break in it; and `breaks_coalesce`.

Line breaks that are reached through different elements share a span if these elements have no
rule. Such elements are no emphasis, so that all breaks of a run see the same emphasis around.
-/

set_option autoImplicit false

namespace ForumMarkup

open Markdown Decoration

variable {ε : Type} {resolver : Resolver ε}

def Span.ofBreaks (emphasised : Bool) (count : Nat) : Span :=
  Scope.breaks { parent := "", emphasised } count

theorem lineBreak_ofBreaks (scope : Scope) (count : Nat) :
    lineBreak scope (Span.ofBreaks scope.emphasised count)
      = Span.ofBreaks scope.emphasised (count + 1) :=
  lineBreak_breaks scope count

namespace SpanTree

/-- No two neighbours are line breaks. -/
def Apart (trees : List SpanTree) : Prop :=
  trees.IsChain fun first second =>
    ¬(first.span.isRule .lineBreak = true ∧ second.span.isRule .lineBreak = true)

theorem Apart.reverse {trees : List SpanTree} (apart : Apart trees) : Apart trees.reverse := by
  rw [Apart, List.isChain_reverse]
  exact apart.imp fun first second other same => other same.symm

/-- Trees whose line breaks are runs that are not empty, with no two of them side by side. The
flag says whether the tree lies in emphasis. -/
inductive Coalesced : Bool → SpanTree → Prop where
  | node {emphasised : Bool} {span : Span} {children : List SpanTree}
      (run : span.isRule .lineBreak = true → ∃ count, span = .ofBreaks emphasised (count + 1))
      (apart : Apart children)
      (inner : ∀ child ∈ children, Coalesced (emphasised || span.isEmphasis) child) :
      Coalesced emphasised (.node span children)

def breaksIn (trees : List SpanTree) : Nat :=
  ((spansWhere (fun span => span.isRule .lineBreak) trees).map Span.breaksAfter).sum

theorem breaksIn_append (front back : List SpanTree) :
    breaksIn (front ++ back) = breaksIn front + breaksIn back := by
  rw [breaksIn, spansWhere_append, List.map_append, List.sum_append]
  rfl

theorem breaksIn_cons (span : Span) (children rest : List SpanTree) :
    breaksIn (.node span children :: rest)
      = (if span.isRule .lineBreak then span.breaksAfter else 0) + breaksIn children
        + breaksIn rest := by
  rw [← List.singleton_append, breaksIn_append, breaksIn, spansWhere_node, List.map_append,
    List.sum_append]
  split <;> rfl

theorem breaksIn_reverse (trees : List SpanTree) : breaksIn trees.reverse = breaksIn trees := by
  induction trees with
  | nil => rfl
  | cons tree rest ih =>
      rw [List.reverse_cons, breaksIn_append, ih, Nat.add_comm, ← breaksIn_append]
      rfl

end SpanTree

open SpanTree (Apart breaksIn breaksIn_cons breaksIn_reverse)

/-- A part of a span tree has no line breaks side by side. If it is one, it has breaks, and
these are hard where there are several in emphasis. -/
structure Spot.Coalesced (spot : Spot) : Prop where
  apart : Apart spot.tree.children
  filled : spot.tree.span.isRule .lineBreak = true → 1 ≤ spot.tree.span.breaksAfter
  kind : spot.tree.span.isRule .lineBreak = true → spot.tree.span.kindAfter
    = if 2 ≤ spot.tree.span.breaksAfter ∧ spot.around.any Span.isEmphasis = true
      then .hard else .auto

namespace SpanTree

mutual

/-- Every part of a coalesced tree is as the spans around it ask for. -/
theorem Coalesced.spots : ∀ (tree : SpanTree) (around : List Span),
    tree.Coalesced (around.any Span.isEmphasis) → ∀ spot ∈ tree.spots around, spot.Coalesced
  | .node span children, around, .node run apart inner, spot, member => by
      rw [SpanTree.spots] at member
      rcases List.mem_cons.1 member with rfl | below
      · refine ⟨apart, fun isBreak => ?_, fun isBreak => ?_⟩
        · obtain ⟨count, rfl⟩ := run isBreak
          exact Nat.succ_pos count
        · obtain ⟨count, rfl⟩ := run isBreak
          rfl
      · refine coalesced_spotsOf children _ (fun child here => ?_) spot below
        rw [List.any_cons, Bool.or_comm]
        exact inner child here

theorem coalesced_spotsOf : ∀ (trees : List SpanTree) (around : List Span),
    (∀ tree ∈ trees, tree.Coalesced (around.any Span.isEmphasis)) →
      ∀ spot ∈ spotsOf around trees, spot.Coalesced
  | [], _, _, _, member => nomatch member
  | tree :: rest, around, coalesced, spot, member => by
      obtain ⟨here, later⟩ := List.forall_mem_cons.1 coalesced
      rw [spotsOf] at member
      rcases List.mem_append.1 member with first | behind
      · exact Coalesced.spots tree around here spot first
      · exact coalesced_spotsOf rest around later spot behind

end

end SpanTree

/-! ### Spans in place -/

structure SpanTree.AllCoalesced (emphasised : Bool) (before : List SpanTree) : Prop where
  apart : Apart before
  inner : ∀ tree ∈ before, tree.Coalesced emphasised

namespace SpanTree.AllCoalesced

variable {emphasised : Bool} {before : List SpanTree}

theorem nil : AllCoalesced emphasised [] :=
  ⟨.nil, List.forall_mem_nil _⟩

theorem reverse (coalesced : AllCoalesced emphasised before) :
    AllCoalesced emphasised before.reverse :=
  ⟨coalesced.apart.reverse, fun tree member => coalesced.inner tree (List.mem_reverse.1 member)⟩

theorem tail {tree : SpanTree} (coalesced : AllCoalesced emphasised (tree :: before)) :
    AllCoalesced emphasised before :=
  ⟨(List.isChain_cons.1 coalesced.apart).2, (List.forall_mem_cons.1 coalesced.inner).2⟩

/-- A span behind others, which is no line break or stands behind none. -/
theorem cons {tree : SpanTree} (coalesced : AllCoalesced emphasised before)
    (here : tree.Coalesced emphasised)
    (ends : tree.span.isRule .lineBreak = true → Cursor.Ends before) :
    AllCoalesced emphasised (tree :: before) := by
  refine ⟨List.isChain_cons.2 ⟨?_, coalesced.apart⟩, List.forall_mem_cons.2 ⟨here, coalesced.inner⟩⟩
  rintro last there ⟨isBreak, lastBreak⟩
  rw [ends isBreak last there] at lastBreak
  cases lastBreak

/-- In front of a line break there is none. -/
theorem ends_tail {tree : SpanTree} (coalesced : AllCoalesced emphasised (tree :: before))
    (isBreak : tree.span.isRule .lineBreak = true) : Cursor.Ends before := by
  intro last there
  have apart := (List.isChain_cons.1 coalesced.apart).1 last there
  exact Bool.eq_false_iff.2 fun lastBreak => apart ⟨isBreak, lastBreak⟩

end SpanTree.AllCoalesced

open SpanTree (AllCoalesced)

/-- Where the span of a rule begins among coalesced spans: a line break goes on with a run, or
with an empty one behind a span of another kind; and no break gets lost. -/
structure Cursor.Begun (emphasised : Bool) (rule : Rule) (before : List SpanTree)
    (begun : Span × List SpanTree × List SpanTree) : Prop where
  run : rule = .lineBreak → ∃ count, begun.1 = .ofBreaks emphasised count
  within : AllCoalesced (emphasised || emphasisRules.contains rule) begun.2.1
  prior : AllCoalesced emphasised begun.2.2
  ends : rule = .lineBreak → Cursor.Ends begun.2.2
  total : breaksIn before
    = (if rule = .lineBreak then begun.1.breaksAfter else 0) + breaksIn begun.2.1
      + breaksIn begun.2.2

theorem Cursor.begun_begin {cursor : Cursor} {emphasised : Bool}
    (coalesced : AllCoalesced emphasised cursor.before) (rule : Rule) :
    Begun emphasised rule cursor.before (cursor.begin rule) := by
  by_cases isBreak : rule = .lineBreak
  · subst isBreak
    by_cases ends : Ends cursor.before
    · rw [Cursor.begin_of_ends ends]
      refine ⟨fun _ => ⟨0, rfl⟩, .nil, coalesced, fun _ => ends, ?_⟩
      exact (Nat.zero_add _).symm
    · obtain ⟨span, children, prior, shape, isBreak⟩ := Cursor.exists_of_not_ends ends
      rw [Cursor.begin_of_lineBreak shape isBreak, shape]
      rw [shape] at coalesced
      cases (List.forall_mem_cons.1 coalesced.inner).1 with
      | node run apart inner =>
          obtain ⟨count, rfl⟩ := run isBreak
          refine ⟨fun _ => ⟨_, rfl⟩, AllCoalesced.reverse ⟨apart, inner⟩, coalesced.tail,
            fun _ => coalesced.ends_tail isBreak, ?_⟩
          rw [breaksIn_cons, isBreak, breaksIn_reverse]
          rfl
  · rw [Cursor.begin_of_ne isBreak]
    refine ⟨fun same => absurd same isBreak, .nil, coalesced, fun same => absurd same isBreak, ?_⟩
    rw [if_neg isBreak, Nat.zero_add]
    exact (Nat.zero_add _).symm

def countBreaks (elements : List Element) : Nat :=
  elements.countP fun element => element.hasTag Tag.lineBreak

theorem countBreaks_singleton (element : Element) :
    countBreaks [element] = if element.hasTag Tag.lineBreak then 1 else 0 :=
  List.countP_singleton

theorem countBreaks_append (front back : List Element) :
    countBreaks (front ++ back) = countBreaks front + countBreaks back :=
  List.countP_append

theorem countBreaks_cons (element : Element) (rest : List Element) :
    countBreaks (element :: rest) = countBreaks [element] + countBreaks rest :=
  countBreaks_append [element] rest

namespace Cursor.Begun

variable {scope : Scope} {rule : Rule} {before : List SpanTree}
  {begun : Span × List SpanTree × List SpanTree} {options : Options} {earlier : Nat}
  {element : Element} {span : Span}

/-- The rule of line breaks makes the run longer by one, and no other makes one. -/
theorem decorated (begins : Begun scope.emphasised rule before begun)
    (found : Rule.ofTag? element.tag = some rule) (origin : span.origin = .rule rule)
    (ran : (decorate options scope earlier rule element begun.1).run resolver = .ok span) :
    (span.isRule .lineBreak = true →
        ∃ count, span = .ofBreaks scope.emphasised (count + 1)) ∧
      (if span.isRule .lineBreak then span.breaksAfter else 0)
        = (if rule = .lineBreak then begun.1.breaksAfter else 0) + countBreaks [element] := by
  have isBreak : element.hasTag Tag.lineBreak = decide (rule = .lineBreak) :=
    Element.hasTag_tag found .lineBreak
  rw [Span.isRule_of_origin origin, countBreaks_singleton, isBreak]
  by_cases here : rule = .lineBreak
  · obtain ⟨count, start⟩ := begins.run here
    subst here
    rw [start] at ran ⊢
    have longer : span = .ofBreaks scope.emphasised (count + 1) := by
      cases ran
      exact lineBreak_ofBreaks scope count
    rw [longer]
    exact ⟨fun _ => ⟨count, rfl⟩, rfl⟩
  · simp [here]

/-- The span of a rule behind those before it, with coalesced spans inside of it. -/
theorem coalesced (begins : Begun scope.emphasised rule before begun)
    (found : Rule.ofTag? element.tag = some rule) (origin : span.origin = .rule rule)
    (ran : (decorate options scope earlier rule element begun.1).run resolver = .ok span)
    {inner : List SpanTree} {further : Nat}
    (within : AllCoalesced (scope.emphasised || emphasisRules.contains rule) inner)
    (grown : breaksIn inner = breaksIn begun.2.1 + further) :
    AllCoalesced scope.emphasised (.node span inner.reverse :: begun.2.2) ∧
      breaksIn (.node span inner.reverse :: begun.2.2)
        = breaksIn before + (countBreaks [element] + further) := by
  obtain ⟨run, own⟩ := begins.decorated found origin ran
  rw [← Span.isEmphasis_of_origin origin] at within
  refine ⟨begins.prior.cons (.node run within.reverse.apart within.reverse.inner) ?_, ?_⟩
  · intro isBreak
    have same : rule = .lineBreak := Origin.rule.inj (origin.symm.trans (eq_of_beq isBreak))
    exact begins.ends same
  · rw [breaksIn_cons, breaksIn_reverse, own, grown, begins.total]
    omega

end Cursor.Begun

/-! ### The plan -/

theorem Scope.emphasised_enter (scope : Scope) {rule : Rule} {element : Element}
    (tag : rule.tag = element.tag) :
    (scope.enter rule element).emphasised
      = (scope.emphasised || emphasisRules.contains rule) := by
  rw [← Rule.contains_tag_emphasis, tag]
  unfold Scope.enter
  split <;> rfl

namespace Node

mutual

/-- A node keeps the spans in place coalesced and adds a break for each visited line break. -/
theorem coalesced_plan (options : Options) {around : List Element}
    (visible : ∀ outer ∈ around, outer.isReplaced resolver = false) (scope : Scope) :
    ∀ (node : Node) (cursor : Cursor), cursor.Resumable →
      AllCoalesced scope.emphasised cursor.before → ∀ {ending : Cursor},
        (node.plan options scope cursor).run resolver = .ok ending →
          AllCoalesced scope.emphasised ending.before ∧
            breaksIn ending.before
              = breaksIn cursor.before + countBreaks (node.visited resolver around)
  | .text content, cursor, _, coalesced, ending, ran => by
      cases ran
      refine ⟨coalesced.cons (.node nofun .nil (List.forall_mem_nil _)) nofun, ?_⟩
      exact (breaksIn_cons _ _ _).trans (Nat.zero_add _)
  | .element tag attributes children, cursor, resumable, coalesced, ending, ran => by
      rw [visited_element resolver visible]
      cases found : Rule.ofTag? tag with
      | none =>
          -- The breaks inside go on with the run before them, in the same emphasis.
          rw [plan, found] at ran
          have open_ : Element.isReplaced resolver ⟨tag, attributes, children⟩ = false :=
            Element.not_isReplaced_of_noRule found resolver
          have noBreak : Element.hasTag ⟨tag, attributes, children⟩ Tag.lineBreak = false :=
            Element.not_hasTag_tag found .lineBreak
          have inner := coalesced_planAll options (List.forall_mem_cons.2 ⟨open_, visible⟩)
            { scope with parent := tag } children cursor resumable coalesced ran
          rw [open_, if_neg Bool.false_ne_true, countBreaks_cons, countBreaks_singleton, noBreak,
            if_neg Bool.false_ne_true, Nat.zero_add]
          exact inner
      | some rule =>
          obtain ⟨span, decorated, origin, _, filled⟩ := exists_of_plan_rule found resumable ran
          have begins := cursor.begun_begin coalesced rule
          rw [countBreaks_cons]
          split at filled
          · next closed =>
              rw [closed, if_pos rfl, filled]
              exact begins.coalesced found origin decorated begins.within rfl
          · next opened =>
              obtain ⟨last, laid, rfl⟩ := filled
              have open_ := Bool.eq_false_iff.2 opened
              have inside : (scope.enter rule ⟨tag, attributes, children⟩).emphasised
                  = (scope.emphasised || emphasisRules.contains rule) :=
                scope.emphasised_enter (Rule.tag_of_ofTag? found)
              have start : AllCoalesced (scope.enter rule ⟨tag, attributes, children⟩).emphasised
                  (cursor.begin rule).2.1 := by
                rw [inside]
                exact begins.within
              obtain ⟨coalescedLast, grown⟩ := coalesced_planAll options
                (List.forall_mem_cons.2 ⟨open_, visible⟩) _ children _ (resumable.within rule _)
                start laid
              rw [inside] at coalescedLast
              rw [open_, if_neg Bool.false_ne_true]
              exact begins.coalesced found origin decorated coalescedLast grown

/-- Nodes keep the spans in place coalesced and add their visited line breaks. -/
theorem coalesced_planAll (options : Options) {around : List Element}
    (visible : ∀ outer ∈ around, outer.isReplaced resolver = false) (scope : Scope) :
    ∀ (nodes : List Node) (cursor : Cursor), cursor.Resumable →
      AllCoalesced scope.emphasised cursor.before → ∀ {ending : Cursor},
        (planAll options scope nodes cursor).run resolver = .ok ending →
          AllCoalesced scope.emphasised ending.before ∧
            breaksIn ending.before
              = breaksIn cursor.before + countBreaks (visitedOf resolver around nodes)
  | [], cursor, _, coalesced, ending, ran => by
      cases ran
      exact ⟨coalesced, rfl⟩
  | node :: rest, cursor, resumable, coalesced, ending, ran => by
      rw [planAll] at ran
      obtain ⟨next, first, later⟩ := Inquiry.exists_of_run_bind ran
      have between : next.Resumable :=
        (poses_plan options scope visible node cursor resumable).of_run first
      obtain ⟨coalescedNext, here⟩ :=
        coalesced_plan options visible scope node cursor resumable coalesced first
      obtain ⟨coalescedEnding, there⟩ :=
        coalesced_planAll options visible scope rest next between coalescedNext later
      refine ⟨coalescedEnding, ?_⟩
      rw [there, here, visitedOf_cons, countBreaks_append, Nat.add_assoc]

end

end Node

/-- Line breaks coalesce without loss. In the plan of a post no two spans side by side are line
breaks. The span of a line break has one break or more, hard ones exactly if there are several
and a span around it is of bold, italic or underlined text. All in all there are as many
breaks as line breaks below the post with nothing replaced around them, where an element is
replaced exactly if its rule replaces the content of its span. -/
theorem breaks_coalesce (options : Options) (resolver : Resolver ε) {post : Element}
    {tree : SpanTree} (planned : (post.plan options).run resolver = .ok tree) :
    (∀ spot ∈ tree.spots [],
      (spot.tree.children.IsChain fun first second =>
        ¬(first.span.isRule .lineBreak = true ∧ second.span.isRule .lineBreak = true)) ∧
      (spot.tree.span.isRule .lineBreak = true →
        1 ≤ spot.tree.span.breaksAfter ∧
        spot.tree.span.kindAfter
          = if 2 ≤ spot.tree.span.breaksAfter ∧ spot.around.any Span.isEmphasis = true
            then .hard else .auto)) ∧
    ((tree.spans.filter fun span => span.isRule .lineBreak).map Span.breaksAfter).sum
      = ((Node.placedOf [] post.clean.children).filter fun placed =>
          placed.element.hasTag Tag.lineBreak &&
            placed.around.all fun outer => !outer.isReplaced resolver).length ∧
    ∀ (scope : Scope) (earlier : Nat) (rule : Rule) (element : Element) (span : Span),
      Rule.ofTag? element.tag = some rule →
        (decorate options scope earlier rule element { origin := .rule rule }).run resolver
          = .ok span → span.replaced = element.isReplaced resolver := by
  obtain ⟨ending, laid, made⟩ := Inquiry.exists_of_run_bind planned
  cases made
  have alone : ∀ outer ∈ ([] : List Element), outer.isReplaced resolver = false := nofun
  obtain ⟨coalesced, total⟩ := Node.coalesced_planAll options alone { parent := post.clean.tag }
    post.clean.children {} nofun .nil laid
  have whole : SpanTree.Coalesced false (.node { origin := .root } ending.before.reverse) :=
    .node nofun coalesced.reverse.apart coalesced.reverse.inner
  refine ⟨fun spot member => ?_, ?_, ?_⟩
  · obtain ⟨apart, filled, kind⟩ := SpanTree.Coalesced.spots _ [] whole spot member
    exact ⟨apart, fun isBreak => ⟨filled isBreak, kind isBreak⟩⟩
  · rw [SpanTree.spans, List.filter_cons_of_neg (by decide)]
    show breaksIn ending.before.reverse = _
    rw [breaksIn_reverse, total, countBreaks, Node.visitedOf, List.countP_map,
      List.countP_filter, List.countP_eq_length_filter]
    exact Nat.zero_add _
  · intro scope earlier rule element span found ran
    exact ((poses_decorate options scope earlier found rfl).of_run ran).2

/-- Line breaks behind each other in bold text, the second one in a colour and the third one
with text of its own, one more behind a smilie, two in a quote and one in an image. -/
def severalBreaks : Element :=
  .post [
    .bold [.lineBreak, .color "red".toList [.lineBreak], .wrap Tag.lineBreak [.text "a".toList],
      .smilie ":)".toList, .lineBreak],
    .quote [.lineBreak, .lineBreak],
    .wrap Tag.image [.lineBreak]]

theorem breaks_coalesce_severalBreaks :
    ∃ tree, (severalBreaks.plan {}).run (Resolver.nothing : Resolver Unit) = .ok tree ∧
      (tree.spans.filter fun span => span.isRule .lineBreak).map (fun span =>
          (span.breaksAfter, span.kindAfter)) = [(3, .hard), (1, .auto), (2, .auto)] ∧
      ((tree.spans.filter fun span => span.isRule .lineBreak).map Span.breaksAfter).sum = 6 := by
  have planned : (severalBreaks.plan {}).run (Resolver.nothing : Resolver Unit) = .ok _ :=
    Inquiry.run_ofAnswers _ _
  refine ⟨_, planned, by decide +kernel, ?_⟩
  rw [(breaks_coalesce {} .nothing planned).2.1]
  decide

end ForumMarkup
