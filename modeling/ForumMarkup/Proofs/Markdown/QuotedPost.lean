import ForumMarkup.Proofs.Markdown.DirectPost
import ForumMarkup.Proofs.Markdown.QuotedContent

/-!
Contract: the Markdown of a post that is one quote.

Main statement: `convertPlain_quote_iff`, it has the mark before each line of what the
quote holds, unless that ends like a line break.

Lists inside lists are not among the contents: see `nested_list_quote_ne_quoteLines`.
-/

set_option autoImplicit false

namespace ForumMarkup

open Decoration

/-! ### The scope of the root and of a quote -/

theorem decorate_of_parent {scope : Scope} (outer : scope.parent ∉ Tag.emphasis) {parent : String}
    (other : parent ∉ Tag.emphasis) (options : Options) (items : Nat) (rule : Rule)
    (element : Element) (span : Span) :
    decorate options { scope with parent } items rule element span
      = decorate options scope items rule element span := by
  have same (rule : Rule) (member : rule.tag ∈ Tag.emphasis) (opening closing : Text) :
      Decoration.emphasis { scope with parent } rule opening closing span
        = Decoration.emphasis scope rule opening closing span := by
    have ne : scope.parent ≠ rule.tag := fun same => outer (same ▸ member)
    have neOther : parent ≠ rule.tag := fun same => other (same ▸ member)
    rw [Decoration.emphasis, Decoration.emphasis, if_neg ne, if_neg neOther]
  cases rule with
  | bold => exact congrArg Inquiry.done (same .bold (by decide) _ _)
  | italic => exact congrArg Inquiry.done (same .italic (by decide) _ _)
  | underline => exact congrArg Inquiry.done (same .underline (by decide) _ _)
  | _ => rfl

/-- Outside of emphasis nodes do not see in which element they stand. -/
theorem Node.planAll_of_parent (scope : Scope) (outer : scope.parent ∉ Tag.emphasis)
    {parent : String} (other : parent ∉ Tag.emphasis) (options : Options) (nodes : List Node)
    (cursor : Cursor) :
    planAll options { scope with parent } nodes cursor = planAll options scope nodes cursor := by
  have same (node : Node) (cursor : Cursor) :
      plan options { scope with parent } node cursor = plan options scope node cursor := by
    cases node with
    | text content => rw [plan_text, plan_text]
    | element tag attributes children =>
        rw [plan, plan]
        cases Rule.ofTag? tag with
        | none => rfl
        | some rule =>
            dsimp only
            rw [decorate_of_parent outer other]
            rfl
  induction nodes generalizing cursor with
  | nil => rfl
  | cons node rest ih =>
      rw [planAll, planAll, same]
      exact congrArg _ (funext ih)

namespace Markdown

/-! ### The end of the quote -/

/-- The breaks behind a quote leave no trace at the end of a text, unless that ends like
a line break. -/
theorem stripBreaks_addBreaks_eq_iff {c : Char} (solid : Text.isBlank c = false) (buffer : Buffer) :
    stripBreaks [] (addBreaks {} .auto [] 2 (c :: buffer)) = c :: buffer
      ↔ c ≠ '\\' ∧ ¬"<br>".toList.reverse <+: c :: buffer := by
  have filled : c :: buffer ≠ [] := List.cons_ne_nil c buffer
  have stripped : stripBreaks [] (addBreaks {} .auto [] 2 (c :: buffer))
      = stripBreaks [] ('\n' :: c :: buffer) := by
    rw [addBreaks_of_none filled (stripLast?_of_solid solid buffer) (by decide) (by decide)]
    exact stripBreaks_of_stripUnit? rfl
  have shorter {rest : Buffer} (unit : stripUnit? ('\n' :: c :: buffer) = some rest)
      (less : rest.length < (c :: buffer).length) :
      stripBreaks [] ('\n' :: c :: buffer) ≠ c :: buffer := by
    intro same
    have bound := stripBreaks_length_le [] rest
    rw [← stripBreaks_of_stripUnit? unit, same] at bound
    omega
  rw [stripped]
  constructor
  · intro same
    refine ⟨?_, ?_⟩
    · rintro rfl
      exact shorter rfl (Nat.lt_succ_self _) same
    · rintro ⟨rest, shape⟩
      rw [← shape] at shorter same
      have less : rest.length < ("<br>".toList.reverse ++ rest).length := by
        rw [List.length_append]
        exact Nat.lt_add_of_pos_left (by decide)
      exact shorter rfl less same
  · rintro ⟨noHard, noHtml⟩
    have settled : Settled (c :: buffer) :=
      ⟨⟨c, buffer, rfl, solid⟩, fun same => noHard (Option.some.inj same), noHtml⟩
    rw [stripBreaks_of_stripUnit? (stripUnit?_of_settled settled), stripBreaks_of_settled settled]

theorem html_quoted_iff {t : Text} (within : endsLine false t = false) :
    "<br>".toList.reverse <+: (quoted true t).reverse ↔ "<br>".toList <:+ t := by
  constructor
  · intro html
    refine Classical.byContradiction fun noHtml => ?_
    exact not_html_quoted (fun inside => noHtml (List.reverse_prefix.1 inside)) within html
  · rintro ⟨front, rfl⟩
    rw [quoted_append, List.reverse_append]
    cases endsLine true front with
    | false => exact List.prefix_append _ _
    | true =>
        have marked : "<br>".toList.reverse <+: (quoted true "<br>".toList).reverse := by decide
        exact marked.trans (List.prefix_append _ _)

/-! ### The post -/

/-- Contents of the class are written inside a quote as they are alone, with the mark. -/
theorem exists_quoted_contents {contents : List Node}
    (quotable : ∀ node ∈ contents, node.Quotable Tag.quote false)
    (leads : ∀ node ∈ Node.opening? contents, node.Leads) :
    ∃ (kepts : List Node) (trees : List SpanTree) (items : Nat),
      (∀ first, Node.cleanAll first contents = kepts) ∧
        Node.planAll {} { parent := Tag.quote } kepts {} = .done { before := trees, items } ∧
        stripBreaks quoteMark (laid {} quoteMark true trees)
          = (quoted true (stripBreaks [] (laid {} [] false trees)).reverse).reverse := by
  obtain ⟨kepts, cleaned, plans⟩ :=
    exists_contents fun node member => continues_of_quotable (quotable node member)
  let scope : Scope := { parent := Tag.quote }
  have fits : scope.Fits Tag.quote false := ⟨rfl, rfl, fun member => absurd member (by decide)⟩
  obtain ⟨next, early, count, items, planned, paired, -, -⟩ :=
    plans .clear 0 0 (paired_nil true) fits rfl fun _ => ⟨by decide, fun _ => leads⟩
  obtain ⟨later, -, twin⟩ := paired.run scope count
  exact ⟨kepts, scope.run count next, items, cleaned, planned, twin.stripBreaks⟩

/-- Content that is kept alike wherever it stands is kept alike in a quote. -/
theorem clean_post_of_cleanAll {contents kepts : List Node}
    (cleaned : ∀ first, Node.cleanAll first contents = kepts) :
    (Element.post contents).clean = .post kepts ∧
      (Element.post [.quote contents]).clean = .post [.quote kepts] := by
  have quote : Node.clean? false (.quote contents) = some (.quote kepts) :=
    Node.clean?_element (by decide) (cleaned _) ∅ false
  constructor
  · unfold Element.clean Element.post
    dsimp only
    rw [cleaned]
  · unfold Element.clean Element.post
    rw [show Tag.trimmedStarts.contains Tag.richRoot = false by decide]
    dsimp only
    rw [Node.cleanAll, quote]
    rfl

/-- What a quote at the root is written as, by the spans inside it. -/
theorem convertPlain_quote {contents kepts : List Node} {trees : List SpanTree} {items : Nat}
    (cleaned : ∀ first, Node.cleanAll first contents = kepts)
    (planned : Node.planAll {} { parent := Tag.quote } kepts {} = .done { before := trees, items })
    (filled : trees ≠ []) :
    (Element.post [.quote contents]).convertPlain {}
      = (stripBreaks [] (addBreaks {} .auto [] 2
          (stripBreaks quoteMark (laid {} quoteMark true trees)))).reverse := by
  have plannedQuote : Node.planAll {} { parent := Tag.richRoot } [.quote kepts] {}
      = .done { before := [.node quoteSpan trees.reverse], items } := by
    have entered : Scope.enter { parent := Tag.richRoot } .quote ⟨Tag.quote, ∅, kepts⟩
        = { parent := Tag.quote } := rfl
    have quote : Node.plan {} { parent := Tag.richRoot } (.quote kepts) {}
        = .done { before := [.node quoteSpan trees.reverse], items } :=
      Node.plan_element {} .quote ∅ (by decide) rfl rfl (entered ▸ planned)
    rw [Node.planAll_cons [] quote]
    rfl
  have content : inside {} ([] ++ quoteSpan.lineMark?.getD []) (.node quoteSpan trees.reverse)
      = (stripBreaks quoteMark (laid {} quoteMark true trees)).reverse :=
    inside_of_some {} _ rfl _
  rw [convertPlain_of_planAll (clean_post_of_cleanAll cleaned).2 plannedQuote,
    List.reverse_singleton, siblings_node {} [] false [] quoteSpan (by simpa using filled), content,
    siblings, place_unmarked rfl rfl (addBreaks_nil _ _ _ _), List.reverse_reverse, List.append_nil]
  rfl

/-- A quote is written as what it holds with the mark before each line, exactly where that
does not end like a line break. -/
theorem convertPlain_quote_iff {contents : List Node}
    (quotable : ∀ node ∈ contents, node.Quotable Tag.quote false)
    (leads : ∀ node ∈ Node.opening? contents, node.Leads)
    (filled : (Element.post contents).convertPlain {} ≠ []) :
    (Element.post [.quote contents]).convertPlain {}
        = quoteLines ((Element.post contents).convertPlain {})
      ↔ ((Element.post contents).convertPlain {}).getLast? ≠ some '\\' ∧
        ¬"<br>".toList <:+ (Element.post contents).convertPlain {} := by
  obtain ⟨kepts, trees, items, cleaned, planned, stripped⟩ := exists_quoted_contents quotable leads
  have plannedRoot : Node.planAll {} { parent := Tag.richRoot } kepts {}
      = .done { before := trees, items } := by
    rw [← planned]
    exact Node.planAll_of_parent { parent := Tag.quote } (by decide) (by decide) {} kepts {}
  have alone : (Element.post contents).convertPlain {}
      = (stripBreaks [] (laid {} [] false trees)).reverse :=
    convertPlain_of_planAll (clean_post_of_cleanAll cleaned).1 plannedRoot
  have laidOut : trees ≠ [] := by
    rintro rfl
    refine filled ?_
    rw [alone]
    exact congrArg List.reverse (stripBreaks_of_none rfl)
  rw [convertPlain_quote cleaned planned laidOut, stripped, alone]
  rw [alone] at filled
  have none := stripLast?_stripBreaks [] (laid {} [] false trees)
  generalize stripBreaks [] (laid {} [] false trees) = buffer at filled none ⊢
  cases buffer with
  | nil => exact absurd rfl filled
  | cons c rest =>
      have solid : Text.isBlank c = false := by
        simp only [stripLast?, Option.or_eq_none_iff, stripBlank?] at none
        simpa using none.2
      rw [List.reverse_cons]
      have within (start : Bool) : endsLine start (rest.reverse ++ [c]) = false := by
        rw [endsLine_concat, beq_eq_false_iff_ne]
        exact Text.ne_lineFeed_of_solid solid
      obtain ⟨more, shape⟩ : ∃ more, (quoted true (rest.reverse ++ [c])).reverse = c :: more := by
        rw [quoted_concat, List.reverse_concat]
        exact ⟨_, rfl⟩
      rw [← html_quoted_iff (within false), ← quoted_true (within true), List.reverse_eq_iff, shape,
        stripBreaks_addBreaks_eq_iff solid more, List.getLast?_concat]
      exact and_congr_left fun _ => not_congr Option.some_inj.symm

def mixedContents : List Node :=
  [.bold [.text "a".toList, .lineBreak, .lineBreak], .text "b".toList,
    .list [[.text "c".toList, .code "d\n\ne".toList], [.text "f".toList]]]

theorem quotable_mixedContents : ∀ node ∈ mixedContents, node.Quotable Tag.quote false := by
  have word {c : Char} (plain : c ≠ '\n' ∧ c ≠ '&' ∧ Text.isBlank c = false) :
      Node.QuotableText [c] := by
    obtain ⟨noFeed, noAmpersand, solid⟩ := plain
    refine ⟨List.cons_ne_nil c [], ?_, ?_, ?_⟩
    · simpa using noFeed.symm
    · simpa using noAmpersand.symm
    · rintro d first
      cases first
      exact solid
  have bold : Node.Quotable Tag.quote false
      (.bold [.text "a".toList, .lineBreak, .lineBreak]) := by
    refine .emphasis (by decide) ∅ (fun _ => by decide) ?_
    refine List.forall_mem_cons.2 ⟨.text (word (c := 'a') (by decide)), ?_⟩
    refine List.forall_mem_cons.2 ⟨.lineBreak ∅, ?_⟩
    exact List.forall_mem_singleton.2 (.lineBreak ∅)
  have code : Node.Quotable Tag.item true (.code "d\n\ne".toList) :=
    .code ∅ ⟨'d', "\n\ne".toList, by decide +kernel, by decide⟩
  have list : Node.Quotable Tag.quote false
      (.list [[.text "c".toList, .code "d\n\ne".toList], [.text "f".toList]]) := by
    refine .list ∅ (List.cons_ne_nil _ _) (by decide) ?_
    refine List.forall_mem_cons.2 ⟨.item ∅ (word (c := 'c') (by decide)) ?_, ?_⟩
    · exact List.forall_mem_singleton.2 code
    · exact List.forall_mem_singleton.2 (.item ∅ (word (c := 'f') (by decide)) (List.forall_mem_nil _))
  refine List.forall_mem_cons.2 ⟨bold, List.forall_mem_cons.2 ⟨?_, ?_⟩⟩
  · exact .text (word (c := 'b') (by decide))
  · exact List.forall_mem_singleton.2 list

theorem convertPlain_quote_mixedContents :
    (∀ node ∈ mixedContents, node.Quotable Tag.quote false) ∧
      (∀ node ∈ Node.opening? mixedContents, node.Leads) ∧
      (Element.post mixedContents).convertPlain {} ≠ [] ∧
      (Element.post [.quote mixedContents]).convertPlain {}
        = quoteLines ((Element.post mixedContents).convertPlain {}) := by
  have output : (Element.post mixedContents).convertPlain {}
      = "**a\\\n\\**\nb\n\n* c\n\n```\nd\n\ne\n```\n\n* f".toList := by decide +kernel
  have leads : ∀ node ∈ Node.opening? mixedContents, node.Leads := by
    rintro node opens
    cases opens
    trivial
  have filled : (Element.post mixedContents).convertPlain {} ≠ [] := by
    rw [output]
    decide
  refine ⟨quotable_mixedContents, leads, filled,
    (convertPlain_quote_iff quotable_mixedContents leads filled).2 ?_⟩
  rw [output]
  decide

def nestedList : List Node :=
  [.list [[.text "a".toList, .list [[.text "b".toList]]]]]

/-- Inside a quote the list inside a list is indented by one space less: the blank at the
start of a line is dropped there, and it is the first one of the indentation. -/
theorem nested_list_quote_ne_quoteLines :
    (Element.post nestedList).convertPlain {} = "* a\n  * b".toList ∧
      (Element.post [.quote nestedList]).convertPlain {} = "> * a\n>  * b".toList ∧
      (Element.post [.quote nestedList]).convertPlain {}
        ≠ quoteLines ((Element.post nestedList).convertPlain {}) := by
  have output : (Element.post nestedList).convertPlain {} = "* a\n  * b".toList := by decide +kernel
  have quote : (Element.post [.quote nestedList]).convertPlain {} = "> * a\n>  * b".toList := by decide +kernel
  refine ⟨output, quote, ?_⟩
  rw [output, quote]
  decide

end Markdown

end ForumMarkup
