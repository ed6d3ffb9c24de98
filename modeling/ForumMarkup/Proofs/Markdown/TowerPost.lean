import ForumMarkup.Proofs.Markdown.AuthoredText
import ForumMarkup.Proofs.Markdown.BareSpans
import ForumMarkup.Proofs.Span.Direct

/-!
Contract: posts whose author wrote the mark of an empty line.

Owns: `towerPost`, a text that is a line mark, alone in its line inside quotes.

Main statements: `convertPlain_towerPost`, what such a post is written as, and
`not_keepsText_towerPost`, it loses the text.
-/

set_option autoImplicit false

open scoped List

namespace ForumMarkup.Markdown

open Decoration Node

/-- A text of one line, a line break and a second text in it, inside quotes. -/
def towerNodes (core : Text) : Nat → List Node
  | 0 => [.wrap Tag.size [.text ['a'], .lineBreak], .wrap Tag.lineBreak [.text core]]
  | quotes + 1 => [.quote (towerNodes core quotes)]

def towerTrees (core : Text) : Nat → List SpanTree
  | 0 => [.node sizeSpan [.ofText ['a'], .node breakSpan []], .node breakSpan [.ofText core]]
  | quotes + 1 => [.node quoteSpan (towerTrees core quotes)]

/-- The line mark of some quotes without its blank, inside one quote more. -/
def towerPost (depth : Nat) : Element :=
  .post (towerNodes (quoteMarks depth ++ ['>']) (depth + 1))

theorem cleanAll_towerNodes (rest : Text) (quotes : Nat) :
    cleanAll false (towerNodes ('>' :: rest) quotes) = towerNodes ('>' :: rest) quotes := by
  induction quotes with
  | zero => rfl
  | succ quotes ih =>
      show [Node.quote (cleanAll false (towerNodes ('>' :: rest) quotes))] = _
      rw [ih]
      rfl

theorem leavesOf_towerNodes (core : Text) (quotes : Nat) :
    leavesOf (towerNodes core quotes) = [['a'], core] := by
  induction quotes with
  | zero => rfl
  | succ quotes ih =>
      show leavesOf (towerNodes core quotes) ++ [] = _
      rw [ih, List.append_nil]

theorem lays_towerNodes {core : Text} (plain : '&' ∉ core) (quotes : Nat) :
    Lays {} [] (towerNodes core quotes) (towerTrees core quotes) := by
  induction quotes with
  | zero =>
      have first : Lays {} [] [.text ['a'], .lineBreak] [.ofText ['a'], .node breakSpan []] := by
        refine .text (Entity.decode_eq_self (by decide)) ?_
        exact .element .lineBreak (by decide) (by decide) (fun _ => rfl) (fun _ _ => rfl) rfl
          lays_nil lays_nil
      have second : Lays {} [] [.text core] [.ofText core] :=
        .text (Entity.decode_eq_self plain) lays_nil
      refine .element .size (by decide) (by decide) (fun _ => rfl) (fun _ _ => rfl) rfl first ?_
      exact .element .lineBreak (by decide) (by decide) (fun _ => rfl) (fun _ _ => rfl) rfl
        second lays_nil
  | succ quotes ih =>
      exact .element .quote (by decide) (by decide) (fun _ => rfl) (fun _ _ => rfl) rfl ih lays_nil

/-- A line that is the mark of an empty line is taken for one. -/
theorem stripMarkLine?_quoteMarks (depth : Nat) (buffer : Buffer) :
    stripUnit? ((quoteMarks depth ++ ['>']).reverse ++ '\n' :: buffer) = none ∧
      stripMarkLine? (quoteMarks (depth + 1))
          ((quoteMarks depth ++ ['>']).reverse ++ '\n' :: buffer)
        = some ('\n' :: buffer) := by
  constructor
  · rw [List.reverse_concat]
    rfl
  · refine stripMarkLine?_of_line (by simp) ?_ (.inr (trimEnd_quoteMarks depth).symm)
    simp [not_feed_mem_quoteMarks]

theorem stripBreaks_mark_line (depth : Nat) {line : Text} (single : '\n' ∉ line) :
    stripBreaks (quoteMarks (depth + 1))
        ((quoteMarks depth ++ ['>']).reverse ++ '\n' :: 'a' :: line)
      = 'a' :: line := by
  obtain ⟨noUnit, found⟩ := stripMarkLine?_quoteMarks depth ('a' :: line)
  have last : stripLast? (quoteMarks (depth + 1))
      ((quoteMarks depth ++ ['>']).reverse ++ '\n' :: 'a' :: line)
        = some ('\n' :: 'a' :: line) := by
    rw [stripLast?, noUnit, found]
    rfl
  rw [stripBreaks_of_some last, stripBreaks_of_stripUnit? rfl,
    stripBreaks_of_none (stripLast?_of_line single)]

/-- One break is there already, so a line break does not write another one. -/
theorem addBreaks_mark_line (depth : Nat) {line : Text} (single : '\n' ∉ line) :
    addBreaks {} .auto (quoteMarks (depth + 1)) 1
        ((quoteMarks depth ++ ['>']).reverse ++ '\n' :: 'a' :: line)
      = (quoteMarks depth ++ ['>']).reverse ++ '\n' :: 'a' :: line := by
  obtain ⟨noUnit, found⟩ := stripMarkLine?_quoteMarks depth ('a' :: line)
  have settled : stripLast? (quoteMarks (depth + 1)) ('a' :: line) = none :=
    stripLast?_of_line single
  simp only [stripLast?, Option.or_eq_none_iff] at settled
  have count : countBreaks (quoteMarks (depth + 1))
      ((quoteMarks depth ++ ['>']).reverse ++ '\n' :: 'a' :: line) = 1 := by
    rw [countBreaks_of_markLine noUnit found, countBreaks_of_unit rfl,
      countBreaks_of_none settled.1.1 settled.1.2]
  unfold addBreaks
  dsimp only
  rw [count]
  split
  · rfl
  · exact if_pos (by decide)

/-- The breaks behind a quote are stripped under every line mark. -/
theorem stripBreaks_quote_breaks (depth : Nat) {line : Text} (single : '\n' ∉ line) :
    stripBreaks (quoteMarks depth)
        (addBreaks {} .auto (quoteMarks depth) 2 ('a' :: line))
      = 'a' :: line := by
  rw [addBreaks_of_none (List.cons_ne_nil _ _) (stripLast?_of_line single) (by decide) (by decide)]
  cases depth with
  | zero =>
      show stripBreaks [] ('\n' :: '\n' :: 'a' :: line) = _
      rw [stripBreaks_of_stripUnit? rfl, stripBreaks_of_stripUnit? rfl,
        stripBreaks_of_none (stripLast?_of_line single)]
  | succ depth =>
      have run : breakRun {} .auto (quoteMarks (depth + 1)) 2
          = '\n' :: (quoteMarks depth ++ ['>']) ++ ['\n'] := by
        rw [← trimEnd_quoteMarks]
        simp [breakRun, List.range_succ, breakUnit, breakLead, BreakUnit.text]
      have soft : stripUnit? ('\n' :: ((quoteMarks depth ++ ['>']).reverse ++ '\n' :: 'a' :: line))
          = some ((quoteMarks depth ++ ['>']).reverse ++ '\n' :: 'a' :: line) := by
        cases depth with
        | zero => rfl
        | succ depth =>
            rw [← quoteMarks_concat, List.reverse_concat, List.reverse_append]
            rfl
      have shape : (breakRun {} .auto (quoteMarks (depth + 1)) 2).reverse ++ 'a' :: line
          = '\n' :: ((quoteMarks depth ++ ['>']).reverse ++ '\n' :: 'a' :: line) := by
        rw [run]
        simp
      rw [shape, stripBreaks_of_stripUnit? soft, stripBreaks_mark_line depth single]

/-- The innermost quote: the second text stands alone in its line, like the line mark
of an empty line. -/
theorem siblings_innermost (depth : Nat) :
    siblings {} (quoteMarks (depth + 1)) true [] (towerTrees (quoteMarks depth ++ ['>']) 0)
      = (quoteMarks depth ++ ['>']).reverse ++ '\n' :: 'a' :: (quoteMarks (depth + 1)).reverse := by
  have markSingle : '\n' ∉ quoteMarks depth ++ ['>'] := by
    simp [not_feed_mem_quoteMarks]
  have lineSingle : '\n' ∉ (quoteMarks (depth + 1)).reverse := by
    simp [not_feed_mem_quoteMarks]
  have first : inside {} (quoteMarks (depth + 1) ++ [])
      (.node sizeSpan [.ofText ['a'], .node breakSpan []]) = ['a', '\n'] := by
    have ended : addBreaks {} .auto (quoteMarks (depth + 1)) 1 ['a'] = ['\n', 'a'] :=
      addBreaks_of_none (List.cons_ne_nil _ _) (stripLast?_of_line (by simp)) (by decide)
        (by decide)
    rw [List.append_nil, inside_of_none {} _ rfl, SpanTree.ofText, siblings_leaf, siblings_leaf,
      siblings, place_inline rfl rfl rfl rfl rfl, place_inline rfl rfl rfl rfl rfl]
    show (addBreaks {} .auto (quoteMarks (depth + 1)) 1 ['a']).reverse = _
    rw [ended]
    rfl
  have second : inside {} (quoteMarks (depth + 1) ++ [])
      (.node breakSpan [.ofText (quoteMarks depth ++ ['>'])]) = quoteMarks depth ++ ['>'] := by
    have placed (content : Text) (single : '\n' ∉ content) :
        place {} (quoteMarks (depth + 1)) false { origin := .text, text := content } true content []
          = content.reverse ++ [] :=
      place_inline rfl rfl rfl rfl (markLines_of_feed_free single _)
    rw [List.append_nil, inside_of_none {} _ rfl, SpanTree.ofText, siblings_leaf, siblings,
      placed _ markSingle, List.append_nil, List.reverse_reverse]
  have sized : place {} (quoteMarks (depth + 1)) true sizeSpan false ['a', '\n'] []
      = '\n' :: 'a' :: (quoteMarks (depth + 1)).reverse := by
    rw [place_bare rfl rfl rfl (by rintro _ c ⟨⟩; decide) rfl]
    show (quoteMarks (depth + 1) ++ ['a', '\n']).reverse ++ [] = _
    simp
  have broken : place {} (quoteMarks (depth + 1)) true breakSpan false (quoteMarks depth ++ ['>'])
      ('\n' :: 'a' :: (quoteMarks (depth + 1)).reverse)
      = (quoteMarks depth ++ ['>']).reverse
        ++ '\n' :: 'a' :: (quoteMarks (depth + 1)).reverse := by
    rw [place_inline rfl rfl rfl rfl rfl]
    exact addBreaks_mark_line depth lineSingle
  rw [towerTrees, siblings_node {} _ true _ sizeSpan (by simp),
    siblings_node {} _ true _ breakSpan (by simp), siblings]
  rw [show sizeSpan.lineMark?.getD [] = [] from rfl, show breakSpan.lineMark?.getD [] = [] from rfl,
    first, second, sized, broken]

/-- Every quote of the tower holds the same text: it loses the breaks of the quote in
it, and its own are stripped by the next one. -/
theorem stripBreaks_tower (depth marks quotes : Nat) (all : marks + quotes = depth + 1)
    (marked : Bool) (innermost : quotes = 0 → marked = true) :
    stripBreaks (quoteMarks marks)
        (siblings {} (quoteMarks marks) marked []
          (towerTrees (quoteMarks depth ++ ['>']) quotes))
      = 'a' :: (quoteMarks (depth + 1)).reverse := by
  have single : '\n' ∉ (quoteMarks (depth + 1)).reverse := by
    simp [not_feed_mem_quoteMarks]
  -- From the inside out, with one mark less around each quote.
  induction quotes generalizing marks marked with
  | zero =>
      obtain rfl : marks = depth + 1 := by omega
      rw [innermost rfl, siblings_innermost, stripBreaks_mark_line depth single]
  | succ quotes ih =>
      have filled : towerTrees (quoteMarks depth ++ ['>']) quotes ≠ [] := by
        cases quotes <;> exact List.cons_ne_nil _ _
      have inner := ih (marks + 1) (by omega) true (fun _ => rfl)
      have content : inside {} (quoteMarks marks ++ quoteSpan.lineMark?.getD [])
          (.node quoteSpan (towerTrees (quoteMarks depth ++ ['>']) quotes))
          = quoteMarks (depth + 1) ++ ['a'] := by
        rw [show quoteMarks marks ++ quoteSpan.lineMark?.getD [] = quoteMarks (marks + 1) from
          quoteMarks_concat marks, inside_of_some {} _ rfl, inner, List.reverse_cons,
          List.reverse_reverse]
      have noStart : startsLine (quoteMarks marks) marked quoteSpan [] = false := by
        simp [startsLine, quoteSpan]
      have written : (quoteMarks (depth + 1) ++ ['a']).reverse ++ []
          = 'a' :: (quoteMarks (depth + 1)).reverse := by
        simp
      rw [towerTrees, siblings_node {} _ marked _ quoteSpan filled, siblings, content,
        place_inline rfl rfl rfl noStart rfl, written]
      exact stripBreaks_quote_breaks marks single

theorem clean_towerPost (depth : Nat) : (towerPost depth).clean = towerPost depth := by
  obtain ⟨rest, shape⟩ : ∃ rest, quoteMarks depth ++ ['>'] = '>' :: rest := by
    cases depth with
    | zero => exact ⟨[], rfl⟩
    | succ depth => exact ⟨_, rfl⟩
  refine clean_post ?_
  rw [shape]
  exact cleanAll_towerNodes rest _

theorem not_amp_mem_quoteMarks (depth : Nat) : '&' ∉ quoteMarks depth ++ ['>'] := by
  intro member
  rcases List.mem_append.1 member with mark | arrow
  · rcases chars_quoteMarks depth _ mark with same | same <;> cases same
  · cases List.mem_singleton.1 arrow

/-- Of a tower nothing is written behind the first text. -/
theorem convertPlain_towerPost (depth : Nat) :
    (towerPost depth).convertPlain {} = quoteMarks (depth + 1) ++ ['a'] := by
  have plan := plan_of_lays (clean_towerPost depth)
    (lays_towerNodes (not_amp_mem_quoteMarks depth) (depth + 1))
  unfold Element.convertPlain Element.toMarkdown
  rw [towerPost, plan, Inquiry.done_bind]
  show (stripBreaks [] (inside {} [] _).reverse).reverse = _
  have stripped := stripBreaks_tower depth 0 (depth + 1) (by omega) false (by omega)
  rw [show quoteMarks 0 = [] from rfl] at stripped
  rw [inside_of_none {} [] rfl, List.reverse_reverse, stripped]
  simp

theorem textual_towerNodes (core : Text) (quotes : Nat) :
    Textual (elementsOf (towerNodes core quotes)) := by
  induction quotes with
  | zero =>
      refine textual_cons .size (by decide) ?_ ?_
      · exact textual_cons .lineBreak (by decide) textual_nil textual_nil
      · exact textual_cons .lineBreak (by decide) textual_nil textual_nil
  | succ quotes ih => exact textual_cons .quote (by decide) ih textual_nil

theorem leaves_towerPost (depth : Nat) :
    (towerPost depth).clean.leaves = [['a'], quoteMarks depth ++ ['>']] := by
  rw [clean_towerPost]
  exact leavesOf_towerNodes _ _

theorem exposes_towerPost {depth : Nat}
    (trimmed : Text.trim (quoteMarks depth ++ ['>']) = quoteMarks depth ++ ['>']) :
    Exposes (quoteMarks depth ++ ['>']) (towerPost depth) := by
  refine ⟨textual_towerNodes _ _, fun leaf member => ?_⟩
  rw [leaves_towerPost] at member
  rcases List.mem_cons.1 member with rfl | second
  · right
    rw [Entity.decode_eq_self (by decide)]
    exact sturdy_of_getLast? (by decide)
  · left
    rw [List.mem_singleton.1 second, Entity.decode_eq_self (not_amp_mem_quoteMarks depth), trimmed]

/-- The line mark that the author wrote is stripped with the breaks before it. -/
theorem not_keepsText_towerPost (depth : Nat) : ¬KeepsText {} (towerPost depth) := by
  unfold KeepsText
  rw [leaves_towerPost, convertPlain_towerPost]
  have text : Text.solid (decodedText [['a'], quoteMarks depth ++ ['>']])
      = 'a' :: (Text.solid (quoteMarks depth) ++ ['>']) := by
    show Text.solid (Entity.decode ['a'] ++ (Entity.decode (quoteMarks depth ++ ['>']) ++ [])) = _
    rw [Entity.decode_eq_self (by decide), Entity.decode_eq_self (not_amp_mem_quoteMarks depth),
      List.append_nil, Text.solid_append, Text.solid_append]
    rfl
  rw [text]
  intro within
  obtain ⟨front, back, parts, inMark, inText⟩ := List.sublist_append_iff.1 within
  cases front with
  | nil =>
      rw [List.nil_append] at parts
      rw [← parts] at inText
      have bound := inText.length_le
      simp at bound
  | cons first more =>
      have same : 'a' = first := (List.cons.inj parts).1
      rcases chars_quoteMarks _ _ (inMark.subset List.mem_cons_self) with other | other
      · rw [← same] at other
        cases other
      · rw [← same] at other
        cases other

end ForumMarkup.Markdown
