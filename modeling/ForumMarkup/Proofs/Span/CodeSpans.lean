import ForumMarkup.Element.Post
import ForumMarkup.Markdown
import ForumMarkup.Proofs.Span.Steps
import ForumMarkup.Proofs.Text.Trim
import ForumMarkup.Proofs.Text.WholeRuns

/-!
Contract: code in a line, and whether the code can end it.

Owns:
- `beforeRun?` and `unpad`, how a reader finds the end of a code span and what it takes for
  its content, and `codeSpan?`, the content of a whole code span;
- `Fills`, what has to stand between two delimiters so that a reader finds the content.

Main statements: `beforeRun?_eq_some_iff`, the search of the reader finds the first run;
and `inline_code_closes_iff`.

Code with a backtick inside is written between two backticks, whatever runs there are in
it. It can end its span exactly with a whole run of two backticks.
-/

set_option autoImplicit false

namespace ForumMarkup

/-! ### Reading a code span -/

/-- The text before the first whole run of `count` backticks. -/
def beforeRun? (count : Nat) : Text → Option Text
  | [] => none
  | c :: rest =>
      have := (List.dropWhile_suffix (l := rest) (· == '\x60')).length_le
      if c = '\x60' then
        if (c :: rest.takeWhile (· == '\x60')).length = count then some []
        else (beforeRun? count (rest.dropWhile (· == '\x60'))).map
          (c :: rest.takeWhile (· == '\x60') ++ ·)
      else (beforeRun? count rest).map (c :: ·)
termination_by t => t.length

/-- The text without one space at each end, if it has both and more than spaces. -/
def unpad : Text → Text
  | ' ' :: rest =>
      if rest.getLast? = some ' ' ∧ rest.any (· != ' ') = true then rest.dropLast
      else ' ' :: rest
  | t => t

/-- The content of a code span, which ends at the next run as long as the one it starts
with. -/
def codeSpan? (source : Text) : Option Text :=
  (beforeRun? (source.takeWhile (· == '\x60')).length (source.dropWhile (· == '\x60'))).map unpad

/-- A text that starts with a backtick is a run of them and a text that starts otherwise. -/
theorem exists_leading_run (rest : Text) :
    ∃ count behind, '\x60' :: rest.takeWhile (· == '\x60') = List.replicate count '\x60' ∧
      rest.dropWhile (· == '\x60') = behind ∧ behind.head? ≠ some '\x60' ∧
      '\x60' :: rest = List.replicate count '\x60' ++ behind := by
  have all : ∀ c ∈ '\x60' :: rest.takeWhile (· == '\x60'), c = '\x60' := by
    intro c member
    rcases List.mem_cons.1 member with rfl | later
    · rfl
    · exact eq_of_beq (List.all_eq_true.1 List.all_takeWhile c later)
  have run := List.eq_replicate_of_mem all
  refine ⟨_, _, run, rfl, fun same => ?_, ?_⟩
  · have stops := List.head?_dropWhile_not (· == '\x60') rest
    rw [same] at stops
    exact absurd stops (by decide)
  · rw [← run, List.cons_append, List.takeWhile_append_dropWhile]

/-- The search finds what stands before the first run of its length: it goes on behind a
run of another length as a whole. -/
theorem beforeRun?_eq_some_iff {count : Nat} (filled : 0 < count) {t content : Text} :
    beforeRun? count t = some content ↔ t.FirstRun '\x60' count content := by
  fun_induction beforeRun? count t generalizing content with
  | case1 =>
      refine ⟨nofun, fun first => ?_⟩
      obtain ⟨back, run⟩ := first.there
      exact absurd run.mem List.not_mem_nil
  | case2 rest _ long =>
      obtain ⟨length, behind, same, _, stops, parts⟩ := exists_leading_run rest
      have counted : length = count := by
        rw [← long, same, List.length_replicate]
      subst counted
      have whole : Text.WholeRun '\x60' length ('\x60' :: rest) [] behind :=
        ⟨parts, filled, nofun, stops⟩
      have first : Text.FirstRun '\x60' length ('\x60' :: rest) [] :=
        ⟨⟨behind, whole⟩, fun _ _ _ => Nat.zero_le _⟩
      rw [Option.some.injEq]
      exact ⟨fun empty => empty ▸ first, first.unique⟩
  | case3 rest _ short ih =>
      obtain ⟨length, behind, same, rfl, stops, parts⟩ := exists_leading_run rest
      have other : ¬Text.HasRun '\x60' count (List.replicate length '\x60') := by
        rintro ⟨front, back, within⟩
        have counted := (Text.wholeRun_replicate_iff.1 within).2.1
        rw [counted] at short
        exact short (by rw [same, List.length_replicate])
      rw [parts, Text.firstRun_append_iff (.inr stops) other, Option.map_eq_some_iff]
      exact exists_congr fun inner => by rw [ih, same, eq_comm, and_comm]
  | case4 c rest _ other ih =>
      have apart : Text.Apart '\x60' [c] rest := .inl (by simpa using other)
      have single : ¬Text.HasRun '\x60' count [c] :=
        Text.not_hasRun_of_not_mem (by simpa using Ne.symm other)
      rw [← List.singleton_append, Text.firstRun_append_iff apart single, Option.map_eq_some_iff]
      exact exists_congr fun inner => by rw [ih, List.singleton_append, eq_comm, and_comm]

/-! ### What stands between the delimiters -/

/-- A text that can stand between two runs of `count` backticks for a content: it keeps the
delimiters apart, has the content for a reader, and every run in it stands early. -/
structure Fills (count : Nat) (content middle : Text) : Prop where
  bare : middle.Bare '\x60'
  several : 0 < count
  shown : unpad middle = content
  early : ∀ front back, middle.WholeRun '\x60' count front back → front.length < content.length

theorem unpad_eq_self {t : Text} (ends : t.getLast? ≠ some ' ') : unpad t = t := by
  unfold unpad
  split
  · next rest =>
      refine if_neg fun both => ends ?_
      rw [List.getLast?_cons, both.1]
      rfl
  · rfl

theorem unpad_padded {t : Text} {c : Char} (other : c ≠ ' ') (member : c ∈ t) :
    unpad (' ' :: (t ++ [' '])) = t := by
  have shows : (t ++ [' ']).any (· != ' ') = true :=
    List.any_eq_true.2 ⟨c, List.mem_append_left _ member, bne_iff_ne.2 other⟩
  rw [unpad, if_pos ⟨List.getLast?_concat, shows⟩, List.dropLast_concat]

theorem unpad_length_le (t : Text) : (unpad t).length ≤ t.length := by
  unfold unpad
  split
  · next rest =>
      split
      · rw [List.length_dropLast, List.length_cons]
        omega
      · exact Nat.le_refl _
  · exact Nat.le_refl _

/-- Code without a backtick stands between two single ones. -/
theorem fills_self {content : Text} (filled : content ≠ []) (none : '\x60' ∉ content)
    (ends : content.getLast? ≠ some ' ') : Fills 1 content content where
  bare := {
    filled
    starts := fun first => none (List.mem_of_head? first)
    ends := fun last => none (List.mem_of_getLast? last) }
  several := Nat.one_pos
  shown := unpad_eq_self ends
  early _ _ run := absurd run.mem none

/-- The runs of a text between two spaces are the runs of the text. -/
theorem wholeRun_padded_iff {count : Nat} {t front back : Text} :
    Text.WholeRun '\x60' count (' ' :: (t ++ [' '])) front back ↔
      ∃ before behind, front = ' ' :: before ∧ back = behind ++ [' '] ∧
        t.WholeRun '\x60' count before behind := by
  have outside (front back : Text) : ¬Text.WholeRun '\x60' count [' '] front back :=
    fun run => absurd run.mem (by decide)
  have first : Text.Apart '\x60' [' '] (t ++ [' ']) := .inl (by decide)
  have last : Text.Apart '\x60' t [' '] := .inr (by decide)
  rw [← List.singleton_append, Text.wholeRun_append_iff first]
  constructor
  · rintro (⟨inner, _, run⟩ | ⟨before, rfl, run⟩)
    · exact absurd run (outside _ _)
    · rcases (Text.wholeRun_append_iff last).1 run with ⟨behind, rfl, within⟩ | ⟨inner, _, run⟩
      · exact ⟨before, behind, rfl, rfl, within⟩
      · exact absurd run (outside _ _)
  · rintro ⟨before, behind, rfl, rfl, run⟩
    exact .inr ⟨before, rfl, (Text.wholeRun_append_iff last).2 (.inl ⟨behind, rfl, run⟩)⟩

theorem hasRun_padded_iff {count : Nat} {t : Text} :
    Text.HasRun '\x60' count (' ' :: (t ++ [' '])) ↔ t.HasRun '\x60' count := by
  constructor
  · rintro ⟨front, back, run⟩
    obtain ⟨before, behind, _, _, within⟩ := wholeRun_padded_iff.1 run
    exact ⟨before, behind, within⟩
  · rintro ⟨before, behind, run⟩
    exact ⟨_, _, wholeRun_padded_iff.2 ⟨before, behind, rfl, rfl, run⟩⟩

/-- Code with a backtick stands between two spaces and two pairs of backticks. -/
theorem fills_padded {content : Text} (ticked : '\x60' ∈ content) :
    Fills 2 content (' ' :: (content ++ [' '])) where
  bare := {
    filled := List.cons_ne_nil _ _
    starts := by rw [List.head?_cons]; decide
    ends := by rw [← List.cons_append, List.getLast?_concat]; decide }
  several := by decide
  shown := unpad_padded (by decide) ticked
  early front back run := by
    obtain ⟨before, behind, rfl, _, within⟩ := wholeRun_padded_iff.1 run
    have length := within.length_eq
    rw [List.length_cons]
    omega

/-- A reader has the content exactly if no run in it is as long as the delimiters. -/
theorem codeSpan?_eq_some_iff {count : Nat} {content middle : Text}
    (fills : Fills count content middle) :
    codeSpan? (List.replicate count '\x60' ++ middle ++ List.replicate count '\x60')
        = some content ↔ ¬middle.HasRun '\x60' count := by
  obtain ⟨first, more, shape⟩ := List.exists_cons_of_ne_nil fills.bare.filled
  have other : first ≠ '\x60' := by
    have starts := fills.bare.starts
    rw [shape] at starts
    simpa using starts
  have ticks : ∀ c ∈ List.replicate count '\x60', (c == '\x60') = true :=
    fun c member => beq_iff_eq.2 (List.eq_of_mem_replicate member)
  have opening : (List.replicate count '\x60' ++ middle ++ List.replicate count '\x60').takeWhile
      (· == '\x60') = List.replicate count '\x60' := by
    rw [List.append_assoc, List.takeWhile_append_of_pos ticks, shape, List.cons_append,
      List.takeWhile_cons_of_neg (by simpa using other), List.append_nil]
  have behind : (List.replicate count '\x60' ++ middle ++ List.replicate count '\x60').dropWhile
      (· == '\x60') = middle ++ List.replicate count '\x60' := by
    rw [List.append_assoc, List.dropWhile_append_of_pos ticks, shape, List.cons_append,
      List.dropWhile_cons_of_neg (by simpa using other)]
  rw [codeSpan?, opening, behind, List.length_replicate, Option.map_eq_some_iff]
  simp only [beforeRun?_eq_some_iff fills.several]
  constructor
  · rintro ⟨taken, first, read⟩ ⟨front, back, run⟩
    have early := fills.early front back run
    have bound := first.first _ _
      ((Text.wholeRun_append_iff (fills.bare.apart_left _)).2 (.inl ⟨back, rfl, run⟩))
    have kept := unpad_length_le taken
    rw [read] at kept
    omega
  · intro none
    exact ⟨middle, (Text.firstRun_delimiter_iff fills.bare fills.several none).2 rfl, fills.shown⟩

/-! ### The plan of code in a line -/

namespace Decoration

/-- What is written around code in a line, and for a reader fits around it. -/
theorem exists_codeDelimiters_of_line {options : Options} (element : Element)
    (inline : options.inlineCode = true) (filled : codeContent element ≠ [])
    (single : '\n' ∉ codeContent element) :
    ∃ count middle,
      Fills count (codeContent element) middle ∧
      (middle.HasRun '\x60' count ↔ (codeContent element).HasRun '\x60' 2) ∧
      ((codeDelimiters options element).1.takeWhile (· == '\x60')).length = count ∧
      (codeDelimiters options element).1 ++ codeContent element ++ (codeDelimiters options element).2
        = List.replicate count '\x60' ++ middle ++ List.replicate count '\x60' := by
  have line : ¬(!options.inlineCode || (codeContent element).contains '\n') = true := by
    simp [inline, single]
  unfold codeDelimiters
  dsimp only
  rw [if_neg line]
  by_cases ticked : '\x60' ∈ codeContent element
  · rw [if_pos (by simpa using ticked)]
    refine ⟨2, _, fills_padded ticked, hasRun_padded_iff, by decide, ?_⟩
    simp [List.replicate]
  · have plain {count : Nat} : ¬(codeContent element).HasRun '\x60' count :=
      Text.not_hasRun_of_not_mem ticked
    have ends : (codeContent element).getLast? ≠ some ' ' := by
      rcases Text.trimEnd_eq_nil_or (Entity.decode element.textContent) with none | ⟨front, c, shape, solid⟩
      · exact absurd none filled
      · rw [codeContent, shape, List.getLast?_concat]
        rintro ⟨⟩
        exact absurd solid (by decide)
    rw [if_neg (by simpa using ticked)]
    exact ⟨1, _, fills_self filled ticked ends, iff_of_false plain plain, by decide, rfl⟩

end Decoration

open Decoration

/-- Code that stands in a line is written between delimiters of one or two backticks. Between
them there is no run as long as they are exactly if the code has no run of two backticks,
and exactly then a reader, for whom the span ends at the next run of that length, has the
whole code. -/
theorem inline_code_closes_iff {options : Options} (scope : Scope) (attributes : Attributes)
    (children : List Node) (cursor : Cursor) {content : Text}
    (shown : content = Text.trimEnd (Entity.decode (Node.textContents children)))
    (inline : options.inlineCode = true) (filled : content ≠ []) (single : '\n' ∉ content) :
    ∃ (span : Span) (count : Nat),
      Node.plan options scope (.element Tag.code attributes children) cursor
        = .done (cursor.add (.node span [])) ∧
      span.text = content ∧
      (span.opening.takeWhile (· == '\x60')).length = count ∧
      ((∀ front back,
        Text.WholeRun '\x60' count (span.opening ++ span.text ++ span.closing) front back →
          front = [] ∨ back = []) ↔ ¬content.HasRun '\x60' 2) ∧
      (codeSpan? (span.opening ++ span.text ++ span.closing) = some content ↔
        ¬content.HasRun '\x60' 2) := by
  have same : codeContent ⟨Tag.code, attributes, children⟩ = content := shown.symm
  subst same
  obtain ⟨count, middle, fills, runs, opens, whole⟩ :=
    exists_codeDelimiters_of_line ⟨Tag.code, attributes, children⟩ inline filled single
  let span := code options ⟨Tag.code, attributes, children⟩ { origin := .rule .code }
  have source : span.opening ++ span.text ++ span.closing
      = List.replicate count '\x60' ++ middle ++ List.replicate count '\x60' := whole
  refine ⟨span, count, ?_, rfl, opens, ?_, ?_⟩
  · exact Node.plan_replaced cursor .code attributes (by decide) (by decide) rfl rfl
  · rw [source, Text.delimited_iff fills.bare, runs]
  · rw [source, codeSpan?_eq_some_iff fills, runs]

def tickedCode : Text := "\x60 a\x60\x60\x60".toList

theorem inline_code_closes_iff_tickedCode :
    tickedCode = Text.trimEnd (Entity.decode (Node.textContents [.text tickedCode])) ∧
      tickedCode ≠ [] ∧ '\n' ∉ tickedCode ∧
      ∃ span : Span,
        Node.plan { inlineCode := true } { parent := Tag.richRoot } (.code tickedCode) {}
          = .done { before := [.node span []] } ∧
        codeSpan? (span.opening ++ span.text ++ span.closing) = some tickedCode := by
  have shown : tickedCode = Text.trimEnd (Entity.decode (Node.textContents [.text tickedCode])) := by
    rw [Entity.decode_eq_self (by decide)]
    decide
  have filled : tickedCode ≠ [] := by decide
  have single : '\n' ∉ tickedCode := by decide
  have inline : ({ inlineCode := true } : Options).inlineCode = true := rfl
  obtain ⟨span, count, planned, _, _, _, read⟩ := inline_code_closes_iff
    { parent := Tag.richRoot } ∅ [.text tickedCode] {} shown inline filled single
  refine ⟨shown, filled, single, span, planned, read.2 ?_⟩
  have parts : tickedCode
      = List.replicate 1 '\x60' ++ (" a".toList ++ List.replicate 3 '\x60') := by decide
  have apart : Text.Apart '\x60' " a".toList (List.replicate 3 '\x60') := .inl (by decide)
  rw [parts, Text.hasRun_append_iff (.inr (by decide)), Text.hasRun_append_iff apart]
  rintro (⟨_, _, run⟩ | run | ⟨_, _, run⟩)
  · exact absurd (Text.wholeRun_replicate_iff.1 run).2.1 (by decide)
  · exact Text.not_hasRun_of_not_mem (by decide) run
  · exact absurd (Text.wholeRun_replicate_iff.1 run).2.1 (by decide)

def doubledTicks : Span where
  origin := .rule .code
  text := "a\x60\x60b".toList
  opening := "\x60\x60 ".toList
  closing := " \x60\x60".toList
  breaksBefore := 2
  breaksAfter := 2
  kindBefore := .html
  replaced := true

/-- Code with a run of two backticks ends its span there. -/
theorem not_closes_doubledTicks :
    let source := doubledTicks.opening ++ doubledTicks.text ++ doubledTicks.closing
    Node.plan { inlineCode := true } { parent := Tag.richRoot } (.code "a\x60\x60b".toList) {}
        = .done { before := [.node doubledTicks []] } ∧
      (doubledTicks.opening.takeWhile (· == '\x60')).length = 2 ∧
      Text.WholeRun '\x60' 2 source "\x60\x60 a".toList "b \x60\x60".toList ∧
      codeSpan? source = some " a".toList ∧
      (Element.post [.code "a\x60\x60b".toList]).convertPlain { inlineCode := true } = source := by
  have planned : Node.plan { inlineCode := true } { parent := Tag.richRoot }
      (.code "a\x60\x60b".toList) {} = .done { before := [.node doubledTicks []] } := by
    with_unfolding_all rfl
  have read : codeSpan? "\x60\x60 a\x60\x60b \x60\x60".toList = some " a".toList := by
    decide +kernel
  exact ⟨planned, by decide, ⟨by decide, by decide, by decide, by decide⟩, read, by decide +kernel⟩

end ForumMarkup
