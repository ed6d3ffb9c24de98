import ForumMarkup.Bbcode
import ForumMarkup.Proofs.Bbcode.PlainText
import ForumMarkup.Proofs.Element.Kept
import ForumMarkup.Proofs.Markdown.BareSpans
import ForumMarkup.Proofs.Markdown.DirectPost
import ForumMarkup.Proofs.Markdown.Laid
import ForumMarkup.Proofs.Markdown.LineEnds
import ForumMarkup.Proofs.Span.Direct

/-!
Contract: posts of plain lines, from their source to their Markdown.

Owns:
- `plainSource`, lines with any number of line feeds before and between them;
- `gapText`, how the line feeds between two lines are written;
- `plainMarkdown`, the Markdown of such a post.

Main statement: `convertPlain_read_plainSource`.
-/

set_option autoImplicit false

namespace ForumMarkup

open Node

/-- A line with something to see and no markup in it. -/
structure PlainLine (line : Text) : Prop where
  solid : ∃ c ∈ line, Text.isBlank c = false
  plain : ∀ c ∈ line, c ≠ '[' ∧ c ≠ '&' ∧ c ≠ '\r' ∧ c ≠ '\n'

/-- A line and further ones, each behind a number of line feeds. -/
def plainLines (first : Text) (later : List (Nat × Text)) : Text :=
  first ++ later.flatMap fun entry => List.replicate entry.1 '\n' ++ entry.2

/-- The source of a post of plain lines, with line feeds before the first one. -/
def plainSource (leading : Nat) (first : Text) (later : List (Nat × Text)) : Text :=
  List.replicate leading '\n' ++ plainLines first later

/-- The Markdown between two lines that a number of line feeds separates. -/
def gapText (options : Options) (gap : Nat) : Text :=
  if options.traditionalBreaks then (List.replicate gap ['\\', '\n']).flatten
  else if gap ≤ 2 then List.replicate gap '\n'
  else '\n' :: (List.replicate (gap - 1) ['\\', '\n']).flatten

/-- The Markdown of a post of plain lines. -/
def plainMarkdown (options : Options) (first : Text) (later : List (Nat × Text)) : Text :=
  Text.trimEnd first ++ later.flatMap fun entry => gapText options entry.1 ++ Text.trimEnd entry.2

section

variable {first : Text} {later : List (Nat × Text)}

theorem PlainLine.ne_nil {line : Text} (plain : PlainLine line) : line ≠ [] := by
  rintro rfl
  obtain ⟨c, member, _⟩ := plain.solid
  cases member

theorem PlainLine.single {line : Text} (plain : PlainLine line) : '\n' ∉ line :=
  fun feed => (plain.plain _ feed).2.2.2 rfl

theorem PlainLine.decode {line : Text} (plain : PlainLine line) : Entity.decode line = line :=
  Entity.decode_eq_self fun ampersand => (plain.plain _ ampersand).2.1 rfl

/-! ### The nodes that are read -/

def laterNodes (later : List (Nat × Text)) : List Node :=
  later.flatMap fun entry => List.replicate entry.1 .lineBreak ++ [.text entry.2]

theorem ofLines_replicate (count : Nat) {lines : List Text} (filled : lines ≠ []) :
    ofLines (List.replicate count [] ++ lines) = List.replicate count .lineBreak ++ ofLines lines := by
  induction count with
  | zero => rfl
  | succ count ih =>
      have some : List.replicate count [] ++ lines ≠ [] := by simp [filled]
      obtain ⟨next, more, shape⟩ := List.exists_cons_of_ne_nil some
      rw [List.replicate_succ, List.cons_append, shape, ofLines]
      · rw [← shape, ih]
        rfl
      · exact List.cons_ne_nil next more

theorem lines_replicate (count : Nat) (t : Text) :
    Text.lines (List.replicate count '\n' ++ t) = List.replicate count [] ++ Text.lines t := by
  induction count with
  | zero => rfl
  | succ count ih =>
      rw [List.replicate_succ, List.cons_append, Text.lines, if_pos rfl, ih]
      rfl

theorem ofLines_plainLines (plain : PlainLine first)
    (plainLater : ∀ entry ∈ later, 0 < entry.1 ∧ PlainLine entry.2) :
    ofLines (Text.lines (plainLines first later)) = .text first :: laterNodes later := by
  induction later generalizing first with
  | nil =>
      have alone : plainLines first [] = first := List.append_nil first
      rw [alone, Text.lines_of_feed_free plain.single, ofLines, ofLine, if_neg plain.ne_nil]
      rfl
  | cons entry more ih =>
      obtain ⟨⟨positive, plainLine⟩, plainMore⟩ := List.forall_mem_cons.1 plainLater
      obtain ⟨count, line⟩ := entry
      obtain ⟨gap, rfl⟩ := Nat.exists_eq_add_of_lt positive
      rw [Nat.zero_add] at *
      have shape : plainLines first ((gap + 1, line) :: more)
          = first ++ '\n' :: (List.replicate gap '\n' ++ plainLines line more) := by
        simp [plainLines, List.replicate_succ]
      have filled : List.replicate gap [] ++ Text.lines (plainLines line more) ≠ [] := by
        simp [Text.lines_ne_nil]
      rw [shape, Text.lines_append_feed, Text.lines_of_feed_free plain.single, lines_replicate,
        List.singleton_append, ofLines, ofLine, if_neg plain.ne_nil,
        ofLines_replicate gap (Text.lines_ne_nil _), ih plainLine plainMore]
      · simp [laterNodes, List.replicate_succ, lineBreak, wrap]
      · exact filled

/-- Plain lines are read as leaves with line breaks between them. -/
theorem read_plainSource (leading : Nat) (plain : PlainLine first)
    (plainLater : ∀ entry ∈ later, 0 < entry.1 ∧ PlainLine entry.2) :
    (Bbcode.read [] (plainSource leading first later)).value
      = .post (List.replicate leading .lineBreak ++ .text first :: laterNodes later) := by
  have bracketFree : ∀ c ∈ plainSource leading first later, c ≠ '[' ∧ c ≠ '\r' := by
    intro c member
    simp only [plainSource, plainLines, List.mem_append, List.mem_flatMap, List.mem_replicate]
      at member
    rcases member with ⟨_, rfl⟩ | inFirst | ⟨entry, there, ⟨_, rfl⟩ | inLine⟩
    · decide
    · exact ⟨(plain.plain c inFirst).1, (plain.plain c inFirst).2.2.1⟩
    · decide
    · have plainLine := (plainLater entry there).2
      exact ⟨(plainLine.plain c inLine).1, (plainLine.plain c inLine).2.2.1⟩
  rw [Bbcode.read_of_bracket_free bracketFree, plainSource, lines_replicate,
    ofLines_replicate leading (Text.lines_ne_nil _), ofLines_plainLines plain plainLater]

/-! ### The spans that are laid out -/

theorem clean_plainPost (leading : Nat) (plain : PlainLine first)
    (plainLater : ∀ entry ∈ later, 0 < entry.1 ∧ PlainLine entry.2) :
    (Element.post (List.replicate leading .lineBreak ++ .text first :: laterNodes later)).clean
      = .post (List.replicate leading .lineBreak ++ .text first :: laterNodes later) := by
  have text : ∀ line, PlainLine line → clean? false (.text line) = some (.text line) :=
    fun line plainLine => clean?_text plainLine.ne_nil fun feed =>
      plainLine.single (List.mem_of_head? feed)
  have lineBreak : clean? false .lineBreak = some .lineBreak := rfl
  refine clean_post (cleanAll_eq_self nofun fun node member => ?_)
  simp only [laterNodes, List.mem_append, List.mem_replicate, List.mem_cons, List.mem_flatMap,
    List.not_mem_nil, or_false] at member
  rcases member with ⟨_, rfl⟩ | rfl | ⟨entry, there, ⟨_, rfl⟩ | rfl⟩
  · exact lineBreak
  · exact text first plain
  · exact lineBreak
  · exact text entry.2 (plainLater entry there).2

/-- Line breaks make the run longer that spans end with. -/
theorem planAll_lineBreaks (options : Options) (scope : Scope) {prior : List SpanTree}
    (ends : Cursor.Ends prior) (count items : Nat) (rest : List Node) (start : Nat) :
    planAll options scope (List.replicate count .lineBreak ++ rest)
        { before := scope.run start prior, items }
      = planAll options scope rest { before := scope.run (start + count) prior, items } := by
  induction count generalizing start with
  | zero => rfl
  | succ count ih =>
      have step : plan options scope .lineBreak { before := scope.run start prior, items } = _ :=
        plan_lineBreak_run ends ∅ start items
      rw [List.replicate_succ, List.cons_append, planAll_cons _ step, ih, Nat.add_right_comm]
      rfl

def laterSpans (scope : Scope) (later : List (Nat × Text)) : List SpanTree :=
  later.flatMap fun entry => [.node (scope.breaks entry.1) [], .ofText entry.2]

/-- The breaks before a line become one span. -/
theorem planAll_laterNodes {options : Options} {scope : Scope} {before : List SpanTree}
    (ends : Cursor.Ends before) (items : Nat)
    (plainLater : ∀ entry ∈ later, 0 < entry.1 ∧ PlainLine entry.2) :
    planAll options scope (laterNodes later) { before, items }
      = .done { before := (laterSpans scope later).reverse ++ before, items } := by
  induction later generalizing before with
  | nil => rfl
  | cons entry more ih =>
      obtain ⟨⟨positive, plainLine⟩, plainMore⟩ := List.forall_mem_cons.1 plainLater
      obtain ⟨count, line⟩ := entry
      obtain ⟨gap, rfl⟩ := Nat.exists_eq_add_of_lt positive
      rw [Nat.zero_add] at *
      show planAll options scope (List.replicate (gap + 1) .lineBreak ++ [.text line]
        ++ laterNodes more) { before, items } = _
      rw [List.append_assoc, show before = scope.run 0 before from rfl,
        planAll_lineBreaks options scope ends, Nat.zero_add, List.singleton_append,
        planAll_cons _ (plan_text line), plainLine.decode]
      show planAll options scope (laterNodes more)
        { before := .ofText line :: .node (scope.breaks (gap + 1)) [] :: before, items } = _
      rw [ih (Cursor.ends_ofText line _) plainMore]
      have spans : laterSpans scope ((gap + 1, line) :: more)
          = [.node (scope.breaks (gap + 1)) [], .ofText line] ++ laterSpans scope more := rfl
      rw [spans, List.reverse_append, List.append_assoc]
      rfl

/-! ### The text that is written -/

theorem flatMap_range_of_same {piece : Nat → Text} {t : Text} {count : Nat}
    (same : ∀ place < count, piece place = t) :
    (List.range count).flatMap piece = (List.replicate count t).flatten := by
  have pieces : (List.range count).map piece = List.replicate count t := by
    rw [List.eq_replicate_iff]
    refine ⟨by simp, fun written member => ?_⟩
    obtain ⟨place, below, rfl⟩ := List.mem_map.1 member
    exact same place (List.mem_range.1 below)
  rw [List.flatMap_def, pieces]

/-- The line feeds between two lines are spelled by their number. -/
theorem breakRun_auto (options : Options) (gap : Nat) :
    Markdown.breakRun options .auto [] gap = gapText options gap := by
  have unit (place : Nat) : Markdown.breakPiece options .auto [] gap place
      = if options.traditionalBreaks = true ∨ (if 2 < gap then 1 else 2) ≤ place
        then ['\\', '\n'] else ['\n'] := by
    rw [Markdown.breakPiece_of_no_mark]
    unfold Markdown.breakUnit
    rw [if_neg (by simp)]
    by_cases hard : options.traditionalBreaks = true ∨ (if 2 < gap then 1 else 2) ≤ place
    · rw [if_pos hard, if_pos (.inr hard)]
      rfl
    · rw [if_neg hard, if_neg (by simpa using hard)]
      rfl
  rw [Markdown.breakRun_eq, gapText]
  by_cases traditional : options.traditionalBreaks = true
  · rw [if_pos traditional]
    refine flatMap_range_of_same fun place _ => ?_
    rw [unit, if_pos (.inl traditional)]
  rw [if_neg traditional]
  by_cases short : gap ≤ 2
  · have limit : (if 2 < gap then 1 else 2) = 2 := if_neg (by omega)
    have softs : (List.replicate gap ['\n']).flatten = List.replicate gap '\n' := by simp
    rw [if_pos short, ← softs]
    refine flatMap_range_of_same fun place below => ?_
    rw [unit, limit, if_neg (by simp [traditional]; omega)]
  · have limit : (if 2 < gap then 1 else 2) = 1 := if_pos (by omega)
    simp only [limit] at unit
    obtain ⟨more, rfl⟩ : ∃ more, gap = more + 1 := ⟨gap - 1, by omega⟩
    rw [if_neg short, List.range_succ_eq_map, List.flatMap_cons, List.flatMap_map, unit,
      if_neg (by simp [traditional]), Nat.add_sub_cancel]
    refine congrArg (List.cons '\n') (flatMap_range_of_same fun place _ => ?_)
    rw [unit, if_pos (.inr (by omega))]

open Markdown in
/-- Spans of lines are written with the breaks between them, behind what is there. -/
theorem stripBreaks_siblings_laterSpans {options : Options} {scope : Scope}
    (plainScope : scope.emphasised = false) (plain : PlainLine first)
    (plainLater : ∀ entry ∈ later, 0 < entry.1 ∧ PlainLine entry.2) (buffer : Buffer) :
    stripBreaks [] (siblings options [] false (first.reverse ++ buffer) (laterSpans scope later))
      = (plainMarkdown options first later).reverse ++ buffer := by
  induction later generalizing first buffer with
  | nil =>
      rw [laterSpans, List.flatMap_nil, siblings, plainMarkdown, List.flatMap_nil, List.append_nil]
      exact (stripBreaks_line plain.single plain.solid buffer).1
  | cons entry more ih =>
      obtain ⟨⟨positive, plainLine⟩, plainMore⟩ := List.forall_mem_cons.1 plainLater
      obtain ⟨gap, line⟩ := entry
      have kind : (scope.breaks gap).kindAfter = .auto := if_neg (by simp [plainScope])
      have broken : place options [] false (scope.breaks gap) true [] (first.reverse ++ buffer)
          = (gapText options gap).reverse ++ ((Text.trimEnd first).reverse ++ buffer) := by
        rw [place_unmarked rfl rfl rfl, kind, List.reverse_nil, List.nil_append]
        rw [← breakRun_auto]
        exact addBreaks_line plain.single plain.solid (by decide) (Nat.ne_of_gt positive) buffer
      have spans : laterSpans scope ((gap, line) :: more)
          = .node (scope.breaks gap) [] :: .ofText line :: laterSpans scope more := rfl
      rw [spans, siblings_leaf]
      rw [show (scope.breaks gap).text = [] from rfl, broken, SpanTree.ofText, siblings_leaf,
        place_unmarked rfl rfl rfl]
      show stripBreaks [] (siblings options [] false (line.reverse ++ _) _) = _
      rw [ih plainLine plainMore]
      simp [plainMarkdown]

open Markdown in
/-- Line breaks before anything is written leave no trace in the text. -/
theorem exists_leading (options : Options) (scope : Scope) (leading : Nat) :
    ∃ prior : List SpanTree,
      (∀ rest, planAll options scope (List.replicate leading .lineBreak ++ rest) {}
        = planAll options scope rest { before := prior }) ∧
      ∀ trees, siblings options [] false [] (prior.reverse ++ trees)
        = siblings options [] false [] trees := by
  have ends : Cursor.Ends [] := nofun
  refine ⟨scope.run leading [], fun rest => ?_, fun trees => ?_⟩
  · have planned := planAll_lineBreaks options scope ends leading 0 rest 0
    rwa [Nat.zero_add] at planned
  · have silent := laid_run options [] false scope leading []
    rw [show laid options [] false [] = [] from rfl, addBreaks_nil, laid] at silent
    rw [siblings_append, silent]

end

/-- A post of plain lines is written as these lines without the blanks at their ends,
and between them the line feeds of the source, spelled by their number. -/
theorem convertPlain_read_plainSource (options : Options) (leading : Nat) {first : Text}
    {later : List (Nat × Text)} (plain : PlainLine first)
    (plainLater : ∀ entry ∈ later, 0 < entry.1 ∧ PlainLine entry.2) :
    (Bbcode.read [] (plainSource leading first later)).value.convertPlain options
      = plainMarkdown options first later := by
  let scope : Scope := { parent := Tag.richRoot }
  obtain ⟨prior, before, silent⟩ := exists_leading options scope leading
  have ends : Cursor.Ends (.ofText first :: prior) := by
    intro tree last
    cases last
    rfl
  have planned : planAll options scope
      (List.replicate leading .lineBreak ++ .text first :: laterNodes later) {}
        = .done { before := (laterSpans scope later).reverse ++ .ofText first :: prior } := by
    rw [before, planAll_cons _ (plan_text first), plain.decode]
    exact planAll_laterNodes ends 0 plainLater
  rw [read_plainSource leading plain plainLater,
    Markdown.convertPlain_of_planAll (clean_plainPost leading plain plainLater) planned]
  have spans : ((laterSpans scope later).reverse ++ .ofText first :: prior).reverse
      = prior.reverse ++ .ofText first :: laterSpans scope later := by simp
  rw [spans, silent, SpanTree.ofText, Markdown.siblings_leaf, Markdown.place_unmarked rfl rfl rfl]
  show (Markdown.stripBreaks [] (Markdown.siblings options [] false (first.reverse ++ []) _)).reverse
    = _
  rw [stripBreaks_siblings_laterSpans rfl plain plainLater, List.append_nil, List.reverse_reverse]

/-- Two paragraphs and a distant line, with blanks at their ends. -/
theorem convertPlain_read_plainSource_paragraphs :
    (Bbcode.read [] "\n*one* \n\n two\n\n\nthree ".toList).value.convertPlain {}
      = "*one*\n\n two\n\\\n\\\nthree".toList := by
  have words : PlainLine "*one* ".toList ∧ PlainLine " two".toList ∧ PlainLine "three ".toList := by
    exact ⟨⟨⟨'*', by decide⟩, by simp⟩, ⟨⟨'t', by decide⟩, by simp⟩, ⟨⟨'t', by decide⟩, by simp⟩⟩
  obtain ⟨one, two, three⟩ := words
  let later := [(2, " two".toList), (3, "three ".toList)]
  have source : "\n*one* \n\n two\n\n\nthree ".toList = plainSource 1 "*one* ".toList later := by
    decide
  have markdown : plainMarkdown {} "*one* ".toList later
      = "*one*\n\n two\n\\\n\\\nthree".toList := by decide
  rw [source, convertPlain_read_plainSource {} 1 one, markdown]
  simp only [later, List.forall_mem_cons]
  exact ⟨⟨by decide, two⟩, ⟨by decide, three⟩, nofun⟩

end ForumMarkup
