import ForumMarkup.Proofs.Markdown.MarkLines
import ForumMarkup.Proofs.Markdown.Place
import ForumMarkup.Proofs.Markdown.Strip
import ForumMarkup.Span.Decoration

/-!
Contract: spans that write their content and nothing around it.

Owns: the spans of a size, a line break and a quote that have no attributes.

Main statements: `place_bare`, what a span without opening and closing adds, and
`addBreaks_of_none`, the breaks behind a text that ends with none.
-/

set_option autoImplicit false

namespace ForumMarkup.Markdown

open Decoration

/-- The span of a size without its attribute, the plainest span around content. -/
def sizeSpan : Span :=
  { origin := .rule .size }

def breakSpan : Span :=
  { origin := .rule .lineBreak, breaksAfter := 1 }

def quoteSpan : Span :=
  { origin := .rule .quote, breaksBefore := 2, breaksAfter := 2, kindBefore := .html,
    lineMark? := some quoteMark }

/-! ### Placing a span -/

theorem hoistEnd_nil (content : Text) : hoistEnd content [] = (content, []) := by
  unfold hoistEnd
  split <;> simp

/-- A span without opening and closing adds its content to the buffer, behind the
line mark where it starts a line, and its breaks. -/
theorem place_bare {options : Options} {mark : Text} {marked leaf : Bool} {span : Span}
    {content : Text} {buffer : Buffer} (opening : span.opening = []) (closing : span.closing = [])
    (spaced : addBreaks options span.kindBefore mark span.breaksBefore buffer = buffer)
    (solid : startsLine mark marked span buffer = true →
      ∀ c, content.head? = some c → Text.isBlank c = false)
    (unmarked : (if leaf then markLines mark content else content) = content) :
    place options mark marked span leaf content buffer
      = addBreaks options span.kindAfter mark span.breaksAfter
          (((if startsLine mark marked span buffer then mark else []) ++ content).reverse
            ++ buffer) := by
  rw [place_eq]
  dsimp only
  rw [spaced]
  generalize startsLine mark marked span buffer = lineStart at solid ⊢
  have start : hoistStart lineStart buffer [] content = ([], content) := by
    cases content with
    | nil => rfl
    | cons c rest =>
        cases lineStart with
        | false => simp [hoistStart]
        | true => simp [hoistStart, solid rfl c rfl]
  have finish := hoistEnd_nil content
  have same : edges lineStart buffer span content = ([], content, []) := by
    unfold edges
    rw [opening, closing, start]
    dsimp only
    rw [finish]
    split <;> rfl
  rw [same, written, markLines_nil, unmarked, List.append_nil, List.append_nil]

/-- In the middle of a line the content is all that is written. -/
theorem place_inline {options : Options} {mark : Text} {marked leaf : Bool} {span : Span}
    {content : Text} {buffer : Buffer} (opening : span.opening = []) (closing : span.closing = [])
    (spaced : addBreaks options span.kindBefore mark span.breaksBefore buffer = buffer)
    (noStart : startsLine mark marked span buffer = false)
    (unmarked : (if leaf then markLines mark content else content) = content) :
    place options mark marked span leaf content buffer
      = addBreaks options span.kindAfter mark span.breaksAfter (content.reverse ++ buffer) := by
  have solid : startsLine mark marked span buffer = true →
      ∀ c, content.head? = some c → Text.isBlank c = false := by
    intro start
    rw [noStart] at start
    cases start
  rw [place_bare opening closing spaced solid unmarked, noStart]
  rfl

theorem place_unmarked {options : Options} {marked leaf : Bool} {span : Span} {buffer : Buffer}
    (opening : span.opening = []) (closing : span.closing = [])
    (spaced : addBreaks options span.kindBefore [] span.breaksBefore buffer = buffer)
    (content : Text) :
    place options [] marked span leaf content buffer
      = addBreaks options span.kindAfter [] span.breaksAfter (content.reverse ++ buffer) :=
  place_inline opening closing spaced rfl (by rw [markLines_of_no_mark, ite_self])

/-- Texts outside of quotes are written one behind the other. -/
theorem siblings_texts (options : Options) (marked : Bool) (leaves : List Text)
    (trees : List SpanTree) (buffer : Buffer) :
    siblings options [] marked buffer (leaves.map SpanTree.ofText ++ trees)
      = siblings options [] marked (leaves.flatten.reverse ++ buffer) trees := by
  induction leaves generalizing buffer with
  | nil => rfl
  | cons leaf more ih =>
      have placed : place options [] marked { origin := .text, text := leaf } true leaf buffer
          = leaf.reverse ++ buffer := place_unmarked rfl rfl rfl leaf
      rw [List.map_cons, List.cons_append, SpanTree.ofText, siblings_leaf, placed]
      rw [ih, List.flatten_cons, List.reverse_append, List.append_assoc]

theorem written_of_no_mark (leaf : Bool) (parts : Text × Text × Text) :
    written [] false leaf parts = parts.1 ++ (parts.2.1 ++ parts.2.2) := by
  simp [written, markLines_of_no_mark]

/-- Code without a line mark is written as it is. -/
theorem place_code {options : Options} {marked leaf : Bool} {span : Span}
    (code : span.isRule .code = true) (content : Text) (buffer : Buffer) :
    place options [] marked span leaf content buffer
      = addBreaks options span.kindAfter [] span.breaksAfter
          ((span.opening ++ (content ++ span.closing)).reverse
            ++ addBreaks options span.kindBefore [] span.breaksBefore buffer) := by
  have start (spaced : Buffer) : startsLine [] marked span spaced = false := rfl
  rw [place_eq]
  dsimp only
  rw [start, written_of_no_mark, edges, if_pos code]

/-- A content between an opening and a closing, with a blank at its end moved behind the
closing. -/
def enclosed (opening content closing : Text) : Text :=
  opening ++ ((hoistEnd content closing).1 ++ (hoistEnd content closing).2)

theorem enclosed_nil (opening content : Text) : enclosed opening content [] = opening ++ content := by
  rw [enclosed, hoistEnd_nil, List.append_nil]

/-- Outside of quotes a span is written as its content between its opening and its
closing, with its breaks. -/
theorem place_of_no_mark {options : Options} {marked leaf : Bool} {span : Span} {content : Text}
    {buffer : Buffer} (noCode : span.isRule .code = false)
    (solid : span.opening ≠ [] → ∀ c ∈ content.head?, Text.isBlank c = false) :
    place options [] marked span leaf content buffer
      = addBreaks options span.kindAfter [] span.breaksAfter
          ((enclosed span.opening content span.closing).reverse
            ++ addBreaks options span.kindBefore [] span.breaksBefore buffer) := by
  rw [place_eq]
  dsimp only
  generalize addBreaks options span.kindBefore [] span.breaksBefore buffer = spaced
  have start : hoistStart false spaced span.opening content = (span.opening, content) := by
    cases content with
    | nil => rfl
    | cons c rest =>
        by_cases none : span.opening = []
        · simp [hoistStart, none]
        · simp [hoistStart, solid none c rfl]
  have same : edges (startsLine [] marked span spaced) spaced span content
      = (span.opening, (hoistEnd content span.closing).1, (hoistEnd content span.closing).2) := by
    unfold edges
    rw [noCode, show startsLine [] marked span spaced = false from rfl, start]
    rfl
  rw [same, written]
  simp [markLines_of_no_mark, startsLine, enclosed]

theorem place_of_opening {options : Options} {marked leaf : Bool} {span : Span} {content : Text}
    {buffer : Buffer} (noCode : span.isRule .code = false) (closing : span.closing = [])
    (solid : span.opening ≠ [] → ∀ c ∈ content.head?, Text.isBlank c = false) :
    place options [] marked span leaf content buffer
      = addBreaks options span.kindAfter [] span.breaksAfter (content.reverse ++
          (span.opening.reverse ++ addBreaks options span.kindBefore [] span.breaksBefore buffer)) := by
  rw [place_of_no_mark noCode solid, closing, enclosed_nil]
  simp

/-! ### Ends of buffers -/

@[simp]
theorem addBreaks_zero (options : Options) (kind : BreakKind) (mark : Text) (buffer : Buffer) :
    addBreaks options kind mark 0 buffer = buffer :=
  if_pos (.inl rfl)

@[simp]
theorem addBreaks_nil (options : Options) (kind : BreakKind) (mark : Text) (required : Nat) :
    addBreaks options kind mark required [] = [] :=
  if_pos (.inr rfl)

/-- Breaks behind a buffer that ends with none are written as they are asked for. -/
theorem addBreaks_of_none {options : Options} {kind : BreakKind} {mark : Text} {required : Nat}
    {buffer : Buffer} (filled : buffer ≠ []) (none : stripLast? mark buffer = none)
    (noBlock : kind ≠ .html) (asked : required ≠ 0) :
    addBreaks options kind mark required buffer
      = (breakRun options kind mark required).reverse ++ buffer := by
  have unbroken := none
  simp only [stripLast?, Option.or_eq_none_iff] at unbroken
  have count : countBreaks mark buffer = 0 := countBreaks_of_none unbroken.1.1 unbroken.1.2
  have needed : breaksNeeded kind required 0 = required := by
    cases kind with
    | html => exact absurd rfl noBlock
    | auto => rfl
    | hard => rfl
  unfold addBreaks
  rw [if_neg (by simp [asked, filled]), count, stripBreaks_of_none none]
  dsimp only
  rw [needed, if_neg (by omega)]
  cases buffer with
  | nil => exact absurd rfl filled
  | cons c rest => rfl

theorem isInLine_of_mem {line : Text} (single : '\n' ∉ line) : ∀ c ∈ line, isInLine c = true := by
  intro c member
  rw [isInLine, bne_iff_ne]
  rintro rfl
  exact single member

/-- A buffer whose last line is the line mark is stripped to what stands before. -/
theorem stripMarkLine?_of_line {mark line : Text} {buffer : Buffer} (filled : line ≠ [])
    (single : '\n' ∉ line) (isMark : line = mark ∨ line = Text.trimEnd mark) :
    stripMarkLine? mark (line.reverse ++ '\n' :: buffer) = some ('\n' :: buffer) := by
  have inLine := isInLine_of_mem fun feed => single (List.mem_reverse.1 feed)
  have feed : ¬isInLine '\n' = true := by decide
  simp only [stripMarkLine?]
  rw [List.takeWhile_append_of_pos inLine, List.takeWhile_cons_of_neg feed,
    List.dropWhile_append_of_pos inLine, List.dropWhile_cons_of_neg feed, List.append_nil,
    List.reverse_reverse, if_pos ⟨List.cons_ne_nil _ _, filled, isMark⟩]

/-- A text of one line that ends with an `a` is not stripped. -/
theorem stripLast?_of_line {mark line : Text} (single : '\n' ∉ line) :
    stripLast? mark ('a' :: line) = none := by
  have inLine : ∀ c ∈ 'a' :: line, isInLine c = true :=
    List.forall_mem_cons.2 ⟨rfl, isInLine_of_mem single⟩
  have whole : ('a' :: line).dropWhile isInLine = [] := by
    rw [← List.append_nil ('a' :: line), List.dropWhile_append_of_pos inLine]
    rfl
  have noLine : stripMarkLine? mark ('a' :: line) = none := by
    simp only [stripMarkLine?, whole]
    rw [if_neg (fun stands => stands.1 rfl)]
  rw [stripLast?, noLine]
  rfl

end ForumMarkup.Markdown
