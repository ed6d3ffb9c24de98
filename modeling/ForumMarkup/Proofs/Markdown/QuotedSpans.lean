import ForumMarkup.Proofs.Markdown.Laid
import ForumMarkup.Proofs.Markdown.Twin

/-!
Contract: the spans that write twins inside a quote and outside of it.

Owns:
- `Tight`, an end whose blank can be moved behind a closing marker in a quote too;
- `EndsInline`, an end within a line.

Main statements: one lemma for each form of a span, `copies_text`, `copies_open`,
`copies_enclosed` and `copies_code`.

Behind a marker goes the last blank of a content.  Inside a quote that is the mark of
the next line when the content ends with a line feed behind an empty line, and the
two texts are no twins any more.
-/

set_option autoImplicit false

namespace ForumMarkup.Markdown

open Decoration

/-- A blank at the end does not stand alone on its line. -/
def Tight (t : Text) : Prop :=
  ∀ front c, t = front ++ [c] → Text.isBlank c = true → endsLine false front = false

/-- The text ends within a line, and not with a blank alone on it. -/
structure EndsInline (t : Text) : Prop where
  filled : t ≠ []
  within : endsLine false t = false
  tight : Tight t

variable {start early later : Bool} {t q x y : Text} {buffer : Buffer}

/-! ### Ends -/

theorem tight_nil : Tight [] :=
  fun front c shape => absurd shape.symm (by simp)

theorem tight_concat {front : Text} {c : Char}
    (stands : Text.isBlank c = true → endsLine false front = false) : Tight (front ++ [c]) := by
  intro other d same blank
  obtain ⟨rfl, rfl⟩ := List.append_singleton_inj.1 same
  exact stands blank

theorem endsInline_of_solid {front : Text} {c : Char} (solid : Text.isBlank c = false) :
    EndsInline (front ++ [c]) where
  filled := by simp
  within := by
    rw [endsLine_concat, beq_eq_false_iff_ne]
    exact Text.ne_lineFeed_of_solid solid
  tight := tight_concat fun blank => by
    rw [solid] at blank
    cases blank

theorem endsLine_of_feed_free (single : '\n' ∉ t) : endsLine false t = false := by
  rw [endsLine_false, beq_eq_false_iff_ne]
  exact fun feed => single (List.mem_of_getLast? feed)

theorem endsInline_of_feed_free (filled : t ≠ []) (single : '\n' ∉ t) : EndsInline t where
  filled := filled
  within := endsLine_of_feed_free single
  tight := by
    rintro front c rfl -
    exact endsLine_of_feed_free fun feed => single (List.mem_append_left _ feed)

theorem endsLine_behind (filled : x ≠ []) (before : Text) :
    endsLine false (before ++ x) = endsLine false x := by
  rw [endsLine_append, endsLine_of_ne_nil filled, endsLine_false]

/-- The end of a text that starts with no blank is the end of any text before it. -/
theorem EndsInline.behind (ends : EndsInline x) (rooted : Rooted false x) (before : Text) :
    EndsInline (before ++ x) where
  filled := by simp [ends.filled]
  within := by rw [endsLine_behind ends.filled, ends.within]
  tight := by
    rcases List.eq_nil_or_concat x with rfl | ⟨front, c, shape⟩
    · exact absurd rfl ends.filled
    · rw [List.concat_eq_append] at shape
      subst shape
      rw [← List.append_assoc]
      refine tight_concat fun blank => ?_
      have filled : front ≠ [] := by
        rintro rfl
        rw [(rooted c rfl).1] at blank
        cases blank
      rw [endsLine_behind filled]
      exact ends.tight front c rfl blank

theorem tight_breakRun {kept : Text} (ends : endsLine false kept = false) {scope : Scope}
    (emphasised : scope.emphasised = true) (count : Nat) :
    Tight (kept ++ breakRun {} (scope.breaks (count + 1)).kindAfter [] (count + 1)) := by
  cases count with
  | zero => exact tight_concat fun _ => ends
  | succ count =>
      -- The last break of several is a hard one, which puts a backslash on its line.
      have hard : (scope.breaks (count + 2)).kindAfter = .hard := by
        unfold Scope.breaks
        exact if_pos ⟨by omega, emphasised⟩
      have last : breakPiece {} .hard [] (count + 2) (count + 1) = ['\\', '\n'] := by
        rw [breakPiece_of_no_mark, breakUnit, if_neg (by simp), if_pos (.inl rfl)]
        rfl
      rw [hard, breakRun_eq, List.range_succ, List.flatMap_append, List.flatMap_singleton, last,
        show ['\\', '\n'] = ['\\'] ++ ['\n'] from rfl, ← List.append_assoc, ← List.append_assoc]
      exact tight_concat fun _ => endsLine_concat _ _ _

/-- Line breaks in emphasis keep a text tight. -/
theorem Tight.addBreaks (tight : Tight buffer.reverse) {scope : Scope}
    (emphasised : scope.emphasised = true) (count : Nat) :
    Tight (addBreaks {} (scope.breaks count).kindAfter [] count buffer).reverse := by
  have noBlock := breaks_ne_html scope count
  have needed (existing : Nat) : breaksNeeded (scope.breaks count).kindAfter count existing = count := by
    generalize (scope.breaks count).kindAfter = kind at noBlock
    cases kind with
    | html => exact absurd rfl noBlock
    | auto => rfl
    | hard => rfl
  unfold Markdown.addBreaks
  dsimp only
  rw [needed]
  by_cases nothing : count = 0 ∨ buffer = []
  · rw [if_pos nothing]
    exact tight
  by_cases enough : count ≤ countBreaks [] buffer
  · rw [if_neg nothing, if_pos enough]
    exact tight
  have ends : (stripBreaks [] buffer).head? ≠ some '\n' := head?_stripBreaks buffer
  obtain ⟨more, rfl⟩ := Nat.exists_eq_succ_of_ne_zero (not_or.1 nothing).1
  rw [if_neg nothing, if_neg enough]
  cases kept : stripBreaks [] buffer with
  | nil => exact tight_nil
  | cons c rest =>
      rw [kept] at ends
      rw [List.reverse_append, List.reverse_reverse]
      refine tight_breakRun ?_ emphasised more
      rw [List.reverse_cons, endsLine_concat, beq_eq_false_iff_ne]
      exact fun feed => ends (congrArg some feed)

/-! ### Text under the mark -/

theorem quoted_append_markLines (within : endsLine false t = false) (more : Text) :
    quoted false t ++ markLines quoteMark more
      = quoted false (t ++ more) ++ (if endsLine false (t ++ more) then quoteMark else []) := by
  rw [markLines_quoteMark, quoted_append, endsLine_append, within, List.append_assoc]

theorem twin_markLines (rooted : Rooted false t) :
    Twin false (endsLine false t) t (markLines quoteMark t) where
  marked := markLines_quoteMark t
  feeds := id
  rooted := rooted

/-- A text of one line before twins. -/
theorem Twin.behind (twin : Twin false early t q) {opening : Text} (single : '\n' ∉ opening)
    (solid : ∀ c ∈ opening.head?, Text.isBlank c = false) :
    Twin false early (opening ++ t) (opening ++ q) where
  marked := by
    rw [quoted_append, quoted_of_feed_free single, endsLine_of_feed_free single, twin.marked,
      List.append_assoc]
  feeds ends := by
    rw [endsLine_append, endsLine_of_feed_free single]
    exact twin.feeds ends
  rooted := by
    cases opening with
    | nil => exact twin.rooted
    | cons c rest =>
        intro d first
        exact ⟨solid d first, nofun⟩

/-- The blank that is moved behind a closing marker is the same in a quote. -/
theorem hoistEnd_quoted (tight : Tight t) {closing : Text} (filled : closing ≠ []) :
    ∃ kept tail, hoistEnd t closing = (kept, tail) ∧
      hoistEnd (quoted false t) closing = (quoted false kept, tail) ∧
      endsLine false kept = false ∧
      (tail = closing ∨ ∃ c, tail = closing ++ [c] ∧ t.getLast? = some c) := by
  have open_ : closing.isEmpty = false := List.isEmpty_eq_false_iff.2 filled
  rcases List.eq_nil_or_concat t with rfl | ⟨front, c, shape⟩
  · exact ⟨[], closing, rfl, rfl, rfl, .inl rfl⟩
  rw [List.concat_eq_append] at shape
  subst shape
  rw [hoistEnd, hoistEnd, quoted_concat, List.reverse_concat, List.reverse_concat, open_]
  dsimp only
  cases blank : Text.isBlank c with
  | true =>
      have within := tight front c rfl blank
      rw [within, if_neg Bool.false_ne_true, List.append_nil, List.reverse_reverse,
        List.reverse_reverse]
      exact ⟨front, closing ++ [c], rfl, rfl, within, .inr ⟨c, rfl, List.getLast?_concat⟩⟩
  | false =>
      refine ⟨front ++ [c], closing, rfl, ?_, ?_, .inl rfl⟩
      · rw [quoted_concat]
        rfl
      · exact (endsInline_of_solid blank).within

/-! ### Forms of spans -/

section

variable {span : Span} {leaf : Bool} {content quotedContent : Text}

/-- A content that starts with no blank stays behind the opening. -/
theorem edges_of_rooted (noCode : span.isRule .code = false)
    (solid : ∀ c ∈ content.head?, Text.isBlank c = false) (lineStart : Bool) (spaced : Buffer) :
    edges lineStart spaced span content
      = (span.opening, (hoistEnd content span.closing).1, (hoistEnd content span.closing).2) := by
  have same : hoistStart lineStart spaced span.opening content = (span.opening, content) := by
    cases content with
    | nil => rfl
    | cons c rest => simp [hoistStart, solid c rfl]
  rw [edges, noCode, same]
  rfl

/-- The content of a twin starts with no blank. -/
theorem Twin.solid (twin : Twin false early t q) :
    (∀ c ∈ t.head?, Text.isBlank c = false) ∧ ∀ c ∈ q.head?, Text.isBlank c = false := by
  have solid : ∀ c ∈ t.head?, Text.isBlank c = false := fun c first => (twin.rooted c first).1
  refine ⟨solid, fun c first => solid c ?_⟩
  by_cases filled : t = []
  · rw [twin.eq_nil_iff.2 filled] at first
    cases first
  · obtain ⟨d, rest, rfl⟩ := List.exists_cons_of_ne_nil filled
    rw [twin.marked, quoted_false_cons] at first
    exact first

theorem written_of_inner (mark : Text) {opening inner closing : Text}
    (empty : leaf = true → inner = []) (single : '\n' ∉ opening) :
    written mark false leaf (opening, inner, closing)
      = opening ++ (inner ++ markLines mark closing) := by
  have same : (if leaf then markLines mark inner else inner) = inner := by
    cases leaf with
    | false => rfl
    | true =>
        rw [empty rfl]
        rfl
  rw [written, if_neg Bool.false_ne_true, List.nil_append, same, markLines_of_feed_free single,
    List.append_assoc]

theorem copies_text (single : '\n' ∉ t) (solid : ∀ c ∈ t.head?, Text.isBlank c = false) :
    Copies { origin := .text, text := t } true t t t where
  noBreak := rfl
  unmarked := rfl
  outside lineStart spaced := by
    rw [edges_of_rooted rfl solid, hoistEnd_nil, written_of_no_mark]
    exact List.append_nil t
  inside := by
    refine ⟨t, false, fun lineStart spaced => ?_, ?_, nofun, fun c first => ⟨solid c first, nofun⟩⟩
    · rw [edges_of_rooted rfl solid, hoistEnd_nil, written, markLines_nil, if_pos rfl,
        markLines_of_feed_free single]
      simp
    · rw [quoted_of_feed_free single]
      exact (List.append_nil t).symm

/-- A span without a closing writes its content behind its opening. -/
theorem copies_open (noBreak : span.isRule .lineBreak = false)
    (noCode : span.isRule .code = false) (unmarked : span.lineMark? = none)
    (single : '\n' ∉ span.opening) (solid : ∀ c ∈ span.opening.head?, Text.isBlank c = false)
    (closing : span.closing = []) (empty : leaf = true → content = [])
    (twin : Twin false early content quotedContent) :
    Copies span leaf content quotedContent (span.opening ++ content) where
  noBreak := noBreak
  unmarked := unmarked
  outside lineStart spaced := by
    rw [edges_of_rooted noCode twin.solid.1, closing, hoistEnd_nil, written_of_no_mark,
      List.append_nil]
  inside := by
    refine ⟨span.opening ++ quotedContent, early, fun lineStart spaced => ?_,
      twin.behind single solid⟩
    rw [edges_of_rooted noCode twin.solid.2, closing, hoistEnd_nil,
      written_of_inner _ (fun isLeaf => twin.eq_nil_iff.2 (empty isLeaf)) single, markLines_nil,
      List.append_nil]

/-- A span with a closing writes its content before it, without a blank at its end, which
goes behind. -/
theorem copies_enclosed (noBreak : span.isRule .lineBreak = false)
    (noCode : span.isRule .code = false) (unmarked : span.lineMark? = none)
    (single : '\n' ∉ span.opening) (solid : ∀ c ∈ span.opening.head?, Text.isBlank c = false)
    (opened : span.opening ≠ []) (closed : span.closing ≠ []) (empty : leaf = true → content = [])
    (twin : Twin false false content quotedContent) (tight : Tight content) :
    Copies span leaf content quotedContent (enclosed span.opening content span.closing) where
  noBreak := noBreak
  unmarked := unmarked
  outside lineStart spaced := by
    rw [edges_of_rooted noCode twin.solid.1, written_of_no_mark]
    rfl
  inside := by
    obtain ⟨kept, tail, hoisted, hoistedQuoted, within, -⟩ := hoistEnd_quoted tight closed
    have isQuoted : quotedContent = quoted false content := twin.marked.trans (List.append_nil _)
    have keptEmpty (isLeaf : leaf = true) : quoted false kept = [] := by
      rw [empty isLeaf] at hoisted
      rw [← (Prod.mk.inj hoisted).1]
      rfl
    have rooted : Rooted false (span.opening ++ (kept ++ tail)) := by
      obtain ⟨c, rest, shape⟩ := List.exists_cons_of_ne_nil opened
      rw [shape] at solid ⊢
      exact fun d first => ⟨solid d first, nofun⟩
    refine ⟨span.opening ++ (quoted false kept ++ markLines quoteMark tail), _,
      fun lineStart spaced => ?_, ?_, id, ?_⟩
    · rw [edges_of_rooted noCode twin.solid.2, isQuoted, hoistedQuoted,
        written_of_inner _ keptEmpty single]
    · rw [enclosed, hoisted]
      dsimp only
      rw [quoted_append_markLines within, quoted_append false span.opening,
        quoted_of_feed_free single, endsLine_append false span.opening,
        endsLine_of_feed_free single, List.append_assoc]
    · rw [enclosed, hoisted]
      exact rooted

/-- Emphasis around a text that ends within a line ends within it too. -/
theorem endsInline_enclosed {opening front : Text} {d : Char} (solid : Text.isBlank d = false)
    (ends : content = [] ∨ EndsInline content) :
    EndsInline (enclosed opening content (front ++ [d])) := by
  have tight : Tight content := ends.elim (fun none => none ▸ tight_nil) EndsInline.tight
  have closed : front ++ [d] ≠ [] := by simp
  obtain ⟨kept, tail, hoisted, -, -, last⟩ := hoistEnd_quoted tight closed
  rw [enclosed, hoisted]
  rcases last with rfl | ⟨c, rfl, last⟩
  · show EndsInline (opening ++ (kept ++ (front ++ [d])))
    rw [← List.append_assoc, ← List.append_assoc]
    exact endsInline_of_solid solid
  · have filled : content ≠ [] := by
      rintro rfl
      cases last
    have within := (ends.resolve_left filled).within
    obtain ⟨before, rfl⟩ := List.getLast?_eq_some_iff.1 last
    rw [endsLine_concat] at within
    show EndsInline (opening ++ (kept ++ (front ++ [d] ++ [c])))
    rw [← List.append_assoc, ← List.append_assoc]
    refine ⟨by simp, by rw [endsLine_concat, within], tight_concat fun _ => ?_⟩
    rw [← List.append_assoc]
    exact (endsInline_of_solid solid).within

/-- Code has its blanks where they are, so it need only start and end within a line. -/
theorem copies_code (isCode : span.isRule .code = true) (unmarked : span.lineMark? = none)
    (rooted : Rooted false (span.opening ++ (content ++ span.closing)))
    (start : content.head? ≠ some '\n') (finish : endsLine false content = false)
    (filled : content ≠ []) :
    Copies span true content content (span.opening ++ (content ++ span.closing)) where
  noBreak := by
    rw [Span.isRule, beq_iff_eq] at isCode
    rw [Span.isRule, isCode]
    rfl
  unmarked := unmarked
  outside lineStart spaced := by
    rw [edges, isCode, if_pos rfl, written_of_no_mark]
  inside := by
    refine ⟨_, _, fun lineStart spaced => ?_, twin_markLines rooted⟩
    have within : content.getLast? ≠ some '\n' := by
      rwa [endsLine_false, beq_eq_false_iff_ne] at finish
    have next : (content ++ span.closing).head? ≠ some '\n' := by
      obtain ⟨c, rest, rfl⟩ := List.exists_cons_of_ne_nil filled
      exact start
    rw [edges, isCode, if_pos rfl, written, if_neg Bool.false_ne_true, if_pos rfl, List.nil_append,
      markLines_append (.inl next), markLines_append (.inr within), List.append_assoc]

end

end ForumMarkup.Markdown
