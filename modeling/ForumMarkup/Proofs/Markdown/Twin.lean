import ForumMarkup.Proofs.Markdown.Laid
import ForumMarkup.Proofs.Markdown.QuotedEnds

/-!
Contract: one text written inside a quote and outside of it.

Owns:
- `Grounded`, a beginning that no break reaches;
- `Twin`, what the two texts have in common while they are written;
- `Copies`, spans that write twins.

Main statements: `Twin.addBreaks`, `Twin.append` and `Twin.place`, breaks, further
text and whole spans keep them twins.
-/

set_option autoImplicit false

namespace ForumMarkup.Markdown

open Decoration

variable {start early later : Bool} {t q x y : Text} {buffer quotedBuffer : Buffer}
  {options : Options} {kind : BreakKind} {required : Nat}

/-! ### The beginning -/

/-- A text with a beginning that is no part of a break. -/
structure Grounded (t : Text) : Prop where
  filled : t ≠ []
  rooted : Rooted true t

theorem Rooted.append (rooted : Rooted start t) (filled : t ≠ []) (more : Text) :
    Rooted start (t ++ more) := by
  obtain ⟨c, rest, rfl⟩ := List.exists_cons_of_ne_nil filled
  exact rooted

theorem Rooted.addBreaks (rooted : Rooted start buffer.reverse) :
    Rooted start (addBreaks options kind [] required buffer).reverse :=
  addBreaks_induction (fun _ whole => whole.of_append)
    (fun filled _ rooted => rooted.append filled _) rooted

theorem Grounded.append (grounded : Grounded t) (more : Text) : Grounded (t ++ more) where
  filled := by simp [grounded.filled]
  rooted := grounded.rooted.append grounded.filled more

/-- A removal at the end never reaches the ground of a text. -/
theorem Grounded.of_append {removed : Text} (step : StripStep [] t removed)
    (grounded : Grounded (t ++ removed)) : Grounded t where
  rooted := grounded.rooted.of_append
  filled := by
    rintro rfl
    have root := grounded.rooted
    cases step with
    | unit unit =>
        cases unit with
        | soft => exact absurd (root '\n' rfl).1 (by decide)
        | hard => exact absurd rfl ((root '\\' rfl).2 rfl).1
        | html => exact absurd rfl ((root '<' rfl).2 rfl).2
    | line _ _ _ isMark => exact grounded.filled (isMark.elim id id)
    | blank c blank =>
        rw [(root c rfl).1] at blank
        cases blank

theorem Grounded.addBreaks (grounded : Grounded buffer.reverse) :
    Grounded (addBreaks options kind [] required buffer).reverse :=
  addBreaks_induction Grounded.of_append (fun _ _ grounded => grounded.append _) grounded

/-! ### Twins -/

/-- `q` is `t` inside a quote; `early` says that the mark of the next line is there
already, and `start` that the text starts a line of its own. -/
structure Twin (start early : Bool) (t q : Text) : Prop where
  marked : q = quoted start t ++ (if early then quoteMark else [])
  feeds : early = true → endsLine false t = true
  rooted : Rooted start t

theorem twin_nil (start : Bool) : Twin start false [] [] where
  marked := rfl
  feeds := nofun
  rooted := nofun

theorem Twin.isLead (twin : Twin start early t q) :
    LeadOf t (if early then quoteMark else []) := by
  cases early with
  | false => exact .inl rfl
  | true => exact .inr ⟨twin.feeds rfl, .inr rfl⟩

theorem quoted_ne_nil (filled : t ≠ []) (start : Bool) : quoted start t ≠ [] := by
  obtain ⟨c, rest, rfl⟩ := List.exists_cons_of_ne_nil filled
  simp [quoted]

theorem Twin.eq_nil_iff (twin : Twin start early t q) : q = [] ↔ t = [] := by
  rw [twin.marked]
  constructor
  · intro none
    by_cases filled : t = []
    · exact filled
    · exact absurd (List.append_eq_nil_iff.1 none).1 (quoted_ne_nil filled start)
  · rintro rfl
    cases early with
    | false => rfl
    | true => exact absurd (twin.feeds rfl) (by decide)

theorem Twin.early_of_within (twin : Twin start early t q) (within : endsLine false t = false) :
    early = false := by
  cases early with
  | false => rfl
  | true =>
      rw [twin.feeds rfl] at within
      cases within

/-- What is taken off the end of one twin is taken off the end of the other. -/
theorem Twin.stripBreaks (twin : Twin start early buffer.reverse quotedBuffer.reverse) :
    stripBreaks quoteMark quotedBuffer
      = (quoted start (stripBreaks [] buffer).reverse).reverse := by
  have shape := congrArg List.reverse twin.marked
  rw [List.reverse_reverse] at shape
  rw [shape, stripBreaks_lead twin.isLead, stripBreaks_quoted twin.rooted, List.reverse_reverse]

theorem Twin.countBreaks (twin : Twin start early buffer.reverse quotedBuffer.reverse) :
    countBreaks quoteMark quotedBuffer = countBreaks [] buffer := by
  have shape := congrArg List.reverse twin.marked
  rw [List.reverse_reverse] at shape
  rw [shape, countBreaks_lead twin.isLead, countBreaks_quoted twin.rooted, List.reverse_reverse]

/-- Twins with breaks behind them are twins. -/
theorem Twin.addBreaks (twin : Twin start early buffer.reverse quotedBuffer.reverse)
    (options : Options) (kind : BreakKind) (required : Nat) :
    ∃ later, (later = true → early = true) ∧
      Twin start later (addBreaks options kind [] required buffer).reverse
        (addBreaks options kind quoteMark required quotedBuffer).reverse := by
  have empty : quotedBuffer = [] ↔ buffer = [] := by
    rw [← List.reverse_eq_nil_iff, twin.eq_nil_iff, List.reverse_eq_nil_iff]
  have rooted : Rooted start (Markdown.addBreaks options kind [] required buffer).reverse :=
    twin.rooted.addBreaks
  unfold Markdown.addBreaks at rooted ⊢
  by_cases nothing : required = 0 ∨ buffer = []
  · rw [if_pos nothing, if_pos (nothing.imp_right empty.2)]
    exact ⟨early, id, twin⟩
  rw [if_neg nothing] at rooted
  rw [if_neg nothing, if_neg (mt (Or.imp_right empty.1) nothing)]
  dsimp only at rooted ⊢
  rw [twin.countBreaks, twin.stripBreaks]
  by_cases enough : breaksNeeded kind required (Markdown.countBreaks [] buffer)
      ≤ Markdown.countBreaks [] buffer
  · rw [if_pos enough, if_pos enough]
    exact ⟨early, id, twin⟩
  rw [if_neg enough] at rooted
  rw [if_neg enough, if_neg enough]
  have ends : (Markdown.stripBreaks [] buffer).head? ≠ some '\n' := head?_stripBreaks buffer
  generalize Markdown.stripBreaks [] buffer = kept at rooted ends ⊢
  refine ⟨false, nofun, ?_, nofun, rooted⟩
  cases kept with
  | nil => rfl
  | cons c rest =>
      have within : endsLine start (c :: rest).reverse = false := by
        rw [List.reverse_cons, endsLine_concat, beq_eq_false_iff_ne]
        exact fun feed => ends (congrArg some feed)
      obtain ⟨d, more, shape⟩ := List.exists_cons_of_ne_nil
        (mt List.reverse_eq_nil_iff.1 (quoted_ne_nil (t := (c :: rest).reverse) (by simp) start))
      rw [shape]
      dsimp only
      rw [← shape, List.reverse_append, List.reverse_append, List.reverse_reverse,
        List.reverse_reverse, List.reverse_reverse, quoted_append, within, breakRun_quoteMark]
      exact (List.append_nil _).symm

/-- The mark that a span writes at the start of a line completes the line's mark. -/
theorem Twin.append_mark (twin : Twin start early t q) :
    q ++ (if atLineStart start q.reverse then quoteMark else [])
      = quoted start t ++ (if endsLine start t then quoteMark else []) := by
  rw [twin.marked]
  cases early with
  | true =>
      have filled : t ≠ [] := by
        rintro rfl
        exact absurd (twin.feeds rfl) (by decide)
      have opens : endsLine start t = true := by
        rw [endsLine_of_ne_nil filled, ← endsLine_false]
        exact twin.feeds rfl
      rw [if_pos rfl, List.reverse_append, opens, if_pos rfl]
      exact List.append_nil _
  | false =>
      have same : atLineStart start (quoted start t ++ []).reverse = endsLine start t := by
        rw [List.append_nil]
        by_cases filled : t = []
        · rw [filled]
          rfl
        · rw [endsLine_of_ne_nil filled, ← getLast?_quoted start t, ← List.head?_reverse]
          obtain ⟨c, rest, shape⟩ := List.exists_cons_of_ne_nil
            (mt List.reverse_eq_nil_iff.1 (quoted_ne_nil filled start))
          rw [shape]
          rfl
      rw [if_neg Bool.false_ne_true, same, List.append_nil]

/-- Twins with twins behind them are twins. -/
theorem Twin.append (front : Twin start early buffer.reverse quotedBuffer.reverse)
    (back : Twin false later x y) (ground : start = true → buffer = [] → Grounded x) :
    ∃ final, Twin start final (x.reverse ++ buffer).reverse
      (((if atLineStart start quotedBuffer then quoteMark else []) ++ y).reverse
        ++ quotedBuffer).reverse := by
  have marked := front.append_mark
  rw [List.reverse_reverse] at marked
  rw [← List.reverse_eq_nil_iff] at ground
  rw [List.reverse_append, List.reverse_append, List.reverse_reverse, List.reverse_reverse,
    ← List.append_assoc, marked, List.append_assoc]
  have rooted := front.rooted
  generalize buffer.reverse = t at ground rooted ⊢
  cases x with
  | nil =>
      rw [back.eq_nil_iff.2 rfl, List.append_nil, List.append_nil]
      refine ⟨endsLine start t, rfl, fun opens => ?_, rooted⟩
      refine endsLine_false_of_endsLine (fun starts none => ?_) opens
      exact (ground starts none).filled rfl
  | cons c rest =>
      have lead : lineLead c = quoteMark := if_neg (Text.ne_lineFeed_of_solid (back.rooted c rfl).1)
      refine ⟨later, ?_, fun opens => ?_, ?_⟩
      · rw [back.marked, quoted_append, quoted_false_cons, quoted, lead]
        simp only [List.append_assoc]
      · rw [endsLine_append]
        exact back.feeds opens
      · cases t with
        | nil =>
            cases start with
            | false => exact back.rooted
            | true => exact (ground rfl rfl).rooted
        | cons d more => exact rooted.append (List.cons_ne_nil d more) _

/-! ### Spans -/

/-- Wherever it stands, a span with a content writes `x` behind the mark of its line. -/
def Writes (mark : Text) (span : Span) (leaf : Bool) (content x : Text) : Prop :=
  ∀ lineStart spaced, written mark false leaf (edges lineStart spaced span content) = x

/-- A span that writes `x` outside of a quote writes a twin of it inside. -/
structure Copies (span : Span) (leaf : Bool) (content quotedContent x : Text) : Prop where
  noBreak : span.isRule .lineBreak = false
  unmarked : span.lineMark? = none
  outside : Writes [] span leaf content x
  inside : ∃ y later, Writes quoteMark span leaf quotedContent y ∧ Twin false later x y

section

variable {mark : Text} {marked leaf : Bool} {span : Span} {content quotedContent : Text}

theorem place_of_writes (writes : Writes mark span leaf content x) :
    place options mark marked span leaf content buffer
      = let spaced := addBreaks options span.kindBefore mark span.breaksBefore buffer
        addBreaks options span.kindAfter mark span.breaksAfter
          (((if startsLine mark marked span spaced then mark else []) ++ x).reverse ++ spaced) := by
  have split (lineStart : Bool) (parts : Text × Text × Text) :
      written mark lineStart leaf parts
        = (if lineStart then mark else []) ++ written mark false leaf parts := by
    rw [written, written, if_neg Bool.false_ne_true, List.nil_append, List.append_assoc,
      List.append_assoc, List.append_assoc]
  rw [place_eq]
  dsimp only
  rw [split, writes]

theorem place_outside (writes : Writes [] span leaf content x) :
    place options [] marked span leaf content buffer
      = addBreaks options span.kindAfter [] span.breaksAfter
          (x.reverse ++ addBreaks options span.kindBefore [] span.breaksBefore buffer) := by
  rw [place_of_writes writes]
  rfl

/-- Twins with a span behind them are twins. -/
theorem Twin.place (copies : Copies span leaf content quotedContent x)
    (twin : Twin start early buffer.reverse quotedBuffer.reverse)
    (ground : start = true → buffer = [] → Grounded x) (options : Options) (marked : Bool) :
    ∃ final, Twin start final (place options [] marked span leaf content buffer).reverse
      (place options quoteMark start span leaf quotedContent quotedBuffer).reverse := by
  obtain ⟨y, later, inside, piece⟩ := copies.inside
  obtain ⟨early, -, spaced⟩ := twin.addBreaks options span.kindBefore span.breaksBefore
  have groundSpaced (starts : start = true) (none :
      Markdown.addBreaks options span.kindBefore [] span.breaksBefore buffer = []) :
      Grounded x := by
    by_cases filled : buffer = []
    · exact ground starts filled
    · have grounded : Grounded buffer.reverse :=
        ⟨mt List.reverse_eq_nil_iff.1 filled, starts ▸ twin.rooted⟩
      exact absurd (List.reverse_eq_nil_iff.2 none) grounded.addBreaks.filled
  obtain ⟨final, whole⟩ := spaced.append piece groundSpaced
  have marks (other : Buffer) :
      startsLine quoteMark start span other = atLineStart start other := by
    rw [startsLine, copies.noBreak, copies.unmarked]
    rfl
  obtain ⟨last, -, result⟩ := whole.addBreaks options span.kindAfter span.breaksAfter
  rw [place_outside copies.outside, place_of_writes inside]
  dsimp only
  rw [marks]
  exact ⟨last, result⟩

/-- A text keeps its beginning under further spans. -/
theorem Grounded.place (writes : Writes [] span leaf content x)
    (grounded : Grounded buffer.reverse ∨ buffer = [] ∧ Grounded x) (options : Options)
    (marked : Bool) :
    Grounded (place options [] marked span leaf content buffer).reverse := by
  rw [place_outside writes]
  refine Grounded.addBreaks ?_
  rw [List.reverse_append, List.reverse_reverse]
  rcases grounded with before | ⟨rfl, here⟩
  · exact before.addBreaks.append _
  · rw [addBreaks_nil]
    exact here

end

end ForumMarkup.Markdown
