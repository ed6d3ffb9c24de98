import ForumMarkup.Proofs.Lookup.Always
import ForumMarkup.Span.Decoration

/-!
Contract: the forms that the span of a rule can take.

Owns: `Markdown.emphasisRules`, the rules of bold, italic and underlined text.

Main statements: one for each rule that chooses between several forms, and
`always_quote`, the two forms of a quote under any answers.
-/

set_option autoImplicit false

namespace ForumMarkup

namespace Markdown

def emphasisRules : List Rule :=
  [.bold, .italic, .underline]

theorem others_of_mem_emphasisRules {rule : Rule} (member : rule ∈ emphasisRules) :
    rule ≠ .list ∧ rule ≠ .lineBreak ∧ rule ≠ .code := by
  have all : ∀ rule ∈ emphasisRules, rule ≠ .list ∧ rule ≠ .lineBreak ∧ rule ≠ .code := by decide
  exact all rule member

end Markdown

namespace Decoration

open Inquiry

theorem emphasis_eq_or (scope : Scope) (rule : Rule) (opening closing : Text) (span : Span) :
    emphasis scope rule opening closing span = span ∨
      emphasis scope rule opening closing span = { span with opening, closing } := by
  unfold emphasis
  split
  · exact .inl rfl
  · exact .inr rfl

/-- Bold, italic and underlined text have markers unless they stand directly in an element
of their own tag. -/
theorem exists_decorate_emphasis (options : Options) (scope : Scope) (earlier : Nat) {rule : Rule}
    (emphasised : Markdown.emphasisRules.contains rule = true) (element : Element) (start : Span) :
    ∃ opening closing, opening ≠ [] ∧ decorate options scope earlier rule element start
      = .done (emphasis scope rule opening closing start) := by
  cases rule with
  | bold => exact ⟨_, _, by decide, rfl⟩
  | italic => exact ⟨_, _, by decide, rfl⟩
  | underline => exact ⟨_, _, by decide, rfl⟩
  | _ => exact absurd emphasised (by decide)

theorem isEmpty_opening_emphasis {scope : Scope} {rule : Rule} {opening closing : Text}
    (marker : opening ≠ []) {start : Span} (bare : start.opening = []) :
    (emphasis scope rule opening closing start).opening.isEmpty = (scope.parent == rule.tag) := by
  rw [Bool.eq_iff_iff, beq_iff_eq]
  unfold emphasis
  split
  · next same => simp [bare, same]
  · next other => simp [marker, other]

theorem list_eq_or (scope : Scope) (span : Span) :
    list scope span = { span.setBreaks 2 with kindBefore := .html } ∨
      list scope span = span.setBreaks 1 := by
  unfold list
  split
  · exact .inl rfl
  · exact .inr rfl

theorem size_eq_or (options : Options) (element : Element) (span : Span) :
    size options element span = span ∨
      size options element span
        = { span with opening := "<small>".toList, closing := "</small>".toList } ∨
      size options element span
        = { span with opening := "<big>".toList, closing := "</big>".toList } := by
  unfold size
  split
  · exact .inl rfl
  · split
    · exact .inr (.inl rfl)
    · split
      · exact .inr (.inr rfl)
      · exact .inl rfl

theorem video_eq_or (element : Element) (span : Span) :
    video element span = span.setBreaks 1 ∨
      ∃ text, video element span = (span.replace text).setBreaks 1 := by
  unfold video
  split
  · exact .inr ⟨_, rfl⟩
  · exact .inl rfl

/-- A quote has a header or a line mark, whatever the answers are. -/
theorem always_quote {p : Span → Prop} (element : Element) {span : Span}
    (headed : ∀ header, p (quoteHeader header { span.setBreaks 2 with kindBefore := .html }))
    (marked : p { span.setBreaks 2 with kindBefore := .html, lineMark? := some quoteMark }) :
    (quote element span).Always p := by
  refine always_bind.2 ((always_true _).mono fun post? _ => ?_)
  cases post? with
  | some post => exact headed _
  | none =>
      refine always_bind.2 ((always_true _).mono fun author? _ => ?_)
      cases author? with
      | some author => exact headed _
      | none => exact marked

end Decoration

end ForumMarkup
