import ForumMarkup.Element.Post
import ForumMarkup.Proofs.Span.Steps
import ForumMarkup.Proofs.Text.Lines

/-!
Contract: fences of code that the code cannot close.

Owns:
- `Text.LongestRun`, the length of the longest run of a character in a text;
- `blockLines`, what a reader of a block takes for its lines.

Main statements: `longestRun_longestBackticks`, which relates the scan that measures the
code to the runs in it; and `fenced_code_plan`.

No run of backticks crosses a line feed, so that a fence longer than every run in the code
is longer than every run in one of its lines.
-/

set_option autoImplicit false

namespace ForumMarkup

namespace Text

/-- The text has a run of the character of this length, and none that is longer. -/
structure LongestRun (c : Char) (t : Text) (length : Nat) : Prop where
  there : List.replicate length c <:+: t
  longest : ∀ other, List.replicate other c <:+: t → other ≤ length

theorem LongestRun.unique {c : Char} {t : Text} {first second : Nat}
    (one : t.LongestRun c first) (other : t.LongestRun c second) : first = second :=
  Nat.le_antisymm (other.longest first one.there) (one.longest second other.there)

end Text

namespace Decoration

/-- The scan goes on with the run it is in. Its result bounds the runs that it has seen and
those of what is left behind the run at hand. -/
theorem le_longestBackticks_go_iff (count : Nat) :
    ∀ (t : Text) (current longest : Nat),
      count ≤ longestBackticks.go t current longest
        ↔ count ≤ longest ∨
          List.replicate count '\x60' <:+: List.replicate current '\x60' ++ t
  | [], current, longest => by
      rw [longestBackticks.go, List.append_nil, List.infix_replicate_iff, List.length_replicate,
        and_iff_left rfl]
      omega
  | c :: rest, current, longest => by
      rw [longestBackticks.go]
      split
      · next backtick =>
          have grown : List.replicate current '\x60' ++ c :: rest
              = List.replicate (current + 1) '\x60' ++ rest := by
            rw [backtick, List.replicate_succ', List.append_assoc]
            rfl
          rw [le_longestBackticks_go_iff count rest, grown]
      · next other =>
          have apart : c ∉ List.replicate count '\x60' :=
            fun member => other (List.eq_of_mem_replicate member)
          have either : count ≤ max current longest ↔ count ≤ longest ∨ count ≤ current := by omega
          rw [le_longestBackticks_go_iff count rest, Text.infix_append_cons_iff apart,
            List.infix_replicate_iff, List.length_replicate, and_iff_left rfl, List.replicate_zero,
            List.nil_append, either, or_assoc]

theorem le_longestBackticks_iff {count : Nat} {t : Text} :
    count ≤ longestBackticks t ↔ List.replicate count '\x60' <:+: t := by
  rw [longestBackticks, le_longestBackticks_go_iff, List.replicate_zero, List.nil_append,
    Nat.le_zero]
  refine ⟨fun bound => bound.elim (fun none => ?_) id, .inr⟩
  rw [none]
  exact List.nil_infix

/-- The scan measures the longest run. -/
theorem longestRun_longestBackticks (t : Text) : t.LongestRun '\x60' (longestBackticks t) :=
  ⟨le_longestBackticks_iff.1 (Nat.le_refl _), fun _ inside => le_longestBackticks_iff.2 inside⟩

/-- Code is a block unless it may stand in a line and fits into one. -/
theorem codeDelimiters_of_block {options : Options} (element : Element)
    (block : options.inlineCode = false ∨ '\n' ∈ codeContent element) :
    codeDelimiters options element
      = (List.replicate (max 3 (1 + longestBackticks (codeContent element))) '\x60'
          ++ Text.trim ((element.attributes.get? Key.lang).getD []) ++ ['\n'],
        '\n' :: List.replicate (max 3 (1 + longestBackticks (codeContent element))) '\x60') := by
  have length : max (longestBackticks (codeContent element)) 2 + 1
      = max 3 (1 + longestBackticks (codeContent element)) := by omega
  have fenced : (!options.inlineCode || (codeContent element).contains '\n') = true := by
    simpa using block
  unfold codeDelimiters
  dsimp only
  rw [if_pos fenced, length]

end Decoration

/-! ### Reading a block -/

/-- Whether a line closes a block that was opened by a fence of some length. -/
def closesBlock (count : Nat) (line : Text) : Bool :=
  count ≤ line.length && line.all (· == '\x60')

/-- The lines of a block, given what stands behind the line it was opened by. -/
def blockLines (count : Nat) (t : Text) : List Text :=
  (Text.lines t).takeWhile fun line => !closesBlock count line

/-- A line that closes a block has a run as long as the fence. -/
theorem infix_of_closesBlock {count : Nat} {line : Text} (closes : closesBlock count line = true) :
    List.replicate count '\x60' <:+: line := by
  rw [closesBlock, Bool.and_eq_true, decide_eq_true_eq, List.all_eq_true] at closes
  obtain ⟨long, all⟩ := closes
  have run : line = List.replicate line.length '\x60' :=
    List.eq_replicate_of_mem fun c member => eq_of_beq (all c member)
  rw [run, List.infix_replicate_iff, List.length_replicate]
  exact ⟨long, rfl⟩

theorem closesBlock_fence (count : Nat) :
    closesBlock count (List.replicate count '\x60') = true := by
  simp [closesBlock]

/-- A block whose lines have no run as long as the fence ends with the fence. -/
theorem blockLines_append_fence {count : Nat} {content : Text}
    (shorter : ∀ line ∈ Text.lines content, ¬List.replicate count '\x60' <:+: line) :
    blockLines count (content ++ '\n' :: List.replicate count '\x60') = Text.lines content := by
  have single : '\n' ∉ List.replicate count '\x60' :=
    fun member => absurd (List.eq_of_mem_replicate member) (by decide)
  have kept : ∀ line ∈ Text.lines content, (!closesBlock count line) = true := by
    intro line member
    rw [Bool.not_eq_true', ← Bool.not_eq_true]
    exact fun closes => shorter line member (infix_of_closesBlock closes)
  rw [blockLines, Text.lines_append_feed, Text.lines_of_feed_free single,
    List.takeWhile_append_of_pos kept, List.takeWhile_cons_of_neg (by simp [closesBlock_fence]),
    List.append_nil]

open Decoration

/-- Code in a block is written between fences of one length, which is at least three and more
than any run of backticks in the code. No line of the code has such a run, so that a reader
finds the end of the block at the closing fence and has all lines of the code. -/
theorem fenced_code_plan {options : Options} (scope : Scope) (attributes : Attributes)
    (children : List Node) (cursor : Cursor) {content : Text}
    (shown : content = Text.trimEnd (Entity.decode (Node.textContents children)))
    (block : options.inlineCode = false ∨ '\n' ∈ content) :
    ∃ (span : Span) (longest count : Nat),
      Node.plan options scope (.element Tag.code attributes children) cursor
        = .done (cursor.add (.node span [])) ∧
      content.LongestRun '\x60' longest ∧ count = max 3 (1 + longest) ∧
      span.text = content ∧
      span.opening = List.replicate count '\x60'
        ++ Text.trim ((attributes.get? Key.lang).getD []) ++ ['\n'] ∧
      span.closing = '\n' :: List.replicate count '\x60' ∧
      Text.lines (span.text ++ span.closing)
        = Text.lines content ++ [List.replicate count '\x60'] ∧
      (∀ line ∈ Text.lines content, ¬List.replicate count '\x60' <:+: line) ∧
      blockLines count (span.text ++ span.closing) = Text.lines content := by
  have same : codeContent ⟨Tag.code, attributes, children⟩ = content := shown.symm
  have blocked : options.inlineCode = false ∨
      '\n' ∈ codeContent ⟨Tag.code, attributes, children⟩ := by
    rw [same]
    exact block
  have delimiters := codeDelimiters_of_block ⟨Tag.code, attributes, children⟩ blocked
  rw [same] at delimiters
  generalize counted : max 3 (1 + longestBackticks content) = count at delimiters
  let span := code options ⟨Tag.code, attributes, children⟩ { origin := .rule .code }
  have text : span.text = content := same
  have closing : span.closing = '\n' :: List.replicate count '\x60' :=
    congrArg Prod.snd delimiters
  have shorter : ∀ line ∈ Text.lines content, ¬List.replicate count '\x60' <:+: line := by
    intro line member inside
    have bound := le_longestBackticks_iff.2 (inside.trans (Text.infix_of_mem_lines member))
    omega
  have single : '\n' ∉ List.replicate count '\x60' :=
    fun member => absurd (List.eq_of_mem_replicate member) (by decide)
  refine ⟨span, longestBackticks content, count, ?_, longestRun_longestBackticks content,
    counted.symm, text, congrArg Prod.fst delimiters, closing, ?_, shorter, ?_⟩
  · exact Node.plan_replaced cursor .code attributes (by decide) (by decide) rfl rfl
  · rw [text, closing, Text.lines_append_feed, Text.lines_of_feed_free single]
  · rw [text, closing]
    exact blockLines_append_fence shorter

def quotedFence : Text := "\x60\x60\x60\x60 a\n\x60\x60\x60\nb\x60 \n\x60\x60\x60\x60".toList

theorem fenced_code_plan_quotedFence :
    quotedFence = Text.trimEnd (Entity.decode (Node.textContents [.text quotedFence])) ∧
      '\n' ∈ quotedFence ∧
      ∃ span : Span,
        Node.plan { inlineCode := true } { parent := Tag.richRoot }
            (.codeIn " md ".toList quotedFence) {} = .done { before := [.node span []] } ∧
        span.opening = "\x60\x60\x60\x60\x60md\n".toList ∧
        blockLines 5 (span.text ++ span.closing)
          = ["\x60\x60\x60\x60 a".toList, "\x60\x60\x60".toList, "b\x60 ".toList,
              "\x60\x60\x60\x60".toList] := by
  have shown : quotedFence
      = Text.trimEnd (Entity.decode (Node.textContents [.text quotedFence])) := by
    rw [Entity.decode_eq_self (by decide)]
    decide
  have several : '\n' ∈ quotedFence := by decide
  obtain ⟨span, longest, count, planned, run, rfl, _, opening, _, _, _, read⟩ :=
    fenced_code_plan { parent := Tag.richRoot } (.set ∅ Key.lang " md ".toList)
      [.text quotedFence] {} shown (.inr several)
  have four : longest = 4 :=
    run.unique (Decoration.longestRun_longestBackticks quotedFence)
  subst four
  exact ⟨shown, several, span, planned, opening, read⟩

end ForumMarkup
