import ForumMarkup.Element.Post
import ForumMarkup.Proofs.Bbcode.RoundTrip
import ForumMarkup.Proofs.Text.Lines

/-!
Contract: reading text without brackets.

Owns: `Node.ofLines`, the nodes of such a text: a leaf for each line that is not
empty, and a line break between two lines.

Main statement: `read_of_bracket_free`.
-/

set_option autoImplicit false

namespace ForumMarkup

def Node.ofLine (line : Text) : List Node :=
  if line = [] then [] else [.text line]

/-- The nodes of lines: their leaves, with a line break between two lines. -/
def Node.ofLines : List Text → List Node
  | [] => []
  | [last] => ofLine last
  | line :: more => ofLine line ++ .element Tag.lineBreak ∅ [] :: ofLines more

namespace Bbcode

/-- A line becomes its leaf as soon as the text collected is taken over. -/
theorem flush_collect {base : List Node} {offset : Nat} (line : Text) :
    (({ base, offset } : Assembly).collect line).flush []
      = { base := (Node.ofLine line).reverse ++ base, offset } := by
  by_cases empty : line = []
  · rw [empty]
    rfl
  · have outside : (({ base, offset } : Assembly).collect line).top? ≠ some .list := by
      intro inList
      cases inList
    have filled : (({ base, offset } : Assembly).collect line).pending ≠ [] := by
      show line.reverse ++ [] ≠ []
      simpa using empty
    rw [Assembly.flush_of_top? outside filled, Node.ofLine, if_neg empty]
    show ({ base := .text (line.reverse ++ []).reverse :: base, offset } : Assembly) = _
    rw [List.append_nil, List.reverse_reverse]
    rfl

/-- Behind lines without brackets the tree under construction holds their nodes. -/
theorem exists_run_lines {lines : List Text}
    (plain : ∀ line ∈ lines, ∀ c ∈ line, c ≠ '[' ∧ c ≠ '\r' ∧ c ≠ '\n') (base : List Node)
    (offset : Nat) :
    ∃ place, (({ base, offset } : Assembly).run (Text.joinLines lines)).flush []
      = { base := (Node.ofLines lines).reverse ++ base, offset := place } := by
  fun_induction Node.ofLines lines generalizing base offset with
  | case1 =>
      refine ⟨offset, ?_⟩
      rw [Text.joinLines, Assembly.run_nil]
      rfl
  | case2 last =>
      obtain ⟨place, ran⟩ := run_collect (plain last List.mem_cons_self) { base, offset } []
      refine ⟨place, ?_⟩
      rw [List.append_nil, Assembly.run_nil] at ran
      rw [Text.joinLines, ran, Assembly.flush_moved, flush_collect]
      rfl
  | case3 line more several ih =>
      obtain ⟨first, others⟩ := List.forall_mem_cons.1 plain
      obtain ⟨behind, ran⟩ := run_collect first { base, offset } ('\n' :: Text.joinLines more)
      have fed : ((({ base, offset } : Assembly).collect line).moved behind).step []
            ⟨['\n'], .lineFeed⟩
          = { base := .element Tag.lineBreak ∅ [] :: ((Node.ofLine line).reverse ++ base),
              offset := behind + Text.byteLength ['\n'] } := by
        show ((((({ base, offset } : Assembly).collect line).moved behind).flush []).addNode
          (.element Tag.lineBreak ∅ [])).moved _ = _
        rw [Assembly.flush_moved, flush_collect]
        rfl
      obtain ⟨place, ranMore⟩ := ih others (.element Tag.lineBreak ∅ []
        :: ((Node.ofLine line).reverse ++ base)) (behind + Text.byteLength ['\n'])
      refine ⟨place, ?_⟩
      have joined : Text.joinLines (line :: more) = line ++ '\n' :: Text.joinLines more :=
        Text.joinLines_cons several
      rw [joined, ran, Assembly.run_of_pieces (pieces_lineFeed _), fed, ranMore,
        List.reverse_append, List.reverse_cons, List.append_assoc, List.append_assoc]
      rfl

/-- A text without brackets is read as the nodes of its lines. -/
theorem read_of_bracket_free {t : Text} (plain : ∀ c ∈ t, c ≠ '[' ∧ c ≠ '\r') :
    read [] t = { value := .post (Node.ofLines (Text.lines t)), warnings := [] } := by
  have inLines : ∀ line ∈ Text.lines t, ∀ c ∈ line, c ≠ '[' ∧ c ≠ '\r' ∧ c ≠ '\n' := by
    intro line member c inLine
    have inText : c ∈ t := Text.mem_of_mem_lines member inLine
    refine ⟨(plain c inText).1, (plain c inText).2, ?_⟩
    rintro rfl
    exact Text.lines_feed_free t line member inLine
  obtain ⟨place, ran⟩ := exists_run_lines inLines [] 0
  rw [Text.joinLines_lines, List.append_nil] at ran
  have prepared : prepareCodes [] = [] := by simp [prepareCodes]
  have finished : (Assembly.run {} t).finish []
      = { base := (Node.ofLines (Text.lines t)).reverse, offset := place } := by
    unfold Assembly.finish
    rw [ran]
    rfl
  unfold read
  rw [prepared]
  show ((Assembly.run {} t).finish []).toReading = _
  rw [finished]
  unfold Assembly.toReading
  rw [List.reverse_reverse]
  rfl

end Bbcode
end ForumMarkup
