import ForumMarkup.Options
import ForumMarkup.Span
import ForumMarkup.Text.Blank

/-!
Contract: runs of line breaks at the end of a text that is being written.

Owns:
- `Buffer`, the text written so far, with its newest character first;
- `BreakUnit`, the three spellings of one line break;
- `countBreaks` and `stripBreaks`, which read and remove the run a buffer ends
  with;
- `addBreaks`, which makes that run long enough.

A run that is too short is removed and written again as a whole, since the
spelling of each break depends on its place in the run.
-/

set_option autoImplicit false

namespace ForumMarkup.Markdown

/-- The text written so far, newest character first. -/
abbrev Buffer := List Char

/-- One line break. -/
inductive BreakUnit where
  /-- A line feed. -/
  | soft
  /-- A backslash and a line feed. -/
  | hard
  /-- An HTML break and a line feed. -/
  | html
  deriving DecidableEq, Repr

def BreakUnit.text : BreakUnit → Text
  | .soft => ['\n']
  | .hard => ['\\', '\n']
  | .html => ['<', 'b', 'r', '>', '\n']

/-- The buffer without the line break it ends with, in its longest spelling. -/
def stripUnit? : Buffer → Option Buffer
  | '\n' :: '>' :: 'r' :: 'b' :: '<' :: rest => some rest
  | '\n' :: '\\' :: rest => some rest
  | '\n' :: rest => some rest
  | _ => none

def isInLine (c : Char) : Bool :=
  c != '\n'

/-- The buffer without a last line that consists of the line mark. -/
def stripMarkLine? (mark : Text) (buffer : Buffer) : Option Buffer :=
  let line := (buffer.takeWhile isInLine).reverse
  let rest := buffer.dropWhile isInLine
  if rest ≠ [] ∧ line ≠ [] ∧ (line = mark ∨ line = Text.trimEnd mark) then some rest else none

def stripBlank? : Buffer → Option Buffer
  | c :: rest => if Text.isBlank c then some rest else none
  | [] => none

theorem stripUnit?_length {buffer rest : Buffer} (found : stripUnit? buffer = some rest) :
    rest.length < buffer.length := by
  unfold stripUnit? at found
  split at found
  all_goals simp_all
  all_goals omega

theorem stripMarkLine?_length {mark : Text} {buffer rest : Buffer}
    (found : stripMarkLine? mark buffer = some rest) : rest.length < buffer.length := by
  simp only [stripMarkLine?, Option.ite_none_right_eq_some, Option.some.injEq] at found
  obtain ⟨⟨_, filled, _⟩, rfl⟩ := found
  have parts := congrArg List.length (List.takeWhile_append_dropWhile (p := isInLine) (l := buffer))
  have := List.length_pos_iff.2 filled
  simp only [List.length_append, List.length_reverse] at parts this
  omega

theorem stripBlank?_length {buffer rest : Buffer} (found : stripBlank? buffer = some rest) :
    rest.length < buffer.length := by
  cases buffer with
  | nil => simp [stripBlank?] at found
  | cons c tail =>
      simp only [stripBlank?, Option.ite_none_right_eq_some, Option.some.injEq] at found
      simp [← found.2]

/-- The number of line breaks a buffer ends with, lines that hold only the line
mark not counted in between. -/
def countBreaks (mark : Text) (buffer : Buffer) : Nat :=
  match unit : stripUnit? buffer with
  | some rest =>
      have := stripUnit?_length unit
      countBreaks mark rest + 1
  | none =>
      match line : stripMarkLine? mark buffer with
      | some rest =>
          have := stripMarkLine?_length line
          countBreaks mark rest
      | none => 0
termination_by buffer.length

/-- The buffer without one line break, line of the line mark, or blank at its
end, the first of these that is there. -/
def stripLast? (mark : Text) (buffer : Buffer) : Option Buffer :=
  ((stripUnit? buffer).or (stripMarkLine? mark buffer)).or (stripBlank? buffer)

theorem stripLast?_length {mark : Text} {buffer rest : Buffer}
    (found : stripLast? mark buffer = some rest) : rest.length < buffer.length := by
  simp only [stripLast?, Option.or_eq_some_iff] at found
  rcases found with (unit | ⟨_, line⟩) | ⟨_, blank⟩
  · exact stripUnit?_length unit
  · exact stripMarkLine?_length line
  · exact stripBlank?_length blank

/-- The buffer without the line breaks, lines of the line mark and blanks it ends
with. -/
def stripBreaks (mark : Text) (buffer : Buffer) : Buffer :=
  match found : stripLast? mark buffer with
  | some rest =>
      have := stripLast?_length found
      stripBreaks mark rest
  | none => buffer
termination_by buffer.length

/-- The spelling of the break at a place, counted from zero, of a run of breaks.
From its third break on a run is spelled out, and from its second one if it has
more than two; the last break before a block is then an HTML one. -/
def breakUnit (options : Options) (kind : BreakKind) (count place : Nat) : BreakUnit :=
  let spelledOut := (if 2 < count then 1 else 2) ≤ place
  if kind = .html ∧ spelledOut ∧ place + 1 = count then .html
  else if kind = .hard ∨ options.traditionalBreaks ∨ spelledOut then .hard
  else .soft

/-- What stands before a break inside a run: the line mark of the empty line, whose
last blanks are only written where a break is spelled out. -/
def breakLead (mark : Text) (place : Nat) (unit : BreakUnit) : Text :=
  if place = 0 then []
  else if unit = .soft then Text.trimEnd mark
  else mark

def breakRun (options : Options) (kind : BreakKind) (mark : Text) (count : Nat) : Text :=
  (List.range count).flatMap fun place =>
    let unit := breakUnit options kind count place
    breakLead mark place unit ++ unit.text

/-- The number of breaks that must be there in the end, when `required` are asked
for and `existing` are there: before and after a block, one more than are there. -/
def breaksNeeded (kind : BreakKind) (required existing : Nat) : Nat :=
  match kind with
  | .html => max required (max existing (required - 1) + 1)
  | .auto | .hard => required

/-- The buffer with at least the required number of breaks at its end. Nothing is
added to an empty buffer. -/
def addBreaks (options : Options) (kind : BreakKind) (mark : Text) (required : Nat)
    (buffer : Buffer) : Buffer :=
  if required = 0 ∨ buffer = [] then buffer
  else
    let existing := countBreaks mark buffer
    let needed := breaksNeeded kind required existing
    if needed ≤ existing then buffer
    else
      match stripBreaks mark buffer with
      | [] => []
      | kept => (breakRun options kind mark needed).reverse ++ kept

end ForumMarkup.Markdown
