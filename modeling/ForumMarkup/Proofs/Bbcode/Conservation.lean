import ForumMarkup.Format
import ForumMarkup.Proofs.Bbcode.Assembly
import ForumMarkup.Proofs.Bbcode.Groups

/-!
Contract: the BBCode reader keeps the text of its input.

Owns:
- `Assembly.text`, the text that a tree under construction holds so far;
- `Assembly.Grows`, how one operation changes that text;
- `Assembly.grows_step`, what one piece adds, and from it the sum over all pieces.

Main statement: `read_conserves_text`.  Blanks aside, the text of the tree is a
part of the input, in order, and all of the input that stands outside of bracket
groups is a part of the text of the tree.
-/

set_option autoImplicit false

open scoped List

namespace ForumMarkup.Bbcode

/-- A node that lays out a list when it ends an item holds nothing but blanks. -/
def Quiet (node : Node) : Prop :=
  isLayout node = true → Text.solid node.textContent = []

theorem quiet_text (content : Text) : Quiet (.text content) := by
  intro layout
  rw [Node.textContent]
  exact Text.solid_eq_nil_iff.2 layout

theorem quiet_of_tag_ne {element : Element} (other : element.tag ≠ Tag.lineBreak) :
    Quiet element.toNode := by
  intro layout
  have same : element.tag = Tag.lineBreak := by simpa [isLayout, Element.toNode] using layout
  exact absurd same other

theorem quiet_lineBreak : Quiet { tag := Tag.lineBreak : Element }.toNode := by
  intro _
  rfl

def Frame.text (frame : Frame) : Text :=
  Node.textContents frame.content.reverse

theorem solid_textContents_dropWhile {content : List Node}
    (quiet : ∀ node ∈ content, Quiet node) :
    Text.solid (Node.textContents (content.dropWhile isLayout).reverse)
      = Text.solid (Node.textContents content.reverse) := by
  induction content with
  | nil => rfl
  | cons node rest ih =>
      by_cases layout : isLayout node = true
      · rw [List.dropWhile_cons_of_pos layout,
          ih fun other member => quiet other (List.mem_cons_of_mem _ member),
          List.reverse_cons, Node.textContents_append, Text.solid_append]
        have silent := quiet node List.mem_cons_self layout
        simp [Node.textContents, silent]
      · rw [List.dropWhile_cons_of_neg layout]

theorem solid_textContent_toNode {frame : Frame} (quiet : ∀ node ∈ frame.content, Quiet node) :
    Text.solid frame.toNode.textContent = Text.solid frame.text := by
  unfold Frame.toNode Frame.text
  rw [Node.textContent]
  split
  · exact solid_textContents_dropWhile quiet
  · rfl

theorem quiet_toNode (frame : Frame) : Quiet frame.toNode := by
  have other : frame.bracket.tag ≠ Tag.lineBreak := by cases frame.bracket <;> decide
  intro layout
  have same : frame.bracket.tag = Tag.lineBreak := by
    simpa [isLayout, Frame.toNode] using layout
  exact absurd same other

/-! ### Smilies -/

theorem textContents_leaf (t : Text) : Node.textContents (leaf t) = t := by
  unfold leaf
  split
  · next empty => rw [empty, Node.textContents]
  · simp [Node.textContents, Node.textContent]

/-- The smilies of a text and what lies between them make up the text. -/
theorem textContents_splitFrom (codes : List Text) (plain t : Text) :
    Node.textContents (splitFrom codes plain t) = plain.reverse ++ t := by
  fun_induction splitFrom codes plain t with
  | case1 plain => rw [textContents_leaf, List.append_nil]
  | case2 plain c rest code after found _ ih =>
      obtain ⟨_, _, shape⟩ := matchCode?_eq_some found
      rw [Node.textContents_append, textContents_leaf, Node.textContents, ih, shape]
      simp [Element.toNode, Element.ofText, Node.textContent, Node.textContents]
  | case3 plain c rest _ ih =>
      rw [ih]
      simp

/-- Leaves that lay out a list hold only blanks, so none of the split text is lost with them. -/
theorem quiet_of_mem_splitFrom (codes : List Text) (plain t : Text) :
    ∀ node ∈ splitFrom codes plain t, Quiet node := by
  have leaves : ∀ (text : Text), ∀ node ∈ leaf text, Quiet node := by
    intro text node member
    unfold leaf at member
    split at member
    · cases member
    · rw [List.mem_singleton] at member
      rw [member]
      exact quiet_text text
  fun_induction splitFrom codes plain t with
  | case1 plain => exact leaves _
  | case2 plain c rest code after found _ ih =>
      intro node member
      rcases List.mem_append.1 member with before | later
      · exact leaves _ node before
      · rcases List.mem_cons.1 later with rfl | behind
        · have other : Tag.smilie ≠ Tag.lineBreak := by decide
          exact quiet_of_tag_ne other
        · exact ih node behind
  | case3 plain c rest _ ih => exact ih

namespace Assembly

/-- The text that a tree under construction holds so far, in reading order. -/
def text (assembly : Assembly) : Text :=
  Node.textContents assembly.base.reverse ++ assembly.frames.reverse.flatMap Frame.text
    ++ assembly.pending.reverse

/-- The children collected so far are quiet. -/
def Calm (assembly : Assembly) : Prop :=
  ∀ frame ∈ assembly.frames, ∀ node ∈ frame.content, Quiet node

def Grows (before after : Assembly) (added : Text) : Prop :=
  before.Calm → after.Calm ∧ Text.solid after.text = Text.solid before.text ++ added

theorem Grows.trans {first second third : Assembly} {one two : Text}
    (start : Grows first second one) (next : Grows second third two) :
    Grows first third (one ++ two) := by
  intro calm
  obtain ⟨calm, grown⟩ := start calm
  obtain ⟨calm, grownMore⟩ := next calm
  refine ⟨calm, ?_⟩
  rw [grownMore, grown, List.append_assoc]

/-- An operation without new text can come before any other one. -/
theorem Grows.before {first second third : Assembly} {added : Text}
    (start : Grows first second []) (next : Grows second third added) :
    Grows first third added :=
  start.trans next

theorem grows_self (assembly : Assembly) : Grows assembly assembly [] :=
  fun calm => ⟨calm, (List.append_nil _).symm⟩

theorem grows_warn (assembly : Assembly) (cause : Cause) (message : String) (offset : Nat) :
    Grows assembly (assembly.warn cause message offset) [] :=
  grows_self assembly

theorem grows_collect (assembly : Assembly) (t : Text) :
    Grows assembly (assembly.collect t) (Text.solid t) := by
  intro calm
  refine ⟨calm, ?_⟩
  simp [collect, text]

/-- Without text that waits for its place, a new child comes last. -/
theorem grows_addNode {assembly : Assembly} (settled : assembly.pending = []) {node : Node}
    (quiet : Quiet node) :
    Grows assembly (assembly.addNode node) (Text.solid node.textContent) := by
  intro calm
  unfold addNode
  split
  · next none =>
      refine ⟨fun frame member => ?_, ?_⟩
      · rw [none] at member
        cases member
      · simp [text, settled, none, Node.textContents_append, Node.textContents]
  · next frame rest shape =>
      refine ⟨fun other member => ?_, ?_⟩
      · rcases List.mem_cons.1 member with rfl | outer
        · intro child there
          rcases List.mem_cons.1 there with rfl | earlier
          · exact quiet
          · exact calm frame (shape ▸ List.mem_cons_self) child earlier
        · exact calm other (shape ▸ List.mem_cons_of_mem _ outer)
      · simp [text, settled, shape, Frame.text, Node.textContents_append, Node.textContents]

/-- Children behind settled text add what they hold. -/
theorem grows_addNodes {assembly : Assembly} (settled : assembly.pending = []) {nodes : List Node}
    (quiet : ∀ node ∈ nodes, Quiet node) :
    Grows assembly (assembly.addNodes nodes) (Text.solid (Node.textContents nodes)) := by
  induction nodes generalizing assembly with
  | nil => exact grows_self assembly
  | cons node rest ih =>
      have first := grows_addNode settled (quiet node List.mem_cons_self)
      have emptied : (assembly.addNode node).pending = [] := by rw [pending_addNode, settled]
      have others := ih emptied fun other member => quiet other (List.mem_cons_of_mem _ member)
      have both := first.trans others
      rw [← Text.solid_append] at both
      exact both

/-- Flushing moves the waiting text into the tree and drops only blanks. -/
theorem grows_flush (codes : List Text) (assembly : Assembly) :
    Grows assembly (assembly.flush codes) [] := by
  intro calm
  unfold flush
  simp only
  split
  · next dropped =>
      refine ⟨calm, ?_⟩
      have silent : Text.solid assembly.pending.reverse = [] := by
        rcases dropped with empty | ⟨_, blank⟩
        · rw [empty, Text.solid_nil]
        · exact Text.solid_eq_nil_iff.2 blank
      simp [text, silent]
  · have emptied : Assembly.Calm { assembly with pending := [] } := calm
    have settled : ({ assembly with pending := [] } : Assembly).pending = [] := rfl
    have added := grows_addNodes settled
      (quiet_of_mem_splitFrom codes [] assembly.pending.reverse) emptied
    refine ⟨added.1, ?_⟩
    rw [splitSmilies, added.2, textContents_splitFrom]
    simp [text]

theorem grows_addElement (codes : List Text) (assembly : Assembly) {element : Element}
    (quiet : Quiet element.toNode) :
    Grows assembly (assembly.addElement codes element) (Text.solid element.textContent) :=
  (grows_flush codes assembly).before (grows_addNode (pending_flush codes assembly) quiet)

theorem grows_openFrame (assembly : Assembly) (settled : assembly.pending = [])
    (bracket : Bracket) (attributes : Attributes) :
    Grows assembly (assembly.openFrame bracket attributes) [] := by
  intro calm
  refine ⟨fun frame member => ?_, ?_⟩
  · rcases List.mem_cons.1 member with rfl | outer
    · intro node none
      cases none
    · exact calm frame outer
  · simp [text, openFrame, settled, Frame.text, Node.textContents]

/-- Closing an element drops the layout at the end of an item, which is all blank. -/
theorem grows_closeTop {assembly : Assembly} (settled : assembly.pending = []) :
    Grows assembly assembly.closeTop [] := by
  intro calm
  unfold closeTop
  split
  · exact grows_self assembly calm
  · next frame rest shape =>
      have quiet : ∀ node ∈ frame.content, Quiet node := calm frame (shape ▸ List.mem_cons_self)
      have outer : Assembly.Calm { assembly with frames := rest } :=
        fun other member => calm other (shape ▸ List.mem_cons_of_mem _ member)
      have settledOuter : ({ assembly with frames := rest } : Assembly).pending = [] := settled
      have added := grows_addNode settledOuter (quiet_toNode frame) outer
      refine ⟨added.1, ?_⟩
      rw [added.2, solid_textContent_toNode quiet]
      simp [text, settled, shape]

/-- A warning, raised or not, changes no text. -/
theorem grows_warnUnclosed (assembly : Assembly) (expected : Bool) (frame : Frame) :
    Grows assembly (if expected then assembly else assembly.warnUnclosed frame) [] := by
  split
  · exact grows_self assembly
  · exact grows_warn assembly _ _ _

theorem pending_warnUnclosed (assembly : Assembly) (expected : Bool) (frame : Frame) :
    (if expected then assembly else assembly.warnUnclosed frame).pending = assembly.pending := by
  split <;> rfl

theorem grows_closeUnclosed (outer : Option Bracket) (count : Nat) {assembly : Assembly}
    (settled : assembly.pending = []) :
    Grows assembly (closeUnclosed outer count assembly) [] := by
  induction count generalizing assembly with
  | zero => exact grows_self assembly
  | succ count ih =>
      rw [closeUnclosed]
      split
      · exact grows_self assembly
      · next frame _ _ =>
          apply (grows_warnUnclosed assembly _ frame).before
          refine (grows_closeTop ?_).before (ih ?_)
          · rw [pending_warnUnclosed, settled]
          · rw [pending_closeTop, pending_warnUnclosed, settled]

theorem pending_closeUnclosed (outer : Option Bracket) (count : Nat) (assembly : Assembly) :
    (closeUnclosed outer count assembly).pending = assembly.pending := by
  induction count generalizing assembly with
  | zero => rfl
  | succ count ih =>
      rw [closeUnclosed]
      split
      · rfl
      · rw [ih, pending_closeTop, pending_warnUnclosed]

theorem length_frames_closeTop (assembly : Assembly) :
    assembly.closeTop.frames.length = assembly.frames.length - 1 := by
  unfold closeTop
  split
  · next none => rw [none, List.length_nil]
  · next frame rest shape =>
      rw [shape]
      unfold addNode
      split
      · next none => simp only at none ⊢; simp [none]
      · next some => simp only at some; simp [some]

/-- Closing as many elements as are open leaves none. -/
theorem frames_closeUnclosed (outer : Option Bracket) (count : Nat) (assembly : Assembly)
    (open_le : assembly.frames.length ≤ count) :
    (closeUnclosed outer count assembly).frames = [] := by
  induction count generalizing assembly with
  | zero => exact List.eq_nil_of_length_eq_zero (Nat.le_zero.1 open_le)
  | succ count ih =>
      rw [closeUnclosed]
      split
      · next none => exact none
      · next frame _ _ =>
          apply ih
          rw [length_frames_closeTop]
          have same : ∀ expected : Bool, (if expected then assembly
              else assembly.warnUnclosed frame).frames = assembly.frames := by
            intro expected
            split <;> rfl
          rw [same]
          omega

/-! ### One piece -/

/-- What may be added for a source: at most its text, and at least what stands
outside of its bracket groups, blanks aside. -/
def KeptOf (source added : Text) : Prop :=
  Text.solid (withoutGroups source) <+ added ∧ added <+ Text.solid source

theorem keptOf_solid (source : Text) : KeptOf source (Text.solid source) :=
  ⟨Text.solid_sublist_solid (withoutGroups_sublist source), List.Sublist.refl _⟩

theorem keptOf_nil_of_isGroup {source : Text} (group : IsGroup source) : KeptOf source [] := by
  refine ⟨?_, List.nil_sublist _⟩
  rw [withoutGroups_of_isGroup group]
  exact List.Sublist.slnil

theorem keptOf_nil_of_solid {source : Text} (blank : Text.solid source = []) :
    KeptOf source [] := by
  have all := keptOf_solid source
  rw [blank] at all
  exact all

theorem KeptOf.append {front back one two : Text} (first : KeptOf front one)
    (second : KeptOf back two) : KeptOf (front ++ back) (one ++ two) := by
  constructor
  · have parts := Text.solid_sublist_solid (withoutGroups_append_sublist front back)
    rw [Text.solid_append] at parts
    exact parts.trans (first.1.append second.1)
  · rw [Text.solid_append]
    exact first.2.append second.2

/-- An item adds nothing but its own tag, and that only outside of lists. -/
theorem grows_openItem (codes : List Text) (assembly : Assembly) {token : Token}
    (group : IsGroup token.text) :
    ∃ added, Grows assembly (assembly.openItem codes token) added ∧ KeptOf token.text added := by
  have flushed := grows_flush codes assembly
  have settled := pending_flush codes assembly
  have ready : ∀ next : Assembly, next.pending = [] → Grows assembly next [] →
      ∃ added, Grows assembly
        (if next.top? = some .list then next.openFrame .item ∅
          else (next.warn (.misplaced "*") "list item outside of a list kept as text"
            next.offset).collect token.text) added ∧ KeptOf token.text added := by
    intro next empty same
    split
    · exact ⟨[], same.before (grows_openFrame next empty _ _), keptOf_nil_of_isGroup group⟩
    · refine ⟨Text.solid token.text, same.before ?_, keptOf_solid _⟩
      exact (grows_warn next _ _ _).before (grows_collect _ _)
  unfold openItem
  simp only
  split
  · exact ready _ ((pending_closeTop _).trans settled) (flushed.before (grows_closeTop settled))
  · exact ready _ settled flushed

/-- A closing tag adds nothing, or itself where no element of its tag is open. -/
theorem grows_close (codes : List Text) (assembly : Assembly) (bracket : Bracket) {token : Token}
    (group : IsGroup token.text) :
    ∃ added, Grows assembly (assembly.close codes bracket token) added
      ∧ KeptOf token.text added := by
  unfold close
  split
  · refine ⟨Text.solid token.text, ?_, keptOf_solid _⟩
    exact (grows_warn assembly _ _ _).before (grows_collect _ _)
  · next inner _ =>
      have settled := pending_flush codes assembly
      refine ⟨[], (grows_flush codes assembly).before ?_, keptOf_nil_of_isGroup group⟩
      apply (grows_closeUnclosed (some bracket) inner settled).before
      apply grows_closeTop
      rw [pending_closeUnclosed, settled]

theorem act_opener {bracket : Bracket} (other : bracket ≠ .item) (codes : List Text)
    (assembly : Assembly) (source : Text) (token : Token) :
    assembly.act codes source (.opener bracket token)
      = (assembly.flush codes).openFrame bracket (openingAttributes bracket token) := by
  cases bracket with
  | item => exact absurd rfl other
  | _ => rfl

/-- A lexeme adds text of its source only, and all of it that stands outside of
bracket groups. -/
theorem grows_act (codes : List Text) (assembly : Assembly) {source : Text} {lexeme : Lexeme}
    (read : lexeme.ReadFrom source) :
    ∃ added, Grows assembly (assembly.act codes source lexeme) added ∧ KeptOf source added := by
  cases read with
  | char c => exact ⟨_, grows_collect assembly [c], keptOf_solid _⟩
  | carriageReturn => exact ⟨[], grows_self assembly, keptOf_nil_of_solid (by decide)⟩
  | lineFeed =>
      refine ⟨[], ?_, keptOf_nil_of_solid (by decide)⟩
      rw [act]
      split
      · exact grows_self assembly
      · exact grows_addElement codes assembly quiet_lineBreak
  | verbatim => exact ⟨_, grows_collect assembly source, keptOf_solid _⟩
  | opener bracket token group =>
      by_cases item : bracket = .item
      · rw [item]
        exact grows_openItem codes assembly group
      · rw [act_opener item]
        have settled := pending_flush codes assembly
        refine ⟨[], (grows_flush codes assembly).before ?_, keptOf_nil_of_isGroup group⟩
        exact grows_openFrame _ settled _ _
  | closer bracket token group => exact grows_close codes assembly bracket group
  | whole opening closing element opens closes content =>
      refine ⟨Text.solid element.textContent,
        grows_addElement codes assembly (quiet_of_tag_ne content), ?_⟩
      have inner := (keptOf_solid element.textContent).append (keptOf_nil_of_isGroup closes)
      rw [List.append_nil] at inner
      exact (keptOf_nil_of_isGroup opens).append inner
  | endlessCode opening element opens content =>
      refine ⟨Text.solid element.textContent, ?_,
        (keptOf_nil_of_isGroup opens).append (keptOf_solid _)⟩
      exact (grows_warn assembly _ _ _).before
        (grows_addElement codes _ (quiet_of_tag_ne content))

theorem grows_step (codes : List Text) (assembly : Assembly) {piece : Piece}
    (read : piece.lexeme.ReadFrom piece.source) :
    ∃ added, Grows assembly (assembly.step codes piece) added ∧ KeptOf piece.source added :=
  grows_act codes assembly read

/-! ### All pieces -/

theorem grows_foldl_step (codes : List Text) (assembly : Assembly) {pieces : List Piece}
    (read : ∀ piece ∈ pieces, piece.lexeme.ReadFrom piece.source) :
    ∃ added, Grows assembly (pieces.foldl (step codes) assembly) added
      ∧ KeptOf (pieces.flatMap Piece.source) added := by
  induction pieces generalizing assembly with
  | nil => exact ⟨[], grows_self assembly, keptOf_nil_of_solid rfl⟩
  | cons piece rest ih =>
      obtain ⟨one, first, keptFirst⟩ := grows_step codes assembly (read piece List.mem_cons_self)
      obtain ⟨two, others, keptOthers⟩ := ih (assembly.step codes piece)
        fun other member => read other (List.mem_cons_of_mem _ member)
      exact ⟨one ++ two, first.trans others, keptFirst.append keptOthers⟩

/-- Closing what is left open adds nothing. -/
theorem grows_finish (codes : List Text) (assembly : Assembly) :
    Grows assembly (assembly.finish codes) [] :=
  (grows_flush codes assembly).before
    (grows_closeUnclosed none _ (pending_flush codes assembly))

/-- In the end all text is in the tree. -/
theorem text_finish (codes : List Text) (assembly : Assembly) :
    (assembly.finish codes).text = (assembly.finish codes).toReading.value.textContent := by
  have closed := frames_closeUnclosed none (assembly.flush codes).frames.length
    (assembly.flush codes) (Nat.le_refl _)
  have settled : (assembly.finish codes).pending = [] := by
    unfold finish
    rw [pending_closeUnclosed, pending_flush]
  have none : (assembly.finish codes).frames = [] := closed
  simp [text, settled, none, toReading, Element.textContent]

end Assembly

open Assembly in
/-- Reading succeeds, loses no text and makes none up.  Blanks aside, the text of the
tree is a part of the input, in order; and what stands outside of the bracket groups
of the input is a part of the text of the tree, in order. -/
theorem read_conserves_text (codes : List Text) (input : Text) :
    ∃ reading, Format.bbcode.read codes input = .ok reading
      ∧ Text.solid reading.value.textContent <+ Text.solid input
      ∧ Text.solid (withoutGroups input) <+ Text.solid reading.value.textContent := by
  have sources : ∀ piece ∈ pieces input, piece.lexeme.ReadFrom piece.source :=
    fun piece member => readFrom_of_mem_pieces member
  obtain ⟨added, grown, kept⟩ := grows_foldl_step (prepareCodes codes) {} sources
  rw [flatMap_source_pieces] at kept
  have start : Assembly.Calm {} := fun frame none => by cases none
  obtain ⟨_, same⟩ := grown.trans (grows_finish (prepareCodes codes) _) start
  have result : Text.solid (read codes input).value.textContent = added := by
    unfold read
    simp only
    rw [← text_finish, same]
    simp [Assembly.text, Node.textContents]
  refine ⟨read codes input, rfl, ?_⟩
  rw [result]
  exact ⟨kept.2, kept.1⟩

end ForumMarkup.Bbcode
