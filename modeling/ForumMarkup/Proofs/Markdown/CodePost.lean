import ForumMarkup.Bbcode
import ForumMarkup.Proofs.Bbcode.RoundTrip
import ForumMarkup.Proofs.Element.Kept
import ForumMarkup.Proofs.Markdown.DirectPost
import ForumMarkup.Proofs.Markdown.LineEnds
import ForumMarkup.Proofs.Text.Trim

/-!
Contract: posts of one code block, from their source to their Markdown.

Owns:
- `Text.Core`, a text without whole blank lines at its start and blanks at its end;
- `Text.OpensIndented`, texts whose first indentation is taken for layout;
- `fenced`, a text between two fences.

Main statements: `toMarkdown_read_codeSource`, the Markdown of such a post, and
`exists_convert_codeSource_iff`, when it keeps the code.

Code goes through `Element.clean` like any other text, and a text that starts with a
line feed loses there all the blanks it starts with.  Where the last of them are the
indentation of a line, that line is not kept as it was.
-/

set_option autoImplicit false

namespace ForumMarkup

/-! ### The part of a text that is kept -/

namespace Text

/-- The content is the text without some blank lines at its start and some blanks at its
end; what is left of each line is the whole line. -/
def Core (t content : Text) : Prop :=
  ∃ (dropped kept : List Text) (ending : Text),
    lines t = dropped ++ kept ∧ (∀ line ∈ dropped, allBlank line = true) ∧
      joinLines kept = content ++ ending ∧ allBlank ending = true

/-- The text starts with a line feed, it is not all blank, and the ASCII blanks it starts
with end in the indentation of a line. -/
def OpensIndented (t : Text) : Prop :=
  t.head? = some '\n' ∧ (t.takeWhile isAsciiBlank).getLast? ≠ some '\n' ∧ allBlank t = false

instance (t : Text) : Decidable (OpensIndented t) :=
  inferInstanceAs (Decidable (_ ∧ _ ∧ _))

theorem allBlank_append {front back : Text} :
    allBlank (front ++ back) = true ↔ allBlank front = true ∧ allBlank back = true := by
  simp [allBlank]

theorem allBlank_takeWhile (t : Text) : allBlank (t.takeWhile isAsciiBlank) = true := by
  refine List.all_eq_true.2 fun c member => isBlank_of_isAsciiBlank ?_
  exact List.all_eq_true.1 List.all_takeWhile c member

/-- The lines of a blank text are blank. -/
theorem allBlank_of_mem_lines {t line : Text} (blank : allBlank t = true)
    (member : line ∈ lines t) : allBlank line = true :=
  List.all_eq_true.2 fun c inLine => List.all_eq_true.1 blank c (mem_of_mem_lines member inLine)

theorem core_trimEnd (t : Text) : Core t (trimEnd t) := by
  obtain ⟨ending, shape, blank⟩ := exists_trimEnd t
  exact ⟨[], lines t, ending, rfl, nofun, by rw [joinLines_lines, ← shape], blank⟩

/-- Blank lines at the start may go, up to the line feed that ends them. -/
theorem core_trimEnd_of_feed {front : Text} (blank : allBlank front = true) (back : Text) :
    Core (front ++ '\n' :: back) (trimEnd back) := by
  obtain ⟨ending, shape, blankEnding⟩ := exists_trimEnd back
  refine ⟨lines front, lines back, ending, lines_append_feed front back,
    fun line member => allBlank_of_mem_lines blank member, ?_, blankEnding⟩
  rw [joinLines_lines, ← shape]

/-- What a blank text has for a core is nothing. -/
theorem core_nil {t : Text} (blank : allBlank t = true) : Core t [] :=
  ⟨lines t, [], [], (List.append_nil _).symm, fun _ member => allBlank_of_mem_lines blank member,
    rfl, rfl⟩

/-- In front of a core that shows something stand nothing or whole lines. -/
theorem Core.front {t content front : Text} (core : Core t content) (filled : content ≠ [])
    (tight : trimEnd content = content) (shape : trimEnd t = front ++ content) :
    front = [] ∨ front.getLast? = some '\n' := by
  obtain ⟨dropped, kept, ending, split, blank, joined, blankEnding⟩ := core
  have whole : t = joinLines (dropped ++ kept) := by rw [← split, joinLines_lines]
  have several : kept ≠ [] := by
    rintro rfl
    exact filled (List.append_eq_nil_iff.1 joined.symm).1
  have cut (before : Text) : trimEnd (before ++ (content ++ ending)) = before ++ content := by
    have visible : trimEnd (content ++ ending) ≠ [] := by
      rw [trimEnd_append_of_allBlank content blankEnding, tight]
      exact filled
    rw [trimEnd_append visible, trimEnd_append_of_allBlank content blankEnding, tight]
  by_cases none : dropped = []
  · left
    rw [whole, none, List.nil_append, joined, ← List.nil_append (content ++ ending), cut] at shape
    exact (List.append_cancel_right shape).symm
  · right
    have feeds : trimEnd t = (joinLines dropped ++ ['\n']) ++ content := by
      rw [← cut, whole, joinLines_append none several, joined]
      simp
    rw [feeds] at shape
    rw [← List.append_cancel_right shape]
    exact List.getLast?_concat

/-- The text that cleaning and trimming leave is a core, except behind an indentation
that starts with a line feed. -/
theorem core_trim_iff (t : Text) : Core t (trimEnd (trimStartingLine t)) ↔ ¬OpensIndented t := by
  by_cases feed : t.head? = some '\n'
  · rw [trimStartingLine_of_head? feed]
    have parts : t = t.takeWhile isAsciiBlank ++ trimAsciiStart t :=
      List.takeWhile_append_dropWhile.symm
    have blankRun := allBlank_takeWhile t
    by_cases blank : allBlank t = true
    · -- Nothing is left, and every line of the text is blank.
      have none : trimEnd (trimAsciiStart t) = [] := by
        rw [parts, allBlank_append] at blank
        exact trimEnd_eq_nil_iff.2 blank.2
      rw [none]
      exact iff_of_true (core_nil blank) fun opens => by rw [opens.2.2] at blank; cases blank
    have visible : trimEnd (trimAsciiStart t) ≠ [] := by
      intro none
      rw [parts, allBlank_append] at blank
      exact blank ⟨blankRun, trimEnd_eq_nil_iff.1 none⟩
    constructor
    · intro core opens
      have shape : trimEnd t = t.takeWhile isAsciiBlank ++ trimEnd (trimAsciiStart t) := by
        rw [← trimEnd_append visible, ← parts]
      rcases core.front visible (trimEnd_trimEnd _) shape with none | ends
      · obtain ⟨rest, rfl⟩ := List.head?_eq_some_iff.1 feed
        rw [List.takeWhile_cons_of_pos (by decide)] at none
        cases none
      · exact opens.2.1 ends
    · intro closed
      have ends : (t.takeWhile isAsciiBlank).getLast? = some '\n' := by
        refine Classical.byContradiction fun indented => closed ⟨feed, indented, ?_⟩
        simpa using blank
      obtain ⟨front, run⟩ := List.getLast?_eq_some_iff.1 ends
      have shape : t = front ++ '\n' :: trimAsciiStart t := by
        calc t = t.takeWhile isAsciiBlank ++ trimAsciiStart t := parts
          _ = (front ++ ['\n']) ++ trimAsciiStart t := by rw [run]
          _ = front ++ '\n' :: trimAsciiStart t := by rw [List.append_assoc]; rfl
      have blankFront : allBlank front = true := by
        rw [run, allBlank_append] at blankRun
        exact blankRun.1
      have core := core_trimEnd_of_feed blankFront (trimAsciiStart t)
      rwa [← shape] at core
  · rw [trimStartingLine_of_ne feed]
    exact iff_of_true (core_trimEnd t) fun opens => feed opens.1

end Text

/-! ### The post -/

open Decoration Markdown

def fenced (count : Nat) (content : Text) : Text :=
  List.replicate count '\x60' ++ '\n' :: (content ++ '\n' :: List.replicate count '\x60')

/-- The Markdown is a block of the code, without blank lines at the start of the code and
blanks at its end. -/
def Verbatim (code markdown : Text) : Prop :=
  ∃ (count : Nat) (content : Text), 3 ≤ count ∧ code.Core content ∧ markdown = fenced count content

/-- Fences have no line feed, so that the content between them is determined. -/
theorem fenced_inj {count other : Nat} {content content' : Text}
    (same : fenced count content = fenced other content') : count = other ∧ content = content' := by
  have fence (count : Nat) (rest : Text) :
      (List.replicate count '\x60' ++ '\n' :: rest).takeWhile (· == '\x60')
        = List.replicate count '\x60' := by
    rw [List.takeWhile_append_of_pos (by simp), List.takeWhile_cons_of_neg (by decide),
      List.append_nil]
  have heads := congrArg (List.takeWhile (· == '\x60')) same
  unfold fenced at heads same
  rw [fence, fence] at heads
  have equal : count = other := by simpa using congrArg List.length heads
  subst equal
  exact ⟨rfl, List.append_cancel_right (List.cons.inj (List.append_cancel_left same)).2⟩

theorem verbatim_fenced_iff {count : Nat} (long : 3 ≤ count) (code content : Text) :
    Verbatim code (fenced count content) ↔ code.Core content := by
  constructor
  · rintro ⟨other, content', _, core, same⟩
    rwa [(fenced_inj same).2]
  · exact fun core => ⟨count, content, long, core, rfl⟩

/-- A fence is an end from which line feeds are taken off without a trace. -/
theorem settled_fenced {count : Nat} (filled : count ≠ 0) (content : Text) :
    Settled (fenced count content).reverse := by
  obtain ⟨more, rfl⟩ := Nat.exists_eq_succ_of_ne_zero filled
  obtain ⟨front, shape⟩ : ∃ front, fenced (more + 1) content = front ++ ['\x60'] := by
    refine ⟨List.replicate (more + 1) '\x60' ++ '\n' :: (content
      ++ '\n' :: List.replicate more '\x60'), ?_⟩
    rw [fenced, List.append_assoc, List.cons_append, List.append_assoc, List.cons_append,
      ← List.replicate_succ']
  rw [shape, List.reverse_concat]
  refine ⟨⟨_, _, rfl, by decide⟩, by simp, ?_⟩
  rintro ⟨rest, same⟩
  exact absurd (List.cons.inj same).1 (by decide)

/-- The block that code is written as: what cleaning and trimming leave of it, between
fences longer than any run of backticks in it. -/
def codeBlock (code : Text) : Text :=
  let content := Text.trimEnd (Text.trimStartingLine code)
  fenced (max (longestBackticks content) 2 + 1) content

theorem verbatim_codeBlock_iff (code : Text) :
    Verbatim code (codeBlock code) ↔ ¬code.OpensIndented := by
  have long (run : Nat) : 3 ≤ max run 2 + 1 := Nat.succ_le_succ (Nat.le_max_right run 2)
  exact (verbatim_fenced_iff (long _) _ _).trans (Text.core_trim_iff code)

/-- The source of a post of one code block. -/
def codeSource (code : Text) : Text :=
  "[code]".toList ++ (code ++ "[/code]".toList)

/-- The source is read as one block of code. -/
theorem read_codeSource (codes : List Text) {code : Text}
    (endless : ¬"[/code]".toList <:+: Text.lower code) :
    (Bbcode.read codes (codeSource code)).value = .post [.code code] := by
  obtain ⟨source, first⟩ := Bbcode.pieces_code endless []
  have single : Bbcode.pieces (codeSource code)
      = [⟨source, .whole (Element.ofText Tag.code code)⟩] := by
    rw [List.append_nil] at first
    rw [← show Bbcode.pieces [] = [] by rw [Bbcode.pieces], ← first]
    rfl
  unfold Bbcode.read
  rw [single]
  rfl

/-- Cleaning leaves of code what it leaves of any other text. -/
theorem textContent_clean_code (code : Text) :
    (⟨Tag.code, ∅, Node.cleanAll false [.text code]⟩ : Element).textContent
      = Text.trimStartingLine code := by
  unfold Node.cleanAll Node.clean? Node.cleanText
  cases Text.trimStartingLine code with
  | nil => rfl
  | cons c rest => exact List.append_nil _

theorem clean_codePost (code : Text) :
    (Element.post [.code code]).clean
      = .post [.element Tag.code ∅ (Node.cleanAll false [.text code])] := by
  have kept := Node.clean?_element (show Tag.markers.contains Tag.code = false by decide)
    (show Node.cleanAll (Tag.trimmedStarts.contains Tag.code) [.text code] = _ from rfl) ∅ false
  unfold Element.clean Element.post
  rw [show Tag.trimmedStarts.contains Tag.richRoot = false by decide]
  dsimp only
  rw [Node.cleanAll, Node.code, Node.wrap, kept]
  rfl

theorem trimStartingLine_subset (t : Text) : ∀ c ∈ Text.trimStartingLine t, c ∈ t := by
  unfold Text.trimStartingLine
  split
  · exact fun c member => (List.dropWhile_suffix _).subset member
  · exact fun c member => member

/-- Without inline code the post is the block of the code, whatever the answers are. -/
theorem toMarkdown_read_codeSource (codes : List Text) {options : Options}
    (block : options.inlineCode = false) {code : Text} (plain : '&' ∉ code)
    (endless : ¬"[/code]".toList <:+: Text.lower code) :
    (Bbcode.read codes (codeSource code)).value.toMarkdown options = .done (codeBlock code) := by
  let element : Element := ⟨Tag.code, ∅, Node.cleanAll false [.text code]⟩
  let content := Text.trimEnd (Text.trimStartingLine code)
  have same : codeContent element = content := by
    unfold codeContent
    rw [textContent_clean_code, Entity.decode_eq_self]
    exact fun ampersand => plain (trimStartingLine_subset code _ ampersand)
  let count := max (longestBackticks content) 2 + 1
  let fence := List.replicate count '\x60'
  have delimiters : codeDelimiters options element = (fence ++ ['\n'], '\n' :: fence) := by
    have noLanguage : Text.trim ((element.attributes.get? Key.lang).getD []) = [] := rfl
    unfold codeDelimiters
    rw [same, block, noLanguage]
    show (fence ++ [] ++ ['\n'], '\n' :: fence) = _
    rw [List.append_nil]
  let span := Decoration.code options element { origin := .rule .code }
  have planned : Node.planAll options { parent := Tag.richRoot } [element.toNode] {}
      = .done { before := [.node span []] } :=
    Node.planAll_cons [] (Node.plan_replaced {} .code ∅ (by decide) (by decide) rfl rfl)
  have written : span.opening ++ (span.text ++ span.closing) = fenced count content := by
    show (codeDelimiters options element).1 ++ (codeContent element
      ++ (codeDelimiters options element).2) = _
    rw [delimiters, same, List.append_assoc]
    rfl
  rw [read_codeSource codes endless, toMarkdown_of_planAll (clean_codePost code) planned]
  show Inquiry.done (stripBreaks [] (siblings options [] false [] [.node span []])).reverse = _
  rw [siblings_leaf, siblings, place_code rfl, written, addBreaks_nil, List.append_nil]
  show Inquiry.done (stripBreaks [] (addBreaks options .auto [] 2 _)).reverse = _
  rw [stripBreaks_addBreaks_of_settled options (by decide) (by decide)
    (settled_fenced (Nat.succ_ne_zero _) content), List.reverse_reverse]
  rfl

/-- Code is kept in a block of its own, exactly unless it opens with a line feed and an
indented line. Then that line loses its indentation. -/
theorem exists_convert_codeSource_iff {ε : Type} (codes : List Text) {options : Options}
    (resolver : Resolver ε) (block : options.inlineCode = false) {code : Text} (plain : '&' ∉ code)
    (endless : ¬"[/code]".toList <:+: Text.lower code) :
    ∃ markdown,
      (Bbcode.read codes (codeSource code)).value.convert options resolver = .ok markdown ∧
        (Verbatim code markdown ↔ ¬code.OpensIndented) := by
  refine ⟨codeBlock code, ?_, verbatim_codeBlock_iff code⟩
  rw [Element.convert, toMarkdown_read_codeSource codes block plain endless, Inquiry.run]

def spacedCode : Text := "\n \nif x:\n\treturn\n ".toList

theorem exists_convert_codeSource_spacedCode :
    ({} : Options).inlineCode = false ∧ '&' ∉ spacedCode ∧
      ¬"[/code]".toList <:+: Text.lower spacedCode ∧
      ∃ markdown, (Bbcode.read [] (codeSource spacedCode)).value.convert {}
          (Resolver.nothing : Resolver String) = .ok markdown ∧ Verbatim spacedCode markdown := by
  have plain : '&' ∉ spacedCode := by decide
  have endless : ¬"[/code]".toList <:+: Text.lower spacedCode := by decide +kernel
  have levelled : ¬spacedCode.OpensIndented := by decide
  have block : ({} : Options).inlineCode = false := rfl
  obtain ⟨markdown, converted, kept⟩ :=
    exists_convert_codeSource_iff [] (Resolver.nothing : Resolver String) block plain endless
  exact ⟨block, plain, endless, markdown, converted, kept.2 levelled⟩

/-- An indented line behind a line feed loses its indentation, the line below keeps it. -/
def indentedCode : Text := "\n  x\n  y".toList

theorem not_verbatim_indentedCode :
    ({} : Options).inlineCode = false ∧ '&' ∉ indentedCode ∧
      ¬"[/code]".toList <:+: Text.lower indentedCode ∧
      (Bbcode.read [] (codeSource indentedCode)).value.convertPlain {}
        = "\x60\x60\x60\nx\n  y\n\x60\x60\x60".toList ∧
      ¬Verbatim indentedCode "\x60\x60\x60\nx\n  y\n\x60\x60\x60".toList := by
  have plain : '&' ∉ indentedCode := by decide
  have endless : ¬"[/code]".toList <:+: Text.lower indentedCode := by decide +kernel
  have opens : indentedCode.OpensIndented := by decide
  have written : "\x60\x60\x60\nx\n  y\n\x60\x60\x60".toList = codeBlock indentedCode := by decide
  have block : ({} : Options).inlineCode = false := rfl
  rw [Element.convertPlain, toMarkdown_read_codeSource [] block plain endless, written]
  exact ⟨block, plain, endless, rfl, fun kept => (verbatim_codeBlock_iff _).1 kept opens⟩

end ForumMarkup
