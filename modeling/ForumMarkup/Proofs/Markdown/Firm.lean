import ForumMarkup.Markdown.Render
import ForumMarkup.Proofs.Markdown.MarkLines
import ForumMarkup.Proofs.Markdown.Strip
import ForumMarkup.Proofs.Text.Trim
import ForumMarkup.Span.Decoration

/-!
Contract: authored text that survives the removal of breaks.

Owns:
- `Fragile`, the texts that end like a line break or are nothing but line marks;
- `Keeps`, a buffer that starts with all authored characters and ends with what the
  writer added, where no break or mark can reach back into the authored part;
- one lemma for each step of the writer that `Keeps` is preserved.

Main statements: `keeps_markLines`, a leaf that is not fragile is kept, and
`Keeps.stripBreaks`.

The writer removes breaks and line marks by their spelling.  It would remove
authored characters where these spell a break or a mark, alone or together with
what is written behind them.
-/

set_option autoImplicit false

open scoped List

namespace ForumMarkup.Markdown

open Decoration

/-! ### Line marks -/

def quoteMarks (depth : Nat) : Text :=
  (List.replicate depth quoteMark).flatten

theorem quoteMarks_succ (depth : Nat) :
    quoteMarks (depth + 1) = '>' :: ' ' :: quoteMarks depth := rfl

theorem quoteMarks_concat (depth : Nat) :
    quoteMarks depth ++ quoteMark = quoteMarks (depth + 1) := by
  induction depth with
  | zero => rfl
  | succ depth ih =>
      rw [quoteMarks_succ, List.cons_append, List.cons_append, ih]
      rfl

theorem chars_quoteMarks (depth : Nat) : ∀ c ∈ quoteMarks depth, c = '>' ∨ c = ' ' := by
  intro c member
  obtain ⟨mark, marks, inside⟩ := List.mem_flatten.1 member
  rw [List.eq_of_mem_replicate marks] at inside
  simpa [quoteMark] using inside

theorem trimEnd_quoteMarks (depth : Nat) :
    Text.trimEnd (quoteMarks (depth + 1)) = quoteMarks depth ++ ['>'] := by
  rw [← quoteMarks_concat]
  exact Text.trimEnd_append_of_solid (by decide) [' '] (List.forall_mem_singleton.2 (by decide))

theorem not_feed_mem_quoteMarks (depth : Nat) : '\n' ∉ quoteMarks depth := by
  intro feed
  rcases chars_quoteMarks depth _ feed with same | same <;> cases same

theorem exists_of_suffix_quoteMarks {depth : Nat} {c : Char} {rest : Text}
    (solid : Text.isBlank c = false) (suffix : c :: rest <:+ quoteMarks depth) :
    ∃ inner, c :: rest = quoteMarks inner := by
  induction depth with
  | zero => exact absurd (List.suffix_nil.1 suffix) (List.cons_ne_nil c rest)
  | succ depth ih =>
      rw [quoteMarks_succ] at suffix
      rcases List.suffix_cons_iff.1 suffix with whole | later
      · exact ⟨depth + 1, whole⟩
      · rcases List.suffix_cons_iff.1 later with blank | inner
        · rw [(List.cons.inj blank).1] at solid
          cases solid
        · exact ih inner

/-- A beginning of a line mark that ends with an arrow is the mark of some quotes without its
last blank. -/
theorem exists_of_prefix_quoteMarks {depth : Nat} {front : Text} {c : Char}
    (solid : Text.isBlank c = false) (start : front ++ [c] <+: quoteMarks depth) :
    ∃ inner, front ++ [c] = quoteMarks inner ++ ['>'] := by
  induction depth generalizing front with
  | zero => exact absurd (List.prefix_nil.1 start) (by simp)
  | succ depth ih =>
      rw [quoteMarks_succ] at start
      cases front with
      | nil =>
          have same : c = '>' := (List.cons_prefix_cons.1 start).1
          exact ⟨0, by rw [same]; rfl⟩
      | cons first others =>
          obtain ⟨arrow, start⟩ := List.cons_prefix_cons.1 start
          cases others with
          | nil =>
              have blank : c = ' ' := (List.cons_prefix_cons.1 start).1
              rw [blank] at solid
              cases solid
          | cons second more =>
              obtain ⟨blank, start⟩ := List.cons_prefix_cons.1 start
              obtain ⟨inner, shape⟩ := ih start
              refine ⟨inner + 1, ?_⟩
              rw [arrow, blank, List.cons_append, List.cons_append, shape, quoteMarks_succ]
              rfl

/-- What stands inside of a line mark and has no blanks around it is a line mark
without its last blank. -/
theorem exists_of_infix_quoteMarks {depth : Nat} {y : Text}
    (starts : ∃ c rest, y = c :: rest ∧ Text.isBlank c = false)
    (ends : ∃ front d, y = front ++ [d] ∧ Text.isBlank d = false)
    (inside : y <:+: quoteMarks depth) : ∃ inner, y = quoteMarks inner ++ ['>'] := by
  obtain ⟨c, rest, rfl, solidStart⟩ := starts
  obtain ⟨front, d, shape, solidEnd⟩ := ends
  obtain ⟨tail, start, suffix⟩ := List.infix_iff_prefix_suffix.1 inside
  obtain ⟨more, rfl⟩ := start
  obtain ⟨inner, whole⟩ := exists_of_suffix_quoteMarks solidStart suffix
  have startOfMark : front ++ [d] <+: quoteMarks inner := by
    rw [← whole, ← shape]
    exact List.prefix_append _ _
  rw [shape]
  exact exists_of_prefix_quoteMarks solidEnd startOfMark

/-! ### Fragile and firm texts -/

/-- The texts whose end cannot be told from a line break or a line mark: they end
like the spelling of a break up to its arrow or line feed, continue one that was
begun before, or are a line mark. -/
inductive Fragile : Text → Prop where
  | hardBreak (front : Text) : Fragile (front ++ ['\\'])
  | htmlBreak (front : Text) : Fragile (front ++ "<br>".toList)
  | openBreak (front : Text) : Fragile (front ++ "<br".toList)
  | breakEnd {core : Text} (part : core ∈ ["br>".toList, "r>".toList, "br".toList, "r".toList]) :
      Fragile core
  | lineMark (depth : Nat) : Fragile (quoteMarks depth ++ ['>'])

theorem Fragile.ne_nil {t : Text} (fragile : Fragile t) : t ≠ [] := by
  cases fragile with
  | hardBreak front => simp
  | htmlBreak front => simp
  | openBreak front => simp
  | breakEnd part =>
      rintro rfl
      exact absurd part (by decide)
  | lineMark depth => simp

/-- A fragile text ends with a backslash, an arrow or the last letter of a break. -/
theorem Fragile.getLast? {t : Text} (fragile : Fragile t) :
    ∃ c, t.getLast? = some c ∧ c ∈ ['\\', '>', 'r'] := by
  cases fragile with
  | hardBreak front => exact ⟨_, List.getLast?_concat, by decide⟩
  | htmlBreak front =>
      refine ⟨'>', ?_, by decide⟩
      rw [List.getLast?_append]
      rfl
  | openBreak front =>
      refine ⟨'r', ?_, by decide⟩
      rw [List.getLast?_append]
      rfl
  | breakEnd part =>
      simp only [List.mem_cons, List.not_mem_nil, or_false] at part
      rcases part with rfl | rfl | rfl | rfl
      · exact ⟨'>', rfl, by decide⟩
      · exact ⟨'>', rfl, by decide⟩
      · exact ⟨'r', rfl, by decide⟩
      · exact ⟨'r', rfl, by decide⟩
  | lineMark depth => exact ⟨_, List.getLast?_concat, by decide⟩

/-- A text that no break and no line mark reaches into from behind, whatever stands
before it. -/
structure Firm (mark y : Text) : Prop where
  starts : ∃ c rest, y = c :: rest ∧ Text.isBlank c = false
  ends : ∃ front d, y = front ++ [d] ∧ Text.isBlank d = false ∧ d ≠ '\\'
  htmlBreak : ¬y <:+ "<br>".toList ∧ ¬"<br>".toList <:+ y
  openBreak : ¬y <:+ "<br".toList ∧ ¬"<br".toList <:+ y
  lineMark : ∀ before line, y = before ++ line → '\n' ∉ line →
    (before = [] ∨ before.getLast? = some '\n') → ¬line <:+: mark

def Anchored (mark k : Text) : Prop :=
  ∃ front y, k = front ++ y ∧ Firm mark y

section

variable {mark : Text}

theorem Firm.mono {outer y : Text} (firm : Firm mark y) (inside : outer <:+: mark) :
    Firm outer y :=
  { firm with
    lineMark := fun before line shape single stands within =>
      firm.lineMark before line shape single stands (within.trans inside) }

theorem Anchored.mono {outer k : Text} (anchored : Anchored mark k) (inside : outer <:+: mark) :
    Anchored outer k := by
  obtain ⟨front, y, shape, firm⟩ := anchored
  exact ⟨front, y, shape, firm.mono inside⟩

theorem Anchored.prepend {k : Text} (anchored : Anchored mark k) (front : Text) :
    Anchored mark (front ++ k) := by
  obtain ⟨before, y, shape, firm⟩ := anchored
  exact ⟨front ++ before, y, by rw [shape, List.append_assoc], firm⟩

theorem Anchored.ends {k : Text} (anchored : Anchored mark k) :
    ∃ front d, k = front ++ [d] ∧ Text.isBlank d = false ∧ d ≠ '\\' := by
  obtain ⟨before, y, rfl, firm⟩ := anchored
  obtain ⟨front, d, rfl, solid, other⟩ := firm.ends
  exact ⟨before ++ front, d, by rw [List.append_assoc], solid, other⟩

/-- A firm end is not the spelling of an HTML break, whole or begun. -/
theorem Anchored.not_suffix {k : Text} (anchored : Anchored mark k) :
    ¬"<br>".toList <:+ k ∧ ¬"<br".toList <:+ k := by
  obtain ⟨before, y, rfl, firm⟩ := anchored
  constructor
  · intro suffix
    rcases List.suffix_or_suffix_of_suffix suffix (List.suffix_append before y) with short | long
    · exact firm.htmlBreak.2 short
    · exact firm.htmlBreak.1 long
  · intro suffix
    rcases List.suffix_or_suffix_of_suffix suffix (List.suffix_append before y) with short | long
    · exact firm.openBreak.2 short
    · exact firm.openBreak.1 long

/-- The last line of an anchored text is no part of the line mark. -/
theorem Anchored.not_infix_mark {k before line : Text} (anchored : Anchored mark k)
    (shape : k = before ++ line) (single : '\n' ∉ line) (stands : before.getLast? = some '\n') :
    ¬line <:+: mark := by
  obtain ⟨front, y, rfl, firm⟩ := anchored
  rcases List.append_eq_append_iff.1 shape with ⟨middle, rfl, within⟩ | ⟨middle, rfl, within⟩
  · refine firm.lineMark middle line within single ?_
    cases middle with
    | nil => exact .inl rfl
    | cons c more =>
        right
        rw [List.getLast?_append, List.getLast?_cons] at stands
        rw [List.getLast?_cons]
        exact stands
  · intro inside
    rw [within] at single inside
    refine firm.lineMark [] y rfl (fun feed => single (List.mem_append_right _ feed)) (.inl rfl) ?_
    exact (List.suffix_append middle y).isInfix.trans inside

/-! ### What the writer adds -/

/-- The text does not continue the beginning of a break that was written before:
its first character that is not blank is neither `b` nor `r`. -/
def Tame (t : Text) : Prop :=
  ∀ c, (Text.solid t).head? = some c → c ≠ 'b' ∧ c ≠ 'r'

theorem tame_of_solid_eq_nil {t : Text} (blank : Text.solid t = []) : Tame t := by
  intro c first
  rw [blank] at first
  cases first

theorem Tame.append_of {front back : Text} (first : Tame front)
    (second : Text.solid front = [] → Tame back) : Tame (front ++ back) := by
  intro c head
  rw [Text.solid_append, List.head?_append, Option.or_eq_some_iff] at head
  rcases head with inFront | ⟨none, inBack⟩
  · exact first c inFront
  · exact second (List.head?_eq_none_iff.1 none) c inBack

theorem Tame.append {front back : Text} (first : Tame front) (second : Tame back) :
    Tame (front ++ back) :=
  first.append_of fun _ => second

theorem Tame.of_append {front back : Text} (tame : Tame (front ++ back)) : Tame front := by
  intro c head
  apply tame c
  rw [Text.solid_append, List.head?_append, head]
  rfl

theorem Tame.of_cons_blank {c : Char} {t : Text} (blank : Text.isBlank c = true)
    (tame : Tame (c :: t)) : Tame t := by
  intro d head
  apply tame d
  rw [Text.solid_cons_of_blank blank]
  exact head

theorem tame_of_forall {t : Text} (free : ∀ c ∈ t, c ≠ 'b' ∧ c ≠ 'r') : Tame t :=
  fun c head => free c ((Text.solid_sublist t).subset (List.mem_of_head? head))

theorem tame_of_chars {t : Text} (chars : ∀ c ∈ t, c = '>' ∨ c = ' ') : Tame t := by
  refine tame_of_forall fun c member => ?_
  rcases chars c member with rfl | rfl <;> decide

theorem tame_cons {c : Char} (solid : Text.isBlank c = false) (other : c ≠ 'b' ∧ c ≠ 'r')
    (rest : Text) : Tame (c :: rest) := by
  intro d head
  have same : c = d := by simpa [Text.solid, solid] using head
  rw [← same]
  exact other

theorem tame_unit (unit : BreakUnit) : Tame unit.text := by
  intro c head
  cases unit <;> cases head <;> decide

/-- A run of breaks does not continue a break that was begun before it. -/
theorem tame_breakRun (chars : ∀ c ∈ mark, c = '>' ∨ c = ' ') (options : Options)
    (kind : BreakKind) (count : Nat) : Tame (breakRun options kind mark count) := by
  unfold breakRun
  generalize List.range count = places
  induction places with
  | nil => exact tame_of_solid_eq_nil rfl
  | cons place others ih =>
      rw [List.flatMap_cons]
      refine Tame.append (Tame.append (tame_of_chars ?_) (tame_unit _)) ih
      intro c member
      unfold breakLead at member
      split at member
      · cases member
      · split at member
        · exact chars c ((Text.trimEnd_prefix mark).subset member)
        · exact chars c member

/-- Marking the lines of a tame text leaves it tame: a mark shows nothing but arrows. -/
theorem tame_markLines (chars : ∀ c ∈ mark, c = '>' ∨ c = ' ') {t : Text} (tame : Tame t) :
    Tame (markLines mark t) := by
  induction t with
  | nil => exact tame
  | cons c rest ih =>
      by_cases feed : c = '\n'
      · have blank : Text.isBlank c = true := by
          rw [feed]
          decide
        have lead : Tame (if rest.head? = some '\n' then Text.trimEnd mark else mark) := by
          split
          · exact tame_of_chars fun d member =>
              chars d ((Text.trimEnd_prefix mark).subset member)
          · exact tame_of_chars chars
        have fed : Tame ['\n'] := tame_of_solid_eq_nil rfl
        rw [feed, markLines_feed]
        exact fed.append (lead.append (ih (tame.of_cons_blank blank)))
      · rw [markLines_of_ne feed]
        by_cases blank : Text.isBlank c = true
        · have cut : Tame ([c] ++ markLines mark rest) := by
            refine Tame.append (tame_of_solid_eq_nil ?_) (ih (tame.of_cons_blank blank))
            rw [Text.solid_cons_of_blank blank]
            rfl
          exact cut
        · intro d head
          apply tame d
          simpa [Text.solid, blank] using head

/-! ### Buffers that keep what was authored -/

/-- The text starts with a part that holds all authored characters and ends with a
firm text; what follows was added by the writer. -/
def Keeps (mark authored t : Text) : Prop :=
  ∃ kept added, t = kept ++ added ∧ Text.solid authored <+ kept ∧
    (kept = [] ∨ Anchored mark kept) ∧ Tame added

variable {authored t : Text}

theorem Keeps.sublist (keeps : Keeps mark authored t) : Text.solid authored <+ t := by
  obtain ⟨kept, added, rfl, within, _, _⟩ := keeps
  exact within.trans (List.sublist_append_left _ _)

theorem keeps_nil {added : Text} (tame : Tame added) : Keeps mark [] added :=
  ⟨[], added, rfl, List.Sublist.slnil, .inl rfl, tame⟩

theorem Keeps.congr {other : Text} (keeps : Keeps mark authored t)
    (same : Text.solid authored = Text.solid other) : Keeps mark other t := by
  unfold Keeps at keeps ⊢
  rw [← same]
  exact keeps

theorem Keeps.mono {outer : Text} (keeps : Keeps mark authored t) (inside : outer <:+: mark) :
    Keeps outer authored t := by
  obtain ⟨kept, added, shape, within, anchored, tame⟩ := keeps
  exact ⟨kept, added, shape, within, anchored.imp id (Anchored.mono · inside), tame⟩

theorem Keeps.append_tame (keeps : Keeps mark authored t) {added : Text} (tame : Tame added) :
    Keeps mark authored (t ++ added) := by
  obtain ⟨kept, before, rfl, within, anchored, tameBefore⟩ := keeps
  exact ⟨kept, before ++ added, by rw [List.append_assoc], within, anchored,
    tameBefore.append tame⟩

/-- What is kept behind a text is kept together with it. -/
theorem Keeps.append (keeps : Keeps mark authored t) {between more next : Text}
    (tame : Tame between) (later : Keeps mark more next) :
    Keeps mark (authored ++ more) (t ++ (between ++ next)) := by
  obtain ⟨kept, added, rfl, within, anchored, tameAdded⟩ := later
  rcases anchored with rfl | anchored
  · have none : Text.solid more = [] := List.sublist_nil.1 within
    have all := keeps.append_tame (tame.append tameAdded)
    refine all.congr ?_
    rw [Text.solid_append, none, List.append_nil]
  · refine ⟨t ++ (between ++ kept), added, by simp, ?_, .inr ?_, tameAdded⟩
    · rw [Text.solid_append]
      exact keeps.sublist.append (within.trans (List.sublist_append_right _ _))
    · rw [← List.append_assoc]
      exact anchored.prepend _

/-- A blank at the start of a kept text may go. -/
theorem Keeps.of_cons_blank {c : Char} (blank : Text.isBlank c = true)
    (keeps : Keeps mark authored (c :: t)) : Keeps mark authored t := by
  obtain ⟨kept, added, shape, within, anchored, tame⟩ := keeps
  cases kept with
  | nil =>
      rw [List.nil_append] at shape
      rw [← shape] at tame
      exact ⟨[], t, rfl, within, .inl rfl, tame.of_cons_blank blank⟩
  | cons d others =>
      rw [List.cons_append, List.cons.injEq] at shape
      obtain ⟨rfl, rfl⟩ := shape
      have withinOthers : Text.solid authored <+ others := by
        have solid := Text.solid_sublist_solid within
        rw [Text.solid_solid, Text.solid_cons_of_blank blank] at solid
        exact solid.trans (Text.solid_sublist others)
      refine ⟨others, added, rfl, withinOthers, .inr ?_, tame⟩
      obtain ⟨front, y, parts, firm⟩ := anchored.resolve_left (List.cons_ne_nil c others)
      cases front with
      | nil =>
          obtain ⟨first, rest, start, solid⟩ := firm.starts
          rw [List.nil_append, start, List.cons.injEq] at parts
          rw [← parts.1, blank] at solid
          cases solid
      | cons first more => exact ⟨more, y, (List.cons.inj parts).2, firm⟩

/-- What ends a kept text may go when it does not reach into the firm part. -/
theorem Keeps.of_append {removed : Text} (keeps : Keeps mark authored (t ++ removed))
    (stays : ∀ inside added, inside ≠ [] → removed = inside ++ added → Tame added →
      ¬Anchored mark (t ++ inside)) : Keeps mark authored t := by
  obtain ⟨kept, added, shape, within, anchored, tame⟩ := keeps
  rcases List.append_eq_append_iff.1 shape with ⟨inside, rfl, rfl⟩ | ⟨before, rfl, rfl⟩
  · cases inside with
    | nil =>
        rw [List.append_nil] at within anchored
        exact ⟨t, [], by rw [List.append_nil], within, anchored, tame_of_solid_eq_nil rfl⟩
    | cons c more =>
        rcases anchored with none | anchored
        · exact absurd none (by simp)
        · exact absurd anchored (stays _ added (List.cons_ne_nil c more) rfl tame)
  · exact ⟨kept, before, rfl, within, anchored, tame.of_append⟩

theorem Keeps.of_concat_blank {c : Char} (blank : Text.isBlank c = true)
    (keeps : Keeps mark authored (t ++ [c])) : Keeps mark authored t := by
  refine keeps.of_append fun inside added filled parts _ anchored => ?_
  have whole : inside = [c] := by
    rcases List.append_eq_singleton_iff.1 parts.symm with ⟨none, _⟩ | ⟨all, _⟩
    · exact absurd none filled
    · exact all
  obtain ⟨front, d, shape, solid, _⟩ := anchored.ends
  rw [whole] at shape
  have same := (List.append_inj' shape rfl).2
  rw [List.cons.injEq] at same
  rw [← same.1, blank] at solid
  cases solid

/-! ### Removing and writing breaks -/

/-- No beginning of the spelling of a break is the end of a firm text, when what
follows it was added by the writer. -/
theorem Keeps.of_append_unit {unit : BreakUnit} (keeps : Keeps mark authored (t ++ unit.text)) :
    Keeps mark authored t := by
  refine keeps.of_append fun inside added filled parts tame anchored => ?_
  obtain ⟨front, d, shape, solid, other⟩ := anchored.ends
  have ended : ∀ (before : Text) (c : Char), inside = before ++ [c] →
      Text.isBlank c = false ∧ c ≠ '\\' := by
    intro before c last
    rw [last, ← List.append_assoc] at shape
    have same := (List.append_inj' shape rfl).2
    rw [List.cons.injEq] at same
    rw [same.1]
    exact ⟨solid, other⟩
  have broken := anchored.not_suffix
  cases unit with
  | soft =>
      have whole : inside = ['\n'] := by
        rcases List.append_eq_singleton_iff.1 parts.symm with ⟨none, _⟩ | ⟨all, _⟩
        · exact absurd none filled
        · exact all
      exact absurd (ended [] '\n' whole).1 (by decide)
  | hard =>
      rcases inside with _ | ⟨first, _ | ⟨second, more⟩⟩
      · exact filled rfl
      · obtain ⟨rfl, _⟩ := List.cons.inj parts
        exact (ended [] _ rfl).2 rfl
      · simp only [BreakUnit.text, List.cons_append, List.cons.injEq, List.nil_eq_append_iff]
          at parts
        obtain ⟨rfl, rfl, rfl, _⟩ := parts
        exact absurd (ended ['\\'] '\n' rfl).1 (by decide)
  | html =>
      rcases inside with _ | ⟨first, _ | ⟨second, _ | ⟨third, _ | ⟨fourth, _ | ⟨last, more⟩⟩⟩⟩⟩
      · exact filled rfl
      · obtain ⟨_, rest⟩ := List.cons.inj parts
        rw [← show "br>\n".toList = added from rest] at tame
        exact (tame 'b' rfl).1 rfl
      · obtain ⟨_, rest⟩ := List.cons.inj (List.cons.inj parts).2
        rw [← show "r>\n".toList = added from rest] at tame
        exact (tame 'r' rfl).2 rfl
      · simp only [BreakUnit.text, List.cons_append, List.cons.injEq] at parts
        obtain ⟨rfl, rfl, rfl, _⟩ := parts
        exact broken.2 (List.suffix_append t _)
      · simp only [BreakUnit.text, List.cons_append, List.cons.injEq] at parts
        obtain ⟨rfl, rfl, rfl, rfl, _⟩ := parts
        exact broken.1 (List.suffix_append t _)
      · simp only [BreakUnit.text, List.cons_append, List.cons.injEq, List.nil_eq_append_iff]
          at parts
        obtain ⟨rfl, rfl, rfl, rfl, rfl, rfl, _⟩ := parts
        exact absurd (ended "<br>".toList '\n' rfl).1 (by decide)

/-- The last line of a firm text is not taken for a line mark. -/
theorem Keeps.of_append_markLine {line : Text} (keeps : Keeps mark authored (t ++ line))
    (stands : t.getLast? = some '\n') (single : '\n' ∉ line) (inside : line <:+: mark) :
    Keeps mark authored t := by
  refine keeps.of_append fun part added filled parts _ anchored => ?_
  have within : part <:+: line := by
    rw [parts]
    exact (List.prefix_append part added).isInfix
  exact anchored.not_infix_mark rfl (fun feed => single (within.subset feed)) stands
    (within.trans inside)

/-- What stripping removes is not authored: it reaches at most to the firm end of the kept
part. -/
theorem Keeps.outlasts {removed : Text} (step : StripStep mark t removed)
    (keeps : Keeps mark authored (t ++ removed)) : Keeps mark authored t := by
  cases step with
  | unit unit => exact keeps.of_append_unit
  | line line stands single isMark =>
      refine keeps.of_append_markLine stands single ?_
      rcases isMark with rfl | rfl
      · exact List.infix_rfl
      · exact (Text.trimEnd_prefix mark).isInfix
  | blank c blank => exact keeps.of_concat_blank blank

theorem Keeps.stripBreaks {buffer : Buffer} (keeps : Keeps mark authored buffer.reverse) :
    Keeps mark authored (stripBreaks mark buffer).reverse :=
  stripBreaks_induction Keeps.outlasts keeps

theorem Keeps.addBreaks (chars : ∀ c ∈ mark, c = '>' ∨ c = ' ') {buffer : Buffer}
    (keeps : Keeps mark authored buffer.reverse) (options : Options) (kind : BreakKind)
    (required : Nat) :
    Keeps mark authored (addBreaks options kind mark required buffer).reverse :=
  addBreaks_induction Keeps.outlasts
    (fun _ _ kept => kept.append_tame (tame_breakRun chars options kind _)) keeps

end

/-! ### Leaves -/

theorem not_suffix_htmlBreak {z : Text} (filled : z ≠ []) (firm : ¬Fragile z) :
    ¬z <:+ "<br>".toList ∧ ¬"<br>".toList <:+ z := by
  constructor
  · intro suffix
    have cases : z = "<br>".toList ∨ z = "br>".toList ∨ z = "r>".toList ∨ z = ">".toList := by
      simpa [List.suffix_cons_iff, filled] using suffix
    rcases cases with rfl | rfl | rfl | rfl
    · exact firm (.htmlBreak [])
    · exact firm (.breakEnd (by decide))
    · exact firm (.breakEnd (by decide))
    · exact firm (.lineMark 0)
  · rintro ⟨front, rfl⟩
    exact firm (.htmlBreak front)

theorem not_suffix_openBreak {z : Text} (filled : z ≠ []) (firm : ¬Fragile z) :
    ¬z <:+ "<br".toList ∧ ¬"<br".toList <:+ z := by
  constructor
  · intro suffix
    have cases : z = "<br".toList ∨ z = "br".toList ∨ z = "r".toList := by
      simpa [List.suffix_cons_iff, filled] using suffix
    rcases cases with rfl | rfl | rfl
    · exact firm (.openBreak [])
    · exact firm (.breakEnd (by decide))
    · exact firm (.breakEnd (by decide))
  · rintro ⟨front, rfl⟩
    exact firm (.openBreak front)

/-- No line of text that is not fragile is a part of the line mark, with the marks
that are put before its lines. -/
theorem not_infix_of_line_markLines {z before line : Text} (depth : Nat)
    (starts : ∃ c rest, z = c :: rest ∧ Text.isBlank c = false)
    (ends : ∃ front d, z = front ++ [d] ∧ Text.isBlank d = false) (firm : ¬Fragile z)
    (shape : markLines (quoteMarks depth) z = before ++ line) (single : '\n' ∉ line)
    (stands : before = [] ∨ before.getLast? = some '\n') : ¬line <:+: quoteMarks depth := by
  intro inside
  rcases stands with rfl | stands
  · rw [List.nil_append] at shape
    have plain : '\n' ∉ z := by
      intro feed
      rw [← shape] at single
      exact single ((sublist_markLines _ z).subset feed)
    rw [markLines_of_feed_free plain] at shape
    rw [← shape] at inside
    obtain ⟨inner, rfl⟩ := exists_of_infix_quoteMarks starts ends inside
    exact firm (.lineMark inner)
  · obtain ⟨earlier, rfl⟩ := List.getLast?_eq_some_iff.1 stands
    have several : '\n' ∈ z := by
      apply Classical.byContradiction
      intro plain
      rw [markLines_of_feed_free plain] at shape
      rw [shape] at plain
      simp at plain
    obtain ⟨front, last, rfl, lastSingle⟩ := exists_last_line several
    obtain ⟨marked, markedShape⟩ :=
      exists_markLines_last_line (quoteMarks depth) front lastSingle
    have bothSingle : '\n' ∉ quoteMarks depth ++ last := by
      intro feed
      rcases List.mem_append.1 feed with inMark | inLast
      · exact not_feed_mem_quoteMarks depth inMark
      · exact lastSingle inLast
    rw [markedShape, List.append_assoc] at shape
    have same := last_line_unique bothSingle single shape
    -- The mark would hold itself and a line that is not empty.
    have bound := inside.length_le
    rw [← same, List.length_append] at bound
    have empty : last = [] := List.eq_nil_of_length_eq_zero (by omega)
    obtain ⟨before, d, shapeEnd, solid⟩ := ends
    rw [empty] at shapeEnd
    have feed := (List.append_inj' shapeEnd rfl).2
    rw [List.cons.injEq] at feed
    exact Text.ne_lineFeed_of_solid solid feed.1.symm

/-- Text that is not fragile is firm behind any number of line marks. -/
theorem firm_markLines {z : Text} (depth : Nat)
    (starts : ∃ c rest, z = c :: rest ∧ Text.isBlank c = false)
    (ends : ∃ front d, z = front ++ [d] ∧ Text.isBlank d = false) (firm : ¬Fragile z) :
    Firm (quoteMarks depth) (markLines (quoteMarks depth) z) := by
  have filled : z ≠ [] := by
    obtain ⟨c, rest, rfl, _⟩ := starts
    exact List.cons_ne_nil c rest
  have noAngle : '<' ∉ quoteMarks depth := by
    intro member
    rcases chars_quoteMarks depth _ member with same | same <;> cases same
  refine ⟨?_, ?_, ?_, ?_, ?_⟩
  · obtain ⟨c, rest, rfl, solid⟩ := starts
    exact ⟨c, _, markLines_of_ne (Text.ne_lineFeed_of_solid solid) _ rest, solid⟩
  · obtain ⟨front, d, rfl, solid⟩ := ends
    have noFeed := Text.ne_lineFeed_of_solid solid
    refine ⟨markLines (quoteMarks depth) front, d, ?_, solid, ?_⟩
    · have other : [d].head? ≠ some '\n' := by simpa using noFeed
      rw [markLines_append (.inl other), markLines_of_ne noFeed, markLines_nil]
    · rintro rfl
      exact firm (.hardBreak front)
  · exact not_suffix_markLines noAngle (by decide) (not_suffix_htmlBreak filled firm)
  · exact not_suffix_markLines noAngle (by decide) (not_suffix_openBreak filled firm)
  · intro before line shape
    exact not_infix_of_line_markLines depth starts ends firm shape

/-- A leaf that is not fragile is kept. -/
theorem keeps_markLines (depth : Nat) {t : Text} (firm : ¬Fragile (Text.trim t)) :
    Keeps (quoteMarks depth) t (markLines (quoteMarks depth) t) := by
  obtain ⟨before, after, shape, _, blankAfter⟩ := Text.exists_trim t
  have chars := chars_quoteMarks depth
  rcases Text.trim_eq_nil_or t with none | ⟨starts, ends⟩
  · have blank : Text.solid t = [] := by
      rw [← Text.solid_trim, none]
      rfl
    exact (keeps_nil (tame_markLines chars (tame_of_solid_eq_nil blank))).congr blank.symm
  · have firmText := firm_markLines depth starts ends firm
    have startCut : (Text.trim t ++ after).head? ≠ some '\n' := by
      obtain ⟨c, rest, start, solid⟩ := starts
      rw [start]
      simpa using Text.ne_lineFeed_of_solid solid
    have endCut : (Text.trim t).getLast? ≠ some '\n' := by
      obtain ⟨front, d, finish, solid⟩ := ends
      rw [finish, List.getLast?_concat]
      simpa using Text.ne_lineFeed_of_solid solid
    have parts : markLines (quoteMarks depth) t
        = markLines (quoteMarks depth) before ++ markLines (quoteMarks depth) (Text.trim t)
          ++ markLines (quoteMarks depth) after := by
      rw [List.append_assoc, ← markLines_append (.inr endCut), ← markLines_append (.inl startCut),
        ← shape]
    refine ⟨_, _, parts, ?_, .inr ⟨_, _, rfl, firmText⟩, ?_⟩
    · rw [← Text.solid_trim]
      exact (Text.solid_sublist _).trans
        ((sublist_markLines _ _).trans (List.sublist_append_right _ _))
    · exact tame_markLines chars (tame_of_solid_eq_nil (Text.solid_of_allBlank blankAfter))

end ForumMarkup.Markdown
