import ForumMarkup.Proofs.Markdown.LineEnds
import ForumMarkup.Proofs.Text.FilledLines

/-!
Contract: texts of letters, line feeds and the markers around them.

Owns:
- `withoutMarkers`, which deletes the markers;
- `Spells`, such a text with its letters and line feeds;
- `Reads`, one that does not start with a break.

Main statement: `Reads.addBreaks`, breaks behind such a text count as one line feed
as far as its filled lines are concerned.
-/

set_option autoImplicit false

namespace ForumMarkup.Markdown

open Text (Alike)

/-- What is written around letters and line feeds: the ends of bold, italic and
underlined text, and the backslash of a hard break. -/
def markers : List Text :=
  ["**".toList, "_".toList, "[u]".toList, "[/u]".toList, "\\".toList]

/-- The text with all markers deleted, from left to right. -/
def withoutMarkers : Text → Text
  | '*' :: '*' :: rest => withoutMarkers rest
  | '_' :: rest => withoutMarkers rest
  | '[' :: 'u' :: ']' :: rest => withoutMarkers rest
  | '[' :: '/' :: 'u' :: ']' :: rest => withoutMarkers rest
  | '\\' :: rest => withoutMarkers rest
  | c :: rest => c :: withoutMarkers rest
  | [] => []

/-- The first text is the second one with markers between its letters and line
feeds. -/
inductive Spells : Text → Text → Prop where
  | nil : Spells [] []
  | letter {t w : Text} {c : Char} (spells : Spells t w) (letter : c.isAlpha = true) :
      Spells (t ++ [c]) (w ++ [c])
  | feed {t w : Text} (spells : Spells t w) : Spells (t ++ ['\n']) (w ++ ['\n'])
  | marker {t w m : Text} (spells : Spells t w) (member : m ∈ markers) : Spells (t ++ m) w

variable {t w : Text}

theorem ne_of_isAlpha {c : Char} (letter : c.isAlpha = true) {d : Char}
    (other : d.isAlpha = false) : c ≠ d := by
  rintro rfl
  rw [letter] at other
  cases other

theorem isBlank_of_isAlpha {c : Char} (letter : c.isAlpha = true) : Text.isBlank c = false := by
  have range : (65 ≤ c.toNat ∧ c.toNat ≤ 90) ∨ (97 ≤ c.toNat ∧ c.toNat ≤ 122) := by
    rcases (Bool.or_eq_true _ _).mp letter with upper | lower
    · exact .inl (of_decide_eq_true upper)
    · obtain ⟨low, high⟩ := (Bool.and_eq_true _ _).mp lower
      exact .inr ⟨of_decide_eq_true low, of_decide_eq_true high⟩
  simp [Text.isBlank]
  omega

theorem withoutMarkers_letter {c : Char} (letter : c.isAlpha = true) (rest : Text) :
    withoutMarkers (c :: rest) = c :: withoutMarkers rest := by
  have star := ne_of_isAlpha letter (d := '*') (by decide)
  have line := ne_of_isAlpha letter (d := '_') (by decide)
  have bracket := ne_of_isAlpha letter (d := '[') (by decide)
  have backslash := ne_of_isAlpha letter (d := '\\') (by decide)
  rw [withoutMarkers]
  all_goals simp_all

theorem withoutMarkers_marker {m : Text} (member : m ∈ markers) (rest : Text) :
    withoutMarkers (m ++ rest) = withoutMarkers rest := by
  simp only [markers, List.mem_cons, List.not_mem_nil, or_false] at member
  rcases member with rfl | rfl | rfl | rfl | rfl <;> rfl

theorem withoutMarkers_append (spells : Spells t w) (rest : Text) :
    withoutMarkers (t ++ rest) = w ++ withoutMarkers rest := by
  induction spells generalizing rest with
  | nil => rfl
  | letter _ letter ih =>
      rw [List.append_assoc, ih, List.singleton_append, withoutMarkers_letter letter]
      simp
  | feed _ ih =>
      rw [List.append_assoc, ih]
      simp [withoutMarkers]
  | marker _ member ih => rw [List.append_assoc, ih, withoutMarkers_marker member]

theorem withoutMarkers_of_spells (spells : Spells t w) : withoutMarkers t = w := by
  have whole := withoutMarkers_append spells []
  rwa [List.append_nil, withoutMarkers, List.append_nil] at whole

theorem Spells.append {s v : Text} (first : Spells t w) (second : Spells s v) :
    Spells (t ++ s) (w ++ v) := by
  induction second with
  | nil => simpa using first
  | letter _ letter ih =>
      rw [← List.append_assoc, ← List.append_assoc]
      exact ih.letter letter
  | feed _ ih =>
      rw [← List.append_assoc, ← List.append_assoc]
      exact ih.feed
  | marker _ member ih =>
      rw [← List.append_assoc]
      exact ih.marker member

theorem spells_letters (letters : ∀ c ∈ t, c.isAlpha = true) : Spells t t := by
  induction t with
  | nil => exact .nil
  | cons c rest ih =>
      obtain ⟨letter, later⟩ := List.forall_mem_cons.1 letters
      exact (Spells.nil.letter letter).append (ih later)

theorem exists_of_mem_markers {m : Text} (member : m ∈ markers) :
    ∃ front d, m = front ++ [d] ∧ (front = [] ∧ d = '\\' ∨ d = '*' ∨ d = '_' ∨ d = ']') := by
  simp only [markers, List.mem_cons, List.not_mem_nil, or_false] at member
  rcases member with rfl | rfl | rfl | rfl | rfl
  · exact ⟨['*'], '*', rfl, by decide⟩
  · exact ⟨[], '_', rfl, by decide⟩
  · exact ⟨['[', 'u'], ']', rfl, by decide⟩
  · exact ⟨['[', '/', 'u'], ']', rfl, by decide⟩
  · exact ⟨[], '\\', rfl, by decide⟩

/-- How a spelled text ends. -/
theorem Spells.of_concat {c : Char} (spells : Spells (t ++ [c]) w) :
    (c.isAlpha = true) ∨ (c = '\n' ∧ ∃ v, w = v ++ ['\n'] ∧ Spells t v) ∨
      (c = '\\' ∧ Spells t w) ∨ c = '*' ∨ c = '_' ∨ c = ']' := by
  generalize shape : t ++ [c] = whole at spells
  cases spells with
  | nil => simp at shape
  | letter _ letter =>
      have := List.append_inj_right' shape rfl
      cases this
      exact .inl letter
  | feed spells =>
      obtain ⟨rfl, same⟩ := List.append_inj' shape rfl
      cases same
      exact .inr (.inl ⟨rfl, _, rfl, spells⟩)
  | marker spells member =>
      obtain ⟨front, d, rfl, last⟩ := exists_of_mem_markers member
      rw [← List.append_assoc] at shape
      obtain ⟨rfl, same⟩ := List.append_inj' shape rfl
      cases same
      rcases last with ⟨rfl, rfl⟩ | closing
      · rw [List.append_nil]
        exact .inr (.inr (.inl ⟨rfl, spells⟩))
      · exact .inr (.inr (.inr closing))

/-- The only blank in a spelled text is the line feed. -/
theorem Spells.feed_of_blank {c : Char} (spells : Spells (t ++ [c]) w)
    (blank : Text.isBlank c = true) : c = '\n' ∧ ∃ v, w = v ++ ['\n'] ∧ Spells t v := by
  rcases spells.of_concat with letter | feed | ⟨rfl, _⟩ | rfl | rfl | rfl
  · rw [isBlank_of_isAlpha letter] at blank
    cases blank
  · exact feed
  all_goals cases blank

/-- A text that starts with no break and is spelled with markers. -/
structure Reads (t w : Text) : Prop where
  spells : Spells t w
  start : ∀ c ∈ t.head?, Text.isBlank c = false ∧ c ≠ '\\'

theorem Reads.append {s v : Text} (reads : Reads t w) (filled : t ≠ []) (spells : Spells s v) :
    Reads (t ++ s) (w ++ v) := by
  refine ⟨reads.spells.append spells, ?_⟩
  obtain ⟨c, rest, rfl⟩ := List.exists_cons_of_ne_nil filled
  exact reads.start

theorem Reads.of_concat {c : Char} (break_ : Text.isBlank c = true ∨ c = '\\')
    (reads : Reads (t ++ [c]) w) {v : Text} (spells : Spells t v) : Reads t v ∧ t ≠ [] := by
  cases t with
  | nil =>
      have start := reads.start c rfl
      rcases break_ with blank | same
      · rw [blank] at start
        cases start.1
      · exact absurd same start.2
  | cons d rest => exact ⟨⟨spells, reads.start⟩, List.cons_ne_nil d rest⟩

theorem Reads.of_feed (reads : Reads (t ++ ['\n']) w) :
    ∃ v, w = v ++ ['\n'] ∧ Reads t v ∧ t ≠ [] := by
  rcases reads.spells.of_concat with letter | ⟨_, v, shape, spells⟩ | ⟨other, _⟩ | other
  · exact absurd letter (by decide)
  · exact ⟨v, shape, reads.of_concat (.inl (by decide)) spells⟩
  · exact absurd other (by decide)
  · exact absurd other (by decide)

theorem Reads.of_backslash (reads : Reads (t ++ ['\\']) w) : Reads t w ∧ t ≠ [] := by
  rcases reads.spells.of_concat with letter | ⟨other, _⟩ | ⟨_, spells⟩ | other
  · exact absurd letter (by decide)
  · exact absurd other (by decide)
  · exact reads.of_concat (.inr rfl) spells
  · exact absurd other (by decide)

/-- What is taken off the end of a text is a line feed or nothing. -/
theorem Reads.of_append {removed : Text} (step : StripStep [] t removed)
    (reads : Reads (t ++ removed) w) :
    ∃ v, Reads t v ∧ Alike (v ++ ['\n']) (w ++ ['\n']) ∧ (t = [] → t ++ removed = []) := by
  have feed (reads : Reads (t ++ ['\n']) w) :
      ∃ v, Reads t v ∧ Alike (v ++ ['\n']) (w ++ ['\n']) ∧ t ≠ [] := by
    obtain ⟨v, rfl, before, filled⟩ := reads.of_feed
    exact ⟨v, before, Text.alike_feed_feed v, filled⟩
  cases step with
  | unit unit =>
      cases unit with
      | soft =>
          obtain ⟨v, before, alike, filled⟩ := feed reads
          exact ⟨v, before, alike, fun none => absurd none filled⟩
      | hard =>
          have parts : t ++ BreakUnit.hard.text = t ++ ['\\'] ++ ['\n'] := by simp [BreakUnit.text]
          rw [parts] at reads
          obtain ⟨v, rfl, hard, _⟩ := reads.of_feed
          obtain ⟨before, filled⟩ := hard.of_backslash
          exact ⟨v, before, Text.alike_feed_feed v, fun none => absurd none filled⟩
      | html =>
          have parts : t ++ BreakUnit.html.text = t ++ "<br".toList ++ ['>'] ++ ['\n'] := by
            simp [BreakUnit.text]
          rw [parts] at reads
          obtain ⟨v, rfl, html, _⟩ := reads.of_feed
          have ends := html.spells.of_concat
          simp at ends
  | line _ stands single isMark =>
      have empty : removed = [] := isMark.elim id id
      subst empty
      rw [List.append_nil] at reads
      exact ⟨w, reads, .refl _, fun none => by simp [none]⟩
  | blank c blank =>
      obtain ⟨rfl, _⟩ := reads.spells.feed_of_blank blank
      obtain ⟨v, before, alike, filled⟩ := feed reads
      exact ⟨v, before, alike, fun none => absurd none filled⟩

/-- Stripping takes away line feeds at the end, which the filled lines do not tell. -/
theorem Reads.stripBreaks {buffer : Buffer} (reads : Reads buffer.reverse w) :
    ∃ v, Reads (stripBreaks [] buffer).reverse v ∧ Alike (v ++ ['\n']) (w ++ ['\n']) ∧
      (Markdown.stripBreaks [] buffer = [] → buffer = []) := by
  let p (t : Text) : Prop :=
    ∃ v, Reads t v ∧ Alike (v ++ ['\n']) (w ++ ['\n']) ∧ (t = [] → buffer.reverse = [])
  have kept : p (Markdown.stripBreaks [] buffer).reverse :=
    stripBreaks_induction ?_ ⟨w, reads, .refl _, id⟩
  · obtain ⟨v, left, alike, filled⟩ := kept
    exact ⟨v, left, alike, fun none => List.reverse_eq_nil_iff.1 (filled (by rw [none]; rfl))⟩
  · rintro t removed step ⟨v, whole, alike, filled⟩
    obtain ⟨u, left, alikeLeft, filledLeft⟩ := whole.of_append step
    exact ⟨u, left, alikeLeft.trans alike, fun none => filled (filledLeft none)⟩

/-- A run of breaks spells its line feeds. -/
theorem spells_breakRun (options : Options) {kind : BreakKind} (noBlock : kind ≠ .html)
    (count : Nat) : Spells (breakRun options kind [] count) (List.replicate count '\n') := by
  have piece (place : Nat) : Spells (breakPiece options kind [] count place) ['\n'] := by
    rw [breakPiece_of_no_mark]
    have inline : breakUnit options kind count place ≠ .html := by
      unfold breakUnit
      rw [if_neg fun block => noBlock block.1]
      split <;> split <;> decide
    cases unit : breakUnit options kind count place with
    | soft => exact Spells.nil.feed
    | hard => exact (Spells.nil.marker (m := "\\".toList) (by decide)).feed
    | html => exact absurd unit inline
  have pieces (places : List Nat) : Spells (places.flatMap (breakPiece options kind [] count))
      (List.replicate places.length '\n') := by
    induction places with
    | nil => exact .nil
    | cons place rest ih => exact (piece place).append ih
  have whole := pieces (List.range count)
  rwa [List.length_range, ← breakRun_eq] at whole

/-- Breaks behind a text count as one line feed more. -/
theorem Reads.addBreaks {options : Options} {kind : BreakKind} {buffer : Buffer}
    (reads : Reads buffer.reverse w) (filled : buffer ≠ []) (noBlock : kind ≠ .html) (count : Nat) :
    ∃ v, Reads (addBreaks options kind [] (count + 1) buffer).reverse v ∧
      Alike v (w ++ ['\n']) ∧ Markdown.addBreaks options kind [] (count + 1) buffer ≠ [] := by
  have needed (existing : Nat) : breaksNeeded kind (count + 1) existing = count + 1 := by
    cases kind with
    | html => exact absurd rfl noBlock
    | auto => rfl
    | hard => rfl
  unfold Markdown.addBreaks
  rw [if_neg (by simp [filled])]
  dsimp only
  rw [needed]
  by_cases enough : count + 1 ≤ countBreaks [] buffer
  · -- There is a break already, and another one would make no difference.
    rw [if_pos enough]
    obtain ⟨rest, rfl⟩ : ∃ rest, buffer = '\n' :: rest := by
      obtain ⟨c, rest, rfl⟩ := List.exists_cons_of_ne_nil filled
      by_cases feed : c = '\n'
      · exact ⟨rest, by rw [feed]⟩
      · rw [countBreaks_of_ne_feed feed] at enough
        omega
    rw [List.reverse_cons] at reads ⊢
    obtain ⟨v, rfl, _⟩ := reads.of_feed
    exact ⟨v ++ ['\n'], reads, Text.alike_feed_feed v, filled⟩
  · rw [if_neg enough]
    obtain ⟨v, left, alike, outlasts⟩ := reads.stripBreaks
    obtain ⟨c, rest, shape⟩ := List.exists_cons_of_ne_nil (mt outlasts filled)
    rw [shape] at left ⊢
    have run := spells_breakRun options noBlock (count + 1)
    refine ⟨v ++ List.replicate (count + 1) '\n', ?_, ?_, by simp⟩
    · rw [List.reverse_append, List.reverse_reverse]
      exact left.append (by simp) run
    · exact ((Alike.refl v).append (Text.alike_feeds count)).trans alike

end ForumMarkup.Markdown
