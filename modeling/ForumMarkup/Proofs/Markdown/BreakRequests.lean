import ForumMarkup.Proofs.Markdown.Firm
import ForumMarkup.Proofs.Markdown.LineEnds

/-!
Contract: requests for line breaks at one place, met one after the other.

Owns:
- `BreakRequest`, what is asked for, with what it does to a text and to the number of
  breaks the text ends with;
- `spelledRun`, a run of breaks under quote marks, written out;
- `Broken`, a text that is a given one with a number of breaks behind it.

Main statement: `requests_merge`.  However many breaks are asked for, the text before
them comes back when they are stripped, and their number is the largest one asked for.

Requests are compared by the two readings of a buffer that the writer has itself, the
breaks it counts and what it leaves when it strips them.  A run enters these readings
one break at a time.
-/

set_option autoImplicit false

namespace ForumMarkup.Markdown

open Decoration

/-- A number of line breaks that is asked for, and how they are spelled. -/
structure BreakRequest where
  count : Nat
  kind : BreakKind
  deriving DecidableEq, Repr

namespace BreakRequest

def serve (options : Options) (mark : Text) (buffer : Buffer) (request : BreakRequest) : Buffer :=
  addBreaks options request.kind mark request.count buffer

/-- The number of breaks once the request is met, when `existing` are there: the larger
number, where the edge of a block counts one break more than are there. -/
def merged (existing : Nat) (request : BreakRequest) : Nat :=
  if request.count = 0 then existing
  else
    match request.kind with
    | .auto | .hard => max existing request.count
    | .html => max (existing + 1) request.count

end BreakRequest

/-- A run of breaks, each behind the first one with the mark of its line, which loses its
last blank before a soft break. -/
def spelledRun (options : Options) (kind : BreakKind) (mark : Text) (count : Nat) : Text :=
  (List.range count).flatMap fun place =>
    let unit := breakUnit options kind count place
    (if place = 0 then [] else if unit = .soft then mark.dropLast else mark) ++ unit.text

theorem trimEnd_quoteMarks_eq_dropLast (depth : Nat) :
    Text.trimEnd (quoteMarks depth) = (quoteMarks depth).dropLast := by
  cases depth with
  | zero => rfl
  | succ depth =>
      have shape : quoteMarks (depth + 1) = quoteMarks depth ++ ['>'] ++ [' '] := by
        simp [← quoteMarks_concat, quoteMark]
      rw [trimEnd_quoteMarks, shape, List.dropLast_concat]

theorem breakRun_quoteMarks (options : Options) (kind : BreakKind) (depth count : Nat) :
    breakRun options kind (quoteMarks depth) count
      = spelledRun options kind (quoteMarks depth) count := by
  simp only [breakRun, spelledRun, breakLead, trimEnd_quoteMarks_eq_dropLast]

/-! ### The two readings of a run -/

/-- The buffer is `base` with a number of breaks behind it, as far as counting and
stripping tell. -/
structure Broken (mark : Text) (base : Buffer) (count : Nat) (buffer : Buffer) : Prop where
  stripped : stripBreaks mark buffer = base
  counted : countBreaks mark buffer = count

section

variable {mark : Text} {base buffer : Buffer} {count : Nat}

/-- What does not change when it is stripped ends with no break. -/
theorem broken_zero (bare : stripBreaks mark base = base) : Broken mark base 0 base := by
  have none := stripLast?_stripBreaks mark base
  rw [bare] at none
  simp only [stripLast?, Option.or_eq_none_iff] at none
  exact ⟨bare, countBreaks_of_none none.1.1 none.1.2⟩

theorem Broken.unit (broken : Broken mark base count buffer) (unit : BreakUnit)
    (plain : unit = .soft → EndsPlain buffer) :
    Broken mark base (count + 1) (unit.text.reverse ++ buffer) where
  stripped := by
    rw [stripBreaks_of_stripUnit? (stripUnit?_unit unit plain), broken.stripped]
  counted := by
    rw [countBreaks_of_unit (stripUnit?_unit unit plain), broken.counted]

/-- The mark of an empty line is no break and leaves no trace. -/
theorem Broken.lead {more : Buffer} (broken : Broken mark base count ('\n' :: more)) {lead : Text}
    (single : '\n' ∉ lead) (isLead : lead = [] ∨ lead = mark ∨ lead = Text.trimEnd mark) :
    Broken mark base count (lead.reverse ++ '\n' :: more) := by
  rcases isLead with rfl | isMark
  · exact broken
  by_cases filled : lead = []
  · rw [filled]
    exact broken
  have line : stripMarkLine? mark (lead.reverse ++ '\n' :: more) = some ('\n' :: more) :=
    stripMarkLine?_of_line filled single isMark
  have noUnit : stripUnit? (lead.reverse ++ '\n' :: more) = none := by
    obtain ⟨c, rest, shape⟩ := List.exists_cons_of_ne_nil (mt List.reverse_eq_nil_iff.1 filled)
    have other : c ≠ '\n' := by
      rintro rfl
      exact single (List.mem_reverse.1 (shape ▸ List.mem_cons_self))
    rw [shape]
    exact stripUnit?_of_ne_feed other _
  have last : stripLast? mark (lead.reverse ++ '\n' :: more) = some ('\n' :: more) := by
    rw [stripLast?, noUnit, line]
    rfl
  exact ⟨(stripBreaks_of_some last).trans broken.stripped,
    (countBreaks_of_markLine noUnit line).trans broken.counted⟩

/-- Arrows and spaces behind a line feed are no part of another break. -/
theorem endsPlain_lead {lead : Text} (chars : ∀ c ∈ lead, c = '>' ∨ c = ' ') (more : Buffer) :
    EndsPlain (lead.reverse ++ '\n' :: more) where
  noHard := by
    cases shape : lead.reverse with
    | nil => simp
    | cons c rest =>
        have member : c ∈ lead := List.mem_reverse.1 (shape ▸ List.mem_cons_self)
        rcases chars c member with rfl | rfl <;> simp
  noHtml := by
    refine not_html_append (by decide) (fun html => ?_) more
    have member : 'r' ∈ lead := List.mem_reverse.1 (html.subset (by decide))
    rcases chars 'r' member with same | same <;> cases same

/-- One break of a run more: the first one behind a plain end, each other one behind a
line feed. -/
theorem Broken.piece (broken : Broken mark base count buffer)
    (chars : ∀ c ∈ mark, c = '>' ∨ c = ' ') (options : Options) (kind : BreakKind)
    {total place : Nat} (first : place = 0 → EndsPlain buffer)
    (later : place ≠ 0 → ∃ more, buffer = '\n' :: more) :
    Broken mark base (count + 1)
      ((breakPiece options kind mark total place).reverse ++ buffer) := by
  unfold breakPiece
  generalize breakUnit options kind total place = unit
  rw [List.reverse_append, List.append_assoc]
  by_cases start : place = 0
  · have none : breakLead mark place unit = [] := if_pos start
    rw [none]
    exact broken.unit unit fun _ => first start
  · obtain ⟨more, rfl⟩ := later start
    have isLead : breakLead mark place unit = mark ∨
        breakLead mark place unit = Text.trimEnd mark := by
      rw [breakLead, if_neg start]
      split
      · exact .inr rfl
      · exact .inl rfl
    have within : ∀ c ∈ breakLead mark place unit, c = '>' ∨ c = ' ' := by
      intro c member
      rcases isLead with same | same <;> rw [same] at member
      · exact chars c member
      · exact chars c ((Text.trimEnd_prefix mark).subset member)
    have single : '\n' ∉ breakLead mark place unit := by
      intro feed
      rcases within _ feed with same | same <;> cases same
    exact (broken.lead single (.inr isLead)).unit unit fun _ => endsPlain_lead within more

theorem exists_cons_breakPiece (options : Options) (kind : BreakKind) (mark : Text)
    (total place : Nat) (buffer : Buffer) :
    ∃ more, (breakPiece options kind mark total place).reverse ++ buffer = '\n' :: more := by
  obtain ⟨spelled, shape, _⟩ := breakUnit_text_shape (breakUnit options kind total place)
  rw [breakPiece, shape]
  simp

/-- A run of breaks behind a plain end is counted and stripped as a whole. -/
theorem Broken.run (bare : stripBreaks mark base = base) (plain : EndsPlain base)
    (chars : ∀ c ∈ mark, c = '>' ∨ c = ' ') (options : Options) (kind : BreakKind) (count : Nat) :
    Broken mark base count ((breakRun options kind mark count).reverse ++ base) := by
  -- The spelling of a break depends on the whole run, so the run is built up to a place.
  have upTo (place : Nat) :
      Broken mark base place
          (((List.range place).flatMap (breakPiece options kind mark count)).reverse ++ base) ∧
        (place ≠ 0 → ∃ more,
          ((List.range place).flatMap (breakPiece options kind mark count)).reverse ++ base
            = '\n' :: more) := by
    induction place with
    | zero => exact ⟨broken_zero bare, fun none => absurd rfl none⟩
    | succ place ih =>
        rw [List.range_succ, List.flatMap_append, List.flatMap_singleton, List.reverse_append,
          List.append_assoc]
        refine ⟨ih.1.piece chars options kind ?_ ih.2,
          fun _ => exists_cons_breakPiece options kind mark count place _⟩
        rintro rfl
        exact plain
  rw [breakRun_eq]
  exact (upTo count).1

end

/-! ### Requests -/

/-- What is there and what is written are merged by maximum. -/
theorem merged_eq_max {kind : BreakKind} {required : Nat} (asked : required ≠ 0) (existing : Nat) :
    BreakRequest.merged existing ⟨required, kind⟩
      = max existing (breaksNeeded kind required existing) := by
  unfold BreakRequest.merged breaksNeeded
  rw [if_neg asked]
  cases kind with
  | auto => rfl
  | hard => rfl
  | html =>
      dsimp only
      omega

section

variable {mark : Text} {base buffer : Buffer} {existing : Nat}

/-- A request leaves the buffer as it is, or the whole run is written anew. -/
theorem Broken.serve_eq (broken : Broken mark base existing buffer) (filled : base ≠ [])
    (options : Options) (request : BreakRequest) :
    request.serve options mark buffer
      = if request.merged existing ≤ existing then buffer
        else (breakRun options request.kind mark (request.merged existing)).reverse ++ base := by
  obtain ⟨required, kind⟩ := request
  have filledHere : buffer ≠ [] := by
    rintro rfl
    have none : stripBreaks mark [] = [] := stripBreaks_of_none rfl
    exact filled (broken.stripped.symm.trans none)
  unfold BreakRequest.serve
  dsimp only
  by_cases asked : required = 0
  · rw [asked, addBreaks_zero]
    exact (if_pos (Nat.le_refl existing)).symm
  unfold addBreaks
  rw [if_neg (by simp [asked, filledHere]), broken.counted, broken.stripped, merged_eq_max asked]
  dsimp only
  by_cases enough : breaksNeeded kind required existing ≤ existing
  · rw [if_pos enough, if_pos (by omega)]
  · rw [if_neg enough, if_neg (by omega), Nat.max_eq_right (by omega)]
    cases base with
    | nil => exact absurd rfl filled
    | cons c rest => rfl

/-- A request that is met leaves the text, and as many breaks as the two together ask
for. -/
theorem Broken.serve (broken : Broken mark base existing buffer) (filled : base ≠ [])
    (plain : EndsPlain base) (chars : ∀ c ∈ mark, c = '>' ∨ c = ' ') (options : Options)
    (request : BreakRequest) :
    Broken mark base (request.merged existing) (request.serve options mark buffer) := by
  have bare : stripBreaks mark base = base := by
    rw [← broken.stripped, stripBreaks_of_none (stripLast?_stripBreaks mark buffer)]
  rw [broken.serve_eq filled]
  split
  · next enough =>
      have least : existing ≤ request.merged existing := by
        unfold BreakRequest.merged
        cases request.kind <;> dsimp only <;> split <;> omega
      rw [Nat.le_antisymm enough least]
      exact broken
  · exact Broken.run bare plain chars options request.kind (request.merged existing)

theorem Broken.foldl_serve (filled : base ≠ []) (plain : EndsPlain base)
    (chars : ∀ c ∈ mark, c = '>' ∨ c = ' ') (options : Options) (requests : List BreakRequest)
    (broken : Broken mark base existing buffer) :
    Broken mark base (requests.foldl BreakRequest.merged existing)
      (requests.foldl (BreakRequest.serve options mark) buffer) := by
  induction requests generalizing existing buffer with
  | nil => exact broken
  | cons request rest ih => exact ih (broken.serve filled plain chars options request)

end

/-- Behind a text that ends with no break and not like the beginning of one, requests
merge by maximum and never touch the text. A request that asks for no more than is there
changes nothing, and one that asks for more leaves the text with one run of breaks. -/
theorem requests_merge (options : Options) (depth : Nat) {base : Buffer} (filled : base ≠ [])
    (bare : stripBreaks (quoteMarks depth) base = base) (noHard : base.head? ≠ some '\\')
    (noHtml : ¬"<br>".toList.reverse <+: base) (requests : List BreakRequest) :
    let mark := quoteMarks depth
    let buffer := requests.foldl (BreakRequest.serve options mark) base
    stripBreaks mark buffer = base ∧
      countBreaks mark buffer = requests.foldl BreakRequest.merged 0 ∧
      ∀ request : BreakRequest,
        let next := request.serve options mark buffer
        (countBreaks mark next ≤ countBreaks mark buffer → next = buffer) ∧
          (countBreaks mark buffer < countBreaks mark next →
            next = (spelledRun options request.kind mark (countBreaks mark next)).reverse
              ++ base) := by
  intro mark buffer
  have chars := chars_quoteMarks depth
  have plain : EndsPlain base := ⟨noHard, noHtml⟩
  have broken := Broken.foldl_serve filled plain chars options requests (broken_zero bare)
  refine ⟨broken.stripped, broken.counted, fun request => ?_⟩
  intro next
  have served := broken.serve filled plain chars options request
  have shape := broken.serve_eq filled options request
  rw [served.counted, broken.counted]
  constructor
  · intro enough
    rw [if_pos enough] at shape
    exact shape
  · intro more
    rw [if_neg (Nat.not_le.2 more), breakRun_quoteMarks] at shape
    exact shape

def quotedLine : Buffer :=
  "> > a\\b".toList.reverse

def mixedRequests : List BreakRequest :=
  [⟨1, .auto⟩, ⟨2, .html⟩, ⟨0, .html⟩, ⟨1, .html⟩, ⟨2, .hard⟩]

theorem requests_merge_quotedLine :
    quotedLine ≠ [] ∧ stripBreaks (quoteMarks 2) quotedLine = quotedLine ∧
      quotedLine.head? ≠ some '\\' ∧ ¬"<br>".toList.reverse <+: quotedLine ∧
      let buffer := mixedRequests.foldl (BreakRequest.serve {} (quoteMarks 2)) quotedLine
      stripBreaks (quoteMarks 2) buffer = quotedLine ∧ countBreaks (quoteMarks 2) buffer = 3 := by
  have filled : quotedLine ≠ [] := by decide
  have bare : stripBreaks (quoteMarks 2) quotedLine = quotedLine := stripBreaks_of_none (by decide)
  have noHard : quotedLine.head? ≠ some '\\' := by decide
  have noHtml : ¬"<br>".toList.reverse <+: quotedLine := by decide
  obtain ⟨stripped, counted, _⟩ := requests_merge {} 2 filled bare noHard noHtml mixedRequests
  exact ⟨filled, bare, noHard, noHtml, stripped, counted⟩

end ForumMarkup.Markdown
