import ForumMarkup.Proofs.Xml.OuterText
import ForumMarkup.Proofs.Xml.RoundTrip

/-!
Contract: the root of a document that begins with the tag of an element.

Owns:
- `OpensWithElement`, documents whose first character that is not blank opens an element;
- `NameEnds`, what can follow a name in the tag of an element;
- `Builder.RootIs`, the tag that the root of a tree under construction has or is going to
  have.

Main statement: `exists_behind_root`, such a document spells the tag of its root at its
beginning.
-/

set_option autoImplicit false

namespace ForumMarkup.Xml

/-- The first character that is not blank is the bracket of a start tag or of the tag of an
empty element. -/
def OpensWithElement (input : Text) : Prop :=
  ∃ rest event taken after, Text.trimStart input = '<' :: rest ∧
    nextEvent '<' rest = .ok (event, taken, after) ∧ event.isTag = true ∧ event.closes = false

/-- What follows the name in the tag of an element: the end of the tag, or a space. -/
def NameEnds (behind : Text) : Prop :=
  "/>".toList <+: behind ∨ ∃ c ∈ behind.head?, c = '>' ∨ isSpace c = true

/-! ### The first tag -/

/-- Only a tag is read as a tag. -/
theorem scanMarkup_of_isTag {rest taken after : Text} {event : Event}
    (found : scanMarkup rest = .ok (event, taken, after)) (tag : event.isTag = true) :
    scanTag rest = .ok (event, taken, after) := by
  have declared {t : Text} (found : scanDoctype t = .ok (event, taken, after)) : event = .other := by
    unfold scanDoctype at found
    split at found
    · cases found
    · dsimp only at found
      split at found <;> cases found
      rfl
  have noTag : event ≠ .other := by
    rintro rfl
    cases tag
  unfold scanMarkup at found
  split at found
  · unfold scanCData at found
    split at found <;> cases found
    cases tag
  · unfold scanComment at found
    split at found <;> cases found
    cases tag
  · exact absurd (declared found) noTag
  · exact absurd (declared found) noTag
  · cases found
  · unfold scanInstruction at found
    split at found <;> cases found
    cases tag
  · exact found

/-- A tag is cut out by its brackets. -/
theorem exists_tagContent {rest taken after : Text} {event : Event}
    (found : nextEvent '<' rest = .ok (event, taken, after)) (tag : event.isTag = true) :
    ∃ content, tagEvent content = event ∧ rest = content ++ '>' :: after := by
  rw [nextEvent, if_pos rfl] at found
  have scanned := scanMarkup_of_isTag found tag
  unfold scanTag at scanned
  split at scanned
  · next content behind cut =>
      cases scanned
      exact ⟨content, rfl, (tagContent_source cut).symm⟩
  · cases scanned

/-- A name ends where a tag does or at a space. -/
theorem exists_behind_tagName (content : Text) {behind : Text} (ends : NameEnds behind) :
    ∃ more, content ++ behind = tagName content ++ more ∧ NameEnds more := by
  refine ⟨content.dropWhile (fun c => !isSpace c) ++ behind, ?_, ?_⟩
  · rw [tagName, ← List.append_assoc, List.takeWhile_append_dropWhile]
  · cases left : content.dropWhile (fun c => !isSpace c) with
    | nil => exact ends
    | cons c more =>
        have stops := List.head?_dropWhile_not (fun c => !isSpace c) content
        rw [left] at stops
        exact .inr ⟨c, rfl, .inr (by simpa using stops)⟩

/-- The tag of an element starts with its name. -/
theorem exists_behind_name {rest taken after content : Text} {event : Event}
    (found : nextEvent '<' rest = .ok (event, taken, after))
    (tag : event = .start content ∨ event = .empty content) :
    ∃ behind, rest = tagName content ++ behind ∧ NameEnds behind := by
  have isTag : event.isTag = true := by rcases tag with rfl | rfl <;> rfl
  have closed : NameEnds ('>' :: after) := .inr ⟨'>', rfl, .inl rfl⟩
  obtain ⟨whole, same, rfl⟩ := exists_tagContent found isTag
  unfold tagEvent at same
  split at same
  · rcases tag with rfl | rfl <;> cases same
  · split at same
    · next slash =>
        rcases tag with rfl | rfl
        · cases same
        · cases same
          obtain ⟨inner, rfl⟩ := List.getLast?_eq_some_iff.1 slash
          rw [List.dropLast_concat, List.append_assoc]
          exact exists_behind_tagName inner (.inl ⟨after, rfl⟩)
    · rcases tag with rfl | rfl
      · cases same
        exact exists_behind_tagName _ closed
      · cases same

/-! ### The root of a tree under construction -/

namespace Builder

variable {builder next : Builder} {offset : Nat} {event : Event} {tag : String}

def tags (builder : Builder) : List String :=
  builder.frames.map OpenElement.tag

theorem tags_addText (builder : Builder) (text : Text) :
    (builder.addText text).tags = builder.tags := by
  obtain ⟨frames, root?, pending, warnings⟩ := builder
  cases frames <;> rfl

theorem tags_flush (builder : Builder) : builder.flush.tags = builder.tags := by
  unfold flush
  split
  · rfl
  · dsimp only
    split
    · split <;> rfl
    · exact tags_addText { builder with pending := [] } _

/-- The root has the tag, or the outermost open element has it, which is going to be the
root. -/
structure RootIs (tag : String) (builder : Builder) : Prop where
  root : ∀ root ∈ builder.root?, root.tag = tag
  outermost : builder.root? = none → builder.tags.getLast? = some tag

theorem RootIs.flush (rooted : builder.RootIs tag) : builder.flush.RootIs tag where
  root := by
    rw [root?_flush]
    exact rooted.root
  outermost := by
    rw [root?_flush, tags_flush]
    exact rooted.outermost

/-- A finished element becomes the root only where no other one is open. -/
theorem rootIs_of_close {element : Element} (closed : builder.close offset element = .ok next)
    (root : ∀ root ∈ builder.root?, root.tag = tag)
    (outermost : builder.root? = none → (element.tag :: builder.tags).getLast? = some tag) :
    next.RootIs tag := by
  obtain ⟨frames, root?, pending, warnings⟩ := builder
  cases frames with
  | cons frame outer =>
      cases closed
      refine ⟨root, fun none => ?_⟩
      have last := outermost none
      rwa [tags, List.map_cons, List.getLast?_cons_cons] at last
  | nil =>
      cases root? with
      | some other => cases closed
      | none =>
          cases closed
          refine ⟨?_, nofun⟩
          rintro other ⟨⟩
          exact Option.some.inj (outermost rfl)

/-- Inside of the outermost open element others are opened. -/
theorem RootIs.getLast?_cons (rooted : builder.RootIs tag) (none : builder.root? = none)
    (inner : String) : (inner :: builder.tags).getLast? = some tag := by
  rw [List.getLast?_cons, rooted.outermost none]
  rfl

/-- No event changes the tag of a root that was begun. -/
theorem RootIs.step (rooted : builder.RootIs tag) (steps : builder.Steps offset event next) :
    next.RootIs tag := by
  have flushed := rooted.flush
  cases steps with
  | start content bare => exact ⟨flushed.root, fun none => flushed.getLast?_cons none _⟩
  | empty content bare closed =>
      exact rootIs_of_close closed flushed.root fun none => flushed.getLast?_cons none _
  | stop name shape closed =>
      have outermost := flushed.outermost
      rw [tags, shape] at outermost
      exact rootIs_of_close closed flushed.root outermost
  | text raw => exact ⟨rooted.root, rooted.outermost⟩
  | reference name => exact ⟨rooted.root, rooted.outermost⟩
  | cdata content inside =>
      obtain ⟨frames, _, added⟩ := builder.flush.exists_addText content
      have tags := builder.flush.tags_addText content
      refine ⟨?_, ?_⟩
      · rw [added]
        exact flushed.root
      · rw [tags, added]
        exact flushed.outermost
  | other => exact rooted

end Builder

/-! ### The root of a document -/

/-- In a document that is taken every event is. -/
theorem exists_of_resume {names after : List Text} {builder : Builder} {c : Char} {t taken rest : Text}
    {event : Event} {offset : Nat} {reading : Reading Element}
    (found : nextEvent c t = .ok (event, taken, rest))
    (fits : ∀ fault? place events, Stream.matchEndsFrom fault? names ((place, event) :: events)
      = (Stream.matchEndsFrom fault? after events).cons (place, event))
    (read : resume offset names builder (c :: t) = .ok reading) :
    ∃ next, builder.step offset event = .ok next ∧
      resume (offset + Text.byteLength (c :: taken)) after next rest = .ok reading := by
  rw [resume, scanFrom_of_nextEvent found] at read
  dsimp only [Stream.cons] at read
  rw [fits] at read
  dsimp only [Stream.cons] at read
  rw [Builder.run] at read
  cases stepped : builder.step offset event with
  | error fault =>
      rw [stepped] at read
      cases read
  | ok next =>
      rw [stepped] at read
      exact ⟨next, rfl, read⟩

/-- The tag that the root is going to have is the one that it has in the end. -/
theorem tag_of_resume {names : List Text} {builder : Builder} {t : Text} {offset : Nat}
    {reading : Reading Element} {tag : String} (rooted : builder.RootIs tag)
    (read : resume offset names builder t = .ok reading) :
    reading.value.tag = tag ∧
      (reading.warnings = [] → reading.value.tag ∈ [Tag.richRoot, Tag.plainRoot]) := by
  unfold resume at read
  dsimp only at read
  generalize Stream.matchEndsFrom _ names _ = stream at read
  cases ran : builder.run stream.events with
  | error fault =>
      rw [ran] at read
      cases read
  | ok last =>
      rw [ran] at read
      dsimp only [bind, Except.bind] at read
      split at read
      · cases read
      · obtain ⟨root, warnings⟩ := Builder.finish_eq_ok read
        have kept := Builder.run_induction (fun _ => Builder.RootIs tag) Builder.RootIs.step [] rooted
          ran
        refine ⟨kept.root _ root, fun quiet => ?_⟩
        rw [quiet] at warnings
        refine Classical.byContradiction fun unusual => ?_
        have none := (List.append_eq_nil_iff.1 warnings.symm).2
        rw [if_neg unusual] at none
        cases none

/-- Blanks before the first tag are collected. -/
theorem exists_read_blanks {input rest : Text} (begins : Text.trimStart input = '<' :: rest) :
    ∃ offset blanks, read input = resume offset [] (Builder.collect {} blanks) ('<' :: rest) := by
  have parts : input = input.takeWhile Text.isBlank ++ '<' :: rest := by
    rw [← begins, Text.trimStart, List.takeWhile_append_dropWhile]
  have blank : ∀ c ∈ input.takeWhile Text.isBlank, Text.isBlank c = true :=
    List.all_eq_true.1 List.all_takeWhile
  generalize input.takeWhile Text.isBlank = blanks at parts blank
  subst parts
  have textual : ∀ c ∈ blanks, isTextual c = true := by
    intro c member
    have solid {d : Char} (other : Text.isBlank d = false) : c ≠ d := by
      rintro rfl
      rw [blank c member] at other
      cases other
    simp [isTextual, solid (d := '<') (by decide), solid (d := '&') (by decide)]
  have noMark : (blanks ++ '<' :: rest).head? ≠ some '\ufeff' := by
    cases blanks with
    | nil => exact fun same => absurd (Option.some.inj same) (by decide)
    | cons c more =>
        rintro ⟨⟩
        exact absurd (blank _ List.mem_cons_self) (by decide)
  rw [read_eq_resume noMark]
  cases blanks with
  | nil => exact ⟨0, [], rfl⟩
  | cons c more =>
      obtain ⟨first, others⟩ := List.forall_mem_cons.1 textual
      refine ⟨0 + Text.byteLength (c :: more), c :: more, ?_⟩
      rw [List.cons_append, resume_run first, List.takeWhile_append_of_pos others,
        List.dropWhile_append_of_pos others, List.takeWhile_cons_of_neg (by decide),
        List.dropWhile_cons_of_neg (by decide), List.append_nil]

theorem tag_of_startElement {content : Text} {frame : OpenElement}
    (started : Builder.startElement content = .ok frame) :
    frame.tag = String.ofList (tagName content) := by
  unfold Builder.startElement at started
  dsimp only at started
  split at started
  · cases started
  · cases started
    rfl

/-- The first tag names the root. -/
theorem rootIs_of_step {blanks content : Text} {event : Event} {offset : Nat} {next : Builder}
    (tag : event = .start content ∨ event = .empty content)
    (stepped : (Builder.collect {} blanks).step offset event = .ok next) :
    next.RootIs (String.ofList (tagName content)) := by
  have rootless : (Builder.collect {} blanks).flush.root? = none := Builder.root?_flush _
  have outside : (Builder.collect {} blanks).flush.tags = [] := Builder.tags_flush _
  cases started : Builder.startElement content with
  | error fault =>
      rcases tag with rfl | rfl <;> rw [Builder.step, started] at stepped <;> cases stepped
  | ok frame =>
      have named := tag_of_startElement started
      rcases tag with rfl | rfl
      · rw [Builder.step, started] at stepped
        cases stepped
        refine ⟨fun root there => ?_, fun _ => ?_⟩
        · rw [show _ = none from rootless] at there
          cases there
        · show (frame.tag :: (Builder.collect {} blanks).flush.tags).getLast? = _
          rw [outside, named]
          rfl
      · rw [Builder.step, started] at stepped
        refine Builder.rootIs_of_close stepped (fun root there => ?_) fun _ => ?_
        · rw [rootless] at there
          exact absurd there (Option.not_mem_none root)
        · rw [outside]
          exact congrArg some named

/-- A document that begins with the tag of an element and is taken without a warning spells
the tag of its root there, which is one of the two that posts have. -/
theorem exists_behind_root {input : Text} {reading : Reading Element}
    (opens : OpensWithElement input) (taken : read input = .ok reading)
    (quiet : reading.warnings = []) :
    reading.value.tag ∈ [Tag.richRoot, Tag.plainRoot] ∧
      ∃ behind, Text.trimStart input = '<' :: (reading.value.tag.toList ++ behind) ∧
        NameEnds behind := by
  obtain ⟨rest, event, source, after, begins, found, isTag, opens⟩ := opens
  obtain ⟨offset, blanks, same⟩ := exists_read_blanks begins
  rw [same] at taken
  obtain ⟨content, tag⟩ : ∃ content, event = .start content ∨ event = .empty content := by
    cases event with
    | start content => exact ⟨content, .inl rfl⟩
    | empty content => exact ⟨content, .inr rfl⟩
    | stop name => cases opens
    | _ => cases isTag
  obtain ⟨behind, rfl, ends⟩ := exists_behind_name found tag
  have fits : ∃ names, ∀ fault? place events,
      Stream.matchEndsFrom fault? [] ((place, event) :: events)
        = (Stream.matchEndsFrom fault? names events).cons (place, event) := by
    rcases tag with rfl | rfl
    · exact ⟨[tagName content], fun _ _ _ => rfl⟩
    · exact ⟨[], fun _ _ _ => rfl⟩
  obtain ⟨names, fits⟩ := fits
  obtain ⟨next, stepped, later⟩ := exists_of_resume found fits taken
  obtain ⟨named, known⟩ := tag_of_resume (rootIs_of_step tag stepped) later
  refine ⟨known quiet, behind, ?_, ends⟩
  rw [begins, named, String.toList_ofList]

end ForumMarkup.Xml
