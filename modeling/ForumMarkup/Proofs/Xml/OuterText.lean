import ForumMarkup.Element.Post
import ForumMarkup.Proofs.Bbcode.Canonical
import ForumMarkup.Proofs.Xml.SingleRoot

/-!
Contract: what a stream of events with a single root is read as.

Owns:
- `outerRuns`, the texts outside of the root, cut at the tags;
- `Node.Joined`, trees in which no two texts stand side by side.

Main statement: `toReading_of_singleRooted`.  Such a stream is read as a joined tree, with
one warning for each text outside that shows something and one for a root that no post
has; every other stream is refused.
-/

set_option autoImplicit false

namespace ForumMarkup

/-- Trees in which no two texts stand side by side. -/
inductive Node.Joined : Node → Prop where
  | text (content : Text) : Joined (.text content)
  | element (tag : String) (attributes : Attributes) {children : List Node}
      (apart : Bbcode.Apart children) (inner : ∀ child ∈ children, Joined child) :
      Joined (.element tag attributes children)

namespace Xml

/-! ### Texts outside of the root -/

/-- A text that ends here, if it stands outside of all elements. -/
def outerRun (opened : Nat) (run : Text) : List Text :=
  if opened = 0 then [run] else []

/-- The texts outside of all elements, each one up to the next tag, where `opened` elements
are open and `run` was written since the last tag. -/
def outerRunsFrom (opened : Nat) (run : Text) : List Event → List Text
  | [] => outerRun opened run
  | event :: rest =>
      if event.isTag then
        outerRun opened run
          ++ outerRunsFrom (opened + event.opens.toNat - event.closes.toNat) [] rest
      else outerRunsFrom opened (run ++ event.raw) rest

def outerRuns (events : List Event) : List Text :=
  outerRunsFrom 0 [] events

/-- Whether a text shows something when its references are replaced. -/
def isStray (run : Text) : Bool :=
  !Text.allBlank (Entity.decode run)

/-- In an element it does not matter what was written since the last tag. -/
theorem outerRunsFrom_congr {opened : Nat} (inside : opened ≠ 0) (events : List Event)
    (run other : Text) : outerRunsFrom opened run events = outerRunsFrom opened other events := by
  induction events generalizing run other with
  | nil => rw [outerRunsFrom, outerRunsFrom, outerRun, outerRun, if_neg inside, if_neg inside]
  | cons event rest ih =>
      rw [outerRunsFrom, outerRunsFrom, outerRun, outerRun, if_neg inside, if_neg inside,
        ih (run ++ event.raw) (other ++ event.raw)]

namespace Builder

variable {builder next : Builder} {offset : Nat} {event : Event}

/-- A flush warns about the text at hand if this stands outside of all elements and shows
something. -/
theorem warnings_flush (builder : Builder) :
    builder.flush.warnings
      = List.replicate ((outerRun builder.frames.length builder.pending.reverse).countP isStray)
          outsideWarning ++ builder.warnings := by
  unfold flush
  split
  · next settled =>
      have quiet : isStray [] = false := by rw [isStray, Entity.decode]; rfl
      rw [settled, outerRun]
      split <;> simp [quiet]
  · dsimp only
    cases builder.frames with
    | cons frame outer =>
        obtain ⟨frames, _, added⟩ := exists_addText
          { builder with frames := frame :: outer, pending := [] }
          (Entity.decode builder.pending.reverse)
        rw [outerRun, if_neg (by simp)]
        exact (congrArg Builder.warnings added).trans rfl
    | nil =>
        rw [List.length_nil, outerRun, if_pos rfl, List.countP_singleton, isStray]
        cases Text.allBlank (Entity.decode builder.pending.reverse) with
        | true => rfl
        | false => rfl

/-- A tag settles the text before it. -/
theorem Steps.of_tag (steps : builder.Steps offset event next) (tag : event.isTag = true) :
    next.pending = [] ∧ next.warnings = builder.flush.warnings := by
  have settled := builder.pending_flush
  cases steps with
  | start content bare => exact ⟨settled, rfl⟩
  | empty content bare closed =>
      obtain ⟨frames, root?, _, _, rfl⟩ := exists_of_close closed
      exact ⟨settled, rfl⟩
  | stop name shape closed =>
      obtain ⟨frames, root?, _, _, rfl⟩ := exists_of_close closed
      exact ⟨settled, rfl⟩
  | _ => cases tag

/-- Between the tags text is only collected, outside of all elements as it is written. -/
theorem Steps.of_text (steps : builder.Steps offset event next) (noTag : event.isTag = false) :
    next.warnings = builder.warnings ∧
      (builder.frames = [] → next.pending.reverse = builder.pending.reverse ++ event.raw) := by
  cases steps with
  | text raw => exact ⟨rfl, fun _ => by simp [collect, Event.raw]⟩
  | reference name => exact ⟨rfl, fun _ => by simp [collect, Event.raw]⟩
  | cdata content inside =>
      refine ⟨?_, fun outside => absurd outside inside⟩
      obtain ⟨frames, _, added⟩ := builder.flush.exists_addText content
      rw [added]
      show builder.flush.warnings = _
      rw [warnings_flush, outerRun, if_neg (by simpa using inside)]
      rfl
  | other => exact ⟨rfl, fun _ => (List.append_nil _).symm⟩
  | _ => cases noTag

/-- The warnings of a run are those of the texts outside of all elements, each one up to
the next tag. -/
theorem warnings_run {rest : List (Nat × Event)} {last : Builder}
    (ran : builder.run rest = .ok last) :
    last.flush.warnings
      = List.replicate ((outerRunsFrom builder.frames.length builder.pending.reverse
          (rest.map Prod.snd)).countP isStray) outsideWarning ++ builder.warnings := by
  induction rest generalizing builder with
  | nil =>
      cases ran
      exact warnings_flush _
  | cons entry rest ih =>
      obtain ⟨offset, event⟩ := entry
      rw [run] at ran
      cases stepped : builder.step offset event with
      | error fault =>
          rw [stepped] at ran
          cases ran
      | ok next =>
          rw [stepped] at ran
          have later := ih ran
          have steps := steps_of_step stepped
          have depth := steps.length_frames
          rw [later, List.map_cons, outerRunsFrom]
          cases tag : event.isTag with
          | true =>
              obtain ⟨settled, warned⟩ := steps.of_tag tag
              have opened : next.frames.length
                  = builder.frames.length + event.opens.toNat - event.closes.toNat := by omega
              rw [if_pos rfl, List.countP_append, settled, List.reverse_nil, opened, warned,
                warnings_flush, ← List.append_assoc, List.replicate_append_replicate, Nat.add_comm]
          | false =>
              obtain ⟨warned, collected⟩ := steps.of_text tag
              obtain ⟨opens, closes⟩ := Event.still_of_noTag tag
              rw [opens, closes] at depth
              rw [if_neg Bool.false_ne_true, warned, show next.frames.length
                = builder.frames.length from depth]
              by_cases outside : builder.frames = []
              · rw [collected outside]
              · rw [outerRunsFrom_congr (mt List.length_eq_zero_iff.1 outside)]

end Builder

/-! ### Trees under construction -/

structure OpenElement.Joined (frame : OpenElement) : Prop where
  apart : Bbcode.Apart frame.content
  inner : ∀ node ∈ frame.content, node.Joined

theorem OpenElement.joined_of_bare {frame : OpenElement} (bare : frame.content = []) :
    frame.Joined where
  apart := by
    rw [bare]
    trivial
  inner := by
    rw [bare]
    nofun

theorem OpenElement.Joined.toElement {frame : OpenElement} (joined : frame.Joined) :
    frame.toElement.toNode.Joined :=
  .element _ _ joined.apart.reverse
    fun child member => joined.inner child (List.mem_reverse.1 member)

namespace Builder

variable {builder next : Builder} {offset : Nat} {event : Event}

/-- The content of every open element is joined, and so is the root. -/
structure Joined (builder : Builder) : Prop where
  frames : ∀ frame ∈ builder.frames, frame.Joined
  root : ∀ root ∈ builder.root?, root.toNode.Joined

/-- Text is joined with text just before it. -/
theorem Joined.addText (joined : builder.Joined) (text : Text) : (builder.addText text).Joined := by
  obtain ⟨frames, root?, pending, warnings⟩ := builder
  refine ⟨?_, by cases frames <;> exact joined.root⟩
  cases frames with
  | nil => exact joined.frames
  | cons frame outer =>
      obtain ⟨⟨apart, inner⟩, others⟩ := List.forall_mem_cons.1 joined.frames
      refine List.forall_mem_cons.2 ⟨?_, others⟩
      obtain ⟨tag, attributes, content⟩ := frame
      dsimp only
      split
      · next before rest =>
          obtain ⟨_, later⟩ := List.forall_mem_cons.1 inner
          exact ⟨⟨fun _ => apart.1 rfl, apart.2⟩, List.forall_mem_cons.2 ⟨.text _, later⟩⟩
      · next other =>
          refine ⟨⟨fun _ last there => ?_, apart⟩, List.forall_mem_cons.2 ⟨.text _, inner⟩⟩
          cases last with
          | text before =>
              obtain ⟨rest, shape⟩ := List.head?_eq_some_iff.1 there
              exact absurd shape (other before rest)
          | element => nofun

theorem Joined.flush (joined : builder.Joined) : builder.flush.Joined := by
  have emptied : Joined { builder with pending := [] } := ⟨joined.frames, joined.root⟩
  unfold Builder.flush
  split
  · exact joined
  · dsimp only
    split
    · split
      · exact emptied
      · exact ⟨joined.frames, joined.root⟩
    · exact emptied.addText _

theorem Joined.close {element : Element} (joined : builder.Joined) (whole : element.toNode.Joined)
    (closed : builder.close offset element = .ok next) : next.Joined := by
  obtain ⟨frames, root?, pending, warnings⟩ := builder
  cases frames with
  | cons frame outer =>
      cases closed
      obtain ⟨⟨apart, inner⟩, others⟩ := List.forall_mem_cons.1 joined.frames
      refine ⟨List.forall_mem_cons.2 ⟨⟨⟨nofun, apart⟩, ?_⟩, others⟩, joined.root⟩
      exact List.forall_mem_cons.2 ⟨whole, inner⟩
  | nil =>
      cases root? with
      | some root => cases closed
      | none =>
          cases closed
          refine ⟨joined.frames, ?_⟩
          rintro root ⟨⟩
          exact whole

/-- The step of the proof: text is joined with the text before it, so that no event brings two
texts together. -/
theorem Joined.step (joined : builder.Joined) (steps : builder.Steps offset event next) :
    next.Joined := by
  have flushed := joined.flush
  cases steps with
  | start content bare =>
      have frames := List.forall_mem_cons.2 ⟨OpenElement.joined_of_bare bare, flushed.frames⟩
      exact ⟨frames, flushed.root⟩
  | empty content bare closed =>
      exact flushed.close (OpenElement.joined_of_bare bare).toElement closed
  | stop name shape closed =>
      have frames := flushed.frames
      rw [shape] at frames
      obtain ⟨last, others⟩ := List.forall_mem_cons.1 frames
      have outer : Joined { builder.flush with frames := _ } := ⟨others, flushed.root⟩
      exact outer.close last.toElement closed
  | text raw => exact ⟨joined.frames, joined.root⟩
  | reference name => exact ⟨joined.frames, joined.root⟩
  | cdata content inside => exact flushed.addText content
  | other => exact joined

/-- The tree at the end is the root, behind all warnings there is one about its tag. -/
theorem finish_eq_ok {reading : Reading Element} (finished : builder.finish = .ok reading) :
    builder.root? = some reading.value ∧
      reading.warnings = builder.flush.warnings.reverse
        ++ if reading.value.tag ∈ [Tag.richRoot, Tag.plainRoot] then []
          else [rootWarning reading.value.tag] := by
  rw [← root?_flush]
  rw [finish] at finished
  dsimp only at finished
  split at finished
  · cases finished
  · cases finished
  · next root outside there =>
      have known : (root.hasTag Tag.richRoot || root.hasTag Tag.plainRoot) = true
          ↔ root.tag ∈ [Tag.richRoot, Tag.plainRoot] := by
        simp [Element.hasTag]
      split at finished
      · next usual =>
          cases finished
          exact ⟨there, by rw [if_pos (known.1 usual), List.append_nil]⟩
      · next unusual =>
          cases finished
          exact ⟨there, congrArg (_ ++ ·) (if_neg (mt known.2 unusual)).symm⟩

end Builder

/-- A stream without a fault and with readable attributes is refused unless it has a single
root. If it has one, it is read as a tree in which no two texts stand side by side. There
is a warning for each text outside of the root, from tag to tag, that shows something when
its references are replaced, and behind these one for a root that no post has. -/
theorem toReading_of_singleRooted {events : List (Nat × Event)}
    (readable : ∀ event ∈ events, event.2.isReadable = true) :
    (¬SingleRooted (events.map Prod.snd) →
      ∃ fault, Stream.toReading { events } = .error fault) ∧
    (SingleRooted (events.map Prod.snd) →
      ∃ reading, Stream.toReading { events } = .ok reading ∧ reading.value.toNode.Joined ∧
        reading.warnings
          = List.replicate ((outerRuns (events.map Prod.snd)).countP isStray) outsideWarning
            ++ if reading.value.tag ∈ [Tag.richRoot, Tag.plainRoot] then []
              else [rootWarning reading.value.tag]) := by
  have taken := exists_toReading_iff readable
  constructor
  · intro unrooted
    cases read : Stream.toReading { events } with
    | error fault => exact ⟨fault, rfl⟩
    | ok reading => exact absurd (taken.1 ⟨reading, read⟩) unrooted
  · intro rooted
    obtain ⟨reading, read⟩ := taken.2 rooted
    refine ⟨reading, read, ?_⟩
    unfold Stream.toReading at read
    dsimp only at read
    cases ran : Builder.run {} events with
    | error fault =>
        rw [ran] at read
        cases read
    | ok last =>
        rw [ran] at read
        have start : Builder.Joined {} := ⟨nofun, nofun⟩
        have joined : last.Joined :=
          Builder.run_induction (fun _ => Builder.Joined) Builder.Joined.step [] start ran
        have warned := Builder.warnings_run ran
        obtain ⟨root, warnings⟩ := Builder.finish_eq_ok read
        refine ⟨joined.root reading.value root, ?_⟩
        rw [warnings, warned]
        show (List.replicate _ outsideWarning ++ []).reverse ++ _ = _
        rw [List.append_nil, List.reverse_replicate]
        rfl

/-- A document with text around its root, one with a comment in it, and another root than
a post has. -/
def framedEvents : List (Nat × Event) :=
  [(0, .text "a".toList), (1, .other), (9, .text " ".toList), (10, .start "x y='1'".toList),
    (19, .text "b".toList), (20, .cdata "c".toList), (33, .reference "amp".toList),
    (38, .empty "br".toList), (43, .text "d".toList), (44, .stop "x".toList),
    (48, .text " ".toList), (49, .reference "gt".toList), (53, .other), (61, .text " ".toList)]

def framedRoot : Element where
  tag := "x"
  attributes := .ofList [("y", "1".toList)]
  children := [.text "bc&".toList, .wrap "br" [], .text "d".toList]

theorem toReading_of_singleRooted_framedEvents :
    (∀ event ∈ framedEvents, event.2.isReadable = true) ∧
      SingleRooted (framedEvents.map Prod.snd) ∧
      Stream.toReading { events := framedEvents }
        = .ok ⟨framedRoot, [outsideWarning, outsideWarning, rootWarning "x"]⟩ ∧
      framedRoot.toNode.Joined := by
  have readable : ∀ event ∈ framedEvents, event.2.isReadable = true :=
    List.all_eq_true.1 (by decide +kernel)
  have read : Stream.toReading { events := framedEvents }
      = .ok ⟨framedRoot, [outsideWarning, outsideWarning, rootWarning "x"]⟩ := by
    with_unfolding_all rfl
  have taken := toReading_of_singleRooted readable
  have rooted : SingleRooted (framedEvents.map Prod.snd) := by
    refine Classical.byContradiction fun unrooted => ?_
    obtain ⟨fault, refused⟩ := taken.1 unrooted
    rw [read] at refused
    cases refused
  obtain ⟨reading, same, joined, _⟩ := taken.2 rooted
  rw [read] at same
  cases same
  exact ⟨readable, rooted, read, joined⟩

end Xml

end ForumMarkup
