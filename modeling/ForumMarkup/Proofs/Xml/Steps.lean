import ForumMarkup.Xml.Document

/-!
Contract: what one event does to a tree under construction.

Owns:
- the questions about an event that decide what it does: `Event.isTag`, `Event.opens`,
  `Event.closes`, `Event.completes`, `Event.isInner`;
- `Builder.Steps`, what an event that was taken leaves, with one constructor for each
  kind of event.

Main statements: `exists_step_iff`, which events are taken, and `steps_of_step`.
-/

set_option autoImplicit false

namespace ForumMarkup.Xml

namespace Event

def isReadable : Event → Bool
  | .start content | .empty content => (attributeList content).isOk
  | _ => true

def opens : Event → Bool
  | .start _ => true
  | _ => false

def closes : Event → Bool
  | .stop _ => true
  | _ => false

def completes : Event → Bool
  | .empty _ | .stop _ => true
  | _ => false

/-- Whether an event has to stand in an element: an end tag, and characters that stand for
themselves. -/
def isInner : Event → Bool
  | .stop _ | .cdata _ => true
  | _ => false

def isTag : Event → Bool
  | .start _ | .empty _ | .stop _ => true
  | _ => false

def raw : Event → Text
  | .text raw => raw
  | .reference name => '&' :: (name ++ [';'])
  | _ => []

theorem opens_of_completes {event : Event} (completes : event.completes = true) :
    event.opens = false := by
  cases event with
  | start => cases completes
  | _ => rfl

theorem still_of_noTag {event : Event} (noTag : event.isTag = false) :
    event.opens = false ∧ event.closes = false := by
  cases event with
  | start => cases noTag
  | stop => cases noTag
  | _ => exact ⟨rfl, rfl⟩

end Event

namespace Builder

variable {builder next : Builder} {offset : Nat} {event : Event} {element : Element}

/-- Text is put into an open element, and nothing else changes. -/
theorem exists_addText (builder : Builder) (text : Text) :
    ∃ frames, frames.length = builder.frames.length ∧
      builder.addText text = { builder with frames } := by
  obtain ⟨frames, root?, pending, warnings⟩ := builder
  cases frames with
  | nil => exact ⟨[], rfl, rfl⟩
  | cons frame outer =>
      refine ⟨_, ?_, rfl⟩
      rfl

/-- A flush leaves nothing collected. It changes no more than the content of an open
element and the warnings. -/
theorem exists_flush (builder : Builder) :
    ∃ frames warnings, frames.length = builder.frames.length ∧
      builder.flush = { builder with frames, pending := [], warnings } := by
  unfold flush
  split
  · next settled => exact ⟨builder.frames, builder.warnings, rfl, by rw [← settled]⟩
  · dsimp only
    split
    · split
      · exact ⟨_, _, rfl, rfl⟩
      · exact ⟨_, _, rfl, rfl⟩
    · obtain ⟨frames, length, added⟩ := exists_addText { builder with pending := [] }
        (Entity.decode builder.pending.reverse)
      exact ⟨frames, builder.warnings, length, added⟩

theorem pending_flush (builder : Builder) : builder.flush.pending = [] := by
  obtain ⟨frames, warnings, _, flushed⟩ := builder.exists_flush
  rw [flushed]

theorem root?_flush (builder : Builder) : builder.flush.root? = builder.root? := by
  obtain ⟨frames, warnings, _, flushed⟩ := builder.exists_flush
  rw [flushed]

theorem length_frames_flush (builder : Builder) :
    builder.flush.frames.length = builder.frames.length := by
  obtain ⟨frames, warnings, length, flushed⟩ := builder.exists_flush
  rw [flushed]
  exact length

theorem frames_flush_eq_nil_iff : builder.flush.frames = [] ↔ builder.frames = [] := by
  rw [← List.length_eq_zero_iff, length_frames_flush, List.length_eq_zero_iff]

theorem isEmpty_frames_flush (builder : Builder) :
    builder.flush.frames.isEmpty = true ↔ builder.frames = [] := by
  rw [List.isEmpty_iff, frames_flush_eq_nil_iff]

theorem exists_startElement {content : Text} (readable : (attributeList content).isOk = true) :
    ∃ frame, startElement content = .ok frame := by
  unfold startElement
  cases read : attributeList content with
  | error failure =>
      rw [read] at readable
      cases readable
  | ok attributes => exact ⟨_, rfl⟩

theorem content_of_startElement {content : Text} {frame : OpenElement}
    (started : startElement content = .ok frame) : frame.content = [] := by
  unfold startElement at started
  dsimp only at started
  split at started
  · cases started
  · cases started
    rfl

/-- A finished element is put somewhere, unless it is a second root. -/
theorem exists_close_iff : (∃ next, builder.close offset element = .ok next) ↔
    (builder.frames = [] → builder.root? = none) := by
  obtain ⟨frames, root?, pending, warnings⟩ := builder
  cases frames with
  | cons frame outer => simp [close]
  | nil => cases root? <;> simp [close]

/-- A finished element is put into the innermost open one or becomes the root, and nothing
else changes. -/
theorem exists_of_close (closed : builder.close offset element = .ok next) :
    ∃ frames root?, frames.length = builder.frames.length ∧
      (root?.isSome = true ↔ builder.root?.isSome = true ∨ builder.frames = []) ∧
      next = { builder with frames, root? } := by
  obtain ⟨frames, root?, pending, warnings⟩ := builder
  cases frames with
  | cons frame outer =>
      cases closed
      refine ⟨_, root?, ?_, by simp, rfl⟩
      rfl
  | nil =>
      cases root? with
      | some root => cases closed
      | none =>
          cases closed
          exact ⟨[], some element, rfl, by simp, rfl⟩

/-- What a tree under construction is after an event that was taken. -/
inductive Steps (builder : Builder) (offset : Nat) : Event → Builder → Prop where
  | start (content : Text) {frame : OpenElement} (bare : frame.content = []) :
      Steps builder offset (.start content)
        { builder.flush with frames := frame :: builder.flush.frames }
  | empty (content : Text) {frame : OpenElement} {next : Builder} (bare : frame.content = [])
      (closed : builder.flush.close offset frame.toElement = .ok next) :
      Steps builder offset (.empty content) next
  | stop (name : Text) {frame : OpenElement} {outer : List OpenElement} {next : Builder}
      (shape : builder.flush.frames = frame :: outer)
      (closed : { builder.flush with frames := outer }.close offset frame.toElement = .ok next) :
      Steps builder offset (.stop name) next
  | text (raw : Text) : Steps builder offset (.text raw) (builder.collect raw)
  | reference (name : Text) :
      Steps builder offset (.reference name) (builder.collect ('&' :: (name ++ [';'])))
  | cdata (content : Text) (inside : builder.frames ≠ []) :
      Steps builder offset (.cdata content) (builder.flush.addText content)
  | other : Steps builder offset .other builder

/-- The inversion of a step, one case for each kind of event. -/
theorem steps_of_step (stepped : builder.step offset event = .ok next) :
    builder.Steps offset event next := by
  cases event with
  | start content =>
      rw [step] at stepped
      cases started : startElement content with
      | error fault =>
          rw [started] at stepped
          cases stepped
      | ok frame =>
          rw [started] at stepped
          cases stepped
          exact .start content (content_of_startElement started)
  | empty content =>
      rw [step] at stepped
      cases started : startElement content with
      | error fault =>
          rw [started] at stepped
          cases stepped
      | ok frame =>
          rw [started] at stepped
          exact .empty content (content_of_startElement started) stepped
  | stop name =>
      rw [step] at stepped
      split at stepped
      · cases stepped
      · next frame outer shape => exact .stop name shape stepped
  | text raw =>
      cases stepped
      exact .text raw
  | reference name =>
      cases stepped
      exact .reference name
  | cdata content =>
      rw [step] at stepped
      split at stepped
      · cases stepped
      · next inside =>
          cases stepped
          exact .cdata content (mt builder.isEmpty_frames_flush.2 inside)
  | other =>
      cases stepped
      exact .other

/-- An event with readable attributes is taken if it stands in an element where it has to,
and completes no second root. -/
theorem exists_step_iff (readable : event.isReadable = true) :
    (∃ next, builder.step offset event = .ok next) ↔
      (event.isInner = true → builder.frames ≠ []) ∧
        (event.completes = true → builder.frames.length = event.closes.toNat →
          builder.root? = none) := by
  cases event with
  | start content =>
      obtain ⟨frame, started⟩ := exists_startElement readable
      rw [step, started]
      exact ⟨fun _ => ⟨nofun, nofun⟩, fun _ => ⟨_, rfl⟩⟩
  | empty content =>
      obtain ⟨frame, started⟩ := exists_startElement readable
      rw [step, started]
      show (∃ next, builder.flush.close offset _ = .ok next) ↔ _
      rw [exists_close_iff, frames_flush_eq_nil_iff, root?_flush, ← List.length_eq_zero_iff]
      exact ⟨fun first => ⟨nofun, fun _ => first⟩, fun both => both.2 rfl⟩
  | stop name =>
      have length := builder.length_frames_flush
      rw [step]
      cases shape : builder.flush.frames with
      | nil =>
          have outside := frames_flush_eq_nil_iff.1 shape
          exact ⟨nofun, fun both => absurd outside (both.1 rfl)⟩
      | cons frame outer =>
          have inside : builder.frames ≠ [] := fun outside => by
            rw [frames_flush_eq_nil_iff.2 outside] at shape
            cases shape
          rw [shape, List.length_cons] at length
          have last : outer = [] ↔ builder.frames.length = 1 := by
            rw [← length, ← List.length_eq_zero_iff]
            omega
          dsimp only
          rw [exists_close_iff]
          dsimp only
          rw [root?_flush, last]
          exact ⟨fun first => ⟨fun _ => inside, fun _ => first⟩, fun both => both.2 rfl⟩
  | text raw => exact ⟨fun _ => ⟨nofun, nofun⟩, fun _ => ⟨_, rfl⟩⟩
  | reference name => exact ⟨fun _ => ⟨nofun, nofun⟩, fun _ => ⟨_, rfl⟩⟩
  | cdata content =>
      rw [step]
      have same := builder.isEmpty_frames_flush
      split
      · next outside => exact ⟨nofun, fun both => absurd (same.1 outside) (both.1 rfl)⟩
      · next inside => exact ⟨fun _ => ⟨fun _ => mt same.2 inside, nofun⟩, fun _ => ⟨_, rfl⟩⟩
  | other => exact ⟨fun _ => ⟨nofun, nofun⟩, fun _ => ⟨_, rfl⟩⟩

/-- An event opens and ends as many elements as it tells. -/
theorem Steps.length_frames (steps : builder.Steps offset event next) :
    next.frames.length + event.closes.toNat = builder.frames.length + event.opens.toNat := by
  have flushed := builder.length_frames_flush
  cases steps with
  | start content bare => exact congrArg (· + 1) flushed
  | empty content bare closed =>
      obtain ⟨frames, root?, length, _, rfl⟩ := exists_of_close closed
      exact length.trans flushed
  | stop name shape closed =>
      obtain ⟨frames, root?, length, _, rfl⟩ := exists_of_close closed
      rw [shape] at flushed
      exact (congrArg (· + 1) length).trans flushed
  | text raw => rfl
  | reference name => rfl
  | cdata content inside =>
      obtain ⟨frames, length, added⟩ := builder.flush.exists_addText content
      rw [added]
      exact length.trans flushed
  | other => rfl

/-- The root is there as soon as an event completes an element outside of all others. -/
theorem Steps.isSome_root? (steps : builder.Steps offset event next) :
    next.root?.isSome = true ↔
      builder.root?.isSome = true ∨ (event.completes = true ∧ next.frames = []) := by
  have flushed := builder.root?_flush
  cases steps with
  | start content bare => simp [flushed, Event.completes]
  | empty content bare closed =>
      obtain ⟨frames, root?, length, rooted, rfl⟩ := exists_of_close closed
      rw [rooted, flushed, ← List.length_eq_zero_iff, ← length, List.length_eq_zero_iff]
      simp [Event.completes]
  | stop name shape closed =>
      obtain ⟨frames, root?, length, rooted, rfl⟩ := exists_of_close closed
      rw [rooted, ← List.length_eq_zero_iff, ← length, List.length_eq_zero_iff]
      simp [flushed, Event.completes]
  | text raw => simp [collect, Event.completes]
  | reference name => simp [collect, Event.completes]
  | cdata content inside =>
      obtain ⟨frames, _, added⟩ := builder.flush.exists_addText content
      rw [added]
      simp [flushed, Event.completes]
  | other => simp [Event.completes]

end Builder

end ForumMarkup.Xml
