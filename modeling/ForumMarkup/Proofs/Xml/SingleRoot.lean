import ForumMarkup.Proofs.Xml.Steps

/-!
Contract: which streams of events make up a document.

Owns:
- `Nested`, events that fit what stands before them, and `SingleRooted`, those that make
  up one element in the end, both said of the beginnings of a stream;
- `Builder.Follows`, what the open elements and the root of a tree under construction
  tell of the events so far.

Main statement: `exists_toReading_iff`.  A stream without a fault and with readable
attributes is taken exactly if it has a single root.

The reasons to refuse a stream are checked at different events and at the end.  Each
event is refused exactly if it does not fit, so that none of them is missed.
-/

set_option autoImplicit false

namespace ForumMarkup.Xml

/-! ### Streams with a single root -/

section

variable {events front : List Event} {event : Event}

def openings (events : List Event) : Nat := events.countP Event.opens

def closings (events : List Event) : Nat := events.countP Event.closes

/-- The last event completes an element, and none is open behind it. -/
structure CompletesRoot (front : List Event) : Prop where
  completes : ∃ last ∈ front.getLast?, last.completes = true
  outside : closings front = openings front

/-- Events that have to stand in an element do so, and no more than one element is
completed outside of all others. -/
structure Nested (events : List Event) : Prop where
  inside : ∀ front inner, front ++ [inner] <+: events → inner.isInner = true →
    closings front < openings front
  single : ∀ one other, one <+: events → other <+: events → CompletesRoot one →
    CompletesRoot other → one = other

/-- The events make up a single element: no element is left open, and exactly one is
completed outside of all others. -/
structure SingleRooted (events : List Event) : Prop extends Nested events where
  closed : closings events = openings events
  rooted : ∃ front, front <+: events ∧ CompletesRoot front

/-- An event fits behind others: it stands in an element if it has to, and it completes no
second root. -/
structure Fits (events : List Event) (event : Event) : Prop where
  inside : event.isInner = true → closings events < openings events
  first : CompletesRoot (events ++ [event]) → ∀ front, front <+: events → ¬CompletesRoot front

theorem openings_concat (events : List Event) (event : Event) :
    openings (events ++ [event]) = openings events + event.opens.toNat := by
  rw [openings, List.countP_append, List.countP_singleton]
  cases event.opens <;> rfl

theorem closings_concat (events : List Event) (event : Event) :
    closings (events ++ [event]) = closings events + event.closes.toNat := by
  rw [closings, List.countP_append, List.countP_singleton]
  cases event.closes <;> rfl

theorem completesRoot_concat_iff :
    CompletesRoot (events ++ [event]) ↔ event.completes = true ∧
      closings events + event.closes.toNat = openings events + event.opens.toNat := by
  rw [← closings_concat, ← openings_concat]
  constructor
  · rintro ⟨⟨last, same, completes⟩, outside⟩
    rw [List.getLast?_concat] at same
    cases same
    exact ⟨completes, outside⟩
  · rintro ⟨completes, outside⟩
    exact ⟨⟨event, List.getLast?_concat, completes⟩, outside⟩

theorem nested_nil : Nested [] where
  inside front inner start := absurd (List.prefix_nil.1 start) (by simp)
  single one other start start' _ _ := by rw [List.prefix_nil.1 start, List.prefix_nil.1 start']

theorem Nested.of_prefix (nested : Nested events) (start : front <+: events) : Nested front where
  inside inner last begin := nested.inside inner last (begin.trans start)
  single one other begin begin' := nested.single one other (begin.trans start) (begin'.trans start)

theorem Nested.fits (nested : Nested (events ++ [event])) : Fits events event where
  inside := nested.inside events event (List.prefix_refl _)
  first whole front start root := by
    have same := nested.single front (events ++ [event]) (start.trans (List.prefix_append _ _))
      (List.prefix_refl _) root whole
    have short := start.length_le
    rw [same, List.length_append] at short
    exact absurd short (by simp)

/-- An event that fits can be added. -/
theorem Nested.concat (nested : Nested events) (fits : Fits events event) :
    Nested (events ++ [event]) where
  inside front inner start isInner := by
    rcases List.prefix_concat_iff.1 start with same | before
    · obtain ⟨rfl, last⟩ := List.append_inj' same rfl
      cases last
      exact fits.inside isInner
    · exact nested.inside front inner before isInner
  single one other start start' root root' := by
    rcases List.prefix_concat_iff.1 start with rfl | before
    · rcases List.prefix_concat_iff.1 start' with rfl | before'
      · rfl
      · exact absurd root' (fits.first root other before')
    · rcases List.prefix_concat_iff.1 start' with rfl | before'
      · exact absurd root (fits.first root' one before)
      · exact nested.single one other before before' root root'

end

/-! ### Whole streams -/

namespace Builder

variable {events : List Event} {builder next : Builder} {offset : Nat} {event : Event}

/-- What a tree under construction tells of the events so far: the number of open
elements, and whether a root is complete. -/
structure Follows (events : List Event) (builder : Builder) : Prop where
  depth : builder.frames.length + closings events = openings events
  root : builder.root?.isSome = true ↔ ∃ front, front <+: events ∧ CompletesRoot front

theorem follows_nil : Follows [] {} where
  depth := rfl
  root := by
    constructor
    · nofun
    · rintro ⟨front, start, ⟨last, there, _⟩, _⟩
      rw [List.prefix_nil.1 start] at there
      cases there

/-- An event is taken exactly if it fits the events so far. -/
theorem Follows.exists_step_iff (follows : Follows events builder)
    (readable : event.isReadable = true) (offset : Nat) :
    (∃ next, builder.step offset event = .ok next) ↔ Fits events event := by
  have depth := follows.depth
  have inside : builder.frames ≠ [] ↔ closings events < openings events := by
    rw [← List.length_pos_iff]
    omega
  have whole : CompletesRoot (events ++ [event]) ↔
      event.completes = true ∧ builder.frames.length = event.closes.toNat := by
    rw [completesRoot_concat_iff]
    refine and_congr_right fun completes => ?_
    rw [Event.opens_of_completes completes, Bool.toNat_false]
    omega
  have first : builder.root? = none ↔ ∀ front, front <+: events → ¬CompletesRoot front := by
    rw [← Option.not_isSome_iff_eq_none, follows.root]
    simp only [not_exists, not_and]
  rw [Builder.exists_step_iff readable, inside, first]
  constructor
  · rintro ⟨within, single⟩
    exact ⟨within, fun root => single (whole.1 root).1 (whole.1 root).2⟩
  · rintro ⟨within, single⟩
    exact ⟨within, fun completes last => single (whole.2 ⟨completes, last⟩)⟩

/-- The step of the proof: an event that is taken moves the depth and the root as the events
tell. -/
theorem Follows.concat (follows : Follows events builder)
    (steps : builder.Steps offset event next) : Follows (events ++ [event]) next where
  depth := by
    have before := follows.depth
    have after := steps.length_frames
    rw [openings_concat, closings_concat]
    omega
  root := by
    have before := follows.depth
    have after := steps.length_frames
    have whole : CompletesRoot (events ++ [event]) ↔
        event.completes = true ∧ next.frames = [] := by
      rw [completesRoot_concat_iff, ← List.length_eq_zero_iff]
      refine and_congr_right fun _ => ?_
      omega
    rw [steps.isSome_root?, follows.root, ← whole]
    constructor
    · rintro (⟨front, start, root⟩ | root)
      · exact ⟨front, start.trans (List.prefix_append _ _), root⟩
      · exact ⟨_, List.prefix_refl _, root⟩
    · rintro ⟨front, start, root⟩
      rcases List.prefix_concat_iff.1 start with rfl | before
      · exact .inr root
      · exact .inl ⟨front, before, root⟩

/-- Further events are all taken exactly if they fit behind those before. -/
theorem Follows.exists_run_iff {rest : List (Nat × Event)}
    (readable : ∀ event ∈ rest, event.2.isReadable = true) (nested : Nested events)
    (follows : Follows events builder) :
    (∃ last, builder.run rest = .ok last) ↔ Nested (events ++ rest.map Prod.snd) := by
  induction rest generalizing events builder with
  | nil =>
      rw [List.map_nil, List.append_nil]
      exact ⟨fun _ => nested, fun _ => ⟨builder, rfl⟩⟩
  | cons entry rest ih =>
      obtain ⟨offset, event⟩ := entry
      obtain ⟨here, later⟩ := List.forall_mem_cons.1 readable
      have taken := follows.exists_step_iff here offset
      have whole : events ++ ((offset, event) :: rest).map Prod.snd
          = events ++ [event] ++ rest.map Prod.snd := by
        rw [List.map_cons, List.append_assoc]
        rfl
      rw [Builder.run, whole]
      cases stepped : builder.step offset event with
      | error fault =>
          have misfits : ¬Fits events event := by
            rw [← taken, stepped]
            nofun
          refine ⟨nofun, fun all => absurd ?_ misfits⟩
          exact (all.of_prefix (List.prefix_append _ _)).fits
      | ok next =>
          have fits := taken.1 ⟨next, stepped⟩
          exact ih later (nested.concat fits) (follows.concat (steps_of_step stepped))

/-- What every event keeps holds at the end of a run. -/
theorem run_induction (p : List Event → Builder → Prop)
    (kept : ∀ {events : List Event} {builder next : Builder} {offset : Nat} {event : Event},
      p events builder → builder.Steps offset event next → p (events ++ [event]) next)
    (events : List Event) {rest : List (Nat × Event)} (start : p events builder) {last : Builder}
    (ran : builder.run rest = .ok last) : p (events ++ rest.map Prod.snd) last := by
  induction rest generalizing events builder with
  | nil =>
      cases ran
      rw [List.map_nil, List.append_nil]
      exact start
  | cons entry rest ih =>
      obtain ⟨offset, event⟩ := entry
      rw [run] at ran
      cases stepped : builder.step offset event with
      | error fault =>
          rw [stepped] at ran
          cases ran
      | ok next =>
          rw [stepped] at ran
          have whole := ih (events ++ [event]) (kept start (steps_of_step stepped)) ran
          rw [List.append_assoc] at whole
          exact whole

/-- At the end no element may be open, and a root has to be there. -/
theorem exists_finish_iff :
    (∃ reading, builder.finish = .ok reading) ↔
      builder.frames = [] ∧ builder.root?.isSome = true := by
  rw [← frames_flush_eq_nil_iff, ← root?_flush, finish]
  dsimp only
  cases builder.flush.frames with
  | cons frame outer => simp
  | nil =>
      cases builder.flush.root? with
      | none => simp
      | some root => simp

end Builder

/-- A stream without a fault and with readable attributes is taken exactly if it has a
single root. -/
theorem exists_toReading_iff {events : List (Nat × Event)}
    (readable : ∀ event ∈ events, event.2.isReadable = true) :
    (∃ reading, Stream.toReading { events } = .ok reading) ↔
      SingleRooted (events.map Prod.snd) := by
  have taken := Builder.follows_nil.exists_run_iff readable nested_nil
  rw [List.nil_append] at taken
  unfold Stream.toReading
  dsimp only
  cases ran : Builder.run {} events with
  | error fault =>
      rw [ran] at taken
      exact ⟨nofun, fun rooted => absurd (taken.2 rooted.toNested) nofun⟩
  | ok last =>
      have nested := taken.1 ⟨last, ran⟩
      have follows := Builder.run_induction _ Builder.Follows.concat [] Builder.follows_nil ran
      rw [List.nil_append] at follows
      have depth := follows.depth
      show (∃ reading, last.finish = .ok reading) ↔ _
      rw [Builder.exists_finish_iff, ← List.length_eq_zero_iff, follows.root]
      constructor
      · rintro ⟨outside, rooted⟩
        exact ⟨nested, by omega, rooted⟩
      · rintro ⟨_, closed, rooted⟩
        exact ⟨by omega, rooted⟩

end ForumMarkup.Xml
