import ForumMarkup.Element.Post
import ForumMarkup.Proofs.Xml.Steps
import ForumMarkup.Proofs.Xml.Tags
import ForumMarkup.Xml

/-!
Contract: reading written XML gives back the tree it was written for.

Owns:
- `resume`, the reading of the rest of a document in the middle of it, with one
  equation for each kind of event;
- `Builder.Grows`, two trees under construction that differ by some nodes, and `Reads`,
  the nodes whose text makes just that difference.

Main statement: `read_of_writes`.

The scanner cuts text at every reference, and what it cuts is joined again by the
builder before any reference is replaced.  Trees under construction are therefore
compared after a flush.
-/

set_option autoImplicit false

namespace ForumMarkup.Xml

variable {names : List Text} {builder : Builder}

/-! ### The rest of a document -/

/-- The reading of a text in the middle of a document; `names` are the names of the open
elements, the innermost one first. -/
def resume (offset : Nat) (names : List Text) (builder : Builder) (t : Text) :
    Except DocumentFault (Reading Element) := do
  let scanned := scanFrom offset t
  let stream := Stream.matchEndsFrom scanned.fault? names scanned.events
  let next ← builder.run stream.events
  match stream.fault? with
  | some (place, fault) => .error (.markup place fault)
  | none => next.finish

theorem read_eq_resume {t : Text} (noMark : t.head? ≠ some '\ufeff') :
    read t = resume 0 [] {} t := by
  have scanned : scan t = scanFrom 0 t := by
    unfold scan
    split
    · exact absurd rfl noMark
    · rfl
  rw [read, scanned]
  rfl

theorem resume_nil (offset : Nat) (names : List Text) (builder : Builder) :
    resume offset names builder [] = builder.finish := by
  rw [resume, scanFrom]
  rfl

theorem scanFrom_of_nextEvent {c : Char} {t taken rest : Text} {event : Event}
    (found : nextEvent c t = .ok (event, taken, rest)) (offset : Nat) :
    scanFrom offset (c :: t)
      = (scanFrom (offset + Text.byteLength (c :: taken)) rest).cons (offset, event) := by
  rw [scanFrom]
  split
  · next distance fault other =>
      rw [found] at other
      cases other
  · next event' taken' rest' other =>
      rw [found] at other
      cases other
      rfl

/-- An event that fits the open elements and that the builder takes is passed. -/
theorem resume_of_nextEvent {c : Char} {t taken rest : Text} {event : Event}
    (found : nextEvent c t = .ok (event, taken, rest)) {after : List Text}
    (fits : ∀ fault? place events, Stream.matchEndsFrom fault? names ((place, event) :: events)
      = (Stream.matchEndsFrom fault? after events).cons (place, event))
    {next : Builder} (stepped : ∀ place, builder.step place event = .ok next) (offset : Nat) :
    resume offset names builder (c :: t)
      = resume (offset + Text.byteLength (c :: taken)) after next rest := by
  rw [resume, scanFrom_of_nextEvent found]
  dsimp only [Stream.cons]
  rw [fits]
  dsimp only [Stream.cons]
  rw [Builder.run, stepped]
  rfl

/-! ### Text -/

theorem collect_append (builder : Builder) (front back : Text) :
    builder.collect (front ++ back) = (builder.collect front).collect back := by
  simp [Builder.collect]

theorem resume_run {c : Char} (textual : isTextual c = true) (offset : Nat) (names : List Text)
    (builder : Builder) (t : Text) :
    resume offset names builder (c :: t)
      = resume (offset + Text.byteLength (c :: t.takeWhile isTextual)) names
          (builder.collect (c :: t.takeWhile isTextual)) (t.dropWhile isTextual) := by
  have noTag : c ≠ '<' := by
    rintro rfl
    cases textual
  have noReference : c ≠ '&' := by
    rintro rfl
    cases textual
  have found : nextEvent c t = .ok (.text (c :: t.takeWhile isTextual), t.takeWhile isTextual,
      t.dropWhile isTextual) := by
    rw [nextEvent, if_neg noTag, if_neg noReference]
  exact resume_of_nextEvent found (fun _ _ _ => rfl) (fun _ => rfl) offset

/-- A run of text may be cut at any place. -/
theorem resume_char {c : Char} (textual : isTextual c = true) (offset : Nat) (names : List Text)
    (builder : Builder) (t : Text) :
    resume offset names builder (c :: t)
      = resume (offset + Text.byteLength [c]) names (builder.collect [c]) t := by
  rw [resume_run textual]
  cases t with
  | nil => rfl
  | cons d more =>
      cases next : isTextual d with
      | false =>
          have other : ¬isTextual d = true := by simp [next]
          rw [List.takeWhile_cons_of_neg other, List.dropWhile_cons_of_neg other]
      | true =>
          rw [List.takeWhile_cons_of_pos next, List.dropWhile_cons_of_pos next, resume_run next,
            ← collect_append]
          have length : Text.byteLength (c :: d :: more.takeWhile isTextual)
              = Text.byteLength [c] + Text.byteLength (d :: more.takeWhile isTextual) :=
            Text.byteLength_append [c] _
          rw [length, Nat.add_assoc]
          rfl

/-- A reference is collected as it is written, to be replaced with the text around it. -/
theorem resume_reference {name : Text} (letters : ∀ c ∈ name, c.isAlpha = true) (offset : Nat)
    (names : List Text) (builder : Builder) (t : Text) :
    ∃ place, resume offset names builder ('&' :: (name ++ ';' :: t))
      = resume place names (builder.collect ('&' :: (name ++ [';']))) t := by
  have inside : ∀ c ∈ name, (c != ';' && c != '&' && c != '<') = true := by
    intro c member
    have letter := letters c member
    simp [Entity.ne_of_isAlpha letter (d := ';') (by decide),
      Entity.ne_of_isAlpha letter (d := '&') (by decide),
      Entity.ne_of_isAlpha letter (d := '<') (by decide)]
  have found : nextEvent '&' (name ++ ';' :: t) = .ok (.reference name, name ++ [';'], t) := by
    rw [nextEvent, if_neg (by decide), if_pos rfl]
    unfold scanReference
    dsimp only
    rw [List.dropWhile_append_of_pos inside, List.takeWhile_append_of_pos inside,
      List.dropWhile_cons_of_neg (by decide), List.takeWhile_cons_of_neg (by decide),
      List.append_nil]
    rfl
  exact ⟨_, resume_of_nextEvent found (fun _ _ _ => rfl) (fun _ => rfl) offset⟩

/-- Written text is collected as it is written, whatever follows it. -/
theorem resume_escape (content : Text) (offset : Nat) (names : List Text) (builder : Builder)
    (t : Text) :
    ∃ place, resume offset names builder (Entity.escape content ++ t)
      = resume place names (builder.collect (Entity.escape content)) t := by
  induction content generalizing offset builder with
  | nil => exact ⟨offset, rfl⟩
  | cons c more ih =>
      rw [Entity.escape_cons, List.append_assoc, collect_append]
      rcases Entity.escapeChar_eq_or c with ⟨plain, amp, lt, _⟩ | ⟨name, written, named⟩
      · have textual : isTextual c = true := by simp [isTextual, amp, lt]
        obtain ⟨place, later⟩ := ih (offset + Text.byteLength [c]) (builder.collect [c])
        refine ⟨place, ?_⟩
        rw [plain, List.singleton_append, resume_char textual, later]
      · obtain ⟨middle, first⟩ := resume_reference named.letters offset names builder
          (Entity.escape more ++ t)
        obtain ⟨place, later⟩ := ih middle (builder.collect ('&' :: (name ++ [';'])))
        refine ⟨place, ?_⟩
        rw [written, List.cons_append, List.append_assoc, List.singleton_append, first, later]

/-! ### Nodes -/

/-- The tree under construction with a flush, in its innermost open element some nodes
more, and nothing collected. -/
def Builder.Grows (builder : Builder) (nodes : List Node) (next : Builder) : Prop :=
  ∃ frame outer, builder.flush.frames = frame :: outer ∧
    next.flush = { builder.flush with
      frames := { frame with content := nodes.reverse ++ frame.content } :: outer }

/-- Text can start here without being joined to text before it. -/
structure Builder.Fresh (builder : Builder) : Prop where
  settled : builder.pending = []
  apart : ∀ frame ∈ builder.frames.head?, ∀ last ∈ frame.content.head?, ¬last.isText

namespace Builder

theorem flush_of_settled (settled : builder.pending = []) : builder.flush = builder :=
  if_pos settled

/-- A flush in an open element adds the collected text to that element. -/
theorem flush_of_frames {frame : OpenElement} {outer : List OpenElement}
    (shape : builder.frames = frame :: outer) (filled : builder.pending ≠ []) :
    builder.flush
      = { builder with pending := [] }.addText (Entity.decode builder.pending.reverse) := by
  rw [flush, if_neg filled]
  dsimp only
  rw [if_neg (by rw [shape]; exact Bool.false_ne_true)]

theorem exists_frames_flush (inside : builder.frames ≠ []) :
    ∃ frame outer, builder.flush.frames = frame :: outer := by
  obtain ⟨frame, outer, shape⟩ := List.exists_cons_of_ne_nil inside
  by_cases settled : builder.pending = []
  · rw [flush_of_settled settled]
    exact ⟨frame, outer, shape⟩
  · rw [flush_of_frames shape settled, addText]
    dsimp only
    rw [shape]
    exact ⟨_, outer, rfl⟩

theorem Grows.refl (inside : builder.frames ≠ []) : builder.Grows [] builder := by
  obtain ⟨frame, outer, shape⟩ := exists_frames_flush inside
  refine ⟨frame, outer, shape, ?_⟩
  rw [List.reverse_nil, List.nil_append, ← shape]

theorem Grows.trans {middle next : Builder} {front back : List Node}
    (before : builder.Grows front middle) (after : middle.Grows back next) :
    builder.Grows (front ++ back) next := by
  obtain ⟨frame, outer, shape, grown⟩ := before
  obtain ⟨frame', outer', shape', grown'⟩ := after
  rw [grown] at shape' grown'
  obtain ⟨rfl, rfl⟩ := List.cons.inj shape'
  refine ⟨frame, outer, shape, ?_⟩
  rw [grown', List.reverse_append, List.append_assoc]

theorem Grows.frames_ne_nil {nodes : List Node} {next : Builder}
    (grows : builder.Grows nodes next) : next.frames ≠ [] := by
  obtain ⟨frame, outer, _, grown⟩ := grows
  intro outside
  have none := frames_flush_eq_nil_iff.2 outside
  rw [grown] at none
  cases none

/-- Collected text grows to its leaf. -/
theorem grows_collect {content : Text} (filled : content ≠ []) (inside : builder.frames ≠ [])
    (fresh : builder.Fresh) :
    builder.Grows [.text content] (builder.collect (Entity.escape content)) := by
  obtain ⟨frame, outer, shape⟩ := List.exists_cons_of_ne_nil inside
  have collected : (builder.collect (Entity.escape content)).pending
      = (Entity.escape content).reverse := by
    simp [collect, fresh.settled]
  have filledThere : (builder.collect (Entity.escape content)).pending ≠ [] := by
    rw [collected]
    exact mt List.reverse_eq_nil_iff.1 (Entity.escape_ne_nil filled)
  have shapeThere : (builder.collect (Entity.escape content)).frames = frame :: outer := shape
  have emptied : { builder.collect (Entity.escape content) with pending := [] } = builder := by
    obtain ⟨frames, root?, pending, warnings⟩ := builder
    cases fresh.settled
    rfl
  refine ⟨frame, outer, ?_, ?_⟩
  · rw [flush_of_settled fresh.settled, shape]
  · rw [flush_of_frames shapeThere filledThere, emptied, collected, List.reverse_reverse,
      Entity.decode_escape, flush_of_settled fresh.settled, addText, shape]
    dsimp only
    split
    · next before rest same =>
        have apart := fresh.apart frame (by rw [shape]; rfl) (.text before) (by rw [same]; rfl)
        exact absurd rfl apart
    · rfl

def enter (builder : Builder) (frame : OpenElement) : Builder :=
  { builder.flush with frames := frame :: builder.flush.frames }

theorem flush_enter (builder : Builder) (frame : OpenElement) :
    (builder.enter frame).flush = builder.enter frame :=
  flush_of_settled (pending_flush builder)

/-- Everything is fresh in an element that has just been opened. -/
theorem fresh_enter (builder : Builder) (tag : String) (attributes : Attributes) :
    (builder.enter { tag, attributes }).Fresh := by
  refine ⟨pending_flush builder, ?_⟩
  rintro frame ⟨⟩ last none
  cases none

end Builder

/-! ### Elements -/

/-- A text is read as the nodes that it was written for, in any open element and
whatever follows. -/
def Reads (nodes : List Node) (t : Text) : Prop :=
  ∀ (offset : Nat) (names : List Text) (builder : Builder) (rest : Text), builder.frames ≠ [] →
    ((∃ node ∈ nodes.head?, node.isText) → builder.Fresh) →
    ∃ place next, resume offset names builder (t ++ rest) = resume place names next rest ∧
      builder.Grows nodes next

section

variable {tag : String} {attributes : Attributes} {entries : List (String × Text)}

theorem resume_short (named : IsName tag) (keyed : ∀ entry ∈ attributes.entries, IsName entry.1)
    (listed : entries.Perm attributes.entries) {closed : Builder}
    (closes : ∀ place, builder.flush.close place ⟨tag, attributes, []⟩ = .ok closed)
    (offset : Nat) (names : List Text) (rest : Text) :
    ∃ place, resume offset names builder ('<' :: (tagText tag entries ++ '/' :: '>' :: rest))
      = resume place names closed rest := by
  have keyedHere : ∀ entry ∈ entries, IsName entry.1 :=
    fun entry member => keyed entry (listed.mem_iff.1 member)
  have stepped (place : Nat) : builder.step place (.empty (tagText tag entries)) = .ok closed := by
    rw [Builder.step, startElement_tagText named keyed listed]
    exact closes place
  have found := nextEvent_empty named keyedHere rest
  exact ⟨_, resume_of_nextEvent found (fun _ _ _ => rfl) stepped offset⟩

/-- A start tag opens its element, in whatever order the attributes are written. -/
theorem resume_start (named : IsName tag) (keyed : ∀ entry ∈ attributes.entries, IsName entry.1)
    (listed : entries.Perm attributes.entries) (offset : Nat) (names : List Text)
    (builder : Builder) (rest : Text) :
    ∃ place, resume offset names builder ('<' :: (tagText tag entries ++ '>' :: rest))
      = resume place (tag.toList :: names) (builder.enter { tag, attributes }) rest := by
  have keyedHere : ∀ entry ∈ entries, IsName entry.1 :=
    fun entry member => keyed entry (listed.mem_iff.1 member)
  have stepped (place : Nat) : builder.step place (.start (tagText tag entries))
      = .ok (builder.enter { tag, attributes }) := by
    rw [Builder.step, startElement_tagText named keyed listed]
    rfl
  have fits (fault? : Option (Nat × Fault)) (place : Nat) (events : List (Nat × Event)) :
      Stream.matchEndsFrom fault? names ((place, .start (tagText tag entries)) :: events)
        = (Stream.matchEndsFrom fault? (tag.toList :: names) events).cons
            (place, .start (tagText tag entries)) := by
    rw [Stream.matchEndsFrom, (cut_tagText named entries).1]
  have found := nextEvent_start named keyedHere rest
  exact ⟨_, resume_of_nextEvent found fits stepped offset⟩

/-- The end tag of an element closes it, with the text collected so far as its last child. -/
theorem resume_stop (named : IsName tag) {children : List Node} {filled closed : Builder}
    (whole : filled.flush = builder.enter { tag, attributes, content := children.reverse })
    (closes : ∀ place, builder.flush.close place ⟨tag, attributes, children⟩ = .ok closed)
    (offset : Nat) (names : List Text) (rest : Text) :
    ∃ place, resume offset (tag.toList :: names) filled ('<' :: '/' :: (tag.toList ++ '>' :: rest))
      = resume place names closed rest := by
  have stepped (place : Nat) : filled.step place (.stop tag.toList) = .ok closed := by
    have element : (⟨tag, attributes, children.reverse⟩ : OpenElement).toElement
        = ⟨tag, attributes, children⟩ := by
      rw [OpenElement.toElement, List.reverse_reverse]
    rw [Builder.step, whole, Builder.enter]
    dsimp only
    rw [element]
    exact closes place
  have fits (fault? : Option (Nat × Fault)) (place : Nat) (events : List (Nat × Event)) :
      Stream.matchEndsFrom fault? (tag.toList :: names) ((place, .stop tag.toList) :: events)
        = (Stream.matchEndsFrom fault? names events).cons (place, .stop tag.toList) :=
    if_pos rfl
  have found := nextEvent_stop named rest
  exact ⟨_, resume_of_nextEvent found fits stepped offset⟩

/-- An element is read from what it was written as when its children are. -/
theorem resume_element (named : IsName tag) (keyed : ∀ entry ∈ attributes.entries, IsName entry.1)
    (listed : entries.Perm attributes.entries) {children : List Node} {inner : Text}
    (reads : Reads children inner) {closed : Builder}
    (closes : ∀ place, builder.flush.close place ⟨tag, attributes, children⟩ = .ok closed)
    (offset : Nat) (names : List Text) (rest : Text) :
    ∃ place, resume offset names builder ('<' :: (tagText tag entries
        ++ '>' :: (inner ++ '<' :: '/' :: (tag.toList ++ '>' :: rest))))
      = resume place names closed rest := by
  obtain ⟨start, opened⟩ := resume_start named keyed listed offset names builder
    (inner ++ '<' :: '/' :: (tag.toList ++ '>' :: rest))
  obtain ⟨finish, filled, read, frame, outer, shape, grown⟩ :=
    reads start (tag.toList :: names) (builder.enter { tag, attributes })
      ('<' :: '/' :: (tag.toList ++ '>' :: rest)) (List.cons_ne_nil _ _)
      fun _ => builder.fresh_enter tag attributes
  rw [Builder.flush_enter] at shape grown
  obtain ⟨rfl, rfl⟩ := List.cons.inj shape
  rw [List.append_nil] at grown
  obtain ⟨place, closedThere⟩ := resume_stop named grown closes finish names rest
  exact ⟨place, by rw [opened, read, closedThere]⟩

end

/-! ### Nodes in a row -/

theorem Reads.nil : Reads [] [] := fun offset _ builder _ inside _ =>
  ⟨offset, builder, rfl, .refl inside⟩

/-- An element that is put into the innermost open one. -/
theorem exists_close (inside : builder.frames ≠ []) (element : Element) :
    ∃ closed : Builder, (∀ place, builder.flush.close place element = .ok closed) ∧
      builder.Grows [element.toNode] closed ∧ closed.Fresh := by
  obtain ⟨frame, outer, shape⟩ := Builder.exists_frames_flush inside
  let closed : Builder := { builder.flush with
    frames := { frame with content := element.toNode :: frame.content } :: outer }
  have settled : closed.pending = [] := builder.pending_flush
  refine ⟨closed, fun place => ?_, ⟨frame, outer, shape, ?_⟩, settled, ?_⟩
  · rw [Builder.close, shape]
  · rw [Builder.flush_of_settled settled]
    rfl
  · rintro inner ⟨⟩ last ⟨⟩ text
    cases text

/-- An element in front of nodes that are read, when its own text closes it there. -/
theorem Reads.of_element {element : Element} {nodes : List Node} {whole t : Text}
    (later : Reads nodes t)
    (head : ∀ (offset : Nat) (names : List Text) (builder closed : Builder) (rest : Text),
      (∀ place, builder.flush.close place element = .ok closed) →
      ∃ place,
        resume offset names builder (whole ++ rest) = resume place names closed (t ++ rest)) :
    Reads (element.toNode :: nodes) whole := by
  intro offset names builder rest inside _
  obtain ⟨closed, closes, grows, fresh⟩ := exists_close inside element
  obtain ⟨middle, first⟩ := head offset names builder closed rest closes
  obtain ⟨place, next, ran, growsLater⟩ :=
    later middle names closed rest grows.frames_ne_nil fun _ => fresh
  exact ⟨place, next, by rw [first, ran], grows.trans growsLater⟩

/-- Written nodes are read back, in any open element. -/
theorem reads_of_writes {nodes : List Node} {t : Text} (writes : Writes nodes t)
    (storable : ∀ node ∈ nodes, node.Storable) (apart : Bbcode.Apart nodes) : Reads nodes t := by
  induction writes with
  | nil => exact .nil
  | @text content nodes t later ih =>
      obtain ⟨⟨filled⟩, storableLater⟩ := List.forall_mem_cons.1 storable
      intro offset names builder rest inside ready
      obtain ⟨middle, first⟩ := resume_escape content offset names builder (t ++ rest)
      have grows := Builder.grows_collect filled inside (ready ⟨.text content, rfl, rfl⟩)
      obtain ⟨place, next, ran, growsLater⟩ :=
        ih storableLater apart.2 middle names (builder.collect (Entity.escape content)) rest inside
          fun ⟨next, isFirst, text⟩ => absurd text (apart.1 rfl next isFirst)
      refine ⟨place, next, ?_, grows.trans growsLater⟩
      rw [List.append_assoc, first, ran]
  | @short tag attributes entries nodes t listed later ih =>
      obtain ⟨element, storableLater⟩ := List.forall_mem_cons.1 storable
      cases element with
      | element named keyed _ _ =>
          show Reads (Element.toNode ⟨tag, attributes, []⟩ :: nodes) _
          refine Reads.of_element (ih storableLater apart.2) ?_
          intro offset names builder closed rest closes
          rw [List.cons_append, List.append_assoc]
          exact resume_short named keyed listed closes offset names (t ++ rest)
  | @element tag attributes entries children nodes inner t listed within later ihWithin ih =>
      obtain ⟨element, storableLater⟩ := List.forall_mem_cons.1 storable
      cases element with
      | element named keyed storableInner apartInner =>
          have reads := ihWithin storableInner apartInner
          show Reads (Element.toNode ⟨tag, attributes, children⟩ :: nodes) _
          refine Reads.of_element (ih storableLater apart.2) ?_
          intro offset names builder closed rest closes
          obtain ⟨place, closedThere⟩ := resume_element named keyed listed reads closes offset names
            (t ++ rest)
          refine ⟨place, ?_⟩
          rw [← closedThere]
          simp

/-! ### Documents -/

/-- A tree of a post is read back from every way to write it, without a warning. -/
theorem read_of_writes {root : Element} (storable : root.toNode.Storable)
    (rooted : root.tag = Tag.richRoot ∨ root.tag = Tag.plainRoot) {t : Text}
    (writes : Writes [root.toNode] t) : read t = .ok { value := root, warnings := [] } := by
  obtain ⟨tag, attributes, children⟩ := root
  have closes (place : Nat) : ({} : Builder).flush.close place ⟨tag, attributes, children⟩
      = .ok { root? := some ⟨tag, attributes, children⟩ } := rfl
  have finished : ({ root? := some ⟨tag, attributes, children⟩ } : Builder).finish
      = .ok { value := ⟨tag, attributes, children⟩, warnings := [] } := by
    have known : (tag == Tag.richRoot || tag == Tag.plainRoot) = true := by
      simpa using rooted
    show Except.ok (if (tag == Tag.richRoot || tag == Tag.plainRoot) = true then _ else _) = _
    rw [if_pos known]
    rfl
  cases storable with
  | element named keyed inner apart =>
      cases writes with
      | short listed later =>
          cases later
          obtain ⟨place, closed⟩ := resume_short named keyed listed closes 0 [] []
          rw [read_eq_resume (by simp), closed, resume_nil, finished]
      | element listed within later =>
          cases later
          obtain ⟨place, closed⟩ := resume_element named keyed listed
            (reads_of_writes within inner apart) closes 0 [] []
          rw [read_eq_resume (by simp), closed, resume_nil, finished]

/-- A post with a link, a text that looks like a reference, and two line breaks. -/
def storedPost : Element where
  tag := Tag.richRoot
  children := [.wrapWith "URL" "url" "?a&b=\x22".toList [.text "x".toList],
    .text "&lt; <b>\n".toList, .wrap "br" [], .wrap "br" []]

def storedText : Text :=
  ("<r><URL url=\x22?a&amp;b=&quot;\x22>x</URL>"
    ++ "&amp;lt; &lt;b&gt;\n<br/><br></br></r>").toList

theorem storable_storedPost : storedPost.toNode.Storable := by
  have keyless : ∀ entry ∈ (∅ : Attributes).entries, IsName entry.1 := nofun
  have lineBreak : Node.Storable (.wrap "br" []) :=
    .element ⟨by decide, List.all_eq_true.1 (by decide)⟩ keyless nofun trivial
  have label : Node.Storable (.text "x".toList) := .text (by decide)
  have link : Node.Storable (.wrapWith "URL" "url" "?a&b=\x22".toList [.text "x".toList]) := by
    have apart : Bbcode.Apart [.text "x".toList] := ⟨fun _ => nofun, trivial⟩
    refine .element ⟨by decide, List.all_eq_true.1 (by decide)⟩ ?_
      (List.forall_mem_singleton.2 label) apart
    exact List.forall_mem_singleton.2 ⟨by decide, List.all_eq_true.1 (by decide)⟩
  have text : Node.Storable (.text "&lt; <b>\n".toList) := .text (by decide)
  have apart : Bbcode.Apart storedPost.children := by
    simp [storedPost, Bbcode.Apart, Node.isText, Node.tag?, Node.wrap, Node.wrapWith]
  refine .element ⟨by decide, List.all_eq_true.1 (by decide)⟩ keyless ?_ apart
  simp only [storedPost, List.forall_mem_cons]
  exact ⟨link, text, lineBreak, lineBreak, nofun⟩

theorem read_storedText :
    storedPost.toNode.Storable ∧ (storedPost.tag = Tag.richRoot ∨ storedPost.tag = Tag.plainRoot) ∧
      Writes [storedPost.toNode] storedText ∧
      read storedText = .ok { value := storedPost, warnings := [] } := by
  have lineBreaks : Writes [.wrap "br" [], .wrap "br" []] "<br/><br></br>".toList :=
    .short (.refl _) (.element (.refl _) .nil .nil)
  have label : Writes [.text "x".toList] "x".toList := .text .nil
  have writes : Writes [storedPost.toNode] storedText :=
    .element (.refl _) (.element (.refl _) label (.text lineBreaks)) .nil
  have rooted : storedPost.tag = Tag.richRoot ∨ storedPost.tag = Tag.plainRoot := .inl rfl
  exact ⟨storable_storedPost, rooted, writes, read_of_writes storable_storedPost rooted writes⟩

end ForumMarkup.Xml
