import ForumMarkup.Element
import ForumMarkup.Entity.Decode
import ForumMarkup.Warning
import ForumMarkup.Xml.AttributeList

/-!
Contract: the tree that the events of a document make up.

Owns:
- `DocumentFault`, the reasons for which a document is refused, with their
  messages;
- `Builder`, a tree under construction, and `Builder.step`, what an event adds;
- `Stream.toReading`, the tree of a stream of events.

References are replaced once, in text that is joined across comments and
instructions.  Text outside the root is dropped with a warning unless it is blank.
-/

set_option autoImplicit false

namespace ForumMarkup.Xml

inductive DocumentFault where
  | markup (offset : Nat) (fault : Fault)
  | badAttribute (tag : Text) (place : Nat) (fault : AttributeFault)
  | unexpectedEnd (offset : Nat)
  | strayCData (offset : Nat)
  | secondRoot (tag : String) (offset : Nat)
  | unclosed (tag : String)
  | noRoot
  deriving DecidableEq, Repr

def DocumentFault.message : DocumentFault → String
  | markup offset fault => "XML parse error at " ++ Nat.repr offset ++ ": " ++ fault.message
  | badAttribute tag place fault =>
      "bad attribute on <" ++ String.ofList tag ++ ">: position " ++ Nat.repr place ++ ": "
        ++ fault.message
  | unexpectedEnd offset => "unexpected end tag at " ++ Nat.repr offset
  | strayCData offset => "character data outside the root element at " ++ Nat.repr offset
  | secondRoot tag offset => "second root element <" ++ tag ++ "> at " ++ Nat.repr offset
  | unclosed tag => "element <" ++ tag ++ "> is never closed"
  | noRoot => "no root element"

structure OpenElement where
  tag : String
  attributes : Attributes
  /-- The children so far, the last one first. -/
  content : List Node := []

def OpenElement.toElement (frame : OpenElement) : Element where
  tag := frame.tag
  attributes := frame.attributes
  children := frame.content.reverse

/-- A tree under construction. -/
structure Builder where
  /-- The open elements, the innermost one first. -/
  frames : List OpenElement := []
  root? : Option Element := none
  /-- Text with its references as written, newest character first. -/
  pending : Text := []
  /-- The warnings so far, the last one first. -/
  warnings : List Warning := []

def outsideWarning : Warning where
  severity := .major
  cause := .misplaced "text"
  message := "text outside the root element dropped"

def rootWarning (tag : String) : Warning where
  severity := .info
  cause := .misplaced tag
  message := "root element <" ++ tag ++ "> is neither <r> nor <t>"

namespace Builder

/-- Adds text to the innermost open element, joined with text just before it. -/
def addText (builder : Builder) (text : Text) : Builder :=
  match builder.frames with
  | [] => builder
  | frame :: outer =>
      let content :=
        match frame.content with
        | .text before :: rest => .text (before ++ text) :: rest
        | content => .text text :: content
      { builder with frames := { frame with content } :: outer }

def flush (builder : Builder) : Builder :=
  if builder.pending = [] then builder
  else
    let text := Entity.decode builder.pending.reverse
    let emptied := { builder with pending := [] }
    if builder.frames.isEmpty then
      if Text.allBlank text then emptied
      else { emptied with warnings := outsideWarning :: emptied.warnings }
    else emptied.addText text

def collect (builder : Builder) (raw : Text) : Builder :=
  { builder with pending := raw.reverse ++ builder.pending }

def startElement (content : Text) : Except DocumentFault OpenElement :=
  let name := tagName content
  match attributeList content with
  | .error (place, fault) => .error (.badAttribute name place fault)
  | .ok attributes =>
      .ok {
        tag := String.ofList name
        attributes := .ofList (attributes.map fun raw =>
          (String.ofList raw.key, Entity.decode raw.value)) }

/-- Puts a finished element into the one around it, or makes it the root. -/
def close (builder : Builder) (offset : Nat) (element : Element) :
    Except DocumentFault Builder :=
  match builder.frames with
  | frame :: outer =>
      .ok { builder with
        frames := { frame with content := element.toNode :: frame.content } :: outer }
  | [] =>
      match builder.root? with
      | some _ => .error (.secondRoot element.tag offset)
      | none => .ok { builder with root? := some element }

/-- What an event at a byte offset adds. -/
def step (builder : Builder) (offset : Nat) : Event → Except DocumentFault Builder
  | .start content => do
      let frame ← startElement content
      let flushed := builder.flush
      return { flushed with frames := frame :: flushed.frames }
  | .empty content => do
      let frame ← startElement content
      builder.flush.close offset frame.toElement
  | .stop _ =>
      let flushed := builder.flush
      match flushed.frames with
      | [] => .error (.unexpectedEnd offset)
      | frame :: outer => { flushed with frames := outer }.close offset frame.toElement
  | .text raw => .ok (builder.collect raw)
  | .reference name => .ok (builder.collect ('&' :: (name ++ [';'])))
  | .cdata content =>
      let flushed := builder.flush
      if flushed.frames.isEmpty then .error (.strayCData offset)
      else .ok (flushed.addText content)
  | .other => .ok builder

/-- What a list of events adds, up to the first one that is refused. -/
def run (builder : Builder) : List (Nat × Event) → Except DocumentFault Builder
  | [] => .ok builder
  | (offset, event) :: rest => do
      let next ← builder.step offset event
      next.run rest

/-- The tree at the end of the events. A root that no post has is reported last. -/
def finish (builder : Builder) : Except DocumentFault (Reading Element) :=
  let flushed := builder.flush
  match flushed.frames, flushed.root? with
  | frame :: _, _ => .error (.unclosed frame.tag)
  | [], none => .error .noRoot
  | [], some root =>
      let reading : Reading Element := ⟨root, flushed.warnings.reverse⟩
      .ok (if root.hasTag Tag.richRoot || root.hasTag Tag.plainRoot then reading
        else reading.warn (rootWarning root.tag))

end Builder

/-- The tree of a stream of events. A fault of the stream comes after its events. -/
def Stream.toReading (stream : Stream) : Except DocumentFault (Reading Element) := do
  let builder ← Builder.run {} stream.events
  match stream.fault? with
  | some (offset, fault) => .error (.markup offset fault)
  | none => builder.finish

end ForumMarkup.Xml
