import ForumMarkup.Text.Blank

/-!
Contract: the events that a document in XML is read as.

Owns:
- `Event`, one stretch of markup or text, and `Stream`, the events of a text with
  their places and the fault that ends them, if there is one;
- `Fault`, the ways in which a text fails to be markup, with their messages;
- `tagName`, the name at the start of a tag;
- `Stream.matchEnds`, which ends a stream where an end tag does not fit.
-/

set_option autoImplicit false

namespace ForumMarkup.Xml

def isSpace (c : Char) : Bool :=
  c == ' ' || c == '\t' || c == '\n' || c == '\r'

/-- One stretch of a document. -/
inductive Event where
  /-- A start tag, with all that stands between its brackets. -/
  | start (content : Text)
  /-- A tag of an empty element, with what stands before its slash. -/
  | empty (content : Text)
  /-- An end tag. -/
  | stop (name : Text)
  /-- Characters as written. -/
  | text (raw : Text)
  /-- A reference to a character or an entity. -/
  | reference (name : Text)
  /-- Characters that stand for themselves. -/
  | cdata (content : Text)
  /-- A comment, an instruction or a declaration. -/
  | other
  deriving DecidableEq, Repr

/-- Why a text cannot be read further. -/
inductive Fault where
  | tagNotClosed
  | valueNotClosed (quote : Char)
  | referenceNotClosed
  | unknownMarkup
  | commentNotClosed
  | cdataNotClosed
  | doctypeNotClosed
  | doctypeWithoutName
  | instructionNotClosed
  | declarationNotClosed
  | wrongEnd (expected found : Text)
  | strayEnd (name : Text)
  deriving DecidableEq, Repr

def notClosed (what ending : String) : String :=
  what ++ " not closed: `" ++ ending ++ "` not found before end of input"

def Fault.message : Fault → String
  | tagNotClosed => "syntax error: " ++ notClosed "tag" ">"
  | valueNotClosed quote => "syntax error: " ++ notClosed "attribute value" (String.singleton quote)
  | referenceNotClosed =>
      "ill-formed document: " ++ notClosed "entity or character reference" ";"
  | unknownMarkup => "syntax error: unknown or missed symbol in markup"
  | commentNotClosed => "syntax error: " ++ notClosed "comment" "-->"
  | cdataNotClosed => "syntax error: " ++ notClosed "CDATA" "]]>"
  | doctypeNotClosed => "syntax error: " ++ notClosed "DOCTYPE" ">"
  | doctypeWithoutName =>
      "ill-formed document: `<!DOCTYPE>` declaration does not contain a name of a document type"
  | instructionNotClosed => "syntax error: " ++ notClosed "processing instruction" "?>"
  | declarationNotClosed => "syntax error: " ++ notClosed "XML declaration" "?>"
  | wrongEnd expected found =>
      "ill-formed document: expected `</" ++ String.ofList expected ++ ">`, but `</"
        ++ String.ofList found ++ ">` was found"
  | strayEnd name =>
      "ill-formed document: close tag `</" ++ String.ofList name
        ++ ">` does not match any open tag"

/-- Events with their byte offsets, and the fault behind them with its offset. -/
structure Stream where
  events : List (Nat × Event) := []
  fault? : Option (Nat × Fault) := none

/-- The name at the start of the content of a tag; it may be empty. -/
def tagName (content : Text) : Text :=
  content.takeWhile fun c => !isSpace c

namespace Stream

def cons (event : Nat × Event) (stream : Stream) : Stream :=
  { stream with events := event :: stream.events }

def failed (offset : Nat) (fault : Fault) : Stream :=
  { fault? := some (offset, fault) }

/-- The events up to the first end tag that does not fit the innermost open element,
and a fault there; `names` are the names of the open elements, innermost first. -/
def matchEndsFrom (fault? : Option (Nat × Fault)) (names : List Text) :
    List (Nat × Event) → Stream
  | [] => { fault? }
  | (offset, event) :: rest =>
      match event with
      | .start content =>
          (matchEndsFrom fault? (tagName content :: names) rest).cons (offset, event)
      | .stop name =>
          match names with
          | [] => failed offset (.strayEnd name)
          | expected :: outer =>
              if name = expected then (matchEndsFrom fault? outer rest).cons (offset, event)
              else failed offset (.wrongEnd expected name)
      | _ => (matchEndsFrom fault? names rest).cons (offset, event)

/-- The stream up to the first end tag that does not fit. -/
def matchEnds (stream : Stream) : Stream :=
  matchEndsFrom stream.fault? [] stream.events

end Stream
end ForumMarkup.Xml
