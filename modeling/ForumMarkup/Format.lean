import ForumMarkup.Bbcode
import ForumMarkup.Xml

/-!
Contract: the formats a post may be in.

Owns:
- `Format`, with the names a reader goes by;
- `ReadError`, why nothing was read, with its message;
- `Format.read`, reading a post in a format;
- `Format.ofExtension?` and `Format.sniff`, which tell the format of a file.
-/

set_option autoImplicit false

namespace ForumMarkup

inductive Format where
  | xml
  | bbcode
  deriving DecidableEq, Repr

inductive ReadError where
  | invalid (fault : Xml.DocumentFault)
  | unsupportedFormat (name : Text)
  deriving DecidableEq, Repr

def ReadError.message : ReadError → String
  | invalid fault => "invalid input: " ++ fault.message
  | unsupportedFormat name => "unsupported format: " ++ String.ofList name

namespace Format

def names : Format → List String
  | xml => ["xml"]
  | bbcode => ["bbcode", "bb"]

def ofName (name : Text) : Except ReadError Format :=
  let lowered := String.ofList (Text.lower name)
  if xml.names.contains lowered then .ok xml
  else if bbcode.names.contains lowered then .ok bbcode
  else .error (.unsupportedFormat name)

/-- Reads a post; smilie codes only matter to BBCode. -/
def read (format : Format) (codes : List Text) (input : Text) :
    Except ReadError (Reading Element) :=
  match format with
  | xml => (Xml.read input).mapError .invalid
  | bbcode => .ok (Bbcode.read codes input)

/-- The format that the extension of a file name, in letters of any case, stands for. -/
def ofExtension? (extension : Text) : Option Format :=
  match String.ofList (Text.lower extension) with
  | "xml" => some xml
  | "bbcode" | "bb" | "txt" => some bbcode
  | _ => none

/-- The beginnings by which a stored post is recognised. -/
def storedBeginnings : List String :=
  ["<?xml", "<r>", "<r ", "<t>", "<t ", "<t/>"]

/-- The format of a text by its first characters that are not blank. -/
def sniff (input : Text) : Format :=
  let start := Text.trimStart input
  if storedBeginnings.any fun beginning => Text.startsWith start beginning.toList then xml
  else bbcode

end Format
end ForumMarkup
