import ForumMarkup.Xml.Document
import ForumMarkup.Xml.Scan

/-!
Contract: reading the XML that forums store posts in.

Owns: `Xml.read`, the tree of a document or the reason for which it is refused.
-/

set_option autoImplicit false

namespace ForumMarkup.Xml

def read (input : Text) : Except DocumentFault (Reading Element) :=
  (scan input).matchEnds.toReading

end ForumMarkup.Xml
