import ForumMarkup.Xml.Doctype

/-!
Contract: cutting a document into events.

Owns:
- `nextEvent`, the event at the start of a text, or the fault there;
- `scan`, the stream of events of a text.

Main statement: `nextEvent_source`, what an event is read from and the text behind
it make up the text.

No names and no characters are checked, and line ends are kept as they are.  A byte
order mark at the start is passed over and has no place.
-/

set_option autoImplicit false

namespace ForumMarkup.Xml

/-- An event, the text it takes behind its first character, and the text behind it. -/
abbrev Scanned := Event × Text × Text

/-- A fault, and its distance in bytes from the start of the event. -/
abbrev Failed := Nat × Fault

/-- The text up to the first closing bracket outside of quotes, and the text behind
the bracket. -/
def tagContent (quote? : Option Char) : Text → Except Fault (Text × Text)
  | [] =>
      match quote? with
      | none => .error .tagNotClosed
      | some quote => .error (.valueNotClosed quote)
  | c :: rest =>
      if c = '>' ∧ quote? = none then .ok ([], rest)
      else
        match tagContent (quoteAfter quote? c) rest with
        | .ok (content, after) => .ok (c :: content, after)
        | .error fault => .error fault

/-- The name of an end tag: what follows its slash, without the space at its end. A name
of space alone is kept. -/
def endName (content : Text) : Text :=
  if content.all isSpace then content
  else (content.reverse.dropWhile isSpace).reverse

def tagEvent (content : Text) : Event :=
  match content with
  | '/' :: name => .stop (endName name)
  | _ => if content.getLast? = some '/' then .empty content.dropLast else .start content

def delimited? (opening closing t : Text) : Option (Text × Text) :=
  (Text.after? opening t).bind (Text.cutAt? closing)

def scanTag (t : Text) : Except Failed Scanned :=
  match tagContent none t with
  | .ok (content, rest) => .ok (tagEvent content, content ++ ['>'], rest)
  | .error fault => .error (0, fault)

def scanComment (t : Text) : Except Failed Scanned :=
  match delimited? "!--".toList "-->".toList t with
  | some (content, rest) => .ok (.other, "!--".toList ++ content ++ "-->".toList, rest)
  | none => .error (0, .commentNotClosed)

/-- The characters that stand for themselves behind an opening bracket. -/
def scanCData (t : Text) : Except Failed Scanned :=
  match delimited? "![CDATA[".toList "]]>".toList t with
  | some (content, rest) =>
      .ok (.cdata content, "![CDATA[".toList ++ content ++ "]]>".toList, rest)
  | none => .error (0, .cdataNotClosed)

/-- What follows the keyword of a document type declaration, and the text behind the
declaration. -/
def doctype? (t : Text) : Option (Text × Text) :=
  (Text.afterFold? "!doctype".toList t).bind fun declared =>
    (doctypeRest? (.head none) declared).map fun rest => (declared, rest)

/-- The document type declaration behind an opening bracket, which has to name a
type. -/
def scanDoctype (t : Text) : Except Failed Scanned :=
  match doctype? t with
  | none => .error (0, .doctypeNotClosed)
  | some (declared, rest) =>
      let source := t.take (t.length - rest.length)
      if (declared.take (declared.length - rest.length - 1)).all isSpace then
        .error (Text.byteLength source, .doctypeWithoutName)
      else .ok (.other, source, rest)

/-- Whether the text behind an opening bracket begins the declaration of XML. -/
def beginsDeclaration (t : Text) : Bool :=
  match Text.after? "?xml".toList t with
  | none => false
  | some [] => true
  | some (c :: _) => isSpace c || c == '?'

/-- The instruction behind an opening bracket. Its first question mark may not be
its last one. -/
def scanInstruction (t : Text) : Except Failed Scanned :=
  match Text.cutAt? "?>".toList t with
  | some (c :: content, rest) => .ok (.other, c :: content ++ "?>".toList, rest)
  | some ([], _) => .error (0, .instructionNotClosed)
  | none => .error (0, if beginsDeclaration t then .declarationNotClosed else .instructionNotClosed)

def scanMarkup (t : Text) : Except Failed Scanned :=
  match t with
  | '!' :: '[' :: _ => scanCData t
  | '!' :: '-' :: _ => scanComment t
  | '!' :: 'D' :: _ | '!' :: 'd' :: _ => scanDoctype t
  | '!' :: _ => .error (0, .unknownMarkup)
  | '?' :: _ => scanInstruction t
  | _ => scanTag t

def scanReference (t : Text) : Except Failed Scanned :=
  let inside := fun c => c != ';' && c != '&' && c != '<'
  match t.dropWhile inside with
  | ';' :: rest =>
      let name := t.takeWhile inside
      .ok (.reference name, name ++ [';'], rest)
  | _ => .error (0, .referenceNotClosed)

def isTextual (c : Char) : Bool :=
  c != '<' && c != '&'

def nextEvent (c : Char) (rest : Text) : Except Failed Scanned :=
  if c = '<' then scanMarkup rest
  else if c = '&' then scanReference rest
  else
    let more := rest.takeWhile isTextual
    .ok (.text (c :: more), more, rest.dropWhile isTextual)

theorem tagContent_source {quote? : Option Char} {t content rest : Text}
    (found : tagContent quote? t = .ok (content, rest)) : content ++ '>' :: rest = t := by
  fun_induction tagContent quote? t generalizing content with
  | case1 => simp at found
  | case2 => simp at found
  | case3 quote? c tail ends =>
      simp only [Except.ok.injEq, Prod.mk.injEq] at found
      obtain ⟨rfl, rfl⟩ := found
      simp [ends.1]
  | case4 quote? c tail _ inner after here ih =>
      simp only [Except.ok.injEq, Prod.mk.injEq] at found
      obtain ⟨rfl, rfl⟩ := found
      simp [ih here]
  | case5 => simp at found

theorem cutAt?_source {needle t before rest : Text}
    (found : Text.cutAt? needle t = some (before, rest)) : before ++ needle ++ rest = t := by
  obtain ⟨there, rfl, begins⟩ := Text.exists_of_cut? found
  simp [Text.eq_append_of_after? begins]

theorem delimited?_source {opening closing t content rest : Text}
    (found : delimited? opening closing t = some (content, rest)) :
    opening ++ content ++ closing ++ rest = t := by
  simp only [delimited?, Option.bind_eq_some_iff] at found
  obtain ⟨inner, begins, cut⟩ := found
  rw [Text.eq_append_of_after? begins, ← cutAt?_source cut]
  simp

theorem doctype?_suffix {t declared rest : Text} (found : doctype? t = some (declared, rest)) :
    rest <:+ t := by
  simp only [doctype?, Option.bind_eq_some_iff, Option.map_eq_some_iff, Prod.mk.injEq] at found
  obtain ⟨_, begins, _, ends, rfl, rfl⟩ := found
  exact (doctypeRest?_suffix ends).trans ⟨_, Text.take_append_of_afterFold? begins⟩

theorem scanDoctype_source {t taken rest : Text} {event : Event}
    (found : scanDoctype t = .ok (event, taken, rest)) : taken ++ rest = t := by
  unfold scanDoctype at found
  split at found
  · simp at found
  · next declared after ends =>
      simp only at found
      split at found
      · simp at found
      · simp only [Except.ok.injEq, Prod.mk.injEq] at found
        obtain ⟨_, rfl, rfl⟩ := found
        exact List.suffix_iff_eq_append.1 (doctype?_suffix ends)

/-- Scanning takes the front of the text and leaves the rest. -/
theorem scanMarkup_source {t taken rest : Text} {event : Event}
    (found : scanMarkup t = .ok (event, taken, rest)) : taken ++ rest = t := by
  unfold scanMarkup at found
  split at found
  · unfold scanCData at found
    split at found
    · next cut =>
        simp only [Except.ok.injEq, Prod.mk.injEq] at found
        obtain ⟨_, rfl, rfl⟩ := found
        simp [← delimited?_source cut]
    · simp at found
  · unfold scanComment at found
    split at found
    · next cut =>
        simp only [Except.ok.injEq, Prod.mk.injEq] at found
        obtain ⟨_, rfl, rfl⟩ := found
        simp [← delimited?_source cut]
    · simp at found
  · exact scanDoctype_source found
  · exact scanDoctype_source found
  · simp at found
  · unfold scanInstruction at found
    split at found
    · next cut =>
        simp only [Except.ok.injEq, Prod.mk.injEq] at found
        obtain ⟨_, rfl, rfl⟩ := found
        simp [← cutAt?_source cut]
    · simp at found
    · simp at found
  · unfold scanTag at found
    split at found
    · next cut =>
        simp only [Except.ok.injEq, Prod.mk.injEq] at found
        obtain ⟨_, rfl, rfl⟩ := found
        simp [← tagContent_source cut]
    · simp at found

theorem nextEvent_source {c : Char} {t taken rest : Text} {event : Event}
    (found : nextEvent c t = .ok (event, taken, rest)) : taken ++ rest = t := by
  unfold nextEvent at found
  split at found
  · exact scanMarkup_source found
  · split at found
    · unfold scanReference at found
      simp only at found
      split at found
      · next tail shape =>
          simp only [Except.ok.injEq, Prod.mk.injEq] at found
          obtain ⟨_, rfl, rfl⟩ := found
          simp [← shape, List.takeWhile_append_dropWhile]
      · simp at found
    · simp only [Except.ok.injEq, Prod.mk.injEq] at found
      obtain ⟨_, rfl, rfl⟩ := found
      simp [List.takeWhile_append_dropWhile]

theorem nextEvent_length {c : Char} {t taken rest : Text} {event : Event}
    (found : nextEvent c t = .ok (event, taken, rest)) : rest.length < t.length + 1 := by
  rw [← nextEvent_source found, List.length_append]
  omega

def scanFrom (offset : Nat) : Text → Stream
  | [] => {}
  | c :: rest =>
      match found : nextEvent c rest with
      | .error (distance, fault) => .failed (offset + distance) fault
      | .ok (event, taken, after) =>
          have := nextEvent_length found
          (scanFrom (offset + Text.byteLength (c :: taken)) after).cons (offset, event)
termination_by t => t.length

def scan : Text → Stream
  | '\ufeff' :: rest => scanFrom 0 rest
  | t => scanFrom 0 t

end ForumMarkup.Xml
