import ForumMarkup.Element
import ForumMarkup.Entity.Decode
import ForumMarkup.Lookup
import ForumMarkup.Options
import ForumMarkup.Span

/-!
Contract: what each rule puts into the span of an element.

Owns:
- `Scope`, the elements around an element as far as a rule looks at them;
- one function for each rule that needs more than a constant;
- `decorate`, the span of an element under its rule.

Does not own: which elements get a span, and how items of a list are counted; see
`ForumMarkup.Span.Plan`.
-/

set_option autoImplicit false

namespace ForumMarkup

/-- The open elements around a place in the tree. -/
structure Scope where
  /-- The tag of the element directly around. -/
  parent : String
  /-- The place lies inside bold, italic or underlined text. -/
  emphasised : Bool := false
  /-- The number of open lists. -/
  lists : Nat := 0
  /-- The innermost open list is ordered. -/
  ordered : Bool := false

namespace Decoration

/-- The markers of bold, italic and underlined text, which an element directly
inside one of its own tag goes without. -/
def emphasis (scope : Scope) (rule : Rule) (opening closing : Text) (span : Span) : Span :=
  if scope.parent = rule.tag then span else { span with opening, closing }

def longestBackticks (content : Text) : Nat :=
  go content 0 0
where
  /-- Continues with the length of the run at hand and of the longest so far. -/
  go : Text → Nat → Nat → Nat
    | [], current, longest => max current longest
    | c :: rest, current, longest =>
        if c = '\x60' then go rest (current + 1) longest else go rest 0 (max current longest)

/-- The content of code: its text with its references replaced and the blanks at
its end dropped. -/
def codeContent (element : Element) : Text :=
  Text.trimEnd (Entity.decode element.textContent)

/-- The delimiters of code. A fence has at least three backticks, and more than
any run inside. -/
def codeDelimiters (options : Options) (element : Element) : Text × Text :=
  let content := codeContent element
  if !options.inlineCode || content.contains '\n' then
    let fence := List.replicate (max (longestBackticks content) 2 + 1) '\x60'
    let language := Text.trim ((element.attributes.get? Key.lang).getD [])
    (fence ++ language ++ ['\n'], '\n' :: fence)
  else if content.contains '\x60' then ("`` ".toList, " ``".toList)
  else ("`".toList, "`".toList)

def code (options : Options) (element : Element) (span : Span) : Span :=
  let (opening, closing) := codeDelimiters options element
  { (({ span with opening, closing }.replace (codeContent element)).setBreaks 2) with
    kindBefore := .html }

/-- A list: a block of its own, or a part of the list around it. -/
def list (scope : Scope) (span : Span) : Span :=
  if scope.lists = 0 then { span.setBreaks 2 with kindBefore := .html } else span.setBreaks 1

def itemSymbol (scope : Scope) (earlier : Nat) : Text :=
  if 0 < scope.lists ∧ scope.ordered then Text.ofNat (earlier + 1) ++ ['.'] else ['*']

/-- An item of a list, indented by two spaces for each list around its own. -/
def item (scope : Scope) (earlier : Nat) (span : Span) : Span :=
  { span with
    opening := List.replicate (2 * (scope.lists - 1)) ' ' ++ itemSymbol scope earlier ++ [' ']
    breaksAfter := 1 }

def image (element : Element) (span : Span) : Span :=
  let src := (element.attributes.get? Key.src).getD []
  (span.replace ("![](".toList ++ src ++ [')'])).setBreaks 2

/-- A link; one whose text is its address is written as the bare address. -/
def url (element : Element) (span : Span) : Inquiry Span := do
  let label := Text.trim element.textContent
  let address := (element.attributes.get? Key.url).getD label
  let target ← Inquiry.question (.url (Entity.decode address))
  return if label = address then span.replace target
    else { span with opening := ['['], closing := "](".toList ++ target ++ [')'] }

/-- A smilie, which keeps its code when there is no replacement. -/
def smilie (element : Element) (span : Span) : Inquiry Span := do
  match ← Inquiry.question (.smilie element.textContent) with
  | some replacement => return span.replace replacement
  | none => return span

/-- The address of a video, on a line of its own. -/
def video (element : Element) (span : Span) : Span :=
  match element.attributes.nonEmpty? Key.id with
  | some id => (span.replace ("https://www.youtube.com/watch?v=".toList ++ id)).setBreaks 1
  | none => span.setBreaks 1

/-- The post a quote refers to by its number. -/
def quotedPost (element : Element) : Inquiry (Option QuotedPost) :=
  match element.attributes.number? Key.postId with
  | some postId => Inquiry.question (.quotedPost postId)
  | none => pure none

/-- The name a quoted user has by their number. -/
def quotedUser (element : Element) : Inquiry (Option Text) :=
  match element.attributes.number? Key.userId with
  | some userId => Inquiry.question (.username userId)
  | none => pure none

/-- The author of a quote: the quoted user's name, else the name in the quote. -/
def quotedAuthor (element : Element) : Inquiry (Option Text) := do
  let name? ← quotedUser element
  return (name?.filter fun name => !name.isEmpty).or (element.attributes.nonEmpty? Key.author)

/-- The span between the tags of a quote with the given header. -/
def quoteHeader (header : Text) (span : Span) : Span :=
  { span with
    opening := "[quote=\"".toList ++ header ++ "\"]\n".toList
    closing := "\n[/quote]".toList }

/-- The header of a quote of a known post. -/
def postHeader (post : QuotedPost) : Text :=
  post.username ++ ", post:".toList ++ Text.ofNat post.postNumber
    ++ ", topic:".toList ++ Text.ofNat post.topicId

def quoteMark : Text := "> ".toList

/-- A quote, as a block of its own: under a header that names the post or the
author, or else with every line marked. -/
def quote (element : Element) (span : Span) : Inquiry Span := do
  let block : Span := { span.setBreaks 2 with kindBefore := .html }
  match ← quotedPost element with
  | some post => return quoteHeader (postHeader post) block
  | none =>
      match ← quotedAuthor element with
      | some author => return quoteHeader author block
      | none => return { block with lineMark? := some quoteMark }

/-- The Markdown of the file an attachment names. -/
def uploaded (element : Element) : Inquiry (Option Text) :=
  match element.attributes.nonEmpty? Key.filename with
  | some filename => Inquiry.question (.upload filename (element.attributes.number? Key.index))
  | none => pure none

/-- An attachment, on a line of its own; one that is not known leaves nothing. -/
def attachment (element : Element) (span : Span) : Inquiry Span := do
  let markdown? ← uploaded element
  return (span.replace (markdown?.getD [])).setBreaks 1

/-- One line break more. A run of them inside emphasis is spelled in hard breaks,
since an empty line would end the emphasis. -/
def lineBreak (scope : Scope) (span : Span) : Span :=
  let count := span.breaksAfter + 1
  { span with
    breaksAfter := count
    kindAfter := if 1 < count ∧ scope.emphasised then .hard else span.kindAfter }

/-- Text of another size, small or big by the bands of the options. -/
def size (options : Options) (element : Element) (span : Span) : Span :=
  match element.attributes.number? Key.size with
  | none => span
  | some size =>
      if options.sizeBands.small.contains size then
        { span with opening := "<small>".toList, closing := "</small>".toList }
      else if options.sizeBands.big.contains size then
        { span with opening := "<big>".toList, closing := "</big>".toList }
      else span

end Decoration

open Decoration in
/-- The span of an element under its rule; `earlier` counts the items before it in
the innermost list. -/
def decorate (options : Options) (scope : Scope) (earlier : Nat) (rule : Rule)
    (element : Element) (span : Span) : Inquiry Span :=
  match rule with
  | .bold => return emphasis scope .bold ['*', '*'] ['*', '*'] span
  | .italic => return emphasis scope .italic ['_'] ['_'] span
  | .underline => return emphasis scope .underline "[u]".toList "[/u]".toList span
  | .code => return code options element span
  | .list => return list scope span
  | .item => return item scope earlier span
  | .image => return image element span
  | .url => url element span
  | .email => return { span with opening := ['<'], closing := ['>'] }
  | .lineBreak => return lineBreak scope span
  | .smilie => smilie element span
  | .video => return video element span
  | .quote => quote element span
  | .attachment => attachment element span
  | .size => return size options element span

end ForumMarkup
