import ForumMarkup.Lookup.Tables
import ForumMarkup.Proofs.Element.Kept
import ForumMarkup.Proofs.Element.KeptLeaves
import ForumMarkup.Proofs.Lookup.Agrees
import ForumMarkup.Proofs.Markdown.Laid
import ForumMarkup.Proofs.Markdown.LineEnds
import ForumMarkup.Proofs.Markdown.Questions
import ForumMarkup.Proofs.Span.Direct

/-!
Contract: what becomes of an answer that is the empty text.

Owns:
- `Resolver.emptyAsNothing`, the resolver that finds nothing instead;
- `Resolver.Erases`, the questions whose answer deletes a smilie.

Main statement: `convert_emptyAsNothing`.  Names and uploads may be answered by the empty
text or not be found, the Markdown is the same.  A smilie that is answered so is deleted,
and one that is not found keeps its code.
-/

set_option autoImplicit false

namespace ForumMarkup

variable {ε : Type}

/-- The answer, with nothing found where it is the empty text. -/
def Lookup.orNothing : (lookup : Lookup) → lookup.Answer → lookup.Answer
  | .username _, answer? | .smilie _, answer? | .upload _ _, answer? =>
      answer?.filter fun answer => !answer.isEmpty
  | .quotedPost _, answer? => answer?
  | .url _, address => address

namespace Resolver

/-- The resolver that finds nothing where the given one answers with the empty text. -/
def emptyAsNothing (resolver : Resolver ε) : Resolver ε :=
  fun lookup => (resolver lookup).map lookup.orNothing

/-- The question asks for a smilie, and the answer is the empty text. -/
def Erases (resolver : Resolver ε) : Lookup → Prop
  | .smilie code => resolver (.smilie code) = .ok (some [])
  | _ => False

end Resolver

open Inquiry Decoration Markdown

variable {resolver : Resolver ε}

/-! ### Both resolvers lead to the same spans -/

/-- Both resolvers lead the inquiry to the same result, unless it deletes a smilie. -/
abbrev Inquiry.Settles {α : Type} (resolver : Resolver ε) : Inquiry α → Prop :=
  Inquiry.Agrees (fun lookup => ¬resolver.Erases lookup) resolver resolver.emptyAsNothing

theorem settles_quotedPost (element : Element) : (quotedPost element).Settles resolver := by
  unfold quotedPost
  split
  · exact agrees_question (congrFun Except.map_id _)
  · exact agrees_done none

/-- An author without a name is dropped in any case. -/
theorem settles_quotedAuthor (element : Element) : (quotedAuthor element).Settles resolver := by
  unfold quotedAuthor quotedUser
  split
  · refine agrees_ask rfl (fun _ answer? _ => ?_) fun answer? => agrees_done _
    show Inquiry.done (((answer?.filter _).filter _).or _) = .done ((answer?.filter _).or _)
    rw [Option.filter_filter]
    simp only [Bool.and_self]
  · exact agrees_done _

/-- A quote whose author has no name is written as one of an unknown author. -/
theorem settles_quote (element : Element) (span : Span) :
    (quote element span).Settles resolver := by
  refine (settles_quotedPost element).bind fun post? => ?_
  cases post? with
  | some post => exact agrees_done _
  | none =>
      refine (settles_quotedAuthor element).bind fun author? => ?_
      cases author? with
      | some author => exact agrees_done _
      | none => exact agrees_done _

/-- An upload that is not known leaves nothing, just as an empty one does. -/
theorem settles_attachment (element : Element) (span : Span) :
    (attachment element span).Settles resolver := by
  unfold attachment uploaded
  split
  · refine agrees_ask rfl (fun _ answer? _ => ?_) fun answer? => agrees_done _
    cases answer? with
    | none => rfl
    | some answer => cases answer <;> rfl
  · exact agrees_done _

theorem settles_url (element : Element) (span : Span) : (url element span).Settles resolver :=
  (agrees_question (congrFun Except.map_id _)).bind fun _ => agrees_done _

/-- A smilie keeps its replacement if this is not empty. -/
theorem settles_smilie (element : Element) (span : Span) :
    (smilie element span).Settles resolver := by
  refine agrees_ask rfl (fun filled answer? answered => ?_) fun answer? => ?_
  · cases answer? with
    | none => rfl
    | some answer =>
        cases answer with
        | nil => exact absurd answered filled
        | cons c rest => rfl
  · cases answer? <;> exact agrees_done _

theorem settles_decorate (options : Options) (scope : Scope) (earlier : Nat) (rule : Rule)
    (element : Element) (span : Span) :
    (decorate options scope earlier rule element span).Settles resolver := by
  cases rule with
  | url => exact settles_url element span
  | smilie => exact settles_smilie element span
  | quote => exact settles_quote element span
  | attachment => exact settles_attachment element span
  | bold | italic | underline | code | list | item | image | email | lineBreak | video | size =>
      exact agrees_done _

namespace Node

mutual

theorem settles_plan (options : Options) (scope : Scope) :
    ∀ (node : Node) (cursor : Cursor), (node.plan options scope cursor).Settles resolver
  | .text content, cursor => agrees_done _
  | .element tag attributes children, cursor => by
      rw [plan]
      split
      · exact settles_planAll options _ children cursor
      · next rule _ =>
          generalize cursor.begin rule = begun
          obtain ⟨start, within, before⟩ := begun
          refine (settles_decorate options scope cursor.items rule _ start).bind fun span => ?_
          by_cases replaced : span.replaced = true
          · rw [if_pos replaced]
            exact agrees_done _
          · rw [if_neg replaced]
            exact (settles_planAll options _ children _).bind fun ending => agrees_done _

theorem settles_planAll (options : Options) (scope : Scope) :
    ∀ (nodes : List Node) (cursor : Cursor), (planAll options scope nodes cursor).Settles resolver
  | [], cursor => agrees_done cursor
  | node :: rest, cursor =>
      (settles_plan options scope node cursor).bind fun next =>
        settles_planAll options scope rest next

end

end Node

theorem Element.settles_toMarkdown (options : Options) (post : Element) :
    (post.toMarkdown options).Settles resolver :=
  ((Node.settles_planAll options _ post.clean.children {}).bind fun _ => agrees_done _).bind
    fun _ => agrees_done _

/-! ### The smilies that are asked for -/

/-- Only a smilie asks for a smilie, and it asks for its own code. -/
theorem Element.eq_of_smilie_mem_lookups {element : Element} {code : Text}
    (member : Lookup.smilie code ∈ element.lookups resolver) : code = element.textContent := by
  unfold lookups postLookup? userLookup? at member
  split at member
  · cases List.mem_singleton.1 member
  · exact Lookup.smilie.inj (List.mem_singleton.1 member)
  · rcases List.mem_append.1 member with post | user
    · simp at post
    · split at user
      · cases user
      · simp at user
  · simp at member
  · cases member

theorem Resolver.mem_of_mem_untilFailure {lookups : List Lookup} {lookup : Lookup}
    (member : lookup ∈ resolver.untilFailure lookups) : lookup ∈ lookups := by
  induction lookups with
  | nil => cases member
  | cons first rest ih =>
      rw [untilFailure] at member
      split at member
      · rcases List.mem_cons.1 member with rfl | later
        · exact List.mem_cons_self
        · exact List.mem_cons_of_mem _ (ih later)
      · rw [List.mem_singleton.1 member]
        exact List.mem_cons_self

/-- No code that is asked for starts with a line feed. -/
theorem head?_ne_of_smilie_mem_asked {options : Options} {post : Element} {code : Text}
    (member : Lookup.smilie code ∈ (post.toMarkdown options).asked resolver) :
    code.head? ≠ some '\n' := by
  rw [(poses_toMarkdown options post).asked] at member
  obtain ⟨element, visited, raised⟩ := List.mem_flatMap.1 (Resolver.mem_of_mem_untilFailure member)
  rw [Element.eq_of_smilie_mem_lookups raised]
  exact Element.head?_textContent_ne (Element.mem_below_of_mem_visited visited)

/-! ### A smilie between two letters -/

def smilieBetween (content : List Node) : Element :=
  .post [.text ['a'], .element Tag.smilie ∅ content, .text ['a']]

theorem clean_smilieBetween {content kept : List Node}
    (clean : Node.cleanAll false content = kept) :
    (smilieBetween content).clean = smilieBetween kept := by
  have letter : Node.clean? false (.text ['a']) = some (.text ['a']) :=
    Node.clean?_solid (by decide) [] false
  have noMarker : Tag.markers.contains Tag.smilie = false := by decide
  have whole : Node.clean? false (.element Tag.smilie ∅ content)
      = some (.element Tag.smilie ∅ kept) := Node.clean?_element noMarker clean ∅ false
  have root : Tag.trimmedStarts.contains Tag.richRoot = false := by decide
  unfold Element.clean smilieBetween Element.post
  rw [root, Node.cleanAll, letter]
  dsimp only
  rw [Node.cleanAll, whole]
  dsimp only
  rw [Node.cleanAll, letter]
  rfl

/-- The span of a smilie around the trees of its content, or of its replacement. -/
def smilieTree (trees : List SpanTree) : Option Text → SpanTree
  | some replacement => .node ({ origin := .rule .smilie : Span }.replace replacement) []
  | none => .node { origin := .rule .smilie } trees

theorem Node.plan_smilie {options : Options} {kept : List Node} {trees : List SpanTree}
    (lays : Node.Lays options [] kept trees) (scope : Scope) (attributes : Attributes)
    (cursor : Cursor) :
    Node.plan options scope (.element Tag.smilie attributes kept) cursor
      = .ask (.smilie (Node.textContents kept)) fun answer? =>
          .done (cursor.add (smilieTree trees answer?)) := by
  have other : Rule.smilie ≠ .lineBreak := by decide
  rw [Node.plan, show Rule.ofTag? Tag.smilie = some .smilie from Rule.ofTag?_tag .smilie]
  dsimp only
  rw [Cursor.begin_of_ne other]
  refine congrArg (Inquiry.ask _) (funext fun answer? => ?_)
  cases answer? with
  | some replacement => rfl
  | none =>
      show (planAll options _ kept _ >>= _) = _
      rw [lays, Inquiry.done_bind, List.append_nil, List.reverse_reverse]
      rfl

/-- A smilie writes its replacement, also when that is empty, and its content without one. -/
theorem laid_smilieTree {options : Options} (trees before : List SpanTree) (answer? : Option Text) :
    laid options [] false (smilieTree trees answer? :: before)
      = (answer?.getD (siblings options [] false [] trees).reverse).reverse
        ++ laid options [] false before := by
  have spaced (buffer : Buffer) : addBreaks options .auto [] 0 buffer = buffer :=
    addBreaks_zero options .auto [] buffer
  cases answer? with
  | some replacement =>
      rw [smilieTree, laid_leaf, place_unmarked rfl rfl (spaced _)]
      exact spaced _
  | none =>
      have written := @laid_node options [] false { origin := .rule .smilie } rfl rfl trees.reverse
        before
      rw [List.reverse_reverse] at written
      rw [smilieTree, written, place_unmarked rfl rfl (spaced _), laid]
      simp only [Option.getD_none, List.reverse_reverse]
      exact spaced _

/-- The replacement of the smilie stands between the letters, or else what its content is
written as. -/
theorem toMarkdown_smilieBetween {options : Options} {content kept : List Node}
    {trees : List SpanTree} (clean : Node.cleanAll false content = kept)
    (lays : Node.Lays options [] kept trees) :
    (smilieBetween content).toMarkdown options
      = .ask (.smilie (Node.textContents kept)) fun answer? => .done ('a' ::
          (answer?.getD (siblings options [] false [] trees).reverse ++ ['a'])) := by
  have letter : Entity.decode ['a'] = ['a'] := Entity.decode_eq_self (by decide)
  have planned : Node.planAll options { parent := Tag.richRoot } (smilieBetween kept).children {}
      = .ask (.smilie (Node.textContents kept)) fun answer? =>
          .done { before := [.ofText ['a'], smilieTree trees answer?, .ofText ['a']] } := by
    unfold smilieBetween Element.post
    rw [Node.planAll_cons _ (Node.plan_text _), Node.planAll, Node.plan_smilie lays, letter]
    refine congrArg (Inquiry.ask _) (funext fun answer? => ?_)
    show Node.planAll options _ [.text ['a']] _ = _
    rw [Node.planAll_cons _ (Node.plan_text _), letter]
    rfl
  have writes (answer? : Option Text) :
      laid options [] false [.ofText ['a'], smilieTree trees answer?, .ofText ['a']] = 'a' ::
        ((answer?.getD (siblings options [] false [] trees).reverse).reverse ++ ['a']) := by
    rw [laid_ofText, laid_smilieTree, laid_ofText]
    rfl
  unfold Element.toMarkdown Element.plan
  rw [clean_smilieBetween clean]
  show (Node.planAll options { parent := Tag.richRoot } (smilieBetween kept).children {} >>= _)
    >>= _ = _
  rw [planned]
  refine congrArg (Inquiry.ask _) (funext fun answer? => ?_)
  show Inquiry.done
    (stripBreaks [] (inside options [] (.node { origin := .root } _)).reverse).reverse = _
  rw [inside_of_none options [] rfl, List.reverse_reverse]
  show Inquiry.done (stripBreaks [] (laid options [] false _)).reverse = _
  rw [writes, stripBreaks_of_solid (by decide)]
  simp

/-- An address without anything inside, which is written as its brackets. -/
def emptyAddress : Node := .element Tag.email ∅ []

/-- What is kept of a text that does not start with a line feed, and of an address. -/
def keptContent (code : Text) : List Node :=
  match code with
  | [] => [emptyAddress]
  | c :: rest => [.text (c :: rest), emptyAddress]

theorem textContents_keptContent (code : Text) : Node.textContents (keptContent code) = code := by
  cases code with
  | nil => rfl
  | cons c rest => simp [keptContent, emptyAddress, Node.textContents, Node.textContent]

theorem cleanAll_content {code : Text} (start : code.head? ≠ some '\n') :
    Node.cleanAll false [.text code, emptyAddress] = keptContent code := by
  cases code with
  | nil => rfl
  | cons c rest =>
      have kept := Node.clean?_text (List.cons_ne_nil c rest) start
      rw [Node.cleanAll, kept]
      rfl

def addressTree : SpanTree :=
  .node { origin := .rule .email, opening := ['<'], closing := ['>'] } []

theorem lays_emptyAddress (options : Options) (prior : List SpanTree) :
    Node.Lays options prior [emptyAddress] [addressTree] := by
  have other : Rule.email ≠ .lineBreak := by decide
  exact .element .email (by decide) (by decide) (fun items => Cursor.begin_of_ne other _)
    (fun _ _ => rfl) rfl Node.lays_nil Node.lays_nil

/-- The content is laid out, and something is written for it. -/
theorem exists_lays_keptContent (options : Options) (code : Text) :
    ∃ trees, Node.Lays options [] (keptContent code) trees ∧
      siblings options [] false [] trees ≠ [] := by
  have brackets (trees : List SpanTree) :
      siblings options [] false [] (trees ++ [addressTree]) ≠ [] := by
    have spaced (buffer : Buffer) : addBreaks options .auto [] 0 buffer = buffer :=
      addBreaks_zero options .auto [] buffer
    rw [siblings_append, addressTree, siblings_leaf, siblings,
      place_of_no_mark rfl (fun _ c none => by cases none), spaced, spaced]
    simp [enclosed]
  cases code with
  | nil => exact ⟨[addressTree], lays_emptyAddress options [], brackets []⟩
  | cons c rest =>
      let text : SpanTree := .ofText (Entity.decode (c :: rest))
      exact ⟨[text, addressTree], .text rfl (lays_emptyAddress options _), brackets [text]⟩

/-- A smilie that is answered by nothing is deleted, with all its content. -/
theorem convert_smilieBetween_ne (options : Options) {code : Text}
    (start : code.head? ≠ some '\n') (erased : resolver.Erases (.smilie code)) :
    (smilieBetween [.text code, emptyAddress]).convert options resolver.emptyAsNothing
      ≠ (smilieBetween [.text code, emptyAddress]).convert options resolver := by
  obtain ⟨trees, lays, written⟩ := exists_lays_keptContent options code
  have notFound : resolver.emptyAsNothing (.smilie code) = .ok none :=
    congrArg (Except.map (Lookup.orNothing (.smilie code))) erased
  have asks := toMarkdown_smilieBetween (cleanAll_content start) lays
  rw [textContents_keptContent] at asks
  have deleted : resolver (.smilie code) = .ok (some []) := erased
  unfold Element.convert
  rw [asks, run, run, notFound, deleted]
  intro same
  have texts : 'a' :: ((siblings options [] false [] trees).reverse ++ ['a']) = ['a', 'a'] :=
    Except.ok.inj same
  exact written (by simpa using texts)

/-! ### The conversion -/

/-- Nothing changes if the empty text counts as not found, as long as no smilie is
answered by it. It may change as soon as one code that can be asked for is answered so. -/
theorem convert_emptyAsNothing (resolver : Resolver ε) :
    (∀ (options : Options) (post : Element),
      (∀ code, .smilie code ∈ (post.toMarkdown options).asked resolver →
        resolver (.smilie code) ≠ .ok (some [])) →
      post.convert options resolver.emptyAsNothing = post.convert options resolver) ∧
    ((∀ (options : Options) (post : Element),
      post.convert options resolver.emptyAsNothing = post.convert options resolver) ↔
      ∀ code : Text, code.head? ≠ some '\n' → resolver (.smilie code) ≠ .ok (some [])) := by
  have settled : ∀ (options : Options) (post : Element),
      (∀ code, .smilie code ∈ (post.toMarkdown options).asked resolver →
        resolver (.smilie code) ≠ .ok (some [])) →
      post.convert options resolver.emptyAsNothing = post.convert options resolver := by
    intro options post filled
    refine post.settles_toMarkdown options fun lookup member => ?_
    cases lookup with
    | smilie code => exact filled code member
    | username userId | quotedPost postId | upload filename index? | url address => exact nofun
  refine ⟨settled, fun same code start erased => ?_, fun filled options post => ?_⟩
  · exact convert_smilieBetween_ne {} start erased (same {} _)
  · exact settled options post fun code member => filled code (head?_ne_of_smilie_mem_asked member)

/-- Empty names and uploads are as good as none: a quote goes without a header, and an
upload leaves nothing. -/
theorem convert_emptyAsNothing_namesAndUploads :
    let tables : LookupTables :=
      { users := .ofList [("7", [])], uploads := .ofList [("a.png", [])] }
    let resolver : Resolver Empty := .ofAnswers tables.answer
    let post : Element := .post
      [.wrapWith Tag.quote Key.userId ['7'] [.text ['a']], .attachment 0 "a.png".toList]
    (∀ code, .smilie code ∈ (post.toMarkdown {}).asked resolver →
        resolver (.smilie code) ≠ .ok (some [])) ∧
      resolver (.username 7) = .ok (some []) ∧
      post.convert {} resolver.emptyAsNothing = post.convert {} resolver := by
  intro tables resolver post
  have filled (code : Text) : resolver (.smilie code) ≠ .ok (some []) := by
    intro erased
    cases erased
  exact ⟨fun code _ => filled code, rfl,
    (convert_emptyAsNothing resolver).1 {} post fun code _ => filled code⟩

/-- A smilie that is answered by the empty text is deleted, where one that is not found
keeps its code. -/
theorem convert_erasedSmilie_ne :
    let tables : LookupTables := { smilies := .ofList [(":)", [])] }
    let resolver : Resolver Empty := .ofAnswers tables.answer
    let post : Element := .post [.text ['a'], .smilie ":)".toList, .text ['a']]
    post.convert {} resolver = .ok "aa".toList ∧
      post.convert {} resolver.emptyAsNothing = .ok "a:)a".toList ∧
      post.convert {} resolver.emptyAsNothing ≠ post.convert {} resolver := by
  intro tables resolver post
  have erased : post.convert {} resolver = .ok "aa".toList :=
    (run_ofAnswers tables.answer _).trans (congrArg Except.ok (by decide +kernel))
  have kept : post.convert {} resolver.emptyAsNothing = .ok "a:)a".toList :=
    (run_ofAnswers (fun lookup => lookup.orNothing (tables.answer lookup)) _).trans
      (congrArg Except.ok (by decide +kernel))
  refine ⟨erased, kept, fun same => ?_⟩
  rw [erased, kept] at same
  cases same

end ForumMarkup
