import ForumMarkup.Proofs.Bbcode.TreeShape

/-!
Contract: which tags are open while BBCode is read, and how they close.

Owns:
- `OpenTag`, the tag of an open element and where it stands;
- `Assembly.Skeleton`, the part of a tree under construction that decides about
  warnings, with one law for each operation;
- `Ending`, the ways in which an element ends, and `reports`, the warnings about those
  that were never closed;
- `Moves`, all that one piece can do to the open tags.

Main statements: `Assembly.exists_moves_step` and `Assembly.warnings_finish`.

A piece takes tags from the top of the stack first and then puts at most one there, so
the tags it closes are those by which the stack before it is longer than what stays.
-/

set_option autoImplicit false

namespace ForumMarkup.Bbcode

/-- The tag of an open element, and the byte where it stands. -/
structure OpenTag where
  bracket : Bracket
  offset : Nat
  deriving DecidableEq, Repr

def Frame.openTag (frame : Frame) : OpenTag :=
  ⟨frame.bracket, frame.offset⟩

/-- How an element ends. -/
inductive Ending where
  /-- By a closing tag of its own. -/
  | ownTag
  /-- As an item, with the next one, with its list or with the input. -/
  | implicit
  /-- Never closed, and reported. -/
  | reported
  deriving DecidableEq, Repr

def offsets (tags : List OpenTag) : List (Option Nat) :=
  tags.map fun tag => some tag.offset

/-- The report that the element of a tag was never closed. -/
def OpenTag.unclosedWarning (tag : OpenTag) : Warning where
  severity := .minor
  cause := .unclosedTag tag.bracket.warningName
  message := "[" ++ tag.bracket.warningName ++ "] was never closed"
  offset? := some tag.offset

/-- The reports about the tags that were never closed. -/
def reports (ended : List (OpenTag × Ending)) : List Warning :=
  (ended.filter (·.2 = .reported)).map (·.1.unclosedWarning)

theorem reports_append (front back : List (OpenTag × Ending)) :
    reports (front ++ back) = reports front ++ reports back := by
  simp [reports]

/-- Reports are raised one by one, and the newest one comes first. -/
theorem reverse_reports_cons (pair : OpenTag × Ending) (ended : List (OpenTag × Ending)) :
    (reports (pair :: ended)).reverse = (reports ended).reverse ++ reports [pair] := by
  rw [← List.singleton_append, reports_append, List.reverse_append]
  congr 1
  obtain ⟨tag, ending⟩ := pair
  cases ending <;> rfl

theorem mem_reports {ended : List (OpenTag × Ending)} {warning : Warning} :
    warning ∈ reports ended ↔ ∃ tag, (tag, .reported) ∈ ended ∧ tag.unclosedWarning = warning := by
  simp [reports]

/-- The reports stand where some of the tags stand. -/
theorem offsets_reports_sublist (ended : List (OpenTag × Ending)) :
    ((reports ended).map Warning.offset?).Sublist (offsets (ended.map Prod.fst)) := by
  have kept : (ended.filter (·.2 = .reported)).Sublist ended := List.filter_sublist
  simpa [reports, offsets, OpenTag.unclosedWarning, Function.comp_def]
    using kept.map fun pair => some pair.1.offset

/-- How the elements inside of one end that a closing tag closes: an item that stands
directly in the list of that tag ends with it, all others were never closed. -/
def endingsInside (bracket : Bracket) : List OpenTag → List (OpenTag × Ending)
  | [] => []
  | tag :: outer =>
      (tag, if bracket = .list ∧ tag.bracket = .item ∧ outer = [] then .implicit else .reported)
        :: endingsInside bracket outer

/-- How the elements end that are open at the end of the input. -/
def endingsAtEnd (tags : List OpenTag) : List (OpenTag × Ending) :=
  tags.map fun tag => (tag, if tag.bracket = .item then .implicit else .reported)

/-- Items stand directly in lists. -/
def ItemsInLists : List OpenTag → Prop
  | [] => True
  | tag :: outer =>
      (tag.bracket = .item → outer.head?.map OpenTag.bracket = some .list) ∧ ItemsInLists outer

theorem itemsInLists_of_stacked {codes : List Text} {frames : List Frame}
    (stacked : Stacked codes frames) : ItemsInLists (frames.map Frame.openTag) := by
  induction stacked with
  | nil => trivial
  | cons _ inList _ _ ih =>
      refine ⟨?_, ih⟩
      rw [List.head?_map, Option.map_map]
      exact inList

theorem map_fst_endingsInside (bracket : Bracket) (tags : List OpenTag) :
    (endingsInside bracket tags).map Prod.fst = tags := by
  induction tags with
  | nil => rfl
  | cons tag outer ih => rw [endingsInside, List.map_cons, ih]

theorem map_fst_endingsAtEnd (tags : List OpenTag) : (endingsAtEnd tags).map Prod.fst = tags := by
  simp [endingsAtEnd, Function.comp_def]

/-- Only the item that stands directly in the closed list ends without a report. -/
theorem mem_endingsInside_implicit {bracket : Bracket} {tags : List OpenTag} {tag : OpenTag} :
    (tag, .implicit) ∈ endingsInside bracket tags
      ↔ bracket = .list ∧ tag.bracket = .item ∧ ∃ inner, tags = inner ++ [tag] := by
  induction tags with
  | nil => simp [endingsInside]
  | cons first outer ih =>
      rw [endingsInside, List.mem_cons, ih]
      constructor
      · rintro (same | ⟨isList, isItem, inner, rfl⟩)
        · split at same
          · next ends =>
              obtain ⟨isList, isItem, rfl⟩ := ends
              cases same
              exact ⟨isList, isItem, [], rfl⟩
          · cases same
        · exact ⟨isList, isItem, first :: inner, rfl⟩
      · rintro ⟨isList, isItem, inner, shape⟩
        cases inner with
        | nil =>
            cases shape
            exact .inl (by simp [isList, isItem])
        | cons other inner =>
            cases shape
            exact .inr ⟨isList, isItem, inner, rfl⟩

theorem not_mem_endingsInside_ownTag (bracket : Bracket) (tags : List OpenTag) (tag : OpenTag) :
    (tag, .ownTag) ∉ endingsInside bracket tags := by
  induction tags with
  | nil => exact List.not_mem_nil
  | cons first outer ih =>
      rw [endingsInside, List.mem_cons, not_or]
      refine ⟨?_, ih⟩
      intro same
      split at same <;> cases same

/-! ### What the operations do to the open tags -/

namespace Assembly

/-- The part of a tree under construction that decides about warnings. -/
structure Skeleton where
  /-- The open tags, the innermost one first. -/
  openTags : List OpenTag
  warnings : List Warning
  offset : Nat

def skeleton (assembly : Assembly) : Skeleton :=
  ⟨assembly.frames.map Frame.openTag, assembly.warnings, assembly.offset⟩

theorem brackets_eq (assembly : Assembly) :
    assembly.brackets = assembly.skeleton.openTags.map OpenTag.bracket := by
  simp [brackets, skeleton, Frame.openTag, Function.comp_def]

@[simp]
theorem skeleton_addNode (assembly : Assembly) (node : Node) :
    (assembly.addNode node).skeleton = assembly.skeleton := by
  obtain ⟨frames, base, pending, warnings, place⟩ := assembly
  cases frames <;> rfl

@[simp]
theorem skeleton_addNodes (assembly : Assembly) (nodes : List Node) :
    (assembly.addNodes nodes).skeleton = assembly.skeleton := by
  induction nodes generalizing assembly with
  | nil => rfl
  | cons node rest ih => exact (ih (assembly.addNode node)).trans (skeleton_addNode assembly node)

@[simp]
theorem skeleton_collect (assembly : Assembly) (t : Text) :
    (assembly.collect t).skeleton = assembly.skeleton := rfl

@[simp]
theorem skeleton_flush (codes : List Text) (assembly : Assembly) :
    (assembly.flush codes).skeleton = assembly.skeleton := by
  unfold flush
  dsimp only
  split
  · rfl
  · exact skeleton_addNodes _ _

@[simp]
theorem skeleton_addElement (codes : List Text) (assembly : Assembly) (element : Element) :
    (assembly.addElement codes element).skeleton = assembly.skeleton := by
  simp [addElement]

theorem skeleton_closeTop (assembly : Assembly) :
    assembly.closeTop.skeleton
      = { assembly.skeleton with openTags := assembly.skeleton.openTags.tail } := by
  unfold closeTop
  split
  · next none => simp [skeleton, none]
  · next frame rest shape =>
      rw [skeleton_addNode]
      simp [skeleton, shape]

theorem skeleton_warn (assembly : Assembly) (cause : Cause) (message : String) (offset : Nat) :
    (assembly.warn cause message offset).skeleton
      = { assembly.skeleton with
          warnings := { severity := .minor, cause, message, offset? := some offset }
            :: assembly.skeleton.warnings } := rfl

theorem skeleton_openFrame (assembly : Assembly) (bracket : Bracket) (attributes : Attributes) :
    (assembly.openFrame bracket attributes).skeleton
      = { assembly.skeleton with
          openTags := ⟨bracket, assembly.skeleton.offset⟩ :: assembly.skeleton.openTags } := rfl

/-- The innermost element closes, and is reported unless that is expected. -/
theorem skeleton_closeTop_warnUnclosed (assembly : Assembly) (frame : Frame) (expected : Bool) :
    (if expected then assembly else assembly.warnUnclosed frame).closeTop.skeleton
      = ⟨assembly.skeleton.openTags.tail,
        reports [(frame.openTag, if expected then .implicit else .reported)]
          ++ assembly.skeleton.warnings, assembly.skeleton.offset⟩ := by
  cases expected with
  | true => exact skeleton_closeTop assembly
  | false => exact skeleton_closeTop (assembly.warnUnclosed frame)

/-- A closing tag ends the elements inside of the one it closes. -/
theorem skeleton_closeUnclosed_some (bracket : Bracket) {inner outer : List OpenTag}
    {assembly : Assembly} (shape : assembly.skeleton.openTags = inner ++ outer) :
    (closeUnclosed (some bracket) inner.length assembly).skeleton
      = ⟨outer, (reports (endingsInside bracket inner)).reverse ++ assembly.skeleton.warnings,
        assembly.skeleton.offset⟩ := by
  induction inner generalizing assembly with
  | nil =>
      rw [List.nil_append] at shape
      rw [← shape]
      rfl
  | cons tag inner ih =>
      obtain ⟨frame, others, frames, rfl, _⟩ := List.map_eq_cons_iff.1 shape
      have expected : (bracket == .list && frame.bracket == .item && inner.length == 0)
          = decide (bracket = .list ∧ frame.openTag.bracket = .item ∧ inner = []) := by
        rw [Bool.eq_iff_iff, decide_eq_true_eq]
        simp [Frame.openTag, and_assoc]
      have closed := skeleton_closeTop_warnUnclosed assembly frame
        (decide (bracket = .list ∧ frame.openTag.bracket = .item ∧ inner = []))
      rw [List.length_cons, closeUnclosed, frames]
      dsimp only
      rw [expected, ih (by rw [closed, shape]; rfl), closed, endingsInside, reverse_reports_cons,
        List.append_assoc]
      simp only [decide_eq_true_eq]

/-- The end of the input ends all elements that are open. -/
theorem skeleton_closeUnclosed_none {tags : List OpenTag} (nested : ItemsInLists tags)
    {assembly : Assembly} (shape : assembly.skeleton.openTags = tags) :
    (closeUnclosed none tags.length assembly).skeleton
      = ⟨[], (reports (endingsAtEnd tags)).reverse ++ assembly.skeleton.warnings,
        assembly.skeleton.offset⟩ := by
  induction tags generalizing assembly with
  | nil =>
      show assembly.skeleton = ⟨[], assembly.skeleton.warnings, assembly.skeleton.offset⟩
      rw [← shape]
  | cons tag outer ih =>
      obtain ⟨inList, nested⟩ := nested
      obtain ⟨frame, others, frames, rfl, _⟩ := List.map_eq_cons_iff.1 shape
      have expected : assembly.isInItem = decide (frame.openTag.bracket = .item) := by
        rw [Bool.eq_iff_iff, isInItem_iff, brackets_eq, shape, decide_eq_true_eq]
        constructor
        · rintro ⟨_, same⟩
          exact (List.cons.inj same).1
        · intro isItem
          have top := inList isItem
          rw [← List.head?_map] at top
          obtain ⟨rest, below⟩ := List.head?_eq_some_iff.1 top
          exact ⟨rest, by rw [List.map_cons, isItem, below]⟩
      have closed := skeleton_closeTop_warnUnclosed assembly frame
        (decide (frame.openTag.bracket = .item))
      have ends : endingsAtEnd (frame.openTag :: outer)
          = (frame.openTag, if frame.openTag.bracket = .item then .implicit else .reported)
            :: endingsAtEnd outer := rfl
      rw [List.length_cons, closeUnclosed, frames]
      dsimp only
      rw [expected, ih nested (by rw [closed, shape]; rfl), closed, ends, reverse_reports_cons,
        List.append_assoc]
      simp only [decide_eq_true_eq]

end Assembly

/-! ### One piece -/

/-- What a lexeme at a byte of the input can do to the open tags: `closed` go from the
top, `opened` come on top of the `rest`, and `raised` are the warnings that are not about
the tags that go. -/
inductive Moves (offset : Nat) (rest : List OpenTag) :
    (lexeme : Lexeme) → (closed : List (OpenTag × Ending)) → (opened : List OpenTag) →
    (raised : List Warning) → Prop where
  | quiet (lexeme : Lexeme) : Moves offset rest lexeme [] [] []
  | opens {bracket : Bracket} (other : bracket ≠ .item) (token : Token) :
      Moves offset rest (.opener bracket token) [] [⟨bracket, offset⟩] []
  | firstItem (token : Token) : Moves offset rest (.opener .item token) [] [⟨.item, offset⟩] []
  | nextItem {item : OpenTag} (isItem : item.bracket = .item) (token : Token) :
      Moves offset rest (.opener .item token) [(item, .implicit)] [⟨.item, offset⟩] []
  | misplaced (token : Token) :
      Moves offset rest (.opener .item token) [] []
        [⟨.minor, .misplaced "*", "list item outside of a list kept as text", some offset⟩]
  | unmatched (bracket : Bracket) (token : Token) :
      Moves offset rest (.closer bracket token) [] []
        [⟨.minor, .unmatchedClose (String.ofList token.name),
          "closing tag " ++ String.ofList token.text ++ " without opener kept as text",
          some offset⟩]
  | closes {inner : List OpenTag} {target : OpenTag}
      (others : ∀ tag ∈ inner, tag.bracket ≠ target.bracket) (token : Token) :
      Moves offset rest (.closer target.bracket token)
        (endingsInside target.bracket inner ++ [(target, .ownTag)]) [] []
  | endless (element : Element) :
      Moves offset rest (.endlessCode element) [] []
        [⟨.minor, .unclosedTag "code", "code block runs to end of input", some offset⟩]

namespace Moves

/-- At most one tag or warning is new, and it stands at the place of the lexeme. -/
theorem places {offset : Nat} {rest opened : List OpenTag} {lexeme : Lexeme}
    {closed : List (OpenTag × Ending)} {raised : List Warning}
    (moves : Moves offset rest lexeme closed opened raised) :
    raised.map Warning.offset? ++ offsets opened = []
      ∨ raised.map Warning.offset? ++ offsets opened = [some offset] := by
  cases moves with
  | quiet | closes => exact .inl rfl
  | _ => exact .inr rfl

variable {offset : Nat} {rest opened : List OpenTag} {closed : List (OpenTag × Ending)}
  {raised : List Warning} {token : Token}

/-- A closing tag closes nothing, or an element of its kind with all inside of it. -/
theorem of_closer {bracket : Bracket}
    (moves : Moves offset rest (.closer bracket token) closed opened raised) :
    closed = [] ∨ ∃ inner target, target.bracket = bracket ∧
      (∀ tag ∈ inner, tag.bracket ≠ bracket) ∧
      closed = endingsInside bracket inner ++ [(target, .ownTag)] := by
  cases moves with
  | quiet | unmatched => exact .inl rfl
  | closes others => exact .inr ⟨_, _, rfl, others, rfl⟩

/-- The tag of an item closes at most the item before it. -/
theorem of_opener_item (moves : Moves offset rest (.opener .item token) closed opened raised) :
    ∀ pair ∈ closed, pair.2 = .implicit := by
  cases moves with
  | nextItem => exact List.forall_mem_singleton.2 rfl
  | _ => exact List.forall_mem_nil _

end Moves

namespace Assembly

/-- A lexeme brings a tree under construction from one skeleton to another. -/
def Skeleton.Turns (before : Skeleton) (lexeme : Lexeme) (after : Skeleton) : Prop :=
  ∃ closed rest opened raised, Moves before.offset rest lexeme closed opened raised ∧
    before.openTags = closed.map Prod.fst ++ rest ∧
    after = ⟨opened ++ rest, raised ++ ((reports closed).reverse ++ before.warnings),
      before.offset⟩

theorem turns_quiet (skeleton : Skeleton) (lexeme : Lexeme) : skeleton.Turns lexeme skeleton :=
  ⟨[], skeleton.openTags, [], [], .quiet lexeme, rfl, rfl⟩

/-- A new item ends the innermost element if that is an item of a list, and opens where a list
is then innermost. -/
theorem turns_openItem (codes : List Text) (assembly : Assembly) (token : Token) :
    assembly.skeleton.Turns (.opener .item token) (assembly.openItem codes token).skeleton := by
  unfold openItem
  dsimp only
  by_cases inItem : (assembly.flush codes).isInItem = true
  · rw [if_pos inItem]
    obtain ⟨outer, shape⟩ := (isInItem_iff _).1 inItem
    rw [brackets_eq, skeleton_flush] at shape
    obtain ⟨item, rest, tags, isItem, below⟩ := List.map_eq_cons_iff.1 shape
    have closed : (assembly.flush codes).closeTop.skeleton
        = ⟨rest, assembly.skeleton.warnings, assembly.skeleton.offset⟩ := by
      rw [skeleton_closeTop, skeleton_flush, tags]
      rfl
    have inList : (assembly.flush codes).closeTop.top? = some .list := by
      rw [top?_eq_head?_brackets, brackets_eq, closed, below]
      rfl
    rw [if_pos inList, skeleton_openFrame, closed]
    exact ⟨[(item, .implicit)], rest, _, [], .nextItem isItem token, tags, rfl⟩
  · rw [if_neg inItem]
    split
    · rw [skeleton_openFrame, skeleton_flush]
      exact ⟨[], assembly.skeleton.openTags, _, [], .firstItem token, rfl, rfl⟩
    · rw [skeleton_collect, skeleton_warn, skeleton_flush]
      have place : (assembly.flush codes).offset = assembly.skeleton.offset :=
        congrArg Skeleton.offset (skeleton_flush codes assembly)
      rw [place]
      exact ⟨[], assembly.skeleton.openTags, [], _, .misplaced token, rfl, rfl⟩

/-- The tags inside of the innermost one of a kind, that one, and those around it. -/
theorem exists_of_findIdx? {tags : List OpenTag} {bracket : Bracket} {count : Nat}
    (found : tags.findIdx? (·.bracket == bracket) = some count) :
    ∃ inner target outer, tags = inner ++ target :: outer ∧ inner.length = count ∧
      target.bracket = bracket ∧ ∀ tag ∈ inner, tag.bracket ≠ target.bracket := by
  induction tags generalizing count with
  | nil => cases found
  | cons tag rest ih =>
      rw [List.findIdx?_cons] at found
      split at found
      · next same =>
          cases found
          exact ⟨[], tag, rest, rfl, rfl, beq_iff_eq.1 same, List.forall_mem_nil _⟩
      · next differs =>
          obtain ⟨_, later, rfl⟩ := Option.map_eq_some_iff.1 found
          obtain ⟨inner, target, outer, rfl, rfl, rfl, others⟩ := ih later
          rw [beq_iff_eq] at differs
          exact ⟨tag :: inner, target, outer, rfl, rfl, rfl,
            List.forall_mem_cons.2 ⟨differs, others⟩⟩

/-- A closing tag ends the innermost element of its tag and all that is open inside it, if
there is one. -/
theorem turns_close (codes : List Text) (assembly : Assembly) (bracket : Bracket) (token : Token) :
    assembly.skeleton.Turns (.closer bracket token)
      (assembly.close codes bracket token).skeleton := by
  unfold close
  split
  · exact ⟨[], assembly.skeleton.openTags, [], _, .unmatched bracket token, rfl, rfl⟩
  · next count found =>
      have place : assembly.skeleton.openTags.findIdx? (·.bracket == bracket) = some count := by
        rw [← found, skeleton, List.findIdx?_map]
        rfl
      obtain ⟨inner, target, outer, tags, rfl, rfl, others⟩ := exists_of_findIdx? place
      have opened : (assembly.flush codes).skeleton.openTags = inner ++ target :: outer := by
        rw [skeleton_flush, tags]
      have around : assembly.skeleton.openTags
          = (endingsInside target.bracket inner ++ [(target, Ending.ownTag)]).map Prod.fst
            ++ outer := by
        rw [tags, List.map_append, map_fst_endingsInside, List.append_assoc]
        rfl
      refine ⟨_, outer, [], [], .closes others token, around, ?_⟩
      rw [skeleton_closeTop, skeleton_closeUnclosed_some _ opened, skeleton_flush, reports_append]
      simp [reports]

/-- One case for each kind of piece: what it does to the open tags depends on them alone. -/
theorem turns_act (codes : List Text) (assembly : Assembly) (source : Text) (lexeme : Lexeme) :
    assembly.skeleton.Turns lexeme (assembly.act codes source lexeme).skeleton := by
  have quiet := turns_quiet assembly.skeleton lexeme
  cases lexeme with
  | char c => exact quiet
  | carriageReturn => exact quiet
  | lineFeed =>
      rw [act]
      split
      · exact quiet
      · rw [skeleton_addElement]
        exact quiet
  | verbatim => exact quiet
  | opener bracket token =>
      by_cases item : bracket = .item
      · rw [item]
        exact turns_openItem codes assembly token
      · rw [act_opener item, skeleton_openFrame, skeleton_flush]
        exact ⟨[], assembly.skeleton.openTags, _, [], .opens item token, rfl, rfl⟩
  | closer bracket token => exact turns_close codes assembly bracket token
  | whole element =>
      rw [act, skeleton_addElement]
      exact quiet
  | endlessCode element =>
      rw [act, skeleton_addElement]
      exact ⟨[], assembly.skeleton.openTags, [], _, .endless element, rfl, rfl⟩

/-- A piece moves the open tags and goes past its source. -/
theorem exists_moves_step (codes : List Text) (assembly : Assembly) (piece : Piece) :
    ∃ closed rest opened raised,
      Moves assembly.skeleton.offset rest piece.lexeme closed opened raised ∧
      assembly.skeleton.openTags = closed.map Prod.fst ++ rest ∧
      (assembly.step codes piece).skeleton = ⟨opened ++ rest,
        raised ++ ((reports closed).reverse ++ assembly.skeleton.warnings),
        assembly.skeleton.offset + Text.byteLength piece.source⟩ := by
  obtain ⟨closed, rest, opened, raised, moves, shape, turned⟩ :=
    turns_act codes assembly piece.source piece.lexeme
  refine ⟨closed, rest, opened, raised, moves, shape, ?_⟩
  show Skeleton.mk (assembly.act codes piece.source piece.lexeme).skeleton.openTags
    (assembly.act codes piece.source piece.lexeme).skeleton.warnings _ = _
  rw [turned]
  rfl

/-- The end of the input reports what is still open, items aside. -/
theorem warnings_finish (codes : List Text) {assembly : Assembly}
    (nested : ItemsInLists assembly.skeleton.openTags) :
    (assembly.finish codes).warnings
      = (reports (endingsAtEnd assembly.skeleton.openTags)).reverse
        ++ assembly.skeleton.warnings := by
  have shape : (assembly.flush codes).skeleton.openTags = assembly.skeleton.openTags := by
    rw [skeleton_flush]
  have count : (assembly.flush codes).frames.length = assembly.skeleton.openTags.length := by
    rw [← shape, skeleton, List.length_map]
  have closed := skeleton_closeUnclosed_none nested shape
  rw [skeleton_flush, ← count] at closed
  exact congrArg Skeleton.warnings closed

end Assembly
end ForumMarkup.Bbcode
