import ForumMarkup.Proofs.Markdown.AuthoredText
import ForumMarkup.Proofs.Markdown.BareSpans
import ForumMarkup.Proofs.Span.Direct

/-!
Contract: posts of text leaves, written behind each other.

Owns:
- `Entity.encode`, text as it is stored, which is read back as it was;
- `flatPost`, a post of text leaves and possibly a quote that writes an arrow.

Main statements: `convertPlain_flatPost`, what such a post is written as, and
`not_keepsText_flatPost`, when it loses text.
-/

set_option autoImplicit false

open scoped List

namespace ForumMarkup

/-! ### Text as it is stored -/

namespace Entity

def encode (t : Text) : Text :=
  t.flatMap fun c => if c = '&' then "&amp;".toList else [c]

theorem encode_cons (c : Char) (rest : Text) :
    encode (c :: rest) = (if c = '&' then "&amp;".toList else [c]) ++ encode rest :=
  List.flatMap_cons

/-- Every text is the meaning of its stored form. -/
theorem decode_encode (t : Text) : decode (encode t) = t := by
  induction t with
  | nil => rw [encode, List.flatMap_nil, decode]
  | cons c rest ih =>
      rw [encode_cons]
      split
      · next same =>
          have found : reference? ("amp;".toList ++ encode rest) = some ('&', encode rest) := rfl
          show decode ('&' :: ("amp;".toList ++ encode rest)) = _
          rw [decode, if_pos rfl]
          split
          · next meaning after other =>
              rw [found, Option.some.injEq, Prod.mk.injEq] at other
              obtain ⟨rfl, rfl⟩ := other
              show '&' :: decode (encode rest) = _
              rw [ih, same]
          · next none =>
              rw [found] at none
              cases none
      · next plain =>
          rw [List.singleton_append, decode_cons_of_ne plain, ih]

/-- A stored text starts with its own first character or an ampersand. -/
theorem exists_encode_cons (c : Char) (rest : Text) :
    ∃ d more, encode (c :: rest) = d :: more ∧ (d = c ∨ d = '&') := by
  rw [encode_cons]
  split
  · exact ⟨'&', _, rfl, .inr rfl⟩
  · exact ⟨c, _, rfl, .inl rfl⟩

end Entity

namespace Markdown

open Decoration Node

/-! ### Posts of text leaves -/

/-- A quote of nothing, whose line mark follows what stands before without a break. -/
def arrow : Node :=
  .wrap Tag.size [.quote [.wrap Tag.size []]]

def arrowTree : SpanTree :=
  .node sizeSpan [.node quoteSpan [.node sizeSpan []]]

theorem lays_arrow {prior : List SpanTree} : Lays {} prior [arrow] [arrowTree] := by
  refine .element .size (by decide) (by decide) (fun _ => rfl) (fun _ _ => rfl) rfl ?_ lays_nil
  refine .element .quote (by decide) (by decide) (fun _ => rfl) (fun _ _ => rfl) rfl ?_ lays_nil
  refine .element .size (by decide) (by decide) (fun _ => rfl) (fun _ _ => rfl) rfl ?_ lays_nil
  exact lays_nil

/-- What the quote of nothing writes. -/
theorem inside_arrow : inside {} [] arrowTree = ">\n\n".toList := by
  have lone : inside {} quoteMark (.node quoteSpan [.node sizeSpan []]) = ['>'] := by
    rw [inside_of_some {} quoteMark rfl, siblings_leaf, siblings,
      place_bare rfl rfl rfl (by rintro _ c ⟨⟩) rfl]
    show (stripBreaks quoteMark quoteMark.reverse).reverse = ['>']
    rw [show stripBreaks quoteMark quoteMark.reverse = stripBreaks quoteMark ['>'] from
      stripBreaks_of_some rfl, stripBreaks_of_none rfl]
    rfl
  have content : inside {} ([] ++ quoteSpan.lineMark?.getD []) (.node quoteSpan [.node sizeSpan []])
      = ['>'] := lone
  rw [arrowTree, inside_of_none {} [] rfl, siblings_node {} [] false [] quoteSpan (by simp),
    siblings, content, place_unmarked rfl rfl rfl]
  show (addBreaks {} .auto [] 2 ['>']).reverse = _
  rw [addBreaks_of_none (by simp) rfl (by decide) (by decide)]
  rfl

/-- The text starts with a character that is not blank, so cleaning leaves it alone. -/
def StartsSolid (t : Text) : Prop :=
  (t.head?.any fun c => !Text.isBlank c) = true

instance (t : Text) : Decidable (StartsSolid t) :=
  inferInstanceAs (Decidable (_ = true))

def stored (leaves : List Text) : List Node :=
  leaves.map fun leaf => .text (Entity.encode leaf)

/-- A post of text leaves, with the quote of nothing behind them or without it. -/
def flatPost (leaves : List Text) (pointed : Bool) : Element :=
  .post (stored leaves ++ if pointed then [arrow] else [])

/-- What a flat post writes behind its texts: the arrow ends a paragraph. -/
def tailText (pointed : Bool) : Text :=
  if pointed then ">\n\n".toList else []

/-- A stored leaf is kept as it is. -/
theorem clean?_encode {leaf : Text} (start : StartsSolid leaf) :
    clean? false (.text (Entity.encode leaf)) = some (.text (Entity.encode leaf)) := by
  obtain ⟨c, rest, rfl⟩ : ∃ c rest, leaf = c :: rest := by
    refine List.exists_cons_of_ne_nil ?_
    rintro rfl
    cases start
  obtain ⟨d, others, shape, first⟩ := Entity.exists_encode_cons c rest
  have other : d ≠ '\n' := by
    rcases first with rfl | rfl
    · exact Text.ne_lineFeed_of_solid (by simpa [StartsSolid] using start)
    · decide
  have same : cleanText false (d :: others) = d :: others := by
    unfold cleanText Text.trimStartingLine
    split
    · next same => exact absurd (List.cons.inj same).1 other
    · rfl
  rw [shape, clean?, same]

theorem cleanAll_stored {leaves : List Text} (starts : ∀ leaf ∈ leaves, StartsSolid leaf)
    (tail : List Node) : cleanAll false (stored leaves ++ tail)
      = stored leaves ++ cleanAll false tail := by
  induction leaves with
  | nil => rfl
  | cons leaf more ih =>
      obtain ⟨first, later⟩ := List.forall_mem_cons.1 starts
      show cleanAll false (.text (Entity.encode leaf) :: (stored more ++ tail)) = _
      rw [cleanAll, clean?_encode first]
      show _ :: cleanAll false (stored more ++ tail) = _
      rw [ih later]
      rfl

theorem leavesOf_stored (leaves : List Text) (tail : List Node) :
    leavesOf (stored leaves ++ tail) = leaves.map Entity.encode ++ leavesOf tail := by
  induction leaves with
  | nil => rfl
  | cons leaf more ih =>
      show Entity.encode leaf :: leavesOf (stored more ++ tail) = _
      rw [ih]
      rfl

theorem elementsOf_stored (leaves : List Text) (tail : List Node) :
    elementsOf (stored leaves ++ tail) = elementsOf tail := by
  induction leaves with
  | nil => rfl
  | cons leaf more ih => exact ih

theorem lays_stored {tail : List Node} {trees : List SpanTree}
    (lays : ∀ prior, Lays {} prior tail trees) (leaves : List Text) (prior : List SpanTree) :
    Lays {} prior (stored leaves ++ tail) (leaves.map SpanTree.ofText ++ trees) := by
  induction leaves generalizing prior with
  | nil => exact lays prior
  | cons leaf more ih => exact .text (Entity.decode_encode leaf) (ih _)

theorem clean_flatPost {leaves : List Text} (pointed : Bool)
    (starts : ∀ leaf ∈ leaves, StartsSolid leaf) :
    (flatPost leaves pointed).clean = flatPost leaves pointed := by
  refine clean_post ?_
  rw [cleanAll_stored starts]
  cases pointed with
  | false => rfl
  | true => rfl

/-- A post of text leaves is written as these, and an arrow with two line feeds if
the quote is there, without the breaks at the end. -/
theorem convertPlain_flatPost {leaves : List Text} (pointed : Bool)
    (starts : ∀ leaf ∈ leaves, StartsSolid leaf) :
    (flatPost leaves pointed).convertPlain {}
      = (stripBreaks [] (leaves.flatten ++ tailText pointed).reverse).reverse := by
  have tail (prior : List SpanTree) : Lays {} prior (if pointed then [arrow] else [])
      (if pointed then [arrowTree] else []) := by
    cases pointed with
    | false => exact lays_nil
    | true => exact lays_arrow
  have plan := plan_of_lays (clean_flatPost pointed starts) (lays_stored tail leaves [])
  have text : inside {} [] (.node { origin := .root }
      (leaves.map SpanTree.ofText ++ if pointed then [arrowTree] else []))
      = leaves.flatten ++ tailText pointed := by
    rw [inside_of_none {} [] rfl, siblings_texts]
    cases pointed with
    | false => simp [siblings, tailText]
    | true =>
        have content : inside {} ([] ++ sizeSpan.lineMark?.getD []) arrowTree = _ := inside_arrow
        rw [if_pos rfl, arrowTree, siblings_node {} [] false _ sizeSpan (by simp), siblings]
        rw [← arrowTree, content, place_unmarked rfl rfl rfl]
        show (">\n\n".toList.reverse ++ (leaves.flatten.reverse ++ [])).reverse = _
        rw [List.append_nil, ← List.reverse_append, List.reverse_reverse]
        rfl
  unfold Element.convertPlain Element.toMarkdown
  rw [flatPost, plan, Inquiry.done_bind]
  show (stripBreaks [] (inside {} [] _).reverse).reverse = _
  rw [text]

theorem decodedText_encode (leaves : List Text) :
    decodedText (leaves.map Entity.encode) = leaves.flatten := by
  induction leaves with
  | nil => rfl
  | cons leaf more ih =>
      show Entity.decode (Entity.encode leaf) ++ decodedText (more.map Entity.encode) = _
      rw [Entity.decode_encode, ih]
      rfl

theorem leaves_flatPost {leaves : List Text} (pointed : Bool)
    (starts : ∀ leaf ∈ leaves, StartsSolid leaf) :
    (flatPost leaves pointed).clean.leaves = leaves.map Entity.encode := by
  rw [clean_flatPost pointed starts]
  show leavesOf (stored leaves ++ _) = _
  rw [leavesOf_stored]
  cases pointed with
  | false => exact List.append_nil _
  | true => exact List.append_nil _

/-- The leaves of a flat post are its texts, as they are read. -/
theorem exposes_flatPost {core : Text} {leaves : List Text} {pointed : Bool}
    (starts : ∀ leaf ∈ leaves, StartsSolid leaf)
    (each : ∀ leaf ∈ leaves, Text.trim leaf = core ∨ Sturdy leaf) :
    Exposes core (flatPost leaves pointed) := by
  constructor
  · show Textual (elementsOf (stored leaves ++ _))
    rw [elementsOf_stored]
    cases pointed with
    | false => exact textual_nil
    | true =>
        refine textual_cons .size (by decide) ?_ textual_nil
        refine textual_cons .quote (by decide) ?_ textual_nil
        exact textual_cons .size (by decide) textual_nil textual_nil
  · intro leaf member
    rw [leaves_flatPost pointed starts] at member
    obtain ⟨text, there, rfl⟩ := List.mem_map.1 member
    rw [Entity.decode_encode]
    exact each text there

/-- A flat post loses the end of its text when this is stripped with what is behind
it. -/
theorem not_keepsText_flatPost {leaves : List Text} {pointed : Bool} (kept lost : Text)
    (starts : ∀ leaf ∈ leaves, StartsSolid leaf) (joined : leaves.flatten = kept ++ lost)
    (filled : Text.solid lost ≠ [])
    (strips : stripBreaks [] (leaves.flatten ++ tailText pointed).reverse
      = stripBreaks [] kept.reverse) :
    ¬KeepsText {} (flatPost leaves pointed) := by
  unfold KeepsText
  rw [leaves_flatPost pointed starts, decodedText_encode, convertPlain_flatPost pointed starts,
    strips, joined]
  intro within
  have start : (stripBreaks [] kept.reverse).reverse <+: kept.reverse.reverse :=
    stripBreaks_prefix _
  rw [List.reverse_reverse] at start
  have bound := (Text.solid_sublist_solid (within.trans start.sublist)).length_le
  rw [Text.solid_solid, Text.solid_append, List.length_append] at bound
  have := List.length_pos_iff.2 filled
  omega

theorem exists_loss_flatPost {core : Text} (leaves : List Text) (pointed : Bool)
    (kept lost : Text) (starts : ∀ leaf ∈ leaves, StartsSolid leaf)
    (each : ∀ leaf ∈ leaves, Text.trim leaf = core ∨ Sturdy leaf)
    (joined : leaves.flatten = kept ++ lost) (filled : Text.solid lost ≠ [])
    (strips : stripBreaks [] (leaves.flatten ++ tailText pointed).reverse
      = stripBreaks [] kept.reverse) :
    ∃ post, Exposes core post ∧ ¬KeepsText {} post :=
  ⟨flatPost leaves pointed, exposes_flatPost starts each,
    not_keepsText_flatPost kept lost starts joined filled strips⟩

end Markdown

end ForumMarkup
