import ForumMarkup.Proofs.Markdown.FlatPost
import ForumMarkup.Proofs.Markdown.TowerPost

/-!
Contract: which texts are lost.

Main statements: `exists_loss_of_fragile`, every fragile text is lost in some post,
and `keepsText_exactly_sturdy`, where besides a post of sturdy leaves is kept.
-/

set_option autoImplicit false

namespace ForumMarkup.Markdown

/-- The end of a break is lost behind a leaf that begins one. -/
theorem exists_loss_of_breakEnd {core : Text}
    (part : core ∈ ["br>".toList, "r>".toList, "br".toList, "r".toList]) :
    ∃ post, Exposes core post ∧ ¬KeepsText {} post := by
  have behind (first second : Text) (sturdy : Sturdy first) (same : Text.trim second = core) :
      ∀ leaf ∈ [first, second], Text.trim leaf = core ∨ Sturdy leaf := by
    intro leaf member
    rcases List.mem_cons.1 member with rfl | last
    · exact .inr sturdy
    · rw [List.mem_singleton.1 last]
      exact .inl same
  have angle : Sturdy "<".toList := sturdy_of_getLast? (by decide)
  have letter : Sturdy "<b".toList := sturdy_of_getLast? (by decide)
  have line : stripBreaks [] "<br>\n".toList.reverse = stripBreaks [] [] :=
    stripBreaks_of_stripUnit? rfl
  have lines : stripBreaks [] "<br>\n\n".toList.reverse = stripBreaks [] [] := by
    rw [← line]
    exact stripBreaks_of_stripUnit? rfl
  simp only [List.mem_cons, List.not_mem_nil, or_false] at part
  rcases part with rfl | rfl | rfl | rfl
  · exact exists_loss_flatPost ["<".toList, "br>\n".toList] false [] "<br>\n".toList
      (by decide) (behind _ _ angle (by decide)) rfl (by decide) line
  · exact exists_loss_flatPost ["<b".toList, "r>\n".toList] false [] "<br>\n".toList
      (by decide) (behind _ _ letter (by decide)) rfl (by decide) line
  · exact exists_loss_flatPost ["<".toList, "br".toList] true [] "<br".toList
      (by decide) (behind _ _ angle (by decide)) rfl (by decide) lines
  · exact exists_loss_flatPost ["<b".toList, "r".toList] true [] "<br".toList
      (by decide) (behind _ _ letter (by decide)) rfl (by decide) lines

/-- Every fragile text is lost in some post. -/
theorem exists_loss_of_fragile {core : Text} (trimmed : Text.trim core = core)
    (fragile : Fragile core) : ∃ post, Exposes core post ∧ ¬KeepsText {} post := by
  have starts (after : Text) : ∀ leaf ∈ [core ++ after], StartsSolid leaf := by
    intro leaf member
    rw [List.mem_singleton.1 member]
    rcases Text.trim_eq_nil_or core with none | ⟨⟨c, rest, shape, solid⟩, _⟩
    · rw [trimmed] at none
      exact absurd none fragile.ne_nil
    · rw [trimmed] at shape
      rw [shape]
      simpa [StartsSolid] using solid
  have alone (after : Text) (blank : Text.trim (core ++ after) = core) :
      ∀ leaf ∈ [core ++ after], Text.trim leaf = core ∨ Sturdy leaf := by
    intro leaf member
    rw [List.mem_singleton.1 member]
    exact .inl blank
  have fed : Text.trim (core ++ ['\n']) = core := by
    rw [Text.trim_concat_of_blank (by decide), trimmed]
  have bare : Text.trim (core ++ []) = core := by
    rw [List.append_nil, trimmed]
  -- What ends like a break needs its line feed behind it, in the leaf or, with the
  -- arrow, from a quote; a line mark needs a line of its own.
  cases fragile with
  | hardBreak front =>
      refine exists_loss_flatPost _ false front "\\\n".toList (starts ['\n']) (alone _ fed)
        (by simp) (by decide) ?_
      have shape : ([front ++ ['\\'] ++ ['\n']].flatten ++ []).reverse
          = '\n' :: '\\' :: front.reverse := by simp
      show stripBreaks [] ([front ++ ['\\'] ++ ['\n']].flatten ++ []).reverse = _
      rw [shape, stripBreaks_of_stripUnit? rfl]
  | htmlBreak front =>
      refine exists_loss_flatPost _ false front "<br>\n".toList (starts ['\n']) (alone _ fed)
        (by simp) (by decide) ?_
      have shape : ([front ++ "<br>".toList ++ ['\n']].flatten ++ []).reverse
          = '\n' :: '>' :: 'r' :: 'b' :: '<' :: front.reverse := by simp
      show stripBreaks [] ([front ++ "<br>".toList ++ ['\n']].flatten ++ []).reverse = _
      rw [shape, stripBreaks_of_stripUnit? rfl]
  | openBreak front =>
      refine exists_loss_flatPost _ true front "<br".toList (starts []) (alone _ bare)
        (by simp) (by decide) ?_
      have shape : ([front ++ "<br".toList ++ []].flatten ++ ">\n\n".toList).reverse
          = '\n' :: '\n' :: '>' :: 'r' :: 'b' :: '<' :: front.reverse := by simp
      show stripBreaks [] ([front ++ "<br".toList ++ []].flatten ++ ">\n\n".toList).reverse = _
      rw [shape, stripBreaks_of_stripUnit? rfl, stripBreaks_of_stripUnit? rfl]
  | breakEnd part => exact exists_loss_of_breakEnd part
  | lineMark depth => exact ⟨_, exposes_towerPost trimmed, not_keepsText_towerPost depth⟩

/-- A post whose text leaves are sturdy is written with all its text.  This is all
that can be promised: a leaf that is not sturdy is lost in some post, where all else
is sturdy. -/
theorem keepsText_exactly_sturdy (options : Options) {post : Element}
    (textual : Textual post.below) :
    ((∀ leaf ∈ post.clean.leaves, Sturdy (Entity.decode leaf)) → KeepsText options post) ∧
    ∀ leaf ∈ post.clean.leaves, ¬Sturdy (Entity.decode leaf) →
      ∃ options other, Exposes (Text.trim (Entity.decode leaf)) other ∧
        ¬KeepsText options other := by
  refine ⟨keepsText_of_sturdy options textual, fun leaf _ fragile => ?_⟩
  obtain ⟨other, exposes, loss⟩ :=
    exists_loss_of_fragile (Text.trim_trim _) (Classical.not_not.1 fragile)
  exact ⟨{}, other, exposes, loss⟩

theorem keepsText_exactly_sturdy_words :
    Textual (Element.post [.bold [.text "word".toList]]).below ∧
      KeepsText {} (.post [.bold [.text "word".toList]]) ∧
      Textual (Element.post [.text "a\\".toList]).below ∧
      ∃ options other, Exposes (Text.trim (Entity.decode "a\\".toList)) other ∧
        ¬KeepsText options other := by
  have bold : Textual (Element.post [.bold [.text "word".toList]]).below :=
    textual_cons .bold (by decide) textual_nil textual_nil
  have plain : Textual (Element.post [.text "a\\".toList]).below := textual_nil
  refine ⟨bold, (keepsText_exactly_sturdy {} bold).1 ?_, plain,
    (keepsText_exactly_sturdy {} plain).2 "a\\".toList ?_ ?_⟩
  · intro leaf member
    rw [List.mem_singleton.1 member, Entity.decode_eq_self (by decide)]
    exact sturdy_of_getLast? (by decide)
  · exact List.mem_singleton.2 rfl
  · intro sturdy
    rw [Entity.decode_eq_self (by decide)] at sturdy
    exact sturdy (.hardBreak ['a'])

/-- A backslash at the end of a line is lost with the line feed behind it. -/
theorem not_keepsText_backslash :
    Textual (Element.post [.text "a\\\n".toList]).below ∧
      (Element.post [.text "a\\\n".toList]).convertPlain {} = ['a'] ∧
      ¬KeepsText {} (.post [.text "a\\\n".toList]) := by
  have starts : ∀ leaf ∈ ["a\\\n".toList], StartsSolid leaf := by decide
  have strips : stripBreaks [] ("a\\\n".toList ++ []).reverse = ['a'] := by
    show stripBreaks [] ['\n', '\\', 'a'] = ['a']
    rw [stripBreaks_of_stripUnit? rfl, stripBreaks_of_none rfl]
  refine ⟨textual_nil, ?_, ?_⟩
  · show (flatPost ["a\\\n".toList] false).convertPlain {} = ['a']
    rw [convertPlain_flatPost false starts]
    show (stripBreaks [] ("a\\\n".toList ++ []).reverse).reverse = ['a']
    rw [strips]
    rfl
  · show ¬KeepsText {} (flatPost ["a\\\n".toList] false)
    refine not_keepsText_flatPost ['a'] "\\\n".toList starts rfl (by decide) ?_
    show stripBreaks [] ("a\\\n".toList ++ []).reverse = stripBreaks [] ['a']
    rw [strips, stripBreaks_of_none rfl]

end ForumMarkup.Markdown
