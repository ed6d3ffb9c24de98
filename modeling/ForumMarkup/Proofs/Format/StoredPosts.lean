import ForumMarkup.CommandLine.Run
import ForumMarkup.Proofs.Xml.RootTag

/-!
Contract: which stored posts are recognised by their first characters.

Main statements: `sniff_eq_xml_iff`, the format is told by fixed beginnings; and
`sniff_stored_iff`, the stored posts whose root has one of them.

The beginnings leave out the root without content of a post with markup, and every root
whose name is followed by another space than the character of that name.
-/

set_option autoImplicit false

namespace ForumMarkup

theorem Text.startsWith_iff {t beginning : Text} :
    Text.startsWith t beginning = true ↔ beginning <+: t := by
  rw [Text.startsWith, Option.isSome_iff_exists]
  constructor
  · rintro ⟨rest, found⟩
    exact ⟨rest, (Text.eq_append_of_after? found).symm⟩
  · rintro ⟨rest, rfl⟩
    exact ⟨rest, Text.after?_append beginning rest⟩

namespace Format

theorem sniff_eq_xml_iff {input : Text} :
    sniff input = .xml ↔
      ∃ beginning ∈ storedBeginnings, beginning.toList <+: Text.trimStart input := by
  simp only [← Text.startsWith_iff, ← List.any_eq_true]
  unfold sniff
  dsimp only
  split
  · next begins => exact iff_of_true rfl begins
  · next other => exact iff_of_false nofun other

/-- A post that begins with the tag of its root, and that is read without a warning, is
recognised as stored exactly if the name in this tag is followed by the end of the tag or
by the character space, where the end of the tag of an empty root only counts in a post
without markup. -/
theorem sniff_stored_iff {input : Text} {reading : Reading Element}
    (opens : Xml.OpensWithElement input) (read : Xml.read input = .ok reading)
    (quiet : reading.warnings = []) :
    reading.value.tag ∈ [Tag.richRoot, Tag.plainRoot] ∧
      ∃ behind, Text.trimStart input = '<' :: (reading.value.tag.toList ++ behind) ∧
        Xml.NameEnds behind ∧
        (sniff input = .xml ↔ behind.head? = some '>' ∨ behind.head? = some ' ' ∨
          reading.value.tag = Tag.plainRoot ∧ "/>".toList <+: behind) := by
  obtain ⟨known, behind, begins, ends⟩ := Xml.exists_behind_root opens read quiet
  refine ⟨known, behind, begins, ends, ?_⟩
  rw [sniff_eq_xml_iff, begins]
  generalize reading.value.tag = tag at known
  have starts (c : Char) : [c] <+: behind ↔ behind.head? = some c := by
    cases behind <;> simp [eq_comm]
  rw [List.mem_cons, List.mem_singleton] at known
  rcases known with rfl | rfl
  · simp [storedBeginnings, Tag.richRoot, Tag.plainRoot, starts]
  · simp [storedBeginnings, Tag.plainRoot, starts]

/-- A root with an attribute, behind a blank. -/
def attributedPost : Text := " <r x='1'>a</r>".toList

def attributedRoot : Element where
  tag := Tag.richRoot
  attributes := .ofList [("x", "1".toList)]
  children := [.text "a".toList]

theorem sniff_stored_iff_attributedPost :
    Xml.OpensWithElement attributedPost ∧
      Xml.read attributedPost = .ok ⟨attributedRoot, []⟩ ∧ sniff attributedPost = .xml := by
  have opens : Xml.OpensWithElement attributedPost :=
    ⟨"r x='1'>a</r>".toList, .start "r x='1'".toList, "r x='1'>".toList, "a</r>".toList, by decide,
      by with_unfolding_all rfl, rfl, rfl⟩
  have read : Xml.read attributedPost = .ok ⟨attributedRoot, []⟩ := by with_unfolding_all rfl
  obtain ⟨_, behind, begins, _, told⟩ := sniff_stored_iff opens read rfl
  have spelled : Text.trimStart attributedPost
      = '<' :: (attributedRoot.tag.toList ++ " x='1'>a</r>".toList) := by decide
  rw [spelled, List.cons.injEq, List.append_cancel_left_eq] at begins
  refine ⟨opens, read, told.2 (.inr (.inl ?_))⟩
  rw [← begins.2]
  rfl

/-- The root of an empty post with markup is not recognised, so that its tag is taken for
text. -/
theorem sniff_emptyRoot_eq_bbcode :
    let job : CommandLine.Job := { input := "-" }
    let sources : CommandLine.Sources :=
      { file := fun _ => .error .notFound, stdin := .ok "<r/>".toList }
    Xml.OpensWithElement "<r/>".toList ∧
      Xml.read "<r/>".toList = .ok ⟨{ tag := Tag.richRoot }, []⟩ ∧
      sniff "<r/>".toList = .bbcode ∧
      job.run sources = .ok "<r/>\n".toList ∧
      { job with format? := some .xml }.run sources = .ok ['\n'] := by
  have opens : Xml.OpensWithElement "<r/>".toList :=
    ⟨"r/>".toList, .empty ['r'], "r/>".toList, [], by decide, by with_unfolding_all rfl,
      rfl, rfl⟩
  have read : Xml.read "<r/>".toList = .ok ⟨{ tag := Tag.richRoot }, []⟩ := by
    with_unfolding_all rfl
  exact ⟨opens, read, by decide, by with_unfolding_all rfl, by with_unfolding_all rfl⟩

end Format

end ForumMarkup
