import ForumMarkup.Proofs.Text.Lines

/-!
Contract: the lines of a text that are not empty.

Owns:
- `filledLines`;
- `Alike`, texts that can be exchanged within any text without a change of its
  filled lines.

Main statement: `alike_feeds`, one line feed does for any number of them.
-/

set_option autoImplicit false

namespace ForumMarkup
namespace Text

/-- The lines of a text that are not empty. -/
def filledLines (t : Text) : List Text :=
  (lines t).filter fun line => !line.isEmpty

theorem filledLines_append_feed (front back : Text) :
    filledLines (front ++ '\n' :: back) = filledLines front ++ filledLines back := by
  rw [filledLines, lines_append_feed, List.filter_append]
  rfl

theorem filledLines_feed (t : Text) : filledLines ('\n' :: t) = filledLines t :=
  filledLines_append_feed [] t

theorem filledLines_concat_feed (t : Text) : filledLines (t ++ ['\n']) = filledLines t := by
  rw [filledLines_append_feed]
  exact List.append_nil _

/-- In every text one of the two can stand for the other, as far as filled lines are
concerned. -/
def Alike (s t : Text) : Prop :=
  ∀ front back, filledLines (front ++ (s ++ back)) = filledLines (front ++ (t ++ back))

theorem Alike.refl (t : Text) : Alike t t := fun _ _ => rfl

theorem Alike.symm {s t : Text} (alike : Alike s t) : Alike t s :=
  fun front back => (alike front back).symm

theorem Alike.trans {s t u : Text} (first : Alike s t) (second : Alike t u) : Alike s u :=
  fun front back => (first front back).trans (second front back)

theorem Alike.append {s t u v : Text} (first : Alike s t) (second : Alike u v) :
    Alike (s ++ u) (t ++ v) := by
  intro front back
  rw [List.append_assoc, first, ← List.append_assoc front t, second]
  simp only [List.append_assoc]

theorem Alike.append_right {s t : Text} (alike : Alike s t) (u : Text) : Alike (s ++ u) (t ++ u) :=
  alike.append (.refl u)

theorem Alike.filledLines {s t : Text} (alike : Alike s t) : filledLines s = filledLines t := by
  have whole := alike [] []
  rwa [List.nil_append, List.nil_append, List.append_nil, List.append_nil] at whole

theorem alike_feeds (count : Nat) : Alike (List.replicate (count + 1) '\n') ['\n'] := by
  induction count with
  | zero => exact .refl _
  | succ count ih =>
      rw [List.replicate_succ']
      refine (ih.append_right ['\n']).trans ?_
      intro front back
      show filledLines (front ++ '\n' :: '\n' :: back) = filledLines (front ++ '\n' :: back)
      rw [filledLines_append_feed, filledLines_feed, filledLines_append_feed]

/-- A second line feed makes no difference. -/
theorem alike_feed_feed (t : Text) : Alike (t ++ ['\n']) (t ++ ['\n'] ++ ['\n']) := by
  rw [List.append_assoc]
  exact (Alike.refl t).append (alike_feeds 1).symm

end Text
end ForumMarkup
