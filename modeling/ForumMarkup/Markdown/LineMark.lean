import ForumMarkup.Text.Search

/-!
Contract: text of several lines behind a line mark.

Owns: `markLines`, which puts a line mark before every line but the first.

An empty line gets the mark without the blanks at its end, except the last line,
on which more text may follow.
-/

set_option autoImplicit false

namespace ForumMarkup.Markdown

def markedRest (mark : Text) : List Text → Text
  | [] => []
  | [last] => '\n' :: (mark ++ last)
  | line :: more =>
      '\n' :: ((if line.isEmpty then Text.trimEnd mark else mark) ++ line ++ markedRest mark more)

/-- The text with the mark before every line but the first. -/
def markLines (mark text : Text) : Text :=
  match Text.lines text with
  | [] => []
  | first :: more => first ++ markedRest mark more

end ForumMarkup.Markdown
