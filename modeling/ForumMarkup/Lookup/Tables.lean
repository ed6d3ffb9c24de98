import ForumMarkup.Dictionary
import ForumMarkup.Lookup
import ForumMarkup.Text.Search

/-!
Contract: answering every question from tables.

Owns: `LookupTables`, and its total answer to each kind of question.

Users and posts are listed under the canonical decimal digits of their numbers.
-/

set_option autoImplicit false

namespace ForumMarkup

/-- Replaces the beginning `old` of an address by `new`. -/
structure UrlSubstitution where
  old : Text
  new : Text
  deriving DecidableEq, Repr

/-- The address with its beginning replaced, if it starts with the old beginning. -/
def UrlSubstitution.target? (substitution : UrlSubstitution) (address : Text) : Option Text :=
  (Text.after? substitution.old address).map (substitution.new ++ ·)

/-- What is known about users, smilies, posts, uploads and addresses. -/
structure LookupTables where
  users : Dictionary Text := ∅
  smilies : Dictionary Text := ∅
  posts : Dictionary QuotedPost := ∅
  uploads : Dictionary Text := ∅
  substitutions : List UrlSubstitution := []
  deriving DecidableEq

namespace LookupTables

/-- The address after the first substitution that applies to it. -/
def substituteUrl (tables : LookupTables) (address : Text) : Text :=
  (tables.substitutions.findSome? (·.target? address)).getD address

def answer (tables : LookupTables) : (lookup : Lookup) → lookup.Answer
  | .username userId => tables.users.get? (Nat.repr userId)
  | .smilie code => tables.smilies.get? (String.ofList code)
  | .quotedPost postId => tables.posts.get? (Nat.repr postId)
  | .upload filename _ => tables.uploads.get? (String.ofList filename)
  | .url address => tables.substituteUrl address

def smilieCodes (tables : LookupTables) : List Text :=
  tables.smilies.entries.map fun entry => entry.1.toList

end LookupTables
end ForumMarkup
