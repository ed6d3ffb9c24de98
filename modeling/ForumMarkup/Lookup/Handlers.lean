import ForumMarkup.Lookup

/-!
Contract: a resolver put together from one function for each kind of question.

Owns: `Handlers`, whose missing functions find nothing and never fail.
-/

set_option autoImplicit false

namespace ForumMarkup

/-- One optional function for each kind of question. -/
structure Handlers (ε : Type) where
  username? : Option (Nat → Except ε (Option Text)) := none
  smilie? : Option (Text → Except ε (Option Text)) := none
  quotedPost? : Option (Nat → Except ε (Option QuotedPost)) := none
  upload? : Option (Text → Option Nat → Except ε (Option Text)) := none
  url? : Option (Text → Except ε Text) := none

namespace Handlers

variable {ε : Type}

/-- The function for a question, applied to it. -/
def answer? (handlers : Handlers ε) : (lookup : Lookup) → Option (Except ε lookup.Answer)
  | .username userId => handlers.username?.map (· userId)
  | .smilie code => handlers.smilie?.map (· code)
  | .quotedPost postId => handlers.quotedPost?.map (· postId)
  | .upload filename index? => handlers.upload?.map (· filename index?)
  | .url address => handlers.url?.map (· address)

/-- Answers by the function for the question, and finds nothing without one. -/
def resolver (handlers : Handlers ε) : Resolver ε := fun lookup =>
  (handlers.answer? lookup).getD (.ok lookup.unresolved)

def supplies (handlers : Handlers ε) (lookup : Lookup) : Bool :=
  (handlers.answer? lookup).isSome

end Handlers
end ForumMarkup
