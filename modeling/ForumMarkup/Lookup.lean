import ForumMarkup.Text.Blank

/-!
Contract: the facts a conversion asks for, and a conversion as a program of such
questions.

Owns:
- `Lookup`, a question, with the type of its answer;
- `Resolver`, which answers every question or fails;
- `Inquiry`, a computation that may ask questions on its way to a result.

Main statements: an inquiry is a lawful monad, running a sequence runs its parts
in order, and a resolver that never fails gives the plain evaluation.

An inquiry mentions no resolver, so what is asked and in which order is part of
its value: two equal inquiries ask the same of every resolver.
-/

set_option autoImplicit false

namespace ForumMarkup

/-- A post that a quote refers to. -/
structure QuotedPost where
  username : Text
  postNumber : Nat
  topicId : Nat
  deriving DecidableEq, Repr

/-- A question about something a post only names. -/
inductive Lookup where
  /-- The name of a user. -/
  | username (userId : Nat)
  /-- The replacement of a smilie. -/
  | smilie (code : Text)
  /-- The author and the place of a quoted post. -/
  | quotedPost (postId : Nat)
  /-- The Markdown of an uploaded file. -/
  | upload (filename : Text) (index? : Option Nat)
  /-- The address a link is to have. -/
  | url (address : Text)
  deriving DecidableEq, Repr

namespace Lookup

/-- What answers a question; `none` says that nothing was found. -/
abbrev Answer : Lookup → Type
  | username _ | smilie _ | upload _ _ => Option Text
  | quotedPost _ => Option QuotedPost
  | url _ => Text

/-- The answer that knows nothing: an address stays as it is. -/
def unresolved : (lookup : Lookup) → lookup.Answer
  | username _ | smilie _ | upload _ _ => none
  | quotedPost _ => none
  | url address => address

end Lookup

/-- Answers every question, or fails with an `ε`. -/
abbrev Resolver (ε : Type) := (lookup : Lookup) → Except ε lookup.Answer

/-- The resolver that never fails and answers as given. -/
def Resolver.ofAnswers {ε : Type} (answers : (lookup : Lookup) → lookup.Answer) : Resolver ε :=
  fun lookup => .ok (answers lookup)

def Resolver.nothing {ε : Type} : Resolver ε :=
  .ofAnswers Lookup.unresolved

/-- A result, or a question and what to do with its answer. -/
inductive Inquiry (α : Type) where
  | done (result : α)
  | ask (lookup : Lookup) (next : lookup.Answer → Inquiry α)

namespace Inquiry

variable {α β γ ε : Type}

protected def bind : Inquiry α → (α → Inquiry β) → Inquiry β
  | .done result, next => next result
  | .ask lookup answer, next => .ask lookup fun reply => (answer reply).bind next

instance : Monad Inquiry where
  pure := .done
  bind := Inquiry.bind

/-- Asks one question and returns its answer. -/
def question (lookup : Lookup) : Inquiry lookup.Answer :=
  .ask lookup .done

/-- The result under a resolver; its first failure ends the inquiry. -/
def run (resolver : Resolver ε) : Inquiry α → Except ε α
  | .done result => .ok result
  | .ask lookup next =>
      match resolver lookup with
      | .ok answer => (next answer).run resolver
      | .error failure => .error failure

/-- The questions asked under a resolver, in order. The last one may have failed. -/
def asked (resolver : Resolver ε) : Inquiry α → List Lookup
  | .done _ => []
  | .ask lookup next =>
      match resolver lookup with
      | .ok answer => lookup :: (next answer).asked resolver
      | .error _ => [lookup]

/-- The result when every question is answered. -/
def evaluate (answers : (lookup : Lookup) → lookup.Answer) : Inquiry α → α
  | .done result => result
  | .ask lookup next => (next (answers lookup)).evaluate answers

@[simp]
theorem pure_eq (result : α) : (pure result : Inquiry α) = .done result := rfl

@[simp]
theorem done_bind (result : α) (next : α → Inquiry β) :
    (Inquiry.done result >>= next) = next result := rfl

@[simp]
theorem ask_bind (lookup : Lookup) (answer : lookup.Answer → Inquiry α) (next : α → Inquiry β) :
    (Inquiry.ask lookup answer >>= next) = .ask lookup fun reply => answer reply >>= next := rfl

theorem bind_done (inquiry : Inquiry α) : (inquiry >>= Inquiry.done) = inquiry := by
  induction inquiry with
  | done => rfl
  | ask lookup next ih => rw [ask_bind]; exact congrArg _ (funext ih)

theorem bind_assoc (inquiry : Inquiry α) (first : α → Inquiry β) (second : β → Inquiry γ) :
    (inquiry >>= first >>= second) = inquiry >>= fun result => first result >>= second := by
  induction inquiry with
  | done => rfl
  | ask lookup next ih => rw [ask_bind, ask_bind, ask_bind]; exact congrArg _ (funext ih)

instance : LawfulMonad Inquiry :=
  LawfulMonad.mk' Inquiry (fun inquiry => bind_done inquiry) (fun _ _ => rfl)
    (fun inquiry first second => bind_assoc inquiry first second)

/-- A sequence runs its first part and, unless that fails, its second. -/
theorem run_bind (resolver : Resolver ε) (inquiry : Inquiry α) (next : α → Inquiry β) :
    (inquiry >>= next).run resolver
      = (inquiry.run resolver).bind fun result => (next result).run resolver := by
  induction inquiry with
  | done => rfl
  | ask lookup answer ih =>
      rw [ask_bind, run, run]
      cases resolver lookup with
      | ok reply => exact ih reply
      | error failure => rfl

/-- A sequence asks what its first part asks and then, unless that fails, what its
second part asks. -/
theorem asked_bind (resolver : Resolver ε) (inquiry : Inquiry α) (next : α → Inquiry β) :
    (inquiry >>= next).asked resolver
      = inquiry.asked resolver ++
          match inquiry.run resolver with
          | .ok result => (next result).asked resolver
          | .error _ => [] := by
  induction inquiry with
  | done => rfl
  | ask lookup answer ih =>
      rw [ask_bind, asked, asked, run]
      cases resolver lookup with
      | ok reply => simp [ih reply]
      | error failure => rfl

theorem evaluate_bind (answers : (lookup : Lookup) → lookup.Answer) (inquiry : Inquiry α)
    (next : α → Inquiry β) :
    (inquiry >>= next).evaluate answers = (next (inquiry.evaluate answers)).evaluate answers := by
  induction inquiry with
  | done => rfl
  | ask lookup answer ih => exact ih (answers lookup)

theorem run_ofAnswers (answers : (lookup : Lookup) → lookup.Answer) (inquiry : Inquiry α) :
    inquiry.run (Resolver.ofAnswers answers : Resolver ε) = .ok (inquiry.evaluate answers) := by
  induction inquiry with
  | done => rfl
  | ask lookup next ih => rw [run, evaluate]; exact ih (answers lookup)

end Inquiry
end ForumMarkup
