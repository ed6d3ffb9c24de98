import ForumMarkup.Lookup

/-!
Contract: inquiries whose questions are known beforehand.

Owns:
- `Resolver.untilFailure`, the questions of a list that are asked when the first
  failure is the end, and `Resolver.failure?`, that failure;
- `Inquiry.Poses`, an inquiry that asks the questions of a list, with one law for each
  way to put an inquiry together.

Main statement: `Poses.bind`, a sequence asks the questions of its parts in order.
-/

set_option autoImplicit false

namespace ForumMarkup

variable {ε : Type}

namespace Resolver

variable (resolver : Resolver ε)

/-- The questions up to the first one that fails, that one included. -/
def untilFailure : List Lookup → List Lookup
  | [] => []
  | lookup :: rest =>
      match resolver lookup with
      | .ok _ => lookup :: untilFailure rest
      | .error _ => [lookup]

/-- The failure of the first question that fails. -/
def failure? : List Lookup → Option ε
  | [] => none
  | lookup :: rest =>
      match resolver lookup with
      | .ok _ => failure? rest
      | .error failure => some failure

theorem failure?_append (front back : List Lookup) :
    resolver.failure? (front ++ back)
      = (resolver.failure? front).or (resolver.failure? back) := by
  induction front with
  | nil => rfl
  | cons lookup rest ih =>
      rw [List.cons_append, failure?, failure?]
      cases resolver lookup with
      | ok answer => exact ih
      | error failure => rfl

theorem untilFailure_append_of_none {front : List Lookup}
    (answered : resolver.failure? front = none) (back : List Lookup) :
    resolver.untilFailure (front ++ back)
      = resolver.untilFailure front ++ resolver.untilFailure back := by
  induction front with
  | nil => rfl
  | cons lookup rest ih =>
      rw [failure?] at answered
      rw [List.cons_append, untilFailure, untilFailure]
      cases found : resolver lookup with
      | ok answer =>
          rw [found] at answered
          exact congrArg _ (ih answered)
      | error failure =>
          rw [found] at answered
          cases answered

/-- Behind a failure nothing is asked. -/
theorem untilFailure_append_of_some {front : List Lookup} {failure : ε}
    (fails : resolver.failure? front = some failure) (back : List Lookup) :
    resolver.untilFailure (front ++ back) = resolver.untilFailure front := by
  induction front with
  | nil => cases fails
  | cons lookup rest ih =>
      rw [failure?] at fails
      rw [List.cons_append, untilFailure, untilFailure]
      cases found : resolver lookup with
      | ok answer =>
          rw [found] at fails
          exact congrArg _ (ih fails)
      | error failure => rfl

end Resolver

namespace Inquiry

variable {α β : Type} {resolver : Resolver ε}

/-- The inquiry asks the questions in order. The first failure ends it; without one it
has a result with the property. -/
structure Poses (resolver : Resolver ε) (lookups : List Lookup) (p : α → Prop)
    (inquiry : Inquiry α) : Prop where
  asked : inquiry.asked resolver = resolver.untilFailure lookups
  fails : ∀ failure, resolver.failure? lookups = some failure →
    inquiry.run resolver = .error failure
  ends : resolver.failure? lookups = none → ∃ result, inquiry.run resolver = .ok result ∧ p result

theorem poses_done {p : α → Prop} {result : α} (holds : p result) :
    (Inquiry.done result).Poses resolver [] p where
  asked := rfl
  fails _ none := nomatch none
  ends _ := ⟨result, rfl, holds⟩

/-- A question asks itself, and its result is the answer of the resolver. -/
theorem poses_question (lookup : Lookup) :
    (question lookup).Poses resolver [lookup] fun answer => resolver lookup = .ok answer := by
  cases found : resolver lookup with
  | ok answer =>
      have asked : (question lookup).asked resolver = [lookup] := by
        rw [question, Inquiry.asked, found]
        rfl
      have ran : (question lookup).run resolver = .ok answer := by
        rw [question, Inquiry.run, found]
        rfl
      have none : resolver.failure? [lookup] = none := by
        rw [Resolver.failure?, found, Resolver.failure?]
      refine ⟨?_, fun failure some => ?_, fun _ => ⟨answer, ran, rfl⟩⟩
      · rw [asked, Resolver.untilFailure, found, Resolver.untilFailure]
      · rw [none] at some
        cases some
  | error failure =>
      have fails : resolver.failure? [lookup] = some failure := by
        rw [Resolver.failure?, found]
      refine ⟨?_, fun other same => ?_, fun none => ?_⟩
      · rw [question, Inquiry.asked, found, Resolver.untilFailure, found]
      · rw [fails, Option.some.injEq] at same
        rw [question, Inquiry.run, found, same]
      · rw [fails] at none
        cases none

theorem Poses.mono {lookups : List Lookup} {p q : α → Prop} {inquiry : Inquiry α}
    (poses : inquiry.Poses resolver lookups p) (weaker : ∀ result, p result → q result) :
    inquiry.Poses resolver lookups q where
  asked := poses.asked
  fails := poses.fails
  ends none := by
    obtain ⟨result, ran, holds⟩ := poses.ends none
    exact ⟨result, ran, weaker result holds⟩

/-- A sequence asks what its first part asks and then what its second part asks, where
what the second part asks may rest on the property of the result of the first. -/
theorem Poses.bind {lookups more : List Lookup} {p : α → Prop} {q : β → Prop}
    {inquiry : Inquiry α} {next : α → Inquiry β} (first : inquiry.Poses resolver lookups p)
    (second : ∀ result, p result → (next result).Poses resolver more q) :
    (inquiry >>= next).Poses resolver (lookups ++ more) q := by
  cases fate : resolver.failure? lookups with
  | some failure =>
      have ran := first.fails failure fate
      have whole : resolver.failure? (lookups ++ more) = some failure := by
        rw [resolver.failure?_append, fate, Option.some_or]
      refine ⟨?_, fun other same => ?_, fun none => ?_⟩
      · rw [asked_bind, ran, first.asked, resolver.untilFailure_append_of_some fate]
        exact List.append_nil _
      · rw [whole, Option.some.injEq] at same
        rw [run_bind, ran, same]
        rfl
      · rw [whole] at none
        cases none
  | none =>
      obtain ⟨result, ran, holds⟩ := first.ends fate
      have later := second result holds
      have whole : resolver.failure? (lookups ++ more) = resolver.failure? more := by
        rw [resolver.failure?_append, fate, Option.none_or]
      have continues : (inquiry >>= next).run resolver = (next result).run resolver := by
        rw [run_bind, ran]
        rfl
      refine ⟨?_, fun failure fails => ?_, fun none => ?_⟩
      · rw [asked_bind, ran, first.asked, resolver.untilFailure_append_of_none fate]
        exact congrArg _ later.asked
      · rw [whole] at fails
        rw [continues, later.fails failure fails]
      · rw [whole] at none
        rw [continues]
        exact later.ends none

/-- What is made of the result asks nothing more. -/
theorem Poses.bind_done {lookups : List Lookup} {p : α → Prop} {q : β → Prop}
    {inquiry : Inquiry α} (first : inquiry.Poses resolver lookups p) {make : α → β}
    (holds : ∀ result, p result → q (make result)) :
    (inquiry >>= fun result => .done (make result)).Poses resolver lookups q := by
  have whole := first.bind (q := q) fun result known => poses_done (holds result known)
  rw [List.append_nil] at whole
  exact whole

/-- The inquiry fails exactly if one of its questions does, and with the first failure. -/
theorem Poses.run_eq_error_iff {lookups : List Lookup} {p : α → Prop} {inquiry : Inquiry α}
    (poses : inquiry.Poses resolver lookups p) (failure : ε) :
    inquiry.run resolver = .error failure ↔ resolver.failure? lookups = some failure := by
  refine ⟨fun ran => ?_, poses.fails failure⟩
  cases fate : resolver.failure? lookups with
  | some first =>
      rw [poses.fails first fate, Except.error.injEq] at ran
      rw [ran]
  | none =>
      obtain ⟨result, other, _⟩ := poses.ends fate
      rw [other] at ran
      cases ran

/-- A result that was reached has the property. -/
theorem Poses.of_run {lookups : List Lookup} {p : α → Prop} {inquiry : Inquiry α}
    (poses : inquiry.Poses resolver lookups p) {result : α}
    (ran : inquiry.run resolver = .ok result) : p result := by
  cases fate : resolver.failure? lookups with
  | some failure =>
      rw [poses.fails failure fate] at ran
      cases ran
  | none =>
      obtain ⟨reached, same, holds⟩ := poses.ends fate
      rw [same] at ran
      cases ran
      exact holds

/-- A sequence that reaches a result has reached one with its first part. -/
theorem exists_of_run_bind {inquiry : Inquiry α} {next : α → Inquiry β} {result : β}
    (ran : (inquiry >>= next).run resolver = .ok result) :
    ∃ middle, inquiry.run resolver = .ok middle ∧ (next middle).run resolver = .ok result := by
  rw [run_bind] at ran
  cases first : inquiry.run resolver with
  | ok middle =>
      rw [first] at ran
      exact ⟨middle, rfl, ran⟩
  | error failure =>
      rw [first] at ran
      cases ran

end Inquiry
end ForumMarkup
