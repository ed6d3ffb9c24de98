import ForumMarkup.Lookup

/-!
Contract: what holds of the result of an inquiry whatever the answers are.

Owns: `Inquiry.Always`, with one law for each way to put an inquiry together.

Main statements: `always_bind`, and `exists_run`, which carries a property to the
result under a resolver without failures.
-/

set_option autoImplicit false

namespace ForumMarkup.Inquiry

variable {α β ε : Type}

/-- Every result that some answers lead to has the property. -/
def Always (p : α → Prop) : Inquiry α → Prop
  | .done result => p result
  | .ask _ next => ∀ answer, (next answer).Always p

theorem always_question {p : α → Prop} {lookup : Lookup} {next : lookup.Answer → Inquiry α} :
    (question lookup >>= next).Always p ↔ ∀ answer, (next answer).Always p :=
  Iff.rfl

theorem always_bind {p : β → Prop} {inquiry : Inquiry α} {next : α → Inquiry β} :
    (inquiry >>= next).Always p ↔ inquiry.Always fun result => (next result).Always p := by
  induction inquiry with
  | done result => rfl
  | ask lookup answer ih => exact forall_congr' ih

theorem Always.mono {p q : α → Prop} {inquiry : Inquiry α} (always : inquiry.Always p)
    (weaker : ∀ result, p result → q result) : inquiry.Always q := by
  induction inquiry with
  | done result => exact weaker result always
  | ask lookup next ih => exact fun answer => ih answer (always answer)

theorem always_true (inquiry : Inquiry α) : inquiry.Always fun _ => True := by
  induction inquiry with
  | done => trivial
  | ask lookup next ih => exact ih

/-- Under a resolver without failures an inquiry has a result, with every property
that all results have. -/
theorem exists_run {p : α → Prop} {inquiry : Inquiry α} (always : inquiry.Always p)
    {resolver : Resolver ε} (total : ∀ lookup, ∃ answer, resolver lookup = .ok answer) :
    ∃ result, inquiry.run resolver = .ok result ∧ p result := by
  induction inquiry with
  | done result => exact ⟨result, rfl, always⟩
  | ask lookup next ih =>
      obtain ⟨answer, answered⟩ := total lookup
      obtain ⟨result, ran, holds⟩ := ih answer (always answer)
      refine ⟨result, ?_, holds⟩
      rw [run, answered]
      exact ran

theorem Always.evaluate {p : α → Prop} {inquiry : Inquiry α} (always : inquiry.Always p)
    (answers : (lookup : Lookup) → lookup.Answer) : p (inquiry.evaluate answers) := by
  induction inquiry with
  | done result => exact always
  | ask lookup next ih => exact ih _ (always (answers lookup))

/-- A result that was reached under a resolver has the property. -/
theorem Always.of_run {p : α → Prop} {inquiry : Inquiry α} (always : inquiry.Always p)
    {resolver : Resolver ε} {result : α} (ran : inquiry.run resolver = .ok result) : p result := by
  induction inquiry with
  | done reached =>
      cases ran
      exact always
  | ask lookup next ih =>
      rw [run] at ran
      split at ran
      · next answer _ => exact ih answer (always answer) ran
      · cases ran

end ForumMarkup.Inquiry
