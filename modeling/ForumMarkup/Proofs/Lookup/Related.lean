import ForumMarkup.Proofs.Lookup.Always

/-!
Contract: two inquiries that ask the same and end alike.

Owns: `Inquiry.Related`, with one law for each way to put inquiries together.

Main statement: `Related.bind_eq`.  Where the related results are treated alike, the two
inquiries are one, so that every resolver is asked the same by both.
-/

set_option autoImplicit false

namespace ForumMarkup.Inquiry

variable {α β γ δ : Type}

/-- The inquiries ask the same questions, and whatever the answers are, their results are
related. -/
inductive Related (r : α → β → Prop) : Inquiry α → Inquiry β → Prop where
  | done {first : α} {second : β} (holds : r first second) : Related r (.done first) (.done second)
  | ask {lookup : Lookup} {first : lookup.Answer → Inquiry α} {second : lookup.Answer → Inquiry β}
      (later : ∀ answer, Related r (first answer) (second answer)) :
      Related r (.ask lookup first) (.ask lookup second)

theorem Related.bind {r : α → β → Prop} {s : γ → δ → Prop} {first : Inquiry α}
    {second : Inquiry β} {next : α → Inquiry γ} {next' : β → Inquiry δ}
    (related : first.Related r second)
    (later : ∀ result other, r result other → (next result).Related s (next' other)) :
    (first >>= next).Related s (second >>= next') := by
  induction related with
  | done holds => exact later _ _ holds
  | ask _ ih => exact .ask ih

/-- An inquiry is followed by related ones. -/
theorem related_bind {s : γ → δ → Prop} (inquiry : Inquiry α) {next : α → Inquiry γ}
    {next' : α → Inquiry δ} (later : ∀ result, (next result).Related s (next' result)) :
    (inquiry >>= next).Related s (inquiry >>= next') := by
  induction inquiry with
  | done result => exact later result
  | ask lookup answer ih => exact .ask ih

/-- The results are related, and the first one has a property that it always has. -/
theorem Related.bind_eq {r : α → β → Prop} {p : α → Prop} {first : Inquiry α}
    {second : Inquiry β} {next : α → Inquiry γ} {next' : β → Inquiry γ}
    (related : first.Related r second) (always : first.Always p)
    (same : ∀ result other, r result other → p result → next result = next' other) :
    (first >>= next) = (second >>= next') := by
  induction related with
  | done holds => exact same _ _ holds always
  | ask _ ih => exact congrArg (Inquiry.ask _) (funext fun answer => ih answer (always answer))

end ForumMarkup.Inquiry
