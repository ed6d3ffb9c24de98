import ForumMarkup.Lookup

/-!
Contract: inquiries that two resolvers lead to the same result.

Owns: `Inquiry.Agrees`, with one law for each way to put an inquiry together.

Main statement: `agrees_ask`.  The second resolver may change an answer, if what is done
with the changed answer is what is done with the answer itself.

Only questions that the first resolver is really asked count: what follows an answer that
it never gives is not looked at.
-/

set_option autoImplicit false

namespace ForumMarkup.Inquiry

variable {α β ε : Type} {admitted : Lookup → Prop} {first second : Resolver ε}

/-- If the first resolver is asked admitted questions only, the second one leads to the
same result. -/
def Agrees (admitted : Lookup → Prop) (first second : Resolver ε) (inquiry : Inquiry α) : Prop :=
  (∀ lookup ∈ inquiry.asked first, admitted lookup) → inquiry.run second = inquiry.run first

theorem agrees_done (result : α) : (Inquiry.done result).Agrees admitted first second :=
  fun _ => rfl

/-- A question may be answered differently as long as what follows takes both answers alike. -/
theorem agrees_ask {lookup : Lookup} {next : lookup.Answer → Inquiry α}
    {change : lookup.Answer → lookup.Answer} (answers : second lookup = (first lookup).map change)
    (alike : admitted lookup → ∀ answer, first lookup = .ok answer →
      next (change answer) = next answer)
    (later : ∀ answer, (next answer).Agrees admitted first second) :
    (Inquiry.ask lookup next).Agrees admitted first second := by
  intro all
  rw [asked] at all
  rw [run, run, answers]
  cases found : first lookup with
  | ok answer =>
      rw [found] at all
      obtain ⟨here, rest⟩ := List.forall_mem_cons.1 all
      show (next (change answer)).run second = (next answer).run first
      rw [alike here answer found]
      exact later answer rest
  | error failure => rfl

/-- A question that both resolvers answer alike. -/
theorem agrees_question {lookup : Lookup} (answers : second lookup = first lookup) :
    (question lookup).Agrees admitted first second := by
  have unchanged : second lookup = (first lookup).map id := by
    rw [answers, Except.map_id, id_eq]
  exact agrees_ask unchanged (fun _ _ _ => rfl) fun answer => agrees_done answer

/-- Agreement carries over to what is done with the result. -/
theorem Agrees.bind {inquiry : Inquiry α} {next : α → Inquiry β}
    (here : inquiry.Agrees admitted first second)
    (later : ∀ result, (next result).Agrees admitted first second) :
    (inquiry >>= next).Agrees admitted first second := by
  intro all
  rw [asked_bind] at all
  obtain ⟨before, behind⟩ := List.forall_mem_append.1 all
  rw [run_bind, run_bind, here before]
  cases ran : inquiry.run first with
  | ok result =>
      rw [ran] at behind
      exact later result behind
  | error failure => rfl

end ForumMarkup.Inquiry
