import ForumMarkup.Proofs.Text.Solid

/-!
Contract: places of a text, counted in bytes, and what is spelled there.

Owns:
- `Text.behind?`, the text behind a byte that is a character boundary;
- `Text.Spells`, a place where something is written, in letters of any case, and
  `Text.FirstSpelled`, the first such place at or behind another one.

Main statements: `firstSpelled_of_cut?_afterFold?`, a cut that does not look at the case of
letters is at the first place, and `cutAt?_lower`, so is a cut of the copy in lower case.

Places are counted from the start of the whole text.  `behind?_append_add` is what
moves a place of a rest to the text that the rest is part of.
-/

set_option autoImplicit false

namespace ForumMarkup
namespace Text

/-- The text behind a byte, which has to be a character boundary of the text. -/
def behind? : Text → Nat → Option Text
  | t, 0 => some t
  | [], _ + 1 => none
  | c :: rest, offset + 1 =>
      if c.utf8Size ≤ offset + 1 then behind? rest (offset + 1 - c.utf8Size) else none

/-- Whether a byte is a character boundary of the text, its end included. -/
def IsBoundary (t : Text) (offset : Nat) : Prop :=
  (behind? t offset).isSome

instance (t : Text) (offset : Nat) : Decidable (IsBoundary t offset) :=
  inferInstanceAs (Decidable ((behind? t offset).isSome = true))

/-- At a byte of the text stands what spells `needle` up to the case of ASCII
letters. -/
def Spells (needle t : Text) (offset : Nat) : Prop :=
  ∃ written rest, behind? t offset = some (written ++ rest) ∧ lower written = lower needle

/-- The text between two bytes is `content`. -/
def IsSlice (t : Text) (start stop : Nat) (content : Text) : Prop :=
  ∃ rest, behind? t start = some (content ++ rest) ∧ stop = start + byteLength content

/-- The first place at or behind `start` that spells `needle`. -/
structure FirstSpelled (needle t : Text) (start first : Nat) : Prop where
  behind : start ≤ first
  spells : Spells needle t first
  least : ∀ offset, start ≤ offset → Spells needle t offset → first ≤ offset

/-! ### Boundaries -/

theorem behind?_zero (t : Text) : behind? t 0 = some t := by
  cases t <;> rfl

theorem behind?_cons (c : Char) (rest : Text) (offset : Nat) :
    behind? (c :: rest) (c.utf8Size + offset) = behind? rest offset := by
  have size := c.utf8Size_pos
  obtain ⟨place, shape⟩ := Nat.exists_eq_succ_of_ne_zero (n := c.utf8Size + offset) (by omega)
  have left : place + 1 - c.utf8Size = offset := by omega
  rw [shape, behind?, if_pos (by omega), left]

theorem behind?_append_add (front back : Text) (offset : Nat) :
    behind? (front ++ back) (byteLength front + offset) = behind? back offset := by
  induction front with
  | nil => rw [List.nil_append, byteLength, Nat.zero_add]
  | cons c front ih => rw [List.cons_append, byteLength, Nat.add_assoc, behind?_cons, ih]

theorem behind?_append (front back : Text) :
    behind? (front ++ back) (byteLength front) = some back := by
  rw [← Nat.add_zero (byteLength front), behind?_append_add, behind?_zero]

theorem exists_of_behind? {t back : Text} {offset : Nat} (found : behind? t offset = some back) :
    ∃ front, t = front ++ back ∧ byteLength front = offset := by
  fun_induction behind? t offset with
  | case1 t => exact ⟨[], Option.some.inj found, rfl⟩
  | case2 => cases found
  | case3 c rest offset within ih =>
      obtain ⟨front, rfl, size⟩ := ih found
      refine ⟨c :: front, rfl, ?_⟩
      rw [byteLength, size]
      omega
  | case4 => cases found

theorem isBoundary_append (front back : Text) : IsBoundary (front ++ back) (byteLength front) := by
  rw [IsBoundary, behind?_append]
  rfl

theorem behind?_add {t back : Text} {start : Nat} (found : behind? t start = some back)
    (offset : Nat) : behind? t (start + offset) = behind? back offset := by
  obtain ⟨front, rfl, rfl⟩ := exists_of_behind? found
  exact behind?_append_add front back offset

/-! ### Case -/

theorem toLower_toLower (c : Char) : c.toLower.toLower = c.toLower := by
  rcases toLower_eq_or_letter c with same | ⟨low, _⟩
  · rw [same, same]
  · apply dif_neg
    rintro ⟨_, high⟩
    have letter : 97 ≤ c.toLower.val.toNat := low
    have capital : c.toLower.val.toNat ≤ 90 := high
    omega

theorem lower_lower (t : Text) : lower (lower t) = lower t := by
  rw [lower, lower, List.map_map]
  exact List.map_congr_left fun c _ => toLower_toLower c

/-- Lower case changes only characters of one byte, and into such characters. -/
theorem utf8Size_toLower (c : Char) : c.toLower.utf8Size = c.utf8Size := by
  by_cases upper : c.val ≥ 'A'.val ∧ c.val ≤ 'Z'.val
  · rcases toLower_eq_or_letter c with same | ⟨_, high⟩
    · rw [same]
    · have plain : c.val ≤ 127 := UInt32.le_trans upper.2 (by decide)
      have lowered : c.toLower.val ≤ 127 := UInt32.le_trans high (by decide)
      rw [Char.utf8Size_eq_one_iff.2 plain, Char.utf8Size_eq_one_iff.2 lowered]
  · rw [show c.toLower = c from dif_neg upper]

theorem byteLength_lower (t : Text) : byteLength (lower t) = byteLength t := by
  induction t with
  | nil => rfl
  | cons c rest ih =>
      show c.toLower.utf8Size + byteLength (lower rest) = _
      rw [utf8Size_toLower, ih, byteLength]

/-! ### Where something is spelled -/

variable {needle t : Text}

theorem map_toLower_take_of_afterFold? {beginning t rest : Text}
    (found : afterFold? beginning t = some rest) :
    (t.take beginning.length).map Char.toLower = beginning := by
  fun_induction afterFold? beginning t with
  | case1 => rfl
  | case2 => simp at found
  | case3 bs c cs ih => simp [ih found]
  | case4 => simp at found

theorem afterFold?_eq_some_iff {rest : Text} :
    afterFold? needle t = some rest ↔ ∃ written, t = written ++ rest ∧ lower written = needle := by
  constructor
  · intro found
    exact ⟨t.take needle.length, (take_append_of_afterFold? found).symm,
      map_toLower_take_of_afterFold? found⟩
  · rintro ⟨written, rfl, rfl⟩
    induction written with
    | nil => rfl
    | cons c written ih =>
        rw [List.cons_append, lower, List.map_cons, afterFold?, if_pos rfl]
        exact ih

theorem spells_zero_iff (low : lower needle = needle) :
    Spells needle t 0 ↔ ∃ rest, afterFold? needle t = some rest := by
  constructor
  · rintro ⟨written, rest, here, spells⟩
    rw [behind?_zero] at here
    exact ⟨rest, afterFold?_eq_some_iff.2 ⟨written, Option.some.inj here, spells.trans low⟩⟩
  · rintro ⟨rest, found⟩
    obtain ⟨written, rfl, spells⟩ := afterFold?_eq_some_iff.1 found
    exact ⟨written, rest, behind?_zero _, spells.trans low.symm⟩

theorem spells_cons_iff (c : Char) (rest : Text) (offset : Nat) :
    Spells needle (c :: rest) (c.utf8Size + offset) ↔ Spells needle rest offset := by
  simp only [Spells, behind?_cons]

theorem spells_add_iff {back : Text} {start : Nat} (found : behind? t start = some back)
    (offset : Nat) : Spells needle t (start + offset) ↔ Spells needle back offset := by
  simp only [Spells, behind?_add found]

/-- What is not spelled at the start is spelled in the rest. -/
theorem exists_of_spells_cons (low : lower needle = needle) {c : Char} {rest : Text} {offset : Nat}
    (missed : afterFold? needle (c :: rest) = none) (spells : Spells needle (c :: rest) offset) :
    ∃ place, offset = c.utf8Size + place ∧ Spells needle rest place := by
  have later : offset ≠ 0 := by
    rintro rfl
    obtain ⟨_, found⟩ := (spells_zero_iff low).1 spells
    rw [missed] at found
    cases found
  obtain ⟨place, rfl⟩ := Nat.exists_eq_succ_of_ne_zero later
  obtain ⟨written, back, here, same⟩ := spells
  rw [Nat.succ_eq_add_one, behind?] at here
  split at here
  · next within => exact ⟨_, by omega, written, back, here, same⟩
  · cases here

/-- The places at or behind a boundary are the places of the rest. -/
theorem forall_spells_iff {back : Text} {start : Nat} (found : behind? t start = some back) :
    (∀ offset, start ≤ offset → ¬Spells needle t offset)
      ↔ ∀ offset, ¬Spells needle back offset := by
  constructor
  · intro none offset spells
    exact none _ (Nat.le_add_right start offset) ((spells_add_iff found offset).2 spells)
  · intro none offset behind spells
    obtain ⟨more, rfl⟩ := Nat.exists_eq_add_of_le behind
    exact none more ((spells_add_iff found more).1 spells)

theorem FirstSpelled.unique {start first other : Nat} (one : FirstSpelled needle t start first)
    (two : FirstSpelled needle t start other) : first = other :=
  Nat.le_antisymm (one.least other two.behind two.spells) (two.least first one.behind one.spells)

/-- A search in what stands behind a place finds the same places, counted from there. -/
theorem firstSpelled_add_iff {back : Text} {start : Nat} (found : behind? t start = some back)
    (first : Nat) :
    FirstSpelled needle t start (start + first) ↔ FirstSpelled needle back 0 first := by
  constructor
  · intro place
    refine ⟨Nat.zero_le _, (spells_add_iff found first).1 place.spells, fun offset _ spells => ?_⟩
    have later := place.least _ (Nat.le_add_right start offset)
      ((spells_add_iff found offset).2 spells)
    omega
  · intro place
    refine ⟨Nat.le_add_right _ _, (spells_add_iff found first).2 place.spells, ?_⟩
    intro offset behind spells
    obtain ⟨more, rfl⟩ := Nat.exists_eq_add_of_le behind
    have later := place.least more (Nat.zero_le _) ((spells_add_iff found more).1 spells)
    omega

/-- What is spelled in a text is spelled there in every longer text. -/
theorem Spells.append {offset : Nat} (spells : Spells needle t offset) (back : Text) :
    Spells needle (t ++ back) offset := by
  obtain ⟨written, rest, here, low⟩ := spells
  obtain ⟨front, rfl, rfl⟩ := exists_of_behind? here
  refine ⟨written, rest ++ back, ?_, low⟩
  rw [List.append_assoc, behind?_append, List.append_assoc]

theorem Spells.lt_byteLength {offset : Nat} (spells : Spells needle t offset)
    (filled : needle ≠ []) : offset < byteLength t := by
  obtain ⟨written, rest, here, low⟩ := spells
  obtain ⟨front, rfl, rfl⟩ := exists_of_behind? here
  cases written with
  | nil => exact absurd (List.map_eq_nil_iff.1 low.symm) filled
  | cons c written =>
      have size := c.utf8Size_pos
      rw [byteLength_append, List.cons_append, byteLength]
      omega

/-- What stands before the first place does not spell it. -/
theorem FirstSpelled.not_spells {content rest : Text} (filled : needle ≠ [])
    (place : FirstSpelled needle (content ++ rest) 0 (byteLength content)) (offset : Nat) :
    ¬Spells needle content offset := by
  intro spells
  have later := place.least offset (Nat.zero_le _) (spells.append rest)
  exact Nat.not_lt_of_le later (spells.lt_byteLength filled)

/-! ### The cut -/

/-- Where the search finds nothing, nothing is spelled. -/
theorem cut?_afterFold?_eq_none (low : lower needle = needle)
    (missed : cut? (afterFold? needle) t = none) (offset : Nat) : ¬Spells needle t offset := by
  induction t generalizing offset with
  | nil =>
      intro spells
      obtain rfl : offset = 0 := by
        obtain ⟨_, _, here, _⟩ := spells
        cases offset with
        | zero => rfl
        | succ => cases here
      obtain ⟨rest, found⟩ := (spells_zero_iff low).1 spells
      rw [cut?, found] at missed
      cases missed
  | cons c rest ih =>
      rw [cut?] at missed
      split at missed
      · cases missed
      · next here =>
          intro spells
          obtain ⟨place, _, later⟩ := exists_of_spells_cons low here spells
          exact ih (Option.map_eq_none_iff.1 missed) place later

/-- The cut is at the first place that spells the needle. -/
theorem firstSpelled_of_cut?_afterFold? (low : lower needle = needle) {before rest : Text}
    (cut : cut? (afterFold? needle) t = some (before, rest)) :
    FirstSpelled needle t 0 (byteLength before) := by
  induction t generalizing before with
  | nil =>
      obtain ⟨_, found, same⟩ := Option.map_eq_some_iff.1 cut
      cases same
      exact ⟨Nat.le_refl 0, (spells_zero_iff low).2 ⟨_, found⟩, fun _ behind _ => behind⟩
  | cons c later ih =>
      rw [cut?] at cut
      split at cut
      · next found =>
          cases cut
          exact ⟨Nat.le_refl 0, (spells_zero_iff low).2 ⟨_, found⟩, fun _ behind _ => behind⟩
      · next here =>
          obtain ⟨⟨front, _⟩, inner, same⟩ := Option.map_eq_some_iff.1 cut
          cases same
          have place := ih inner
          refine ⟨Nat.zero_le _, (spells_cons_iff c later _).2 place.spells, ?_⟩
          intro offset _ spells
          obtain ⟨more, rfl, inside⟩ := exists_of_spells_cons low here spells
          exact Nat.add_le_add_left (place.least more (Nat.zero_le _) inside) _

theorem cut?_afterFold?_eq_none_iff (low : lower needle = needle) :
    cut? (afterFold? needle) t = none ↔ ∀ offset, ¬Spells needle t offset := by
  refine ⟨cut?_afterFold?_eq_none low, fun none => ?_⟩
  cases cut : cut? (afterFold? needle) t with
  | none => rfl
  | some found => exact absurd (firstSpelled_of_cut?_afterFold? low cut).spells (none _)

/-! ### The copy in lower case -/

theorem after?_lower (needle t : Text) :
    after? needle (lower t) = (afterFold? needle t).map lower := by
  fun_induction afterFold? needle t with
  | case1 => rfl
  | case2 => rfl
  | case3 bs c cs ih => rw [lower, List.map_cons, after?, if_pos rfl, ← ih, lower]
  | case4 b bs c cs other => rw [lower, List.map_cons, after?, if_neg other, Option.map_none]

/-- The copy in lower case is cut where the text is cut. -/
theorem cutAt?_lower (needle t : Text) :
    cutAt? needle (lower t)
      = (cut? (afterFold? needle) t).map fun cut => (lower cut.1, lower cut.2) := by
  unfold cutAt?
  induction t with
  | nil =>
      have here := after?_lower needle []
      rw [lower, List.map_nil] at here
      rw [lower, List.map_nil, cut?, cut?, here, Option.map_map, Option.map_map]
      rfl
  | cons c rest ih =>
      have here := after?_lower needle (c :: rest)
      rw [lower, List.map_cons] at here
      rw [lower, List.map_cons, cut?, cut?, here]
      cases afterFold? needle (c :: rest) with
      | some behind => rfl
      | none =>
          show (cut? (after? needle) (lower rest)).map _ = _
          rw [ih, Option.map_map, Option.map_map]
          rfl

end Text
end ForumMarkup
