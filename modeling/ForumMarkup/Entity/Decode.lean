import ForumMarkup.Entity.Reference

/-!
Contract: replacing the character references of a text, once, from left to right.

Owns:
- `Entity.reference?`, the reference behind an ampersand;
- `Entity.decode`, the text with every known reference replaced.

Main statements: what a reference leaves to read is shorter, and a text without
ampersands decodes to itself.  An unknown reference stays as it is written, and
what a reference stands for is not read again.
-/

set_option autoImplicit false

namespace ForumMarkup.Entity

def isInside (c : Char) : Bool :=
  c != ';' && c != '&'

/-- The reference at the start of what follows an ampersand: what it stands for,
and the text behind its semicolon. -/
def reference? (t : Text) : Option (Char × Text) :=
  match t.dropWhile isInside with
  | ';' :: rest => (value? (t.takeWhile isInside)).map fun meaning => (meaning, rest)
  | _ => none

theorem reference?_length {t rest : Text} {meaning : Char}
    (found : reference? t = some (meaning, rest)) : rest.length < t.length := by
  unfold reference? at found
  have bound := (List.dropWhile_suffix (l := t) isInside).length_le
  split at found
  · next tail shape =>
      simp only [Option.map_eq_some_iff, Prod.mk.injEq] at found
      obtain ⟨_, _, _, rfl⟩ := found
      simp only [shape, List.length_cons] at bound
      omega
  · simp at found

/-- The text with every known reference replaced by what it stands for. -/
def decode : Text → Text
  | [] => []
  | c :: rest =>
      if c = '&' then
        match found : reference? rest with
        | some (meaning, after) =>
            have : after.length < rest.length := reference?_length found
            meaning :: decode after
        | none => c :: decode rest
      else c :: decode rest
termination_by t => t.length

theorem decode_cons_of_ne {c : Char} (plain : c ≠ '&') (rest : Text) :
    decode (c :: rest) = c :: decode rest := by
  rw [decode, if_neg plain]

theorem decode_eq_self {t : Text} (plain : '&' ∉ t) : decode t = t := by
  induction t with
  | nil => simp [decode]
  | cons c rest ih =>
      simp only [List.mem_cons, not_or] at plain
      rw [decode_cons_of_ne (fun same => plain.1 same.symm), ih plain.2]

end ForumMarkup.Entity
